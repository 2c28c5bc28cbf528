/-
# Who holds which buffer

A buffer index is in the free list, with an operation of the ring, in a packet on
its way through the shards, or in a message to the loop, and every step moves it
from one of these places to the next.  It is away while a received packet is on
its way, and at home otherwise: it goes out when a receive completes and comes
back when the loop posts the send.
-/

import P2PNetworking.TurnServer.EventLoop
import P2PNetworking.Lib.Turns
import Mathlib.Data.Fintype.Basic

namespace P2PNetworking.TurnServer

open P2PNetworking.Net P2PNetworking.Lib

variable {cfg : Config}

/-! ## On the way through the relay -/

/-- The buffer that a message refers to. -/
def MessageType.buffer : MessageType → Option UInt16
  | .addSession _ => none
  | .transmit packet => some packet.bufIdx

/-- The buffers of the packets in the queue and in hand. -/
def Shard.buffers (shard : Shard) : Multiset UInt16 :=
  (shard.recv.filterMap MessageType.buffer : Multiset UInt16) +
    (shard.handling.toList.map Packet.bufIdx : Multiset UInt16)

namespace Relay

/-- The buffers of the packets that the relay has and has not given back. -/
def inTransit (relay : Relay cfg) : Multiset UInt16 :=
  ∑ shard, (relay.shards shard).buffers +
    (relay.txOut.map fun entry => entry.2.2 : Multiset UInt16)

/-- One shard changes. -/
theorem inTransit_setShard (relay : Relay cfg) (shard : Fin cfg.shardNum) (state : Shard) :
    (relay.setShard shard state).inTransit + (relay.shards shard).buffers =
      relay.inTransit + state.buffers := by
  have hsum := sum_update_add (fun j => (relay.shards j).buffers) shard state.buffers
  have hshards : ∀ j, ((relay.setShard shard state).shards j).buffers =
      Function.update (fun j => (relay.shards j).buffers) shard state.buffers j := by
    intro j
    by_cases hj : j = shard
    · subst hj
      simp
    · simp [shards_setShard_of_ne _ _ hj, hj]
  simp only [inTransit, txOut_setShard, hshards]
  rw [add_right_comm, hsum, add_right_comm]

theorem inTransit_enqueue {relay next : Relay cfg} {shard : Fin cfg.shardNum}
    {msg : MessageType} (h : relay.enqueue shard msg = some next) :
    next.inTransit = relay.inTransit + (msg.buffer.toList : Multiset UInt16) := by
  unfold enqueue at h
  split at h
  · cases h
    have hset := inTransit_setShard relay shard ((relay.shards shard).push msg)
    have hpush : ((relay.shards shard).push msg).buffers =
        (relay.shards shard).buffers + (msg.buffer.toList : Multiset UInt16) := by
      simp only [Shard.buffers, Shard.push, Shard.recv_withQueue, Shard.handling_withQueue,
        List.filterMap_append, ← Multiset.coe_add]
      rw [add_right_comm]
      cases msg <;> rfl
    rw [hpush] at hset
    refine add_right_cancel (b := (relay.shards shard).buffers) (hset.trans ?_)
    abel
  · cases h

/-- A session brings no buffer, queued or not. -/
theorem inTransit_addSession (relay : Relay cfg) (session : Session) :
    (relay.addSession session).inTransit = relay.inTransit := by
  have hqueued : ((relay.enqueue relay.router.next (.addSession session)).getD relay).inTransit =
      relay.inTransit := by
    cases henqueue : relay.enqueue relay.router.next (.addSession session) with
    | none => rfl
    | some next => simpa [MessageType.buffer] using inTransit_enqueue henqueue
  simpa only [addSession, ShardRouter.nextShard, inTransit] using hqueued

/-- A routed packet brings its buffer, a dropped one does not. -/
theorem inTransit_route (relay : Relay cfg) (packet : Packet) :
    relay.inTransit + {packet.bufIdx} = (relay.route packet).1.inTransit +
      match (relay.route packet).2 with
      | some _ => 0
      | none => {packet.bufIdx} := by
  unfold route
  split
  · rfl
  · next idx hlookup =>
    cases henqueue : relay.enqueue idx (.transmit packet) with
    | none => rfl
    | some queued => exact (inTransit_enqueue henqueue).symm.trans (add_zero _).symm

/-- A packet is routed when its source is registered and the queue has room. -/
theorem exists_target (relay : Relay cfg) (packet : Packet) :
    (∃ shard, relay.router.endpointToShard.lookup packet.src = some shard ∧
      relay.HasRoom shard) ↔ (relay.route packet).2.isSome := by
  unfold route enqueue
  cases relay.router.endpointToShard.lookup packet.src with
  | none => simp
  | some idx => by_cases hroom : relay.HasRoom idx <;> simp [hroom]

/-- A packet is sent when the channel has room and the shard knows a session for it. -/
theorem isSome_sends {relay : Relay cfg} {shard : Fin cfg.shardNum} {packet : Packet} :
    (relay.sends shard packet).isSome ↔ relay.CanSend ∧ ∃ session,
      (relay.shards shard).known packet.src = some session ∧
        session.names packet.src = true := by
  unfold sends
  by_cases hroom : relay.CanSend
  · rw [if_pos hroom, Shard.handlePacket_eq_answer, Known.answer]
    cases (relay.shards shard).known packet.src with
    | none => simp [hroom]
    | some session => simp [hroom, ← Session.isSome_routeTo]
  · simp [hroom]

theorem inTransit_dequeue {relay next : Relay cfg} {shard : Fin cfg.shardNum}
    {sessionId : Uuid} (h : relay.dequeue shard sessionId = some next) :
    next.inTransit = relay.inTransit := by
  have hkeep : ∀ state : Shard, state.buffers = (relay.shards shard).buffers →
      (relay.setShard shard state).inTransit = relay.inTransit := by
    intro state hstate
    have hset := inTransit_setShard relay shard state
    rw [hstate] at hset
    exact add_right_cancel hset
  unfold dequeue at h
  split at h
  · next session rest hhandling hrecv =>
    cases h
    apply hkeep
    simp only [Shard.buffers, hhandling, hrecv, Shard.recv_addSession,
      Shard.handling_addSession, Shard.recv_withQueue, Shard.handling_withQueue]
    rfl
  · next packet rest hhandling hrecv =>
    cases h
    apply hkeep
    simp only [Shard.buffers, hhandling, hrecv, Shard.recv_withQueue, Shard.handling_withQueue,
      List.filterMap_cons, MessageType.buffer, Option.toList_some, Option.toList_none,
      List.map_cons, List.map_nil, ← Multiset.cons_coe, Multiset.coe_nil, Multiset.add_cons,
      add_zero]
  · cases h

/-- A message to the loop is about the buffer of its packet. -/
theorem buffer_of_sends {relay : Relay cfg} {shard : Fin cfg.shardNum} {packet : Packet}
    {entry : SqeType} (h : relay.sends shard packet = some entry) :
    entry.2.2 = packet.bufIdx := by
  unfold sends at h
  split at h
  · rw [Shard.handlePacket_eq_answer, Known.answer, Option.bind_eq_some_iff] at h
    obtain ⟨session, -, hroute⟩ := h
    obtain ⟨dst, -, rfl⟩ := Option.map_eq_some_iff.mp hroute
    rfl
  · cases h

/-- A handled packet stays on its way if the shard sends it, and is gone otherwise. -/
theorem inTransit_handle {relay next : Relay cfg} {shard : Fin cfg.shardNum}
    {events : List (RelayEvent cfg)} (h : relay.handle shard = some (next, events)) :
    ∃ packet, (relay.shards shard).handling = some packet ∧
      relay.inTransit = next.inTransit +
        if (relay.sends shard packet).isSome then 0 else {packet.bufIdx} := by
  unfold handle at h
  split at h
  · cases h
  · next packet hhandling =>
    cases h
    refine ⟨packet, hhandling, ?_⟩
    have hset := inTransit_setShard relay shard
      ((relay.shards shard).withQueue (relay.shards shard).recv none)
    have hbuffers : (relay.shards shard).buffers =
        ((relay.shards shard).withQueue (relay.shards shard).recv none).buffers +
          {packet.bufIdx} := by
      simp [Shard.buffers, hhandling]
    have hdone : relay.inTransit = (relay.setShard shard
        ((relay.shards shard).withQueue (relay.shards shard).recv none)).inTransit +
          {packet.bufIdx} := by
      rw [hbuffers] at hset
      refine add_right_cancel (hset.symm.trans ?_)
      abel
    rw [hdone]
    simp only [inTransit, List.map_append, ← Multiset.coe_add, txOut_setShard]
    cases hsent : relay.sends shard packet with
    | none => simp
    | some entry => simp [buffer_of_sends hsent, add_assoc]

theorem inTransit_take (relay : Relay cfg) {dst : SocketAddr} {len : ℕ} {idx : UInt16}
    {rest : List SqeType} (h : relay.txOut = (dst, len, idx) :: rest) :
    relay.inTransit = { relay with txOut := rest }.inTransit + {idx} := by
  simp only [inTransit, h, List.map_cons, ← Multiset.cons_coe, ← Multiset.singleton_add]
  abel

end Relay

/-! ## In the whole server -/

/-- The buffer whose packet a completion announces. -/
def Task.arrived : Task → Option UInt16
  | .arrival idx _ => some idx
  | _ => none

/-- The buffer that a completion sets free. -/
def Task.freed : Task → Option UInt16
  | .sent idx => some idx
  | .notified idx => some idx
  | _ => none

namespace Server

/-- The operations that the server has submitted and the kernel has not finished. -/
def submitted (server : Server cfg) : List Sqe := server.sq.entries ++ server.operations

/-- What the completions are about that the loop has not taken. -/
def completed (server : Server cfg) : List Task := server.cq.entries.map Cqe.task

/-- A task about a buffer that has gone out or is set free is a completion. -/
theorem mem_completed_of_task {server : Server cfg} {task : Task} (htask : server.task = task)
    (hbuffer : task.arrived.isSome ∨ task.freed.isSome) : task ∈ server.completed := by
  have hrest : ¬ (Task.rest.arrived.isSome ∨ Task.rest.freed.isSome) := by decide
  unfold Server.task at htask
  split at htask
  · split at htask
    · subst htask
      simp [Task.arrived, Task.freed] at hbuffer
    · exact absurd (htask ▸ hbuffer) hrest
  · split at htask
    · subst htask
      simp [Task.arrived, Task.freed] at hbuffer
    · exact absurd (htask ▸ hbuffer) hrest
  · split at htask
    · next cqe cq hnext =>
      rw [completed, CompletionRing.entries_next hnext, List.map_cons, htask]
      exact List.mem_cons_self
    · exact absurd (htask ▸ hbuffer) hrest
  · exact absurd (htask ▸ hbuffer) hrest

/-- The buffers at home: free, with a receive or a send of the ring, or sent. -/
def home (server : Server cfg) : Multiset UInt16 :=
  (server.pool.freeList : Multiset UInt16) +
    (server.submitted.map Sqe.bufIdx : Multiset UInt16) +
    (server.completed.filterMap Task.freed : Multiset UInt16)

/-- The buffers away: with a received packet that has not been posted to send. -/
def away (server : Server cfg) : Multiset UInt16 :=
  (server.completed.filterMap Task.arrived : Multiset UInt16) + server.relay.inTransit

/-- All holders of buffers. -/
def held (server : Server cfg) : Multiset UInt16 := server.home + server.away

/-- The step passes its buffer on: the submission queue has room for the entry, the
source is registered and its shard's queue has room for the packet, or the shard knows
a session that names the source and the channel to the loop has room. -/
def KeepsBuffer (server : Server cfg) : ServerAction cfg → Prop
  | .loop _ _ =>
      match server.task with
      | .postSend _ _ _ => server.sq.HasRoom cfg.ringEntries
      | .arrival idx _ => ∃ shard, server.relay.router.endpointToShard.lookup
          (server.pool.getPeerAddr idx) = some shard ∧ server.relay.HasRoom shard
      | .sent _ => server.sq.HasRoom cfg.ringEntries
      | .notified _ => server.sq.HasRoom cfg.ringEntries
      | _ => True
  | .handle shard => ∀ packet, (server.relay.shards shard).handling = some packet →
      server.relay.CanSend ∧ ∃ session,
        (server.relay.shards shard).known packet.src = some session ∧
          session.names packet.src = true
  | _ => True

/-- The buffer that the step takes in hand and does not pass on. -/
def dropped (server : Server cfg) : ServerAction cfg → Multiset UInt16
  | .loop _ _ =>
      match server.task with
      | .postSend _ _ idx => if server.sq.HasRoom cfg.ringEntries then 0 else {idx}
      | .arrival idx len =>
          match (server.relay.route ⟨idx, len, server.pool.getPeerAddr idx⟩).2 with
          | some _ => 0
          | none => {idx}
      | .sent idx => if server.sq.HasRoom cfg.ringEntries then 0 else {idx}
      | .notified idx => if server.sq.HasRoom cfg.ringEntries then 0 else {idx}
      | _ => 0
  | .handle shard =>
      match (server.relay.shards shard).handling with
      | some packet => if (server.relay.sends shard packet).isSome then 0 else {packet.bufIdx}
      | none => 0
  | _ => 0

/-- A step that keeps its buffer drops none. -/
theorem dropped_eq_zero {server : Server cfg} {action : ServerAction cfg} :
    server.dropped action = 0 ↔ server.KeepsBuffer action := by
  cases action with
  | loop first second =>
      have hroom : ∀ idx : UInt16,
          (if server.sq.HasRoom cfg.ringEntries then 0 else ({idx} : Multiset UInt16)) = 0 ↔
            server.sq.HasRoom cfg.ringEntries := by
        simp
      cases htask : server.task with
      | postSend dst len idx => simpa only [dropped, KeepsBuffer, htask] using hroom idx
      | sent idx => simpa only [dropped, KeepsBuffer, htask] using hroom idx
      | notified idx => simpa only [dropped, KeepsBuffer, htask] using hroom idx
      | arrival idx len =>
          have htarget := Relay.exists_target server.relay
            ⟨idx, len, server.pool.getPeerAddr idx⟩
          simp only [dropped, KeepsBuffer, htask]
          rw [htarget]
          cases (server.relay.route ⟨idx, len, server.pool.getPeerAddr idx⟩).2 <;> simp
      | addSession session => simp [dropped, KeepsBuffer, htask]
      | rest => simp [dropped, KeepsBuffer, htask]
  | handle shard =>
      simp only [dropped, KeepsBuffer]
      cases hhandling : (server.relay.shards shard).handling with
      | none => simp
      | some packet =>
          simp only [Option.some.injEq, forall_eq', ← Relay.isSome_sends]
          cases (server.relay.sends shard packet).isSome <;> simp
  | _ => simp [dropped, KeepsBuffer]

end Server

/-- Which buffers went out and came back. -/
def turns (trace : List (ServerEvent cfg)) : List (UInt16 × Turn) :=
  trace.filterMap fun
    | .received idx _ => some (idx, .out)
    | .receiveFailed idx => some (idx, .out)
    | .postedSend idx _ _ => some (idx, .back)
    | _ => none

@[simp]
theorem turns_append (first second : List (ServerEvent cfg)) :
    turns (first ++ second) = turns first ++ turns second :=
  List.filterMap_append

/-- A buffer goes out with a packet or with a failed receive. -/
theorem mem_turns_out {trace : List (ServerEvent cfg)} {idx : UInt16} :
    (idx, Turn.out) ∈ turns trace ↔
      (∃ bytes, .received idx bytes ∈ trace) ∨ .receiveFailed idx ∈ trace := by
  simp only [turns, List.mem_filterMap]
  constructor
  · rintro ⟨event, hmem, hevent⟩
    split at hevent
    · next bytes =>
      cases hevent
      exact .inl ⟨bytes, hmem⟩
    · cases hevent
      exact .inr hmem
    · cases hevent
    · cases hevent
  · rintro (⟨bytes, hmem⟩ | hmem)
    · exact ⟨_, hmem, rfl⟩
    · exact ⟨_, hmem, rfl⟩

/-- A buffer comes back with a posted send. -/
theorem mem_turns_back {trace : List (ServerEvent cfg)} {idx : UInt16} :
    (idx, Turn.back) ∈ turns trace ↔ ∃ pushed bytes, .postedSend idx pushed bytes ∈ trace := by
  simp only [turns, List.mem_filterMap]
  constructor
  · rintro ⟨event, hmem, hevent⟩
    split at hevent
    · cases hevent
    · cases hevent
    · next pushed bytes =>
      cases hevent
      exact ⟨pushed, bytes, hmem⟩
    · cases hevent
  · rintro ⟨pushed, bytes, hmem⟩
    exact ⟨_, hmem, rfl⟩

namespace Server

variable {server next : Server cfg}

/-- An operation in progress is one of the operations. -/
theorem operations_eraseIdx {opcode : Opcode} {position : ℕ} {sqe : Sqe}
    (hop : server.operation opcode position = some sqe) :
    (server.operations.map Sqe.bufIdx : Multiset UInt16) =
      ((server.operations.eraseIdx position).map Sqe.bufIdx : Multiset UInt16) +
        {sqe.bufIdx} := by
  obtain ⟨hsome, -⟩ := Option.filter_eq_some_iff.mp hop
  obtain ⟨hlt, rfl⟩ := List.getElem?_eq_some_iff.mp hsome
  have hperm := (List.getElem_cons_eraseIdx_perm hlt).map Sqe.bufIdx
  rw [← Multiset.coe_eq_coe.mpr hperm, List.map_cons, ← Multiset.cons_coe,
    ← Multiset.singleton_add, add_comm]

theorem opcode_of_operation {opcode : Opcode} {position : ℕ} {sqe : Sqe}
    (hop : server.operation opcode position = some sqe) : sqe.opcode = opcode := by
  obtain ⟨-, hopcode⟩ := Option.filter_eq_some_iff.mp hop
  simpa using hopcode

/-- Posting an operation brings its buffer home if the queue has room. -/
theorem home_push (server next : Server cfg) (opcode : Opcode) (idx : UInt16)
    (hfree : next.pool.freeList = server.pool.freeList)
    (hsq : next.sq = (server.sq.push cfg.ringEntries (opcode.build idx)).getD server.sq)
    (hoperations : next.operations = server.operations) (hcq : next.cq = server.cq) :
    next.home + (if server.sq.HasRoom cfg.ringEntries then 0 else {idx}) =
      server.home + {idx} := by
  simp only [home, submitted, completed, hfree, hsq, hoperations, hcq,
    SubmissionRing.entries_push]
  split
  · simp only [List.map_append, List.map_cons, List.map_nil, Opcode.bufIdx_build,
      ← Multiset.coe_add, Multiset.coe_singleton]
    abel
  · simp

/-- A completion taken by the loop leaves the server with its buffer. -/
theorem home_next {cqe : Cqe} {cq : CompletionRing Cqe}
    (hnext : server.cq.next = some (cqe, cq)) :
    server.home = { server with cq := cq }.home + (cqe.task.freed.toList : Multiset UInt16) := by
  simp only [home, submitted, completed, CompletionRing.entries_next hnext, List.map_cons,
    List.filterMap_cons]
  cases cqe.task.freed with
  | none => simp
  | some idx =>
      simp only [← Multiset.cons_coe, ← Multiset.singleton_add, Option.toList_some]
      abel

theorem away_next {cqe : Cqe} {cq : CompletionRing Cqe}
    (hnext : server.cq.next = some (cqe, cq)) :
    server.away = { server with cq := cq }.away + (cqe.task.arrived.toList : Multiset UInt16) := by
  simp only [away, completed, CompletionRing.entries_next hnext, List.map_cons,
    List.filterMap_cons]
  cases cqe.task.arrived with
  | none => simp
  | some idx =>
      simp only [← Multiset.cons_coe, ← Multiset.singleton_add, Option.toList_some]
      abel

theorem completed_post (server : Server cfg) (sqe : Sqe) (result : ℤ) (flags : UInt32) :
    (server.post sqe result flags).completed =
      server.completed ++ [(Cqe.mk sqe.userData result flags).task] := by
  simp [post, completed]

/-- A finished operation leaves its buffer to its completion. -/
theorem home_finish {opcode : Opcode} {position : ℕ} {sqe : Sqe}
    (hop : server.operation opcode position = some sqe) (result : ℤ) (flags : UInt32) :
    (server.finish position sqe result flags).home + {sqe.bufIdx} =
      server.home + ((Cqe.mk sqe.userData result flags).task.freed.toList : Multiset UInt16) := by
  have hoperations := operations_eraseIdx hop
  have hcompleted := completed_post
    { server with operations := server.operations.eraseIdx position } sqe result flags
  simp only [finish, home, hcompleted, submitted, List.map_append, List.filterMap_append,
    ← Multiset.coe_add, hoperations]
  simp only [post, completed, List.filterMap_cons, List.filterMap_nil]
  cases (Cqe.mk sqe.userData result flags).task.freed with
  | none =>
      simp only [Multiset.coe_nil, Option.toList_none]
      abel
  | some idx =>
      simp only [Multiset.coe_singleton, Option.toList_some]
      abel

theorem away_post (server : Server cfg) (sqe : Sqe) (result : ℤ) (flags : UInt32) :
    (server.post sqe result flags).away =
      server.away + ((Cqe.mk sqe.userData result flags).task.arrived.toList : Multiset UInt16) := by
  simp only [away, completed_post, List.filterMap_append, ← Multiset.coe_add,
    List.filterMap_cons, List.filterMap_nil]
  cases (Cqe.mk sqe.userData result flags).task.arrived with
  | none =>
      simp only [Multiset.coe_nil, Option.toList_none]
      abel
  | some idx =>
      simp only [Multiset.coe_singleton, Option.toList_some]
      abel

/-- A finished receive sends its buffer out. -/
theorem moved_finish_recv {position : ℕ} {sqe : Sqe} {pool : BufferPool}
    (hop : server.operation .recvMsg position = some sqe)
    (hfree : pool.freeList = server.pool.freeList) (result : ℤ) (flags : UInt32) :
    Moved server.home server.away
      ({ server with pool := pool }.finish position sqe result flags).home
      ({ server with pool := pool }.finish position sqe result flags).away
      [(sqe.bufIdx, .out)] 0 := by
  have hop' : { server with pool := pool }.operation .recvMsg position = some sqe := hop
  have htask := Cqe.task_mk sqe result flags
  rw [opcode_of_operation hop] at htask
  have hhome := home_finish hop' result flags
  have haway := away_post
    { server with pool := pool, operations := server.operations.eraseIdx position } sqe result flags
  rw [htask] at hhome haway
  have hsame : { server with pool := pool }.home = server.home := by
    simp only [home, submitted, completed, hfree]
  refine .wentOut ?_ haway
  rw [← hsame, hhome]
  exact (add_zero _).symm

/-- A buffer that a completion has freed goes to a new receive, or is lost. -/
theorem moved_repost {cqe : Cqe} {cq : CompletionRing Cqe} {idx : UInt16}
    (hnext : server.cq.next = some (cqe, cq)) (hfreed : cqe.task.freed = some idx)
    (harrived : cqe.task.arrived = none) (hfree : next.pool.freeList = server.pool.freeList)
    (hsq : next.sq = (server.sq.push cfg.ringEntries (Opcode.recvMsg.build idx)).getD server.sq)
    (hoperations : next.operations = server.operations) (hcq : next.cq = cq)
    (hrelay : next.relay = server.relay) :
    Moved server.home server.away next.home next.away []
      (if server.sq.HasRoom cfg.ringEntries then 0 else {idx}) := by
  have hhome := home_next hnext
  have haway := away_next hnext
  have hpush := home_push { server with cq := cq } next .recvMsg idx hfree hsq hoperations hcq
  rw [hfreed] at hhome
  rw [harrived] at haway
  refine .lostHome (hhome.trans hpush.symm) ?_
  rw [haway, away, away, completed, completed, hcq, hrelay]
  exact (add_zero _).symm

/-- Every kind of step moves buffers as the books say. -/
theorem Transition.moved {action : ServerAction cfg} {events : List (ServerEvent cfg)}
    (h : server.Transition action next events) :
    Moved server.home server.away next.home next.away (turns events)
      (server.dropped action) := by
  cases h with
  | request => exact .rest rfl rfl
  | rest htask hpool hsq hoperations hcq hrelay =>
      have hdropped : ∀ first second, server.dropped (.loop first second) = 0 := by
        intro first second
        simp only [dropped, htask]
      have hfilter : ∀ f : Task → Option UInt16, f .rest = none →
          next.completed.filterMap f = server.completed.filterMap f := by
        intro f hf
        rcases hcq with hsame | hpopped
        · rw [completed, completed, hsame]
        · rw [completed, completed, hpopped, List.filterMap_cons, hf]
      rw [hdropped]
      refine .rest ?_ ?_
      · rw [home, home, submitted, submitted, hpool, hsq, hoperations, hfilter _ rfl]
      · rw [away, away, hrelay, hfilter _ rfl]
  | addSession htask =>
      rw [show server.dropped _ = 0 by simp only [dropped, htask]]
      refine .rest rfl ?_
      simp only [away, completed, Relay.inTransit_addSession]
  | @postSend first second pushed dst len idx rest htask htxOut =>
      simp only [dropped, htask]
      refine .cameBack ?_ ?_
      · simp only [takeSend, htxOut, away, completed, Relay.inTransit_take _ htxOut]
        rw [add_assoc]
      · apply (home_push server _ .sendMsgZc idx _ _ _ _).symm <;>
          simp only [takeSend, htxOut] <;> rfl
  | @arrival first second idx len cqe cq htask hnext hcqe =>
      have hroute := server.relay.inTransit_route ⟨idx, len, server.pool.getPeerAddr idx⟩
      have hhome := home_next hnext
      have haway := away_next hnext
      rw [hcqe] at hhome haway
      simp only [dropped, htask]
      refine .lostAway (hhome.trans (add_zero _)).symm ?_
      rw [haway]
      simp only [away, Task.arrived, Option.toList_some, Multiset.coe_singleton, add_assoc]
      rw [hroute]
      rfl
  | @sent first second idx cqe cq htask hnext hcqe =>
      simp only [dropped, htask]
      exact moved_repost hnext (hcqe ▸ rfl) (hcqe ▸ rfl) rfl rfl rfl rfl rfl
  | @notified first second idx cqe cq htask hnext hcqe =>
      simp only [dropped, htask]
      exact moved_repost hnext (hcqe ▸ rfl) (hcqe ▸ rfl) rfl rfl rfl rfl rfl
  | dequeue hstep =>
      refine .rest rfl ?_
      simp only [away, completed, Relay.inTransit_dequeue hstep]
  | handle hstep =>
      obtain ⟨packet, hhandling, htransit⟩ := Relay.inTransit_handle hstep
      have hturns : ∀ relayEvents : List (RelayEvent cfg),
          turns (relayEvents.map ServerEvent.relay) = [] := by
        simp [turns, List.filterMap_map]
      rw [hturns]
      simp only [dropped, hhandling]
      refine .lostAway rfl ?_
      rw [away, htransit, ← add_assoc]
      rfl
  | submit htake =>
      refine .rest ?_ rfl
      simp only [home, submitted, completed, SubmissionRing.entries_take htake,
        List.map_append, List.map_cons, List.map_nil, List.cons_append, ← Multiset.coe_add,
        ← Multiset.cons_coe, ← Multiset.singleton_add, Multiset.coe_nil]
      abel
  | receive hop hfill =>
      obtain ⟨slot, -, -, rfl⟩ := BufferPool.fill_eq_some hfill
      exact moved_finish_recv hop rfl _ _
  | failReceive hop => exact moved_finish_recv hop rfl _ _
  | @progressSend position result flags sqe hop hmore =>
      have htask := Cqe.task_mk sqe result flags
      rw [opcode_of_operation hop, hmore] at htask
      have haway := away_post server sqe result flags
      rw [htask] at haway
      refine .rest ?_ (haway.trans (add_zero _))
      simp only [home, completed_post, htask, List.filterMap_append]
      exact congrArg _ (congrArg _ (List.append_nil _))
  | @finishSend position result flags sqe hop hmore =>
      have htask := Cqe.task_mk sqe result flags
      rw [opcode_of_operation hop, hmore] at htask
      have hhome := home_finish hop result flags
      have haway := away_post { server with operations := server.operations.eraseIdx position }
        sqe result flags
      rw [htask] at hhome haway
      exact .rest (add_right_cancel hhome) (haway.trans (add_zero _))

/-- At the start every buffer is at home, with a submitted receive. -/
theorem home_started (cfg : Config) :
    (started cfg).home = (indicesBelow cfg.poolSize : Multiset UInt16) := by
  have hmap : ∀ indices : List UInt16,
      (indices.map Opcode.recvMsg.build).map Sqe.bufIdx = indices := by
    intro indices
    simp [Function.comp_def]
  simp only [home, started, submitted, completed, SubmissionRing.entries,
    CompletionRing.entries_empty, List.append_nil, List.map_nil, List.filterMap_nil, hmap]
  simp [BufferPool.default]

theorem away_started (cfg : Config) : (started cfg).away = 0 := by
  simp [away, started, completed, Relay.inTransit, Relay.new, Shard.new, Shard.buffers]

end Server

/-! ## The books of the server -/

/-- Buffers go out with received packets and come back with posted sends. -/
def bufferTrips (cfg : Config) : RoundTrips (serverMachine cfg) UInt16 where
  home c := c.1.home
  away c := c.1.away
  turns c := turns c.2
  spent c action := c.1.dropped action
  away_init := by
    rw [serverMachine_init]
    exact Server.away_started cfg
  turns_init := rfl
  moved := by
    intro c action d _ hstep
    obtain ⟨next, events, hnext, rfl⟩ := Machine.traced_step.mp hstep
    exact ⟨_, turns_append _ _, (Server.transition_of_step hnext).moved⟩

theorem home_init (cfg : Config) : (bufferTrips cfg).home (serverMachine cfg).init =
    (indicesBelow cfg.poolSize : Multiset UInt16) := by
  rw [serverMachine_init]
  exact Server.home_started cfg

theorem nodup_home_init (cfg : Config) :
    ((bufferTrips cfg).home (serverMachine cfg).init).Nodup := by
  rw [home_init]
  exact Multiset.coe_nodup.mpr (nodup_indicesBelow cfg.poolSize_le)

theorem alternates_turns {c : Server cfg × List (ServerEvent cfg)}
    (hc : (serverMachine cfg).Reachable c) : Alternates (turns c.2) :=
  ((bufferTrips cfg).inTurn (nodup_home_init cfg) hc).alternates

/-- The ledger of the buffers starts with each buffer once. -/
theorem held_init (cfg : Config) : (bufferTrips cfg).ledger.held (serverMachine cfg).init =
    (indicesBelow cfg.poolSize : Multiset UInt16) := by
  rw [RoundTrips.held_ledger, home_init, (bufferTrips cfg).away_init, add_zero]

theorem nodup_held_init (cfg : Config) :
    ((bufferTrips cfg).ledger.held (serverMachine cfg).init).Nodup := by
  rw [held_init]
  exact Multiset.coe_nodup.mpr (nodup_indicesBelow cfg.poolSize_le)

/-- There are never more buffers than at the start. -/
theorem card_held_le {c : Server cfg × List (ServerEvent cfg)}
    (hc : (serverMachine cfg).Reachable c) : Multiset.card c.1.held ≤ cfg.poolSize := by
  have hle := Multiset.card_le_card ((bufferTrips cfg).ledger.held_le_init hc)
  rwa [held_init, Multiset.coe_card, length_indicesBelow] at hle

theorem nodup_held {c : Server cfg × List (ServerEvent cfg)}
    (hc : (serverMachine cfg).Reachable c) : c.1.held.Nodup :=
  (bufferTrips cfg).ledger.nodup_held (nodup_held_init cfg) hc

/-- What is held is an index of the pool. -/
theorem toNat_lt_of_mem_held {c : Server cfg × List (ServerEvent cfg)}
    (hc : (serverMachine cfg).Reachable c) {idx : UInt16} (hidx : idx ∈ c.1.held) :
    idx.toNat < cfg.poolSize := by
  have hmem := Multiset.mem_of_le ((bufferTrips cfg).ledger.held_le_init hc) hidx
  rw [held_init] at hmem
  exact (mem_indicesBelow cfg.poolSize_le).mp (Multiset.mem_coe.mp hmem)

/-! ## No buffer is lost -/

/-- After any schedule every buffer is still held exactly when each step of the
schedule has passed its buffer on. -/
theorem buffers_held_iff_along {actions : List (ServerAction cfg)}
    {c : Server cfg × List (ServerEvent cfg)}
    (hexec : (serverMachine cfg).exec (serverMachine cfg).init actions = some c) :
    (∀ idx : UInt16, idx.toNat < cfg.poolSize → idx ∈ c.1.held) ↔
      (serverMachine cfg).Along (fun d action => d.1.KeepsBuffer action)
        (serverMachine cfg).init actions := by
  have hkeeps : (bufferTrips cfg).ledger.KeepsAll =
      fun d action => d.1.KeepsBuffer action := by
    funext d action
    exact propext Server.dropped_eq_zero
  have hledger := (bufferTrips cfg).ledger.forall_mem_held_iff_along (nodup_held_init cfg) hexec
  rw [hkeeps] at hledger
  rw [← hledger, held_init]
  simp only [Multiset.mem_coe, mem_indicesBelow cfg.poolSize_le]
  rfl

/-- A session, and one packet of its host up to the posted send. -/
def relayOnce : List (ServerAction .main) :=
  [.request (.addSession ⟨.v4 1 1, .v4 2 2⟩), .submit, .receive 0 (.v4 1 1) [7, 7, 7] 0,
    .loop 0 0, .loop 0 0, .loop 0 0, .loop 0 0, .loop 0 0, .loop 3 4,
    .dequeue Config.main.firstShard (.replicate 16 1),
    .dequeue Config.main.firstShard (.replicate 16 1), .handle Config.main.firstShard,
    .loop 0 0, .loop 0 0, .loop 5 6]

/-- What the relay does in that run. -/
def relayOnceRouting : List (ServerEvent .main) :=
  [.relay (.added ⟨.v4 1 1, .v4 2 2⟩),
    .relay (.routed ⟨1023, 3, .v4 1 1⟩ (some Config.main.firstShard)),
    .relay (.handled Config.main.firstShard ⟨1023, 3, .v4 1 1⟩ (some (.v4 2 2, 3, 1023)))]

/-- The datagram that is posted. -/
def relayOnceDatagram : List UInt8 := [7, 7, 7] ++ List.replicate 1497 0

def relayOnceTrace : List (ServerEvent .main) :=
  [] ++ .received 1023 [7, 7, 7] :: relayOnceRouting ++
    .postedSend 1023 true relayOnceDatagram :: []

theorem exec_relayOnce :
    ∃ server, (serverMachine .main).exec (serverMachine .main).init relayOnce =
      some (server, relayOnceTrace) := by
  rw [serverMachine_init]
  have hrun : ((serverMachine .main).exec (.started .main, []) relayOnce).map Prod.snd =
      some relayOnceTrace := by decide +kernel
  obtain ⟨c, hexec, htrace⟩ := Option.map_eq_some_iff.mp hrun
  exact ⟨c.1, by rw [hexec, ← htrace]⟩

theorem buffers_held_iff_along_relayOnce :
    ∃ c, (serverMachine .main).exec (serverMachine .main).init relayOnce = some c ∧
      ((∀ idx : UInt16, idx.toNat < Config.main.poolSize → idx ∈ c.1.held) ↔
        (serverMachine .main).Along (fun d action => d.1.KeepsBuffer action)
          (serverMachine .main).init relayOnce) := by
  obtain ⟨server, hexec⟩ := exec_relayOnce
  exact ⟨_, hexec, buffers_held_iff_along hexec⟩

/-- The kernel receives one byte from an address that no session names, and the loop
takes the completion. -/
def strangerPacket : List (ServerAction .main) :=
  [.submit, .receive 0 (.v4 9 9) [1] 0, .loop 0 0, .loop 0 0, .loop 0 0, .loop 0 0,
    .loop 0 0]

/-- The buffer of a packet from an unknown source is lost. -/
theorem stranger_takes_buffer :
    ∃ c, (serverMachine .main).exec (serverMachine .main).init strangerPacket = some c ∧
      1023 ∉ c.1.held := by
  rw [serverMachine_init]
  exact ⟨((serverMachine .main).exec (.started .main, []) strangerPacket).get
    (by decide +kernel), (Option.some_get _).symm, by decide +kernel⟩

end P2PNetworking.TurnServer
