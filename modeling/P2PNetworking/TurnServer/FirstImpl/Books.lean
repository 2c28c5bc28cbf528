/-
# Where the buffers of the first implementation are

Every buffer of the pool is in the free list, with an operation of the ring, in a completion
that the loop has not dealt with, with a shard, or in a message to the loop, or it has been
lost; and never in two of these places.  The trace says which buffers have been lost: those
whose packet a shard had no session for, and those for which the submission queue had no
room.
-/

import P2PNetworking.TurnServer.FirstImpl.EventLoop
import P2PNetworking.TurnServer.Ownership

namespace P2PNetworking.TurnServer.FirstImpl

open P2PNetworking.Net P2PNetworking.Lib

/-! ## Places -/

/-- The buffers of the packets in the channel and in hand. -/
def Worker.buffers (worker : Worker) : Multiset UInt16 :=
  (worker.recv.map Packet.bufIdx : Multiset UInt16) +
    (worker.handling.toList.map Packet.bufIdx : Multiset UInt16)

/-- The buffer that a completion is about. -/
def taskBuffer (task : Task) : Option UInt16 := task.arrived <|> task.freed

/-- The buffer that an event is the end of. -/
def ServerEvent.lost : ServerEvent → Option UInt16
  | .handled packet none => some packet.bufIdx
  | .postedRecv idx false => some idx
  | .postedSend entry false => some entry.2.2
  | _ => none

/-- The buffers that have been lost. -/
def lost (trace : List ServerEvent) : List UInt16 := trace.filterMap ServerEvent.lost

@[simp]
theorem lost_append (first second : List ServerEvent) :
    lost (first ++ second) = lost first ++ lost second := List.filterMap_append

/-- An operation in progress is one of the operations. -/
theorem IoRing.operations_eraseIdx {io : IoRing} {opcode : Opcode} {position : ℕ} {sqe : Sqe}
    (hop : io.operation opcode position = some sqe) :
    (io.operations.map Sqe.bufIdx : Multiset UInt16) =
      ((io.operations.eraseIdx position).map Sqe.bufIdx : Multiset UInt16) + {sqe.bufIdx} := by
  obtain ⟨hsome, -⟩ := Option.filter_eq_some_iff.mp hop
  obtain ⟨hlt, rfl⟩ := List.getElem?_eq_some_iff.mp hsome
  have hperm := (List.getElem_cons_eraseIdx_perm hlt).map Sqe.bufIdx
  rw [← Multiset.coe_eq_coe.mpr hperm, List.map_cons, ← Multiset.cons_coe,
    ← Multiset.singleton_add, add_comm]

theorem IoRing.opcode_of_operation {io : IoRing} {opcode : Opcode} {position : ℕ} {sqe : Sqe}
    (hop : io.operation opcode position = some sqe) : sqe.opcode = opcode := by
  obtain ⟨-, hopcode⟩ := Option.filter_eq_some_iff.mp hop
  simpa using hopcode

namespace Server

variable {cfg : Config}

/-- The operations that have been submitted and the kernel has not finished. -/
def submitted (server : Server cfg) : List Sqe := server.io.sq.entries ++ server.io.operations

/-- What the completions are about that the loop has not dealt with. -/
def completed (server : Server cfg) : List Task :=
  (server.point.inHand ++ server.io.cq.entries).map Cqe.task

/-- The buffers of the packets that shards have, and of the messages to the loop. -/
def inTransit (server : Server cfg) : Multiset UInt16 :=
  ∑ shard, (server.workers shard).buffers +
    (server.txOut.map fun entry => entry.2.2 : Multiset UInt16)

/-- The buffers of the ring: free, with an operation, or with a completion. -/
def inRing (server : Server cfg) : Multiset UInt16 :=
  (server.io.pool.freeList : Multiset UInt16) +
    (server.submitted.map Sqe.bufIdx : Multiset UInt16) +
    (server.completed.filterMap taskBuffer : Multiset UInt16)

/-- All buffers that have not been lost. -/
def held (server : Server cfg) : Multiset UInt16 := server.inRing + server.inTransit

/-! ## Moves -/

/-- One thread changes. -/
theorem inTransit_setWorker (server : Server cfg) (shard : Fin cfg.numShards) (worker : Worker) :
    (server.setWorker shard worker).inTransit + (server.workers shard).buffers =
      server.inTransit + worker.buffers := by
  have hsum := sum_update_add (fun j => (server.workers j).buffers) shard worker.buffers
  have hworkers : ∀ j, ((server.setWorker shard worker).workers j).buffers =
      Function.update (fun j => (server.workers j).buffers) shard worker.buffers j := by
    intro j
    by_cases hj : j = shard
    · subst hj
      simp [setWorker]
    · simp [setWorker, hj]
  simp only [inTransit, hworkers]
  simp only [setWorker]
  rw [add_right_comm, hsum, add_right_comm]

/-- A routed packet brings its buffer. -/
theorem inTransit_route {server next : Server cfg} {packet : Packet}
    (h : server.route packet = some next) :
    next.inTransit = server.inTransit + {packet.bufIdx} := by
  simp only [route] at h
  split at h
  · cases h
    have hset := inTransit_setWorker server (cfg.shardFor packet.src)
      { server.workers (cfg.shardFor packet.src) with
        recv := (server.workers (cfg.shardFor packet.src)).recv ++ [packet] }
    refine add_right_cancel (b := (server.workers (cfg.shardFor packet.src)).buffers)
      (hset.trans ?_)
    simp only [Worker.buffers, List.map_append, List.map_cons, List.map_nil, ← Multiset.coe_add,
      Multiset.coe_singleton]
    abel
  · cases h

/-- Routing concerns a thread only. -/
theorem frame_route {server next : Server cfg} {packet : Packet}
    (h : server.route packet = some next) :
    next.io = server.io ∧ next.txOut = server.txOut ∧ next.point = server.point := by
  simp only [route] at h
  split at h
  · cases h
    exact ⟨rfl, rfl, rfl⟩
  · cases h

/-- A thread moves a packet from its channel to its hand. -/
theorem inTransit_recv {server : Server cfg} {shard : Fin cfg.numShards} {packet : Packet}
    {rest : List Packet} (hidle : (server.workers shard).handling = none)
    (hrecv : (server.workers shard).recv = packet :: rest) :
    (server.setWorker shard
      { server.workers shard with recv := rest, handling := some packet }).inTransit =
        server.inTransit := by
  have hset := inTransit_setWorker server shard
    { server.workers shard with recv := rest, handling := some packet }
  refine add_right_cancel (b := (server.workers shard).buffers) (hset.trans ?_)
  congr 1
  simp only [Worker.buffers, hidle, hrecv, Option.toList_some, Option.toList_none, List.map_cons,
    List.map_nil, ← Multiset.cons_coe, Multiset.coe_nil, Multiset.add_cons, add_zero]

/-- A thread that has dealt with its packet has let go of it. -/
theorem inTransit_done {server : Server cfg} {shard : Fin cfg.numShards} {packet : Packet}
    (hhandling : (server.workers shard).handling = some packet) :
    server.inTransit =
      (server.setWorker shard { server.workers shard with handling := none }).inTransit +
        {packet.bufIdx} := by
  have hset := inTransit_setWorker server shard { server.workers shard with handling := none }
  have hbuffers : (server.workers shard).buffers =
      ({ server.workers shard with handling := none } : Worker).buffers + {packet.bufIdx} := by
    simp [Worker.buffers, hhandling]
  rw [hbuffers] at hset
  refine add_right_cancel (hset.symm.trans ?_)
  abel

/-- A message to the loop is about the buffer of its packet. -/
theorem buffer_of_handlePacket {shard : Shard} {packet : Packet} {entry : SqeType}
    (h : shard.handlePacket packet = some entry) : entry.2.2 = packet.bufIdx := by
  rw [Shard.handlePacket_eq_answer, Known.answer, Option.bind_eq_some_iff] at h
  obtain ⟨session, -, hroute⟩ := h
  obtain ⟨dst, -, rfl⟩ := Option.map_eq_some_iff.mp hroute
  rfl

/-- Posting an operation gives its buffer to the ring if the queue has room. -/
theorem submitted_push (server next : Server cfg) (opcode : Opcode) (idx : UInt16)
    (hsq : next.io.sq =
      (server.io.sq.push cfg.ringEntries (opcode.build idx)).getD server.io.sq)
    (hoperations : next.io.operations = server.io.operations) :
    (next.submitted.map Sqe.bufIdx : Multiset UInt16) + (if server.HasRoom then 0 else {idx}) =
      (server.submitted.map Sqe.bufIdx : Multiset UInt16) + {idx} := by
  simp only [submitted, hsq, hoperations, SubmissionRing.entries_push]
  by_cases hroom : server.HasRoom
  · rw [if_pos hroom, if_pos (show server.io.sq.HasRoom cfg.ringEntries from hroom)]
    simp only [List.map_append, List.map_cons, List.map_nil, Opcode.bufIdx_build,
      ← Multiset.coe_add, Multiset.coe_singleton]
    abel
  · rw [if_neg hroom, if_neg (show ¬ server.io.sq.HasRoom cfg.ringEntries from hroom),
      List.append_nil]

/-- A completion is appended to those there are. -/
theorem completed_post (server : Server cfg) (io : IoRing) (sqe : Sqe) (result : ℤ)
    (flags : UInt32) (hcq : io.cq = server.io.cq) :
    ({ server with io := io.post sqe result flags } : Server cfg).completed =
      server.completed ++ [(Cqe.mk sqe.userData result flags).task] := by
  simp [completed, IoRing.post, hcq]

/-- The loop has taken a completion from those it has copied out. -/
theorem completed_of_completing {server : Server cfg} (next : Server cfg) {cqe : Cqe}
    {rest : List Cqe}
    (hpoint : server.point = .completing (cqe :: rest)) (hcq : next.io.cq = server.io.cq)
    (hinHand : next.point.inHand = rest) :
    (server.completed.filterMap taskBuffer : Multiset UInt16) =
      (next.completed.filterMap taskBuffer : Multiset UInt16) +
        ((taskBuffer cqe.task).toList : Multiset UInt16) := by
  have hbefore : server.point.inHand = cqe :: rest := by rw [hpoint]; rfl
  simp only [completed, hbefore, hinHand, hcq, List.cons_append, List.map_cons,
    List.filterMap_cons]
  cases taskBuffer cqe.task with
  | none => simp
  | some idx =>
      rw [← Multiset.cons_coe, ← Multiset.singleton_add, add_comm]
      rfl

/-- A finished operation leaves its buffer to its completion. -/
theorem inRing_finish (server : Server cfg) {pool : BufferPool} {opcode : Opcode}
    {position : ℕ} {sqe : Sqe} (hop : server.io.operation opcode position = some sqe)
    (hfree : pool.freeList = server.io.pool.freeList) (result : ℤ) (flags : UInt32)
    (hbuffer : taskBuffer (Cqe.mk sqe.userData result flags).task = some sqe.bufIdx) :
    ({ server with
      io := { server.io with pool := pool }.finish position sqe result flags } :
        Server cfg).inRing = server.inRing := by
  have hcompleted := completed_post server
    { server.io with pool := pool, operations := server.io.operations.eraseIdx position } sqe
    result flags rfl
  have hoperations := IoRing.operations_eraseIdx hop
  simp only [IoRing.finish, inRing, hcompleted, List.filterMap_append, List.filterMap_cons,
    List.filterMap_nil, hbuffer, ← Multiset.coe_add, Multiset.coe_singleton]
  simp only [submitted, IoRing.post, List.map_append, ← Multiset.coe_add, hoperations, hfree]
  abel

/-- The kernel keeps every buffer in the ring. -/
theorem inRing_kernel {server : Server cfg} {io : IoRing} {events : List ServerEvent}
    (h : server.io.Kernel io events) :
    ({ server with io := io } : Server cfg).inRing = server.inRing ∧ lost events = [] := by
  cases h with
  | submit htake =>
      refine ⟨?_, rfl⟩
      simp only [inRing, submitted, completed, SubmissionRing.entries_take htake, List.map_append,
        List.map_cons, List.map_nil, List.cons_append, ← Multiset.coe_add, ← Multiset.cons_coe,
        ← Multiset.singleton_add, Multiset.coe_nil]
      abel
  | @receive position src bytes flags sqe pool hop hfill =>
      obtain ⟨slot, -, -, rfl⟩ := BufferPool.fill_eq_some hfill
      refine ⟨inRing_finish server hop rfl _ _ ?_, rfl⟩
      rw [Cqe.task_mk, IoRing.opcode_of_operation hop]
      rfl
  | @failReceive position result flags sqe hop =>
      refine ⟨inRing_finish server hop rfl _ _ ?_, rfl⟩
      rw [Cqe.task_mk, IoRing.opcode_of_operation hop]
      rfl
  | @progressSend position result flags sqe hop hmore =>
      refine ⟨?_, rfl⟩
      have hcompleted := completed_post server server.io sqe result flags rfl
      rw [Cqe.task_mk, IoRing.opcode_of_operation hop, hmore] at hcompleted
      simp only [inRing, hcompleted, List.filterMap_append]
      exact congrArg _ (congrArg _ (List.append_nil _))
  | @finishSend position result flags sqe hop hmore =>
      refine ⟨inRing_finish server hop rfl _ _ ?_, rfl⟩
      rw [Cqe.task_mk, IoRing.opcode_of_operation hop, hmore]
      rfl

/-! ## The books balance -/

/-- Without room the buffer is lost. -/
theorem lost_postedRecv (server : Server cfg) (idx : UInt16) :
    (lost [.postedRecv idx server.HasRoom] : Multiset UInt16) =
      if server.HasRoom then 0 else {idx} := by
  by_cases hroom : server.HasRoom <;> simp [lost, ServerEvent.lost, hroom]

theorem lost_postedSend (server : Server cfg) (entry : SqeType) :
    (lost [.postedSend entry server.HasRoom] : Multiset UInt16) =
      if server.HasRoom then 0 else {entry.2.2} := by
  by_cases hroom : server.HasRoom <;> simp [lost, ServerEvent.lost, hroom]

/-- A step that leaves all places alone balances. -/
theorem held_congr {server next : Server cfg}
    (hfree : next.io.pool.freeList = server.io.pool.freeList)
    (hsubmitted : next.submitted = server.submitted)
    (hcompleted : next.completed.filterMap taskBuffer = server.completed.filterMap taskBuffer)
    (htransit : next.inTransit = server.inTransit) : server.held = next.held + 0 := by
  rw [add_zero, held, held, inRing, inRing, hfree, hsubmitted, hcompleted, htransit]

/-- A buffer taken from a completion or a message goes to the ring, or is lost. -/
theorem held_push {server next : Server cfg} {opcode : Opcode} {idx : UInt16}
    (hfree : next.io.pool.freeList = server.io.pool.freeList)
    (hsq : next.io.sq =
      (server.io.sq.push cfg.ringEntries (opcode.build idx)).getD server.io.sq)
    (hoperations : next.io.operations = server.io.operations)
    (htaken : (server.completed.filterMap taskBuffer : Multiset UInt16) + server.inTransit =
      (next.completed.filterMap taskBuffer : Multiset UInt16) + next.inTransit + {idx}) :
    server.held = next.held + if server.HasRoom then 0 else {idx} := by
  have hpush := submitted_push server next opcode idx hsq hoperations
  simp only [held, inRing, hfree]
  calc (server.io.pool.freeList : Multiset UInt16) +
        (server.submitted.map Sqe.bufIdx : Multiset UInt16) +
        (server.completed.filterMap taskBuffer : Multiset UInt16) + server.inTransit
      = (server.io.pool.freeList : Multiset UInt16) +
        ((server.submitted.map Sqe.bufIdx : Multiset UInt16) + {idx}) +
        ((next.completed.filterMap taskBuffer : Multiset UInt16) + next.inTransit) := by
          rw [add_assoc, htaken]
          abel
    _ = _ := by
      rw [← hpush]
      abel

/-- A buffer that a completion has set free goes to a new receive, or is lost. -/
theorem held_repost {server next : Server cfg} {cqe : Cqe} {rest : List Cqe} {idx : UInt16}
    (hpoint : server.point = .completing (cqe :: rest)) (htask : taskBuffer cqe.task = some idx)
    (hfree : next.io.pool.freeList = server.io.pool.freeList)
    (hsq : next.io.sq =
      (server.io.sq.push cfg.ringEntries (Opcode.recvMsg.build idx)).getD server.io.sq)
    (hoperations : next.io.operations = server.io.operations)
    (hcq : next.io.cq = server.io.cq) (hinHand : next.point.inHand = rest)
    (htransit : next.inTransit = server.inTransit) :
    server.held = next.held + (lost [.postedRecv idx server.HasRoom] : Multiset UInt16) := by
  rw [lost_postedRecv]
  refine held_push hfree hsq hoperations ?_
  rw [completed_of_completing next hpoint hcq hinHand, htask, htransit]
  exact add_right_comm _ _ _

/-- Every step passes on the buffers that it does not lose. -/
theorem Transition.balanced {server next : Server cfg} {action : ServerAction cfg}
    {events : List ServerEvent} (h : server.Transition action next events) :
    server.held = next.held + (lost events : Multiset UInt16) := by
  cases h with
  | @readHead first second point hreads hpoint =>
      refine held_congr rfl (by simp [submitted]) ?_ rfl
      have hbefore : server.point.inHand = [] := by
        rcases hreads with h | h <;> rw [h] <;> rfl
      have hafter : point.inHand = [] := by rcases hpoint with h | h <;> rw [h] <;> rfl
      simp only [completed, hbefore, hafter]
  | @postSend first second pushed entry rest hpoint htxOut =>
      rw [lost_postedSend]
      refine @held_push _ _ _ .sendMsgZc entry.2.2 rfl rfl rfl ?_
      have hcompleted : (server.postSend entry rest pushed first).completed =
          server.completed := by
        simp only [completed, hpoint, Server.postSend, LoopPoint.inHand]
      simp only [hcompleted, inTransit, htxOut, List.map_cons, ← Multiset.cons_coe,
        ← Multiset.singleton_add]
      simp only [Server.postSend]
      abel
  | @endBatch first second pushed hpoint =>
      unfold Server.endBatch
      split
      · refine held_congr rfl (by simp [submitted]) ?_ rfl
        simp only [completed, hpoint, LoopPoint.inHand]
      · refine held_congr rfl rfl ?_ rfl
        simp only [completed, hpoint, LoopPoint.inHand]
  | @sync first second point hpoint hnext =>
      have hbefore : server.point.inHand = [] := by
        rcases hpoint with h | h <;> rw [h] <;> rfl
      have hafter : point.inHand = [] := by rcases hnext with h | h <;> rw [h] <;> rfl
      refine held_congr rfl rfl ?_ rfl
      simp [completed, Server.sync, hbefore, hafter]
  | collect hpoint =>
      refine held_congr rfl rfl ?_ rfl
      simp only [completed, hpoint, Server.collect, LoopPoint.inHand, List.nil_append,
        CompletionRing.entries_drain]
  | finished hpoint =>
      refine held_congr rfl rfl ?_ rfl
      simp only [completed, hpoint, LoopPoint.inHand]
  | progressed hpoint htask =>
      refine held_congr rfl rfl ?_ rfl
      simp only [completed, hpoint, LoopPoint.inHand, List.cons_append, List.map_cons, htask,
        List.filterMap_cons]
      rfl
  | @arrival first second cqe rest idx len next events hpoint htask hnext =>
      simp only [completeRecv, Option.map_eq_some_iff, Prod.mk.injEq] at hnext
      obtain ⟨routed, hroute, rfl, rfl⟩ := hnext
      obtain ⟨-, -, hafter⟩ := frame_route hroute
      have htransit := inTransit_route hroute
      have hcompleted := completed_of_completing
        { routed with io := { server.io with
          pool := (server.io.pool.markRecvFor idx first).markShardDoneAt idx second } }
        hpoint rfl (by simp only [hafter]; rfl)
      rw [htask] at hcompleted
      simp only [held, inRing, hcompleted]
      calc _ = (server.io.pool.freeList : Multiset UInt16) +
              (server.submitted.map Sqe.bufIdx : Multiset UInt16) +
              (({ routed with io := { server.io with
                pool := (server.io.pool.markRecvFor idx first).markShardDoneAt idx second } } :
                  Server cfg).completed.filterMap taskBuffer : Multiset UInt16) +
              (server.inTransit + {idx}) := by
            rw [add_comm server.inTransit, ← add_assoc, ← add_assoc]
            rfl
        _ = _ := by
            rw [show server.inTransit + {idx} = routed.inTransit from htransit.symm]
            exact (add_zero _).symm
  | @sent first second cqe rest idx hpoint htask =>
      refine held_repost hpoint (by rw [htask]; rfl) rfl rfl rfl rfl ?_ rfl
      simp only [completeSend]
      split <;> rfl
  | notified hpoint htask => exact held_repost hpoint (by rw [htask]; rfl) rfl rfl rfl rfl rfl rfl
  | recv hidle hrecv => exact held_congr rfl rfl rfl (inTransit_recv hidle hrecv)
  | drop hhandling hunknown =>
      have hdone := inTransit_done hhandling
      rw [held, hdone, ← add_assoc]
      rfl
  | @send shard packet entry hhandling hknown hroom =>
      have hdone := inTransit_done hhandling
      have hbuffer := buffer_of_handlePacket hknown
      have hsent : ({ server.setWorker shard { server.workers shard with handling := none } with
          txOut := server.txOut ++ [entry] } : Server cfg).inTransit =
            (server.setWorker shard { server.workers shard with handling := none }).inTransit +
              {packet.bufIdx} := by
        simp only [inTransit, List.map_append, ← Multiset.coe_add, List.map_cons, List.map_nil,
          hbuffer, Multiset.coe_singleton]
        exact (add_assoc _ _ _).symm
      rw [held, held, hsent, ← hdone]
      exact (add_zero _).symm
  | kernel hkernel =>
      obtain ⟨hring, hlost⟩ := inRing_kernel hkernel
      rw [hlost, held, held, hring]
      exact (add_zero _).symm

/-- At the start every buffer has a submitted receive. -/
theorem held_started (cfg : Config) :
    (started cfg).held = (indicesBelow cfg.poolSize : Multiset UInt16) := by
  have hmap : ∀ indices : List UInt16,
      (indices.map Opcode.recvMsg.build).map Sqe.bufIdx = indices := by
    intro indices
    simp [Function.comp_def]
  have htransit : (started cfg).inTransit = 0 := by
    simp [inTransit, started, Worker.buffers, Worker.new]
  rw [held, htransit, add_zero]
  simp only [inRing, started, submitted, completed, LoopPoint.inHand, SubmissionRing.entries,
    CompletionRing.entries_empty, List.append_nil, List.map_nil, List.filterMap_nil, hmap]
  simp [TurnServer.Server.started, BufferPool.default]

end Server

/-! ## The books of the server -/

/-- What is held and what the trace says has been lost is the pool. -/
theorem held_add_lost {cfg : Config} {c : Server cfg × List ServerEvent}
    (hc : (serverMachine cfg).Reachable c) :
    c.1.held + (lost c.2 : Multiset UInt16) = (indicesBelow cfg.poolSize : Multiset UInt16) := by
  refine Machine.Reachable.induct (P := fun c => c.1.held + (lost c.2 : Multiset UInt16) =
    (indicesBelow cfg.poolSize : Multiset UInt16)) ?_ ?_ hc
  · rw [serverMachine_init]
    exact (add_zero _).trans (Server.held_started cfg)
  · intro c action d _ ih hstep
    obtain ⟨next, events, hnext, rfl⟩ := Machine.traced_step.mp hstep
    have hbalanced := (Server.transition_of_step hnext).balanced
    rw [← ih, hbalanced, lost_append, ← Multiset.coe_add]
    abel

/-- No buffer is in two places. -/
theorem nodup_held {cfg : Config} {c : Server cfg × List ServerEvent}
    (hc : (serverMachine cfg).Reachable c) : c.1.held.Nodup := by
  have hpool : (indicesBelow cfg.poolSize : Multiset UInt16).Nodup :=
    Multiset.coe_nodup.mpr (nodup_indicesBelow cfg.poolSize_le)
  apply Multiset.nodup_of_le _ hpool
  rw [← held_add_lost hc]
  exact Multiset.le_add_right _ _

/-- There are never more buffers than at the start. -/
theorem card_held_le {cfg : Config} {c : Server cfg × List ServerEvent}
    (hc : (serverMachine cfg).Reachable c) : Multiset.card c.1.held ≤ cfg.poolSize := by
  have hcard := congrArg Multiset.card (held_add_lost hc)
  rw [Multiset.card_add, Multiset.coe_card, Multiset.coe_card, length_indicesBelow] at hcard
  omega

/-- A packet from each side of the session of `main`, of which the second has been given to
its shard. -/
def twoPackets : List (ServerAction .main) :=
  [.kernel .submit, .kernel .submit, .kernel (.receive 0 (.v4 0x7f000001 9001) [7] 0),
    .loop 0 0, .loop 0 0, .loop 0 0, .loop 0 0, .loop 3 4, .recv Config.main.firstShard,
    .handle Config.main.firstShard, .kernel (.receive 0 (.v4 0x7f000001 9002) [8, 8] 0),
    .loop 0 0, .loop 5 6, .loop 0 0, .loop 0 0, .loop 0 0, .loop 0 0]

/-- What the server does then. -/
def twoPacketsTrace : List ServerEvent :=
  [.received 1023 (.v4 0x7f000001 9001) [7], .routed ⟨1023, 1, .v4 0x7f000001 9001⟩,
    .handled ⟨1023, 1, .v4 0x7f000001 9001⟩ (some (.v4 0x7f000001 9002, 1, 1023)),
    .received 1022 (.v4 0x7f000001 9002) [8, 8],
    .postedSend (.v4 0x7f000001 9002, 1, 1023) true]

theorem exec_twoPackets :
    ∃ server, (serverMachine .main).exec (serverMachine .main).init twoPackets =
      some (server, twoPacketsTrace) := by
  rw [serverMachine_init]
  have hrun : ((serverMachine .main).exec (.started .main, []) twoPackets).map Prod.snd =
      some twoPacketsTrace := by decide +kernel
  obtain ⟨c, hexec, htrace⟩ := Option.map_eq_some_iff.mp hrun
  exact ⟨c.1, by rw [hexec, ← htrace]⟩

/-- At every moment a buffer is in one place of the server only, or has been lost, once, and is
nowhere. -/
theorem buffer_in_one_place {cfg : Config} {c : Server cfg × List ServerEvent}
    (hc : (serverMachine cfg).Reachable c) {idx : UInt16} (hidx : idx.toNat < cfg.poolSize) :
    (c.1.held.count idx = 1 ∧ idx ∉ lost c.2) ∨ (idx ∉ c.1.held ∧ (lost c.2).count idx = 1) := by
  have hbooks := congrArg (Multiset.count idx) (held_add_lost hc)
  rw [Multiset.count_add, Multiset.coe_count, Multiset.coe_count,
    List.count_eq_one_of_mem (nodup_indicesBelow cfg.poolSize_le)
      ((mem_indicesBelow cfg.poolSize_le).mpr hidx)] at hbooks
  rw [← Multiset.count_eq_zero, ← List.count_eq_zero]
  omega

theorem buffer_in_one_place_twoPackets :
    ∃ server, (serverMachine .main).exec (serverMachine .main).init twoPackets =
      some (server, twoPacketsTrace) ∧
      ((server.held.count 1023 = 1 ∧ 1023 ∉ lost twoPacketsTrace) ∨
        (1023 ∉ server.held ∧ (lost twoPacketsTrace).count 1023 = 1)) := by
  obtain ⟨server, hexec⟩ := exec_twoPackets
  exact ⟨server, hexec, buffer_in_one_place ⟨twoPackets, hexec⟩ (by decide)⟩

end P2PNetworking.TurnServer.FirstImpl
