/-
# Can the event loop panic?

Four things in the loop could stop it: an `unwrap` on a timing record that is not
complete, an index into `senders`, a slice of the pool's memory, and the counter of a
batch.  The first is a matter of history.  A record starts incomplete with every receive
and is completed when the send is posted, so it must not be started again while that send
is under way; it is not, because a buffer with a send has no receive.  A record that a
dropped packet leaves behind stays incomplete, but no send of its buffer is under way.
-/

import P2PNetworking.TurnServer.Backpressure
import P2PNetworking.TurnServer.SingleOwner
import P2PNetworking.TurnServer.Routing
import P2PNetworking.TurnServer.Sends

namespace P2PNetworking.TurnServer

open P2PNetworking.Net P2PNetworking.Lib

variable {cfg : Config}

/-! ## Router -/

/-- `ShardRouter` with the numbers of the source: a shard is an index into `senders`, of
which the length is kept. -/
structure IndexRouter where
  senders : ℕ
  endpointToShard : Table SocketAddr ℕ
  next : ℕ

namespace IndexRouter

/-- `ShardRouter::new`. -/
def new (senders : ℕ) : IndexRouter := ⟨senders, ∅, 0⟩

def nextShard (router : IndexRouter) : ℕ × IndexRouter :=
  (router.next, { router with next := (router.next + 1) % router.senders })

/-- What the loop's arm for `AddSession` does to the router. -/
def register (router : IndexRouter) (session : Session) : IndexRouter :=
  let (shard, router) := router.nextShard
  { router with
    endpointToShard := (router.endpointToShard.insert session.hostAddr shard).insert
      session.peerAddr shard }

/-- The router after some sessions. -/
def ofSessions (senders : ℕ) (sessions : List Session) : IndexRouter :=
  sessions.foldl register (new senders)

theorem ofSessions_concat (senders : ℕ) (sessions : List Session) (session : Session) :
    ofSessions senders (sessions ++ [session]) =
      (ofSessions senders sessions).register session := by
  simp [ofSessions]

/-- No index that the router holds or hands out is out of bounds. -/
structure InBounds (router : IndexRouter) : Prop where
  values : ∀ shard ∈ router.endpointToShard.values, shard < router.senders
  next : router.nextShard.1 < router.senders

theorem InBounds.new {senders : ℕ} (hpos : 0 < senders) : (new senders).InBounds where
  values shard hmem := by
    obtain ⟨addr, hlookup⟩ := Table.mem_values.mp hmem
    cases hlookup
  next := hpos

theorem InBounds.register {router : IndexRouter} (h : router.InBounds) (session : Session) :
    (router.register session).InBounds where
  values shard hmem := by
    obtain ⟨addr, hlookup⟩ := Table.mem_values.mp hmem
    simp only [IndexRouter.register, Table.lookup_insert_eq_ite] at hlookup
    split at hlookup
    · cases hlookup
      exact h.next
    · split at hlookup
      · cases hlookup
        exact h.next
      · exact h.values shard (Table.mem_values.mpr ⟨addr, hlookup⟩)
  next := Nat.mod_lt _ (Nat.zero_lt_of_lt h.next)

theorem inBounds_ofSessions {senders : ℕ} (hpos : 0 < senders) (sessions : List Session) :
    (ofSessions senders sessions).InBounds := by
  induction sessions using List.reverseRecOn with
  | nil => exact .new hpos
  | append_singleton sessions session ih =>
      rw [ofSessions_concat]
      exact ih.register session

/-- The router of the relay, whose shards cannot be out of bounds, is this one. -/
structure Refines {shardNum : ℕ} (router : IndexRouter) (abstract : ShardRouter shardNum) :
    Prop where
  senders : router.senders = shardNum
  next : router.next = abstract.next
  lookup : ∀ addr, router.endpointToShard.lookup addr =
    (abstract.endpointToShard.lookup addr).map Fin.val

theorem Refines.addSession {router : IndexRouter} {relay : Relay cfg}
    (h : router.Refines relay.router) (session : Session) :
    (router.register session).Refines (relay.addSession session).router where
  senders := h.senders
  next := by
    change (router.next + 1) % router.senders = (relay.router.next + 1) % cfg.shardNum
    rw [h.next, h.senders]
  lookup addr := by
    simp only [register, nextShard, Relay.addSession, ShardRouter.nextShard,
      Table.lookup_insert_eq_ite, h.next, h.lookup]
    split
    · rfl
    · split
      · rfl
      · rfl

end IndexRouter

/-- The sessions that the loop has registered. -/
def registered (trace : List (ServerEvent cfg)) : List Session := added (relayTrace trace)

/-- The router of the source after what has happened. -/
def indexRouter (c : Server cfg × List (ServerEvent cfg)) : IndexRouter :=
  .ofSessions cfg.shardNum (registered c.2)

/-- Only a session changes the router. -/
theorem Relay.router_of_step {relay next : Relay cfg} {action : RelayAction cfg}
    {events : List (RelayEvent cfg)} (hstep : relay.step action = some (next, events)) :
    (∃ session, next = relay.addSession session ∧ events = [.added session]) ∨
      next.router = relay.router ∧ added events = [] := by
  cases action with
  | addSession session =>
      cases hstep
      exact .inl ⟨session, rfl, rfl⟩
  | route packet =>
      cases hstep
      refine .inr ⟨?_, rfl⟩
      unfold route
      split
      · rfl
      · next idx hlookup =>
        by_cases hroom : relay.HasRoom idx
        · simp [enqueue, hroom]
        · simp [enqueue, hroom]
  | dequeue shard sessionId =>
      simp only [step, Option.map_eq_some_iff, Prod.mk.injEq] at hstep
      obtain ⟨later, hdequeue, rfl, rfl⟩ := hstep
      refine .inr ⟨?_, rfl⟩
      unfold dequeue at hdequeue
      split at hdequeue
      · cases hdequeue
        rfl
      · cases hdequeue
        rfl
      · cases hdequeue
  | handle shard =>
      simp only [step, handle] at hstep
      split at hstep
      · cases hstep
      · cases hstep
        exact .inr ⟨rfl, rfl⟩
  | take =>
      simp only [step] at hstep
      split at hstep
      · cases hstep
      · cases hstep
        exact .inr ⟨rfl, rfl⟩

/-- The router of the relay is the router of the source after the same sessions. -/
theorem refines_ofSessions {c : Relay cfg × List (RelayEvent cfg)}
    (hc : (relayMachine cfg).Reachable c) :
    (IndexRouter.ofSessions cfg.shardNum (added c.2)).Refines c.1.router := by
  refine Machine.Reachable.induct
    (P := fun c => (IndexRouter.ofSessions cfg.shardNum (added c.2)).Refines c.1.router) ?_ ?_ hc
  · exact ⟨rfl, rfl, fun _ => rfl⟩
  · rintro ⟨relay, trace⟩ action d _ h hstep
    obtain ⟨next, events, hnext, rfl⟩ := Machine.traced_step.mp hstep
    rw [added_append]
    rcases Relay.router_of_step hnext with ⟨session, rfl, rfl⟩ | ⟨hrouter, hadded⟩
    · have hlast : added ([.added session] : List (RelayEvent cfg)) = [session] := rfl
      rw [hlast, IndexRouter.ofSessions_concat]
      exact h.addSession session
    · rw [hadded, List.append_nil, hrouter]
      exact h

theorem indexRouter_refines {c : Server cfg × List (ServerEvent cfg)}
    (hc : (serverMachine cfg).Reachable c) : (indexRouter c).Refines c.1.relay.router := by
  obtain ⟨actions, hexec⟩ := hc
  exact refines_ofSessions ⟨_, (relayComponent cfg).exec_view hexec⟩

/-! ## Memory -/

/-- `memory.len()`. -/
def memoryLen (cfg : Config) : ℕ := cfg.poolSize * bufferSize

/-- The buffer of an index of the pool lies within the memory. -/
theorem succ_mul_bufferSize_le {idx : UInt16} (hidx : idx.toNat < cfg.poolSize) :
    (idx.toNat + 1) * bufferSize ≤ memoryLen cfg :=
  Nat.mul_le_mul_right _ hidx

namespace Server

/-- The index that a step gives to `slice_mut`, which takes the buffer for a header. -/
def sliced (server : Server cfg) : ServerAction cfg → Option UInt16
  | .loop _ _ =>
      match server.task with
      | .postSend _ _ idx => some idx
      | .sent idx => some idx
      | .notified idx => some idx
      | _ => none
  | _ => none

/-! ## Timing records -/

/-- A send of the buffer is submitted, or is over and has not been reported. -/
def Sending (server : Server cfg) : UInt16 → Prop := SendOf server.submitted server.completed

theorem Sending.mem_home {server : Server cfg} {idx : UInt16} (h : server.Sending idx) :
    idx ∈ server.home := by
  unfold home
  rcases h.buffer with hsubmitted | hsent
  · simp [hsubmitted]
  · have hfreed : idx ∈ server.completed.filterMap Task.freed :=
      List.mem_filterMap.mpr ⟨_, hsent, rfl⟩
    simp [hfreed]

variable {server next : Server cfg}

theorem submitted_push {opcode : Opcode} {idx : UInt16} {sqe : Sqe}
    (hsq : next.sq = (server.sq.push cfg.ringEntries (opcode.build idx)).getD server.sq)
    (hoperations : next.operations = server.operations) (hmem : sqe ∈ next.submitted) :
    sqe ∈ server.submitted ∨ sqe = opcode.build idx := by
  rw [submitted, hsq, hoperations] at hmem
  rcases List.mem_append.mp hmem with hentry | hoperation
  · exact (SubmissionRing.mem_entries_push hentry).imp_left (List.mem_append_left _)
  · exact .inl (List.mem_append_right _ hoperation)

/-- What is left of the completions when the loop has taken one. -/
theorem mem_completed_of_next {cqe : Cqe} {cq : CompletionRing Cqe} {task : Task}
    (hnext : server.cq.next = some (cqe, cq)) (hcq : next.cq = cq)
    (hmem : task ∈ next.completed) : task ∈ server.completed := by
  rw [completed, CompletionRing.entries_next hnext, ← hcq]
  exact List.mem_cons_of_mem _ hmem

/-- A completion that the kernel posts makes no send. -/
theorem sending_of_completion {rest : Server cfg} {opcode : Opcode} {position : ℕ} {sqe : Sqe}
    {result : ℤ} {flags : UInt32} {idx : UInt16}
    (h : (rest.post sqe result flags).Sending idx)
    (hop : server.operation opcode position = some sqe)
    (hsubmitted : ∀ entry ∈ rest.submitted, entry ∈ server.submitted)
    (hcq : rest.cq = server.cq) : server.Sending idx := by
  obtain ⟨hsome, -⟩ := Option.filter_eq_some_iff.mp hop
  rw [Sending, completed_post, completed, hcq] at h
  exact h.of_completion (List.mem_append_right _ (List.mem_of_getElem? hsome)) hsubmitted

/-- What is left of the submitted operations when one is over. -/
theorem mem_submitted_of_eraseIdx {position : ℕ} {pool : BufferPool} {entry : Sqe}
    (h : entry ∈ { server with
      pool := pool, operations := server.operations.eraseIdx position }.submitted) :
    entry ∈ server.submitted :=
  (List.mem_append.mp h).elim (List.mem_append_left _)
    fun hmem => List.mem_append_right _ (List.mem_of_mem_eraseIdx hmem)

/-- When the loop has posted a send, the record of its buffer is complete, if there is one. -/
theorem reportable_takeSend {pushed first second : ℕ} {dst : SocketAddr} {len : ℕ}
    {idx : UInt16} {rest : List SqeType} (htxOut : server.relay.txOut = (dst, len, idx) :: rest) :
    reportable ((server.takeSend pushed first second).1.pool.timestamp idx) = true := by
  simp only [takeSend, htxOut, BufferPool.markSendSqeAt, BufferPool.postSendSqe,
    BufferPool.insertSlot, BufferPool.markShardDoneAt, Function.update_self]
  cases server.pool.timestamp idx with
  | none => rfl
  | some timing => rfl

/-- Only the loop makes a send, and then with a complete record. -/
theorem Transition.sending {action : ServerAction cfg} {events : List (ServerEvent cfg)}
    (h : server.Transition action next events) {idx : UInt16} (hsending : next.Sending idx) :
    server.Sending idx ∨ reportable (next.pool.timestamp idx) = true := by
  cases h with
  | rest htask hpool hsq hoperations hcq =>
      left
      refine hsending.mono (fun sqe hmem _ => ?_) fun task htask => ?_
      · rwa [submitted, hsq, hoperations] at hmem
      · rcases hcq with hsame | hpopped
        · rwa [completed, hsame] at htask
        · rw [completed, hpopped]
          exact List.mem_cons_of_mem _ htask
  | @postSend first second pushed dst len other rest htask htxOut =>
      have hpushed : ∀ sqe ∈ (server.takeSend pushed first second).1.submitted,
          sqe ∈ server.submitted ∨ sqe = Opcode.sendMsgZc.build other := by
        intro sqe hmem
        refine submitted_push ?_ ?_ hmem
        · simp only [takeSend, htxOut]
          rfl
        · simp only [takeSend, htxOut]
      have hcompleted : ∀ task ∈ (server.takeSend pushed first second).1.completed,
          task ∈ server.completed := by
        intro task htask
        simpa only [takeSend, htxOut, completed] using htask
      rcases hsending.of_post hpushed hcompleted with hold | rfl
      · exact .inl hold
      · exact .inr (reportable_takeSend htxOut)
  | arrival htask hnext =>
      left
      exact hsending.mono (fun _ hmem _ => hmem) fun _ => mem_completed_of_next hnext rfl
  | sent htask hnext =>
      left
      exact hsending.of_repost (fun _ => submitted_push rfl rfl)
        fun _ => mem_completed_of_next hnext rfl
  | notified htask hnext =>
      left
      exact hsending.of_repost (fun _ => submitted_push rfl rfl)
        fun _ => mem_completed_of_next hnext rfl
  | @submit sqe sq htake =>
      left
      refine hsending.mono (fun entry hmem _ => ?_) fun _ => id
      simp only [submitted, SubmissionRing.entries_take htake, List.mem_append, List.mem_cons,
        List.mem_nil_iff, or_false] at hmem ⊢
      tauto
  | receive hop _ =>
      exact .inl (sending_of_completion hsending hop (fun _ => mem_submitted_of_eraseIdx) rfl)
  | failReceive hop =>
      exact .inl (sending_of_completion hsending hop (fun _ => mem_submitted_of_eraseIdx) rfl)
  | progressSend hop => exact .inl (sending_of_completion hsending hop (fun _ => id) rfl)
  | finishSend hop =>
      exact .inl (sending_of_completion hsending hop (fun _ => mem_submitted_of_eraseIdx) rfl)
  | request => exact .inl hsending
  | addSession => exact .inl hsending
  | dequeue => exact .inl hsending
  | handle => exact .inl hsending

/-- A record stays as it is, or is complete or gone, or its buffer is away. -/
theorem Transition.timestamp {action : ServerAction cfg} {events : List (ServerEvent cfg)}
    (h : server.Transition action next events) (idx : UInt16) :
    next.pool.timestamp idx = server.pool.timestamp idx ∨
      reportable (next.pool.timestamp idx) = true ∨ idx ∈ server.away := by
  cases h with
  | rest _ hpool => exact .inl (by rw [hpool])
  | @postSend first second pushed dst len other rest htask htxOut =>
      by_cases heq : idx = other
      · subst heq
        exact .inr (.inl (reportable_takeSend htxOut))
      · left
        simp only [takeSend, htxOut, BufferPool.markSendSqeAt, BufferPool.postSendSqe,
          BufferPool.insertSlot, BufferPool.markShardDoneAt, Function.update_of_ne heq]
  | @arrival first second other len cqe cq htask hnext hcqe =>
      by_cases heq : idx = other
      · subst heq
        right
        right
        rw [away_next hnext, hcqe]
        simp [Task.arrived]
      · left
        simp only [completeRecv, BufferPool.markRecvFor, Function.update_of_ne heq]
  | @sent first second other cqe cq htask hnext hcqe =>
      simp only [completeSend, BufferPool.takeRecvFor, release, BufferPool.release,
        BufferPool.postRecvSqe, BufferPool.insertSlot]
      by_cases heq : idx = other
      · subst heq
        rw [Function.update_self]
        exact .inr (.inl rfl)
      · rw [Function.update_of_ne heq]
        exact .inl rfl
  | receive hop hfill =>
      obtain ⟨slot, -, -, rfl⟩ := BufferPool.fill_eq_some hfill
      exact .inl rfl
  | notified => exact .inl rfl
  | addSession => exact .inl rfl
  | request => exact .inl rfl
  | dequeue => exact .inl rfl
  | handle => exact .inl rfl
  | submit => exact .inl rfl
  | failReceive => exact .inl rfl
  | progressSend => exact .inl rfl
  | finishSend => exact .inl rfl

/-- The record of a buffer with a send is complete. -/
def Timed (server : Server cfg) : Prop :=
  ∀ idx, server.Sending idx → reportable (server.pool.timestamp idx) = true

theorem Transition.timed {action : ServerAction cfg} {events : List (ServerEvent cfg)}
    (h : server.Transition action next events) (hnodup : server.held.Nodup)
    (htimed : server.Timed) : next.Timed := by
  intro idx
  refine marked_of_sends (P := fun timing => reportable timing = true)
    (fun _ => h.sending) h.timestamp (fun idx hold _ => ?_) htimed
  exact Multiset.disjoint_left.mp (Multiset.nodup_add.mp hnodup).2.2 hold.mem_home

theorem timed_started (cfg : Config) : (started cfg).Timed := by
  intro idx _
  rfl

/-! ## Where the loop goes -/

/-- What a step of the loop does to its place: it counts a send that leaves the relay, it
reports on a packet, or it goes on. -/
inductive PointStep (server next : Server cfg) : Prop
  | count {pushed : ℕ} {idx : UInt16} (hbefore : server.point = .sending pushed)
      (hafter : next.point = .sending (pushed + 1))
      (htransit : server.relay.inTransit = next.relay.inTransit + {idx})
  | report {idx : UInt16} (htask : server.task = .sent idx)
      (hpoint : next.point =
        if reportable (server.pool.timestamp idx) then .completing else .panicked)
  | goOn (hcount : ∀ pushed, next.point ≠ .sending (pushed + 1))
      (hrunning : next.point ≠ .panicked)

theorem PointStep.of_completing (hpoint : next.point = .completing) : PointStep server next :=
  .goOn (fun _ => by simp [hpoint]) (by simp [hpoint])

theorem pointStep_takeSend {pushed : ℕ} (hpoint : server.point = .sending pushed)
    (first second : ℕ) : PointStep server (server.takeSend pushed first second).1 := by
  cases htxOut : server.relay.txOut with
  | nil =>
      simp only [takeSend, htxOut]
      split
      · exact .goOn (fun _ => by simp) (by simp)
      · exact .goOn (fun _ => by simp) (by simp)
  | cons entry rest =>
      obtain ⟨dst, len, idx⟩ := entry
      simp only [takeSend, htxOut]
      exact .count hpoint rfl (Relay.inTransit_take _ htxOut)

theorem pointStep_takeCompletion (hpoint : server.point = .completing) (first second : ℕ) :
    PointStep server (server.takeCompletion first second).1 := by
  cases hnext : server.cq.next with
  | none =>
      simp only [takeCompletion, hnext]
      exact .goOn (fun _ => by simp) (by simp)
  | some result =>
      obtain ⟨cqe, cq⟩ := result
      have htask : server.task = cqe.task := by simp only [task, hpoint, hnext]
      cases hdecode : decodeToken cqe.userData with
      | mk op idx =>
          simp only [takeCompletion, hnext, hdecode]
          cases op with
          | recv => exact .of_completing hpoint
          | send =>
              cases hmore : more cqe.flags with
              | true => exact .of_completing hpoint
              | false =>
                  have hsent : server.task = .sent idx := by
                    simp [htask, Cqe.task, hdecode, hmore]
                  refine .report hsent ?_
                  rw [← hpoint]
                  rfl
          | sendNotif => exact .of_completing hpoint

/-- Every step of the loop is of one of these kinds. -/
theorem pointStep_of_loop {first second : ℕ} {events : List (ServerEvent cfg)}
    (hloop : server.loop first second = some (next, events)) : PointStep server next := by
  unfold loop at hloop
  split at hloop
  · cases hloop
    exact .goOn (fun _ => by simp) (by simp)
  · next hpoint =>
    obtain rfl : server.takeControl.1 = next := congrArg Prod.fst (Option.some.inj hloop)
    unfold takeControl
    split
    · exact .goOn (fun _ => by simp [hpoint]) (by simp [hpoint])
    · exact .goOn (fun _ => by simp [hpoint]) (by simp [hpoint])
    · exact .goOn (fun _ => by simp) (by simp)
  · next pushed hpoint =>
    have hround := pointStep_takeSend hpoint first second
    rwa [congrArg Prod.fst (Option.some.inj hloop)] at hround
  · cases hloop
    exact .goOn (fun _ => by simp) (by simp)
  · cases hloop
    simp only [poll]
    split
    · exact .goOn (fun _ => by simp) (by simp)
    · exact .goOn (fun _ => by simp) (by simp)
  · next hpoint =>
    have hround := pointStep_takeCompletion hpoint first second
    rwa [congrArg Prod.fst (Option.some.inj hloop)] at hround
  · cases hloop

/-- The surroundings leave the loop where it is, and put nothing into the relay. -/
theorem Transition.point {action : ServerAction cfg} {events : List (ServerEvent cfg)}
    (h : server.Transition action next events)
    (hloop : ∀ first second, action ≠ .loop first second) :
    next.point = server.point ∧ next.relay.inTransit ≤ server.relay.inTransit := by
  cases h with
  | rest => exact absurd rfl (hloop _ _)
  | addSession => exact absurd rfl (hloop _ _)
  | postSend => exact absurd rfl (hloop _ _)
  | arrival => exact absurd rfl (hloop _ _)
  | sent => exact absurd rfl (hloop _ _)
  | notified => exact absurd rfl (hloop _ _)
  | dequeue hstep => exact ⟨rfl, (Relay.inTransit_dequeue hstep).le⟩
  | handle hstep =>
      obtain ⟨packet, -, htransit⟩ := Relay.inTransit_handle hstep
      exact ⟨rfl, htransit ▸ Multiset.le_add_right _ _⟩
  | request => exact ⟨rfl, le_rfl⟩
  | submit => exact ⟨rfl, le_rfl⟩
  | receive => exact ⟨rfl, le_rfl⟩
  | failReceive => exact ⟨rfl, le_rfl⟩
  | progressSend => exact ⟨rfl, le_rfl⟩
  | finishSend => exact ⟨rfl, le_rfl⟩

/-- What a completion reports as sent was being sent. -/
theorem sending_of_task {idx : UInt16} (htask : server.task = .sent idx) : server.Sending idx :=
  .inr (mem_completed_of_task htask (.inr rfl))

/-! ## Slices -/

theorem txOut_of_task {dst : SocketAddr} {len : ℕ} {idx : UInt16}
    (htask : server.task = .postSend dst len idx) :
    ∃ rest, server.relay.txOut = (dst, len, idx) :: rest := by
  unfold task at htask
  split at htask
  · split at htask <;> cases htask
  · split at htask
    · next rest htxOut =>
      cases htask
      exact ⟨rest, htxOut⟩
    · cases htask
  · split at htask
    · next cqe cq hnext =>
      unfold Cqe.task at htask
      split at htask
      · cases htask
      · split at htask <;> cases htask
      · cases htask
    · cases htask
  · cases htask

/-- A buffer that is given to `slice_mut` is held. -/
theorem mem_held_of_sliced {action : ServerAction cfg} {idx : UInt16}
    (h : server.sliced action = some idx) : idx ∈ server.held := by
  have hhome : ∀ {task : Task}, server.task = task → task.freed = some idx →
      idx ∈ server.held := by
    intro task htask hfreed
    have hmem : idx ∈ server.completed.filterMap Task.freed :=
      List.mem_filterMap.mpr ⟨task, mem_completed_of_task htask (.inr (by simp [hfreed])), hfreed⟩
    simp [held, home, hmem]
  unfold sliced at h
  split at h
  · split at h
    · next dst len other htask =>
      cases h
      obtain ⟨rest, htxOut⟩ := txOut_of_task htask
      simp [held, away, mem_inTransit_of_txOut htxOut]
    · next other htask => exact hhome htask h
    · next other htask => exact hhome htask h
    · cases h
  · cases h

/-- An index has a live slot from when it is first given to `slice_mut`. -/
theorem Transition.isSome_liveSlots {action : ServerAction cfg}
    {events : List (ServerEvent cfg)} (h : server.Transition action next events) (idx : UInt16) :
    (next.pool.liveSlots idx).isSome ↔
      (server.pool.liveSlots idx).isSome ∨ server.sliced action = some idx := by
  cases h with
  | rest htask hpool => simp [sliced, htask, hpool]
  | addSession htask => simp [sliced, htask]
  | postSend htask htxOut =>
      simp only [sliced, htask, takeSend, htxOut]
      exact BufferPool.isSome_insertSlot
  | arrival htask => simp [sliced, htask, completeRecv, BufferPool.markRecvFor]
  | sent htask =>
      simp only [sliced, htask]
      exact BufferPool.isSome_insertSlot
  | notified htask =>
      simp only [sliced, htask]
      exact BufferPool.isSome_insertSlot
  | receive hop hfill => simpa [sliced, finish, post] using BufferPool.isSome_fill hfill
  | request => simp [sliced]
  | dequeue => simp [sliced]
  | handle => simp [sliced]
  | submit => simp [sliced]
  | failReceive => simp [sliced, finish, post]
  | progressSend => simp [sliced, post]
  | finishSend => simp [sliced, finish, post]

end Server

/-! ## The invariant -/

/-- What no step of the server undoes. -/
structure LoopInv (server : Server cfg) : Prop where
  timed : server.Timed
  running : server.point ≠ .panicked
  batch : ∀ pushed, server.point = .sending pushed →
    pushed + Multiset.card server.relay.inTransit ≤ cfg.poolSize
  slots : ∀ idx, (server.pool.liveSlots idx).isSome → idx.toNat < cfg.poolSize

theorem LoopInv.started (cfg : Config) : LoopInv (Server.started cfg) where
  timed := Server.timed_started cfg
  running := by simp [Server.started]
  batch pushed hpoint := by cases hpoint
  slots idx hslot := by
    by_contra hlarge
    simp [Server.started, hlarge] at hslot

section LoopInv

variable {c : Server cfg × List (ServerEvent cfg)} {next : Server cfg}
  {events : List (ServerEvent cfg)}

theorem LoopInv.loop {first second : ℕ} (hc : (serverMachine cfg).Reachable (next, events))
    (h : LoopInv c.1) {new : List (ServerEvent cfg)}
    (hloop : c.1.loop first second = some (next, new)) :
    next.point ≠ .panicked ∧ ∀ pushed, next.point = .sending pushed →
      pushed + Multiset.card next.relay.inTransit ≤ cfg.poolSize := by
  cases Server.pointStep_of_loop hloop with
  | @count before idx hbefore hafter htransit =>
      refine ⟨by simp [hafter], fun pushed hpoint => ?_⟩
      obtain rfl : before + 1 = pushed := by simpa [hafter] using hpoint
      have hbatch := h.batch before hbefore
      rw [htransit, Multiset.card_add, Multiset.card_singleton] at hbatch
      omega
  | report htask hpoint =>
      rw [if_pos (h.timed _ (Server.sending_of_task htask))] at hpoint
      exact ⟨by simp [hpoint], fun pushed hsending => by simp [hpoint] at hsending⟩
  | goOn hcount hrunning =>
      refine ⟨hrunning, fun pushed hpoint => ?_⟩
      cases pushed with
      | zero => simpa using Server.card_inTransit_le hc
      | succ pushed => exact absurd hpoint (hcount pushed)

theorem LoopInv.step {action : ServerAction cfg} (hc : (serverMachine cfg).Reachable c)
    (h : LoopInv c.1) (hstep : c.1.step action = some (next, events)) : LoopInv next := by
  have htransition := Server.transition_of_step hstep
  have hafter : (serverMachine cfg).Reachable (next, c.2 ++ events) :=
    hc.step (Machine.traced_step.mpr ⟨next, events, hstep, rfl⟩)
  have hpoint : next.point ≠ .panicked ∧ ∀ pushed, next.point = .sending pushed →
      pushed + Multiset.card next.relay.inTransit ≤ cfg.poolSize := by
    by_cases hloop : ∃ first second, action = .loop first second
    · obtain ⟨first, second, rfl⟩ := hloop
      exact h.loop hafter hstep
    · obtain ⟨hsame, htransit⟩ := htransition.point
        fun first second heq => hloop ⟨first, second, heq⟩
      rw [hsame]
      exact ⟨h.running, fun pushed hpushed =>
        (Nat.add_le_add_left (Multiset.card_le_card htransit) _).trans (h.batch pushed hpushed)⟩
  refine ⟨htransition.timed (nodup_held hc) h.timed, hpoint.1, hpoint.2, fun idx hslot => ?_⟩
  rcases (htransition.isSome_liveSlots idx).mp hslot with hold | hsliced
  · exact h.slots idx hold
  · exact toNat_lt_of_mem_held hc (Server.mem_held_of_sliced hsliced)

theorem loopInv_of_reachable (hc : (serverMachine cfg).Reachable c) : LoopInv c.1 := by
  refine Machine.Reachable.induct (P := fun c => LoopInv c.1) ?_ ?_ hc
  · rw [serverMachine_init]
    exact .started cfg
  · intro d action e hd h hstep
    obtain ⟨next, events, hnext, rfl⟩ := Machine.traced_step.mp hstep
    exact h.step hd hnext

end LoopInv

/-! ## Panics -/

/-- Nothing in the loop panics. -/
structure CannotPanic (c : Server cfg × List (ServerEvent cfg)) : Prop where
  /-- No `unwrap` has failed, -/
  running : c.1.point ≠ .panicked
  /-- nor will one when the last completion of a send is processed: the record that is
  taken then is complete. -/
  timed : ∀ {idx timing}, c.1.task = .sent idx →
    ((c.1.release idx).1.pool.takeRecvFor idx).1 = some timing →
    timing.shardDoneAt.isSome ∧ timing.sendSqeAt.isSome
  /-- The router of the source, which the relay's stands for, is in bounds. -/
  refines : (indexRouter c).Refines c.1.relay.router
  inBounds : (indexRouter c).InBounds
  /-- So is every slice of the memory, of the buffers that were given to `slice_mut` -/
  slots : ∀ idx, (c.1.pool.liveSlots idx).isSome → (idx.toNat + 1) * bufferSize ≤ memoryLen cfg
  /-- and of the one that the next step gives to it. -/
  slices : ∀ {action idx}, c.1.sliced action = some idx →
    (idx.toNat + 1) * bufferSize ≤ memoryLen cfg
  /-- The counter of a batch counts different buffers. -/
  pushed : ∀ {pushed}, c.1.point = .sending pushed → pushed ≤ cfg.poolSize

/-- The event loop cannot panic: in every reachable state, for every order of completions,
failed operations and dropped packets. -/
theorem loop_cannot_panic {c : Server cfg × List (ServerEvent cfg)}
    (hc : (serverMachine cfg).Reachable c) : CannotPanic c where
  running := (loopInv_of_reachable hc).running
  timed {idx timing} htask htake := by
    have hcomplete := (loopInv_of_reachable hc).timed idx (Server.sending_of_task htask)
    have htiming : c.1.pool.timestamp idx = some timing := htake
    rw [htiming] at hcomplete
    simpa [Server.reportable] using hcomplete
  refines := indexRouter_refines hc
  inBounds := IndexRouter.inBounds_ofSessions cfg.shardNum_pos _
  slots idx hslot := succ_mul_bufferSize_le ((loopInv_of_reachable hc).slots idx hslot)
  slices hsliced := succ_mul_bufferSize_le
    (toNat_lt_of_mem_held hc (Server.mem_held_of_sliced hsliced))
  pushed hpoint := Nat.le_of_add_right_le ((loopInv_of_reachable hc).batch _ hpoint)

theorem loop_cannot_panic_relayOnce :
    ∃ server, (serverMachine .main).exec (serverMachine .main).init relayOnce =
      some (server, relayOnceTrace) ∧ CannotPanic (server, relayOnceTrace) := by
  obtain ⟨server, hexec⟩ := exec_relayOnce
  exact ⟨server, hexec, loop_cannot_panic ⟨relayOnce, hexec⟩⟩

end P2PNetworking.TurnServer
