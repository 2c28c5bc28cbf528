/-
# Is there room in the submission queue?

A push fails on the loop's copy of the head, and the loop renews its copy only after
seeding and after a batch of sends.  What the kernel takes in between goes unnoticed, so
there is room as long as the loop posts no more operations between two looks at the
head than the kernel had left free at the first.  A kernel that has always caught up
when the loop looks leaves room for everything: an operation waits in the queue for a
buffer of its own.
-/

import P2PNetworking.TurnServer.SingleOwner

namespace P2PNetworking.TurnServer

open P2PNetworking.Net P2PNetworking.Lib

variable {cfg : Config}

/-! ## What the loop does with the queue -/

/-- The operation that a task gives to the submission queue. -/
def Task.entry : Task → Option Sqe
  | .postSend _ _ idx => some (Opcode.sendMsgZc.build idx)
  | .sent idx | .notified idx => some (Opcode.recvMsg.build idx)
  | .addSession _ | .arrival _ _ | .rest => none

/-- A receive is posted for a buffer that is set free. -/
theorem Task.isSome_freed {task : Task} {sqe : Sqe} (hentry : task.entry = some sqe)
    (hrecv : sqe.opcode = .recvMsg) : task.freed.isSome := by
  cases task with
  | postSend dst len idx =>
      cases hentry
      cases hrecv
  | sent idx | notified idx => rfl
  | addSession session | arrival idx len | rest => cases hentry

theorem Task.freed_eq_none {task : Task} (hentry : task.entry = none) : task.freed = none := by
  cases task with
  | sent idx | notified idx => cases hentry
  | postSend dst len idx | addSession session | arrival idx len | rest => rfl

/-- A completion that leads to a new operation sets a buffer free. -/
theorem Cqe.isSome_freed (cqe : Cqe) {sqe : Sqe} (hentry : cqe.task.entry = some sqe) :
    cqe.task.freed.isSome := by
  unfold Cqe.task at hentry ⊢
  split at hentry
  · cases hentry
  · split at hentry
    · cases hentry
    · next hmore => simp [hmore, Task.freed]
  · rfl

namespace Server

/-- The loop is about to read the head of the queue again. -/
def ReadsHead (server : Server cfg) : Prop :=
  server.point = .seeded ∨ server.point = .published

instance (server : Server cfg) : Decidable server.ReadsHead :=
  inferInstanceAs (Decidable (_ ∨ _))

/-- The loop has posted sends that it has not published. -/
def InBatch (server : Server cfg) : Prop := ∃ pushed, server.point = .sending (pushed + 1)

/-- What a step does to the submission queue. -/
inductive RingStep (server : Server cfg) : ServerAction cfg → Server cfg → Prop
  | surroundings {action : ServerAction cfg} {next : Server cfg}
      (hloop : ∀ first second, action ≠ .loop first second) (hsq : next.sq = server.sq)
      (hpoint : next.point = server.point) : RingStep server action next
  | take {next : Server cfg} {sqe : Sqe} (htake : server.sq.take = some (sqe, next.sq))
      (hpoint : next.point = server.point) : RingStep server .submit next
  | readHead {first second : ℕ} {next : Server cfg} (hreads : server.ReadsHead)
      (hsq : next.sq = server.sq.refresh) (hpoint : ¬ next.ReadsHead ∧ ¬ next.InBatch) :
      RingStep server (.loop first second) next
  | publish {first second : ℕ} {next : Server cfg} (hbatch : server.InBatch)
      (hdry : server.relay.txOut = []) (hsq : next.sq = server.sq.publish)
      (hpoint : next.point = .published) : RingStep server (.loop first second) next
  | post {first second : ℕ} {next : Server cfg} {sqe : Sqe}
      (hentry : server.task.entry = some sqe)
      (hsq : next.sq = (server.sq.push cfg.ringEntries sqe).getD server.sq)
      (hpoint : ¬ next.ReadsHead)
      (hbatch : (sqe.opcode = .sendMsgZc ∧ next.InBatch) ∨
        (sqe.opcode = .recvMsg ∧ ¬ server.InBatch ∧ ¬ next.InBatch)) :
      RingStep server (.loop first second) next
  | quiet {first second : ℕ} {next : Server cfg} (hreads : ¬ server.ReadsHead)
      (hentry : server.task.entry = none) (hbatch : ¬ server.InBatch)
      (hsq : next.sq = server.sq) (hpoint : ¬ next.ReadsHead ∧ ¬ next.InBatch) :
      RingStep server (.loop first second) next

section RingStep

variable {server next : Server cfg}

/-- While a task posts an operation the head is not read. -/
theorem not_readsHead_of_entry {sqe : Sqe} (h : server.task.entry = some sqe) :
    ¬ server.ReadsHead := by
  rintro (hpoint | hpoint)
  · simp [task, hpoint, Task.entry] at h
  · simp [task, hpoint, Task.entry] at h

theorem ringStep_takeControl (hpoint : server.point = .control) (first second : ℕ) :
    RingStep server (.loop first second) server.takeControl.1 := by
  have hreads : ¬ server.ReadsHead := by simp [ReadsHead, hpoint]
  have hbatch : ¬ server.InBatch := by simp [InBatch, hpoint]
  unfold takeControl
  split
  · next session rest hcontrol =>
    exact .quiet hreads (by simp [task, hpoint, hcontrol, Task.entry]) hbatch rfl ⟨hreads, hbatch⟩
  · next packet rest hcontrol =>
    exact .quiet hreads (by simp [task, hpoint, hcontrol, Task.entry]) hbatch rfl ⟨hreads, hbatch⟩
  · next hcontrol =>
    exact .quiet hreads (by simp [task, hpoint, hcontrol, Task.entry]) hbatch rfl
      (by simp [ReadsHead, InBatch])

theorem ringStep_takeSend {pushed : ℕ} (hpoint : server.point = .sending pushed)
    (first second : ℕ) :
    RingStep server (.loop first second) (server.takeSend pushed first second).1 := by
  have hreads : ¬ server.ReadsHead := by simp [ReadsHead, hpoint]
  cases htxOut : server.relay.txOut with
  | nil =>
      simp only [takeSend, htxOut]
      split
      · next hpos =>
        obtain ⟨n, rfl⟩ := Nat.exists_eq_succ_of_ne_zero (Nat.pos_iff_ne_zero.mp hpos)
        exact .publish ⟨n, hpoint⟩ htxOut rfl rfl
      · next hzero =>
        obtain rfl : pushed = 0 := by omega
        exact .quiet hreads (by simp [task, hpoint, htxOut, Task.entry])
          (by simp [InBatch, hpoint]) rfl (by simp [ReadsHead, InBatch])
  | cons entry rest =>
      obtain ⟨dst, len, idx⟩ := entry
      simp only [takeSend, htxOut]
      have hentry : server.task.entry = some (Opcode.sendMsgZc.build idx) := by
        simp [task, hpoint, htxOut, Task.entry]
      exact .post hentry rfl (by simp [ReadsHead]) (.inl ⟨rfl, pushed, rfl⟩)

/-- The loop goes on with completions after a send, or has panicked. -/
theorem point_completeSend (server : Server cfg) (idx : UInt16) :
    (server.completeSend idx).1.point = server.point ∨
      (server.completeSend idx).1.point = .panicked := by
  simp only [completeSend]
  split
  · exact .inl rfl
  · exact .inr rfl

theorem ringStep_takeCompletion (hpoint : server.point = .completing) (first second : ℕ) :
    RingStep server (.loop first second) (server.takeCompletion first second).1 := by
  have hreads : ¬ server.ReadsHead := by simp [ReadsHead, hpoint]
  have hbatch : ¬ server.InBatch := by simp [InBatch, hpoint]
  cases hnext : server.cq.next with
  | none =>
      simp only [takeCompletion, hnext]
      exact .quiet hreads (by simp [task, hpoint, hnext, Task.entry]) hbatch rfl
        (by simp [ReadsHead, InBatch])
  | some result =>
      obtain ⟨cqe, cq⟩ := result
      have htask : server.task = cqe.task := by simp only [task, hpoint, hnext]
      cases hdecode : decodeToken cqe.userData with
      | mk op idx =>
          cases op with
          | recv =>
              simp only [takeCompletion, hnext, hdecode]
              exact .quiet hreads (by simp [htask, Cqe.task, hdecode, Task.entry]) hbatch rfl
                ⟨hreads, hbatch⟩
          | send =>
              cases hmore : more cqe.flags with
              | true =>
                  simp only [takeCompletion, hnext, hdecode, hmore]
                  exact .quiet hreads (by simp [htask, Cqe.task, hdecode, hmore, Task.entry])
                    hbatch rfl ⟨hreads, hbatch⟩
              | false =>
                  simp only [takeCompletion, hnext, hdecode, hmore, Bool.not_false, if_true]
                  have hafter : ¬ ({ server with cq := cq }.completeSend idx).1.ReadsHead ∧
                      ¬ ({ server with cq := cq }.completeSend idx).1.InBatch := by
                    rcases point_completeSend { server with cq := cq } idx with heq | heq
                    · simp [ReadsHead, InBatch, heq.trans hpoint]
                    · simp [ReadsHead, InBatch, heq]
                  have hentry : server.task.entry = some (Opcode.recvMsg.build idx) := by
                    simp [htask, Cqe.task, hdecode, hmore, Task.entry]
                  exact .post hentry rfl hafter.1 (.inr ⟨rfl, hbatch, hafter.2⟩)
          | sendNotif =>
              simp only [takeCompletion, hnext, hdecode]
              have hentry : server.task.entry = some (Opcode.recvMsg.build idx) := by
                simp [htask, Cqe.task, hdecode, Task.entry]
              exact .post hentry rfl hreads (.inr ⟨rfl, hbatch, hbatch⟩)

/-- Every step is of one of these kinds. -/
theorem ringStep_of_step {action : ServerAction cfg} {events : List (ServerEvent cfg)}
    (hstep : server.step action = some (next, events)) : RingStep server action next := by
  cases action with
  | loop first second =>
      simp only [step, loop] at hstep
      cases hpoint : server.point with
      | seeded =>
          simp only [hpoint] at hstep
          cases hstep
          exact .readHead (.inl hpoint) rfl (by simp [ReadsHead, InBatch])
      | control =>
          simp only [hpoint, Option.some.injEq] at hstep
          have hround := ringStep_takeControl hpoint first second
          rwa [hstep] at hround
      | sending pushed =>
          simp only [hpoint, Option.some.injEq] at hstep
          have hround := ringStep_takeSend hpoint first second
          rwa [hstep] at hround
      | published =>
          simp only [hpoint] at hstep
          cases hstep
          exact .readHead (.inr hpoint) rfl (by simp [ReadsHead, InBatch])
      | polling =>
          simp only [hpoint] at hstep
          cases hstep
          refine .quiet (by simp [ReadsHead, hpoint]) (by simp [task, hpoint, Task.entry])
            (by simp [InBatch, hpoint]) rfl ?_
          simp only [ReadsHead, InBatch, poll]
          split <;> simp
      | completing =>
          simp only [hpoint, Option.some.injEq] at hstep
          have hround := ringStep_takeCompletion hpoint first second
          rwa [hstep] at hround
      | panicked =>
          simp only [hpoint] at hstep
          cases hstep
  | submit =>
      cases transition_of_step hstep with
      | submit htake => exact .take htake rfl
  | request | dequeue | handle | receive | failReceive | progressSend | finishSend =>
      cases transition_of_step hstep
      exact .surroundings (by simp) rfl rfl

end RingStep

/-! ## Exactly when there is room -/

/-- The queue takes what the loop posts. -/
def PushSucceeds (server : Server cfg) : ServerAction cfg → Prop
  | .loop _ _ => ∀ sqe, server.task.entry = some sqe →
      (server.sq.push cfg.ringEntries sqe).isSome
  | _ => True

/-- How many operations the loop may post until it reads the head again: when it reads
it, as many as the entries that the kernel has left in the queue leave free. -/
def freeAfter (free : ℕ) (server : Server cfg) : ServerAction cfg → ℕ
  | .loop _ _ =>
      if server.ReadsHead then cfg.ringEntries - server.sq.entries.length
      else if server.task.entry.isSome then free - 1
      else free
  | _ => free

/-- An operation is posted only while some are left. -/
def WithinFree (free : ℕ) (server : Server cfg) : ServerAction cfg → Prop
  | .loop _ _ => server.task.entry.isSome → 0 < free
  | _ => True

instance (free : ℕ) (server : Server cfg) (action : ServerAction cfg) :
    Decidable (server.WithinFree free action) :=
  match action with
  | .loop _ _ => inferInstanceAs (Decidable (_ → 0 < free))
  | .request _ => .isTrue trivial
  | .dequeue _ _ => .isTrue trivial
  | .handle _ => .isTrue trivial
  | .submit => .isTrue trivial
  | .receive _ _ _ _ => .isTrue trivial
  | .failReceive _ _ _ => .isTrue trivial
  | .progressSend _ _ _ => .isTrue trivial
  | .finishSend _ _ _ => .isTrue trivial

section Free

variable {server next : Server cfg} {action : ServerAction cfg} {free : ℕ}

/-- What is left is what the loop's count of the queue leaves. -/
theorem withinFree_iff_pushSucceeds (hfree : free + server.sq.length = cfg.ringEntries)
    (action : ServerAction cfg) :
    server.WithinFree free action ↔ server.PushSucceeds action := by
  cases action with
  | loop first second =>
      have hroom : 0 < free ↔ server.sq.HasRoom cfg.ringEntries := by
        unfold SubmissionRing.HasRoom
        omega
      simp only [WithinFree, PushSucceeds, SubmissionRing.isSome_push_iff, hroom]
      constructor
      · intro h sqe hentry
        exact h (by rw [hentry]; rfl)
      · intro h hsome
        obtain ⟨sqe, hentry⟩ := Option.isSome_iff_exists.mp hsome
        exact h sqe hentry
  | _ => exact Iff.rfl

theorem RingStep.freeAfter_add (hstep : RingStep server action next)
    (hfree : free + server.sq.length = cfg.ringEntries) (hpush : server.PushSucceeds action) :
    server.freeAfter free action + next.sq.length = cfg.ringEntries := by
  cases hstep with
  | surroundings hloop hsq =>
      rw [hsq]
      cases action with
      | loop first second => exact absurd rfl (hloop first second)
      | _ => exact hfree
  | take htake =>
      rw [SubmissionRing.length_take htake]
      exact hfree
  | readHead hreads hsq =>
      have hle := server.sq.length_entries_le
      rw [hsq, SubmissionRing.length_refresh, freeAfter, if_pos hreads]
      omega
  | publish hbatch hdry hsq =>
      obtain ⟨pushed, hpoint⟩ := hbatch
      have hreads : ¬ server.ReadsHead := by simp [ReadsHead, hpoint]
      have hentry : server.task.entry = none := by simp [task, hpoint, hdry, Task.entry]
      rw [hsq, SubmissionRing.length_publish, freeAfter, if_neg hreads, hentry]
      exact hfree
  | @post _ _ _ sqe hentry hsq =>
      have hsome := hpush sqe hentry
      have hroom : server.sq.length ≠ cfg.ringEntries := SubmissionRing.isSome_push_iff.mp hsome
      rw [hsq, SubmissionRing.length_push hsome, freeAfter,
        if_neg (not_readsHead_of_entry hentry), hentry, Option.isSome_some, if_pos rfl]
      omega
  | quiet hreads hentry _ hsq =>
      rw [hsq, freeAfter, if_neg hreads, hentry]
      exact hfree

end Free

end Server

/-- No push fails exactly if the loop never posts more operations between two looks at
the head than the kernel had left free at the first. -/
theorem pushes_succeed_iff (actions : List (ServerAction cfg)) :
    (serverMachine cfg).Along (fun c action => c.1.PushSucceeds action)
        (serverMachine cfg).init actions ↔
      (serverMachine cfg).AlongWith (fun free c action => c.1.freeAfter free action)
        (fun free c action => c.1.WithinFree free action) (cfg.ringEntries - cfg.poolSize)
        (serverMachine cfg).init actions := by
  refine (Machine.alongWith_iff_along (R := fun free c =>
    free + c.1.sq.length = cfg.ringEntries) ?_ ?_ ?_ actions).symm
  · intro free c action hfree
    exact Server.withinFree_iff_pushSucceeds hfree action
  · rintro free c action d hfree hpush hstep
    obtain ⟨next, events, hnext, rfl⟩ := Machine.traced_step.mp hstep
    exact (Server.ringStep_of_step hnext).freeAfter_add hfree hpush
  · have hle := cfg.poolSize_le_ringEntries
    rw [serverMachine_init]
    simp only [Server.started, SubmissionRing.length, List.length_map, length_indicesBelow,
      List.length_nil]
    omega

/-! ## A kernel that keeps up -/

namespace Server

/-- The kernel has taken everything it can see when the loop reads the head. -/
def CaughtUp (server : Server cfg) : ServerAction cfg → Prop
  | .loop _ _ => server.ReadsHead → server.sq.published = []
  | _ => True

/-- Unless the head is about to be read, only unpublished entries count. -/
def OnlyUnpublished (server : Server cfg) : Prop :=
  ¬ server.ReadsHead → server.sq.taken = 0 ∧ server.sq.published = []

theorem OnlyUnpublished.step {server next : Server cfg} {action : ServerAction cfg}
    (h : server.OnlyUnpublished) (hcaught : server.CaughtUp action)
    (hstep : RingStep server action next) : next.OnlyUnpublished := by
  cases hstep with
  | surroundings _ hsq hpoint =>
      unfold OnlyUnpublished ReadsHead
      rw [hsq, hpoint]
      exact h
  | take htake hpoint =>
      intro hreads
      rw [ReadsHead, hpoint] at hreads
      rw [SubmissionRing.take, (h hreads).2] at htake
      cases htake
  | readHead hreads hsq =>
      intro _
      rw [hsq]
      exact ⟨rfl, hcaught hreads⟩
  | publish _ _ _ hpoint => exact fun hreads => absurd (.inr hpoint) hreads
  | post hentry hsq =>
      intro _
      have hbefore := h (not_readsHead_of_entry hentry)
      rw [hsq, SubmissionRing.push]
      split
      · exact hbefore
      · exact hbefore
  | quiet hreads _ _ hsq =>
      intro _
      rw [hsq]
      exact h hreads

/-- An operation to be posted is for a buffer that is with a packet or a completion. -/
theorem exists_mem_of_entry {server : Server cfg} {sqe : Sqe}
    (hentry : server.task.entry = some sqe) :
    ∃ idx, idx ∈ server.completed.filterMap Task.freed ∨ idx ∈ server.relay.inTransit := by
  unfold task at hentry
  split at hentry
  · split at hentry <;> cases hentry
  · split at hentry
    · next htxOut => exact ⟨_, .inr (mem_inTransit_of_txOut htxOut)⟩
    · cases hentry
  · split at hentry
    · next cqe cq hnext =>
      obtain ⟨idx, hfreed⟩ := Option.isSome_iff_exists.mp (cqe.isSome_freed hentry)
      exact ⟨idx, .inl (mem_freed_of_next hnext hfreed)⟩
    · cases hentry
  · cases hentry

/-- So at least one buffer of the pool is not in the queue. -/
theorem length_entries_lt {c : Server cfg × List (ServerEvent cfg)}
    (hc : (serverMachine cfg).Reachable c) {sqe : Sqe} (hentry : c.1.task.entry = some sqe) :
    c.1.sq.entries.length < cfg.poolSize := by
  have hcard := card_held_le hc
  have hsubmitted : c.1.sq.entries.length ≤ c.1.submitted.length := by
    rw [submitted, List.length_append]
    exact Nat.le_add_right _ _
  obtain ⟨idx, hplace⟩ := exists_mem_of_entry hentry
  have helsewhere : 0 < (c.1.completed.filterMap Task.freed).length +
      Multiset.card c.1.relay.inTransit := by
    rcases hplace with hmem | hmem
    · have := List.length_pos_of_mem hmem
      omega
    · have := Multiset.card_pos_iff_exists_mem.mpr ⟨idx, hmem⟩
      omega
  simp only [held, home, away, Multiset.card_add, Multiset.coe_card, List.length_map] at hcard
  omega

end Server

/-- If the kernel has caught up whenever the loop looks, no push fails. -/
theorem pushes_succeed_of_caughtUp {actions : List (ServerAction cfg)}
    (hcaught : (serverMachine cfg).Along (fun c action => c.1.CaughtUp action)
      (serverMachine cfg).init actions) :
    (serverMachine cfg).Along (fun c action => c.1.PushSucceeds action)
      (serverMachine cfg).init actions := by
  refine Machine.along_iff_forall.mpr ?_
  rintro before action after c rfl hexec
  have hqueue : c.1.OnlyUnpublished := by
    refine Machine.along_induct (P := fun c : Server cfg × List (ServerEvent cfg) =>
      c.1.OnlyUnpublished) ?_ ?_ hexec ((Machine.along_append hexec).mp hcaught).1
    · rw [serverMachine_init]
      exact fun hreads => absurd (.inl rfl) hreads
    · rintro c action d - h hguard hstep
      obtain ⟨next, events, hnext, rfl⟩ := Machine.traced_step.mp hstep
      exact h.step hguard (Server.ringStep_of_step hnext)
  cases action with
  | loop first second =>
      intro sqe hentry
      have hlt := Server.length_entries_lt ⟨before, hexec⟩ hentry
      have hle := cfg.poolSize_le_ringEntries
      obtain ⟨htaken, hpublished⟩ := hqueue (Server.not_readsHead_of_entry hentry)
      have hlength : c.1.sq.length = c.1.sq.entries.length := by
        simp [SubmissionRing.length, SubmissionRing.entries, htaken, hpublished]
      refine SubmissionRing.isSome_push_iff.mpr ?_
      rw [SubmissionRing.HasRoom, hlength]
      omega
  | _ => exact trivial

/-- The loop looks at the head before the kernel has taken anything, and then comes to
the first packet. -/
def staleHead : List (ServerAction .main) :=
  [.loop 0 0, .request (.addSession ⟨.v4 1 1, .v4 2 2⟩), .submit,
    .receive 0 (.v4 1 1) [7, 7, 7] 0, .loop 0 0, .loop 0 0, .loop 0 0, .loop 0 0, .loop 3 4,
    .dequeue Config.main.firstShard (.replicate 16 1),
    .dequeue Config.main.firstShard (.replicate 16 1), .handle Config.main.firstShard,
    .loop 0 0, .loop 0 0]

/-- The queue has a free entry, and yet the push fails. -/
theorem stale_head_rejects_send :
    ∃ c, (serverMachine .main).exec (serverMachine .main).init staleHead = some c ∧
      c.1.sq.entries.length < Config.main.ringEntries ∧
      ¬ c.1.PushSucceeds (.loop 5 6) := by
  have hrun : ∃ c, (serverMachine .main).exec (.started .main, []) staleHead = some c ∧
      c.1.sq.entries.length < Config.main.ringEntries ∧
      c.1.task.entry = some (Opcode.sendMsgZc.build 1023) ∧
      (c.1.sq.push Config.main.ringEntries (Opcode.sendMsgZc.build 1023)).isSome = false :=
    ⟨((serverMachine .main).exec (.started .main, []) staleHead).get (by decide +kernel),
      (Option.some_get _).symm, by decide +kernel, by decide +kernel, by decide +kernel⟩
  obtain ⟨c, hexec, hspare, hentry, hfull⟩ := hrun
  refine ⟨c, by rw [serverMachine_init, hexec], hspare, fun h => ?_⟩
  rw [h _ hentry] at hfull
  cases hfull

end P2PNetworking.TurnServer
