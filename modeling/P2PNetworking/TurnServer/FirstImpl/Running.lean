/-
# The loop keeps running

The loop of the first implementation can come to a halt in two ways: an `unwrap` of the report
on a packet fails, or a channel that it sends to stays full.  The first never happens, since
a buffer has one holder and the record of its packet is complete by the time that a send of it
is over.  The second does not happen when a channel can hold as many messages as there are
buffers, since a message always brings a buffer.
-/

import P2PNetworking.TurnServer.FirstImpl.Books
import P2PNetworking.TurnServer.Sends
import Mathlib.Algebra.Order.BigOperators.Group.Finset

namespace P2PNetworking.TurnServer.FirstImpl

open P2PNetworking.Net P2PNetworking.Lib

/-- The buffer whose memory the event is about to slice. -/
def ServerEvent.sliced : ServerEvent → Option UInt16
  | .postedRecv idx _ => some idx
  | .postedSend entry _ => some entry.2.2
  | _ => none

/-- The queue had no room for what the loop posted. -/
def ServerEvent.pushFailed : ServerEvent → Bool
  | .postedRecv _ pushed | .postedSend _ pushed => !pushed
  | _ => false

namespace Server

variable {cfg : Config} {server next : Server cfg} {action : ServerAction cfg}
  {events : List ServerEvent}

/-! ## Timing records -/

/-- A send of the buffer is submitted, or is over and has not been reported. -/
def Sending (server : Server cfg) : UInt16 → Prop := SendOf server.submitted server.completed

theorem Sending.mem_inRing {idx : UInt16} (h : server.Sending idx) : idx ∈ server.inRing := by
  unfold inRing
  rcases h.buffer with hsubmitted | hsent
  · simp [hsubmitted]
  · have hbuffer : idx ∈ server.completed.filterMap taskBuffer :=
      List.mem_filterMap.mpr ⟨_, hsent, rfl⟩
    simp [hbuffer]

/-- The same operations and fewer completions. -/
theorem Sending.mono {idx : UInt16} (h : next.Sending idx)
    (hsubmitted : ∀ sqe ∈ next.submitted, sqe.opcode = .sendMsgZc → sqe ∈ server.submitted)
    (hcompleted : ∀ task ∈ next.completed, task ∈ server.completed) : server.Sending idx := by
  rcases h with ⟨sqe, hmem, hopcode, hidx⟩ | hsent
  · exact .inl ⟨sqe, hsubmitted sqe hmem hopcode, hopcode, hidx⟩
  · exact .inr (hcompleted _ hsent)

/-- What is left when the loop has taken a completion. -/
theorem mem_completed_of_completing {cqe : Cqe} {rest : List Cqe} {task : Task}
    (hpoint : server.point = .completing (cqe :: rest)) (h : task ∈ next.completed)
    (hcq : next.io.cq = server.io.cq) (hinHand : next.point.inHand = rest) :
    task ∈ server.completed := by
  rw [completed, hinHand, hcq] at h
  rw [completed, hpoint]
  exact List.mem_cons_of_mem _ h

/-- An entry that has been pushed is among the operations, if there was room. -/
theorem mem_submitted_push {opcode : Opcode} {idx : UInt16} {sqe : Sqe}
    (hsq : next.io.sq =
      (server.io.sq.push cfg.ringEntries (opcode.build idx)).getD server.io.sq)
    (hoperations : next.io.operations = server.io.operations) (h : sqe ∈ next.submitted) :
    sqe ∈ server.submitted ∨ sqe = opcode.build idx := by
  rw [submitted, hsq, hoperations] at h
  rcases List.mem_append.mp h with hentry | hoperation
  · exact (SubmissionRing.mem_entries_push hentry).imp_left (List.mem_append_left _)
  · exact .inl (List.mem_append_right _ hoperation)

/-- A posted receive makes no send. -/
theorem sending_of_repost {cqe : Cqe} {rest : List Cqe} {idx other : UInt16}
    (h : next.Sending idx) (hpoint : server.point = .completing (cqe :: rest))
    (hsq : next.io.sq =
      (server.io.sq.push cfg.ringEntries (Opcode.recvMsg.build other)).getD server.io.sq)
    (hoperations : next.io.operations = server.io.operations)
    (hcq : next.io.cq = server.io.cq) (hinHand : next.point.inHand = rest) :
    server.Sending idx := by
  exact h.of_repost (fun _ => mem_submitted_push hsq hoperations)
    fun _ htask => mem_completed_of_completing hpoint htask hcq hinHand

/-- A completion that the kernel posts is about one of its operations. -/
theorem sending_of_post (io : IoRing) {opcode : Opcode} {position : ℕ} {sqe : Sqe} {result : ℤ}
    {flags : UInt32} {idx : UInt16} (hop : server.io.operation opcode position = some sqe)
    (hcq : io.cq = server.io.cq)
    (hentries : ∀ entry ∈ io.sq.entries ++ io.operations, entry ∈ server.submitted)
    (hsending : ({ server with io := io.post sqe result flags } : Server cfg).Sending idx) :
    server.Sending idx := by
  obtain ⟨hsome, -⟩ := Option.filter_eq_some_iff.mp hop
  rw [Sending, completed_post server io sqe result flags hcq] at hsending
  exact hsending.of_completion (List.mem_append_right _ (List.mem_of_getElem? hsome)) hentries

/-- The same for the last completion of an operation. -/
theorem sending_of_finish {pool : BufferPool} {opcode : Opcode} {position : ℕ} {sqe : Sqe}
    {result : ℤ} {flags : UInt32} {idx : UInt16}
    (hop : server.io.operation opcode position = some sqe)
    (hsending : ({ server with
      io := { server.io with pool := pool }.finish position sqe result flags } :
        Server cfg).Sending idx) : server.Sending idx := by
  refine sending_of_post { server.io with
    pool := pool, operations := server.io.operations.eraseIdx position } hop rfl ?_ hsending
  intro entry hmem
  rcases List.mem_append.mp hmem with hentry | hoperation
  · exact List.mem_append_left _ hentry
  · exact List.mem_append_right _ (List.mem_of_mem_eraseIdx hoperation)

/-- The kernel makes no send. -/
theorem sending_of_kernel {io : IoRing} (h : server.io.Kernel io events) {idx : UInt16}
    (hsending : ({ server with io := io } : Server cfg).Sending idx) : server.Sending idx := by
  cases h with
  | submit htake =>
      apply hsending.mono
      · intro sqe hmem _
        simp only [submitted, SubmissionRing.entries_take htake, List.mem_append, List.mem_cons,
          List.not_mem_nil, or_false] at hmem ⊢
        tauto
      · exact fun _ => id
  | receive hop _ => exact sending_of_finish hop hsending
  | failReceive hop => exact sending_of_finish hop hsending
  | progressSend hop => exact sending_of_post _ hop rfl (fun _ => id) hsending
  | finishSend hop => exact sending_of_finish hop hsending

/-- The packet has been given to its shard, if there is a record of it. -/
def RoutedAt (timing : Option PacketTiming) : Prop := ∀ t ∈ timing, t.shardDoneAt.isSome

/-- A send of it has been posted, if there is a record of it. -/
def SentAt (timing : Option PacketTiming) : Prop := ∀ t ∈ timing, t.sendSqeAt.isSome

/-- The two together make a record that can be reported. -/
theorem reportable_of_routedAt {timing : Option PacketTiming} (hrouted : RoutedAt timing)
    (hsent : SentAt timing) : TurnServer.Server.reportable timing = true := by
  cases timing with
  | none => rfl
  | some t => exact Bool.and_eq_true_iff.mpr ⟨hrouted t rfl, hsent t rfl⟩

/-- Only the loop makes a send, and then marks its record. -/
theorem Transition.sending (h : server.Transition action next events) {idx : UInt16}
    (hsending : next.Sending idx) :
    server.Sending idx ∨ SentAt (next.io.pool.timestamp idx) := by
  cases h with
  | @readHead first second point hreads hpoint =>
      left
      have hafter : point.inHand = [] := by rcases hpoint with h | h <;> rw [h] <;> rfl
      apply hsending.mono
      · exact fun _ hmem _ => hmem
      · intro task htask
        simp only [completed, hafter, List.nil_append] at htask
        simp only [completed, List.map_append, List.mem_append]
        exact .inr htask
  | @postSend first second pushed entry rest hpoint htxOut =>
      have hpushed : ∀ sqe ∈ (server.postSend entry rest pushed first).submitted,
          sqe ∈ server.submitted ∨ sqe = Opcode.sendMsgZc.build entry.2.2 :=
        fun _ => mem_submitted_push rfl rfl
      have hcompleted : ∀ task ∈ (server.postSend entry rest pushed first).completed,
          task ∈ server.completed := by
        intro task htask
        simpa only [completed, Server.postSend, hpoint, LoopPoint.inHand] using htask
      rcases hsending.of_post hpushed hcompleted with hold | rfl
      · exact .inl hold
      · right
        intro timing htiming
        simp only [Server.postSend, BufferPool.markSendSqeAt, BufferPool.postSendSqe,
          BufferPool.insertSlot, Function.update_self, Option.mem_def,
          Option.map_eq_some_iff] at htiming
        obtain ⟨stamp, -, rfl⟩ := htiming
        rfl
  | @endBatch first second pushed hpoint =>
      left
      apply hsending.mono
      · intro sqe hmem _
        unfold Server.endBatch at hmem
        split at hmem
        · simpa [submitted] using hmem
        · exact hmem
      · intro task htask
        rw [completed, hpoint]
        unfold Server.endBatch at htask
        split at htask
        · exact htask
        · exact htask
  | @sync first second point hpoint hnext =>
      left
      have hafter : point.inHand = [] := by rcases hnext with h | h <;> rw [h] <;> rfl
      apply hsending.mono
      · exact fun _ hmem _ => hmem
      · intro task htask
        simp only [completed, Server.sync, hafter, List.nil_append,
          CompletionRing.entries_sync] at htask
        simp only [completed, List.map_append, List.mem_append]
        exact .inr htask
  | collect hpoint =>
      left
      apply hsending.mono
      · exact fun _ hmem _ => hmem
      · intro task htask
        simpa only [completed, Server.collect, hpoint, LoopPoint.inHand, List.nil_append,
          CompletionRing.entries_drain] using htask
  | finished hpoint =>
      left
      apply hsending.mono
      · exact fun _ hmem _ => hmem
      · intro task htask
        simpa only [completed, hpoint, LoopPoint.inHand] using htask
  | progressed hpoint _ =>
      left
      apply hsending.mono
      · exact fun _ hmem _ => hmem
      · intro task htask
        exact mem_completed_of_completing hpoint htask rfl rfl
  | arrival hpoint htask hnext =>
      left
      simp only [completeRecv, Option.map_eq_some_iff, Prod.mk.injEq] at hnext
      obtain ⟨routed, hroute, rfl, -⟩ := hnext
      obtain ⟨-, -, hafter⟩ := frame_route hroute
      apply hsending.mono
      · exact fun _ hmem _ => hmem
      · intro task htask
        exact mem_completed_of_completing hpoint htask rfl (congrArg LoopPoint.inHand hafter)
  | sent hpoint htask =>
      left
      apply sending_of_repost hsending hpoint rfl rfl rfl
      simp only [completeSend]
      split <;> rfl
  | notified hpoint htask => exact .inl (sending_of_repost hsending hpoint rfl rfl rfl rfl)
  | recv => exact .inl hsending
  | drop => exact .inl hsending
  | send => exact .inl hsending
  | kernel hkernel => exact .inl (sending_of_kernel hkernel hsending)

/-- The kernel writes no record. -/
theorem timestamp_kernel {io : IoRing} (h : server.io.Kernel io events) :
    io.pool.timestamp = server.io.pool.timestamp := by
  cases h with
  | receive hop hfill =>
      obtain ⟨slot, -, -, rfl⟩ := BufferPool.fill_eq_some hfill
      rfl
  | submit => rfl
  | failReceive => rfl
  | progressSend => rfl
  | finishSend => rfl

/-- A record stays as it is, or is marked or gone, or its buffer has just gone to a shard. -/
theorem Transition.sentAt (h : server.Transition action next events) (idx : UInt16) :
    next.io.pool.timestamp idx = server.io.pool.timestamp idx ∨
      SentAt (next.io.pool.timestamp idx) ∨ idx ∈ next.inTransit := by
  cases h with
  | @postSend first second pushed entry rest hpoint htxOut =>
      by_cases heq : idx = entry.2.2
      · right
        left
        subst heq
        intro timing htiming
        simp only [Server.postSend, BufferPool.markSendSqeAt, BufferPool.postSendSqe,
          BufferPool.insertSlot, Function.update_self, Option.mem_def,
          Option.map_eq_some_iff] at htiming
        obtain ⟨stamp, -, rfl⟩ := htiming
        rfl
      · left
        simp only [Server.postSend, BufferPool.markSendSqeAt, BufferPool.postSendSqe,
          BufferPool.insertSlot, Function.update_of_ne heq]
  | @arrival first second cqe rest other len next events hpoint htask hnext =>
      simp only [completeRecv, Option.map_eq_some_iff, Prod.mk.injEq] at hnext
      obtain ⟨routed, hroute, rfl, -⟩ := hnext
      by_cases heq : idx = other
      · right
        right
        subst heq
        show idx ∈ routed.inTransit
        rw [inTransit_route hroute]
        simp
      · left
        simp only [BufferPool.markRecvFor, BufferPool.markShardDoneAt, Function.update_of_ne heq]
  | @sent first second cqe rest other hpoint htask =>
      simp only [completeSend, BufferPool.takeRecvFor, Server.release, BufferPool.release,
        BufferPool.postRecvSqe, BufferPool.insertSlot]
      by_cases heq : idx = other
      · right
        left
        subst heq
        rw [Function.update_self]
        intro timing htiming
        cases htiming
      · left
        rw [Function.update_of_ne heq]
  | @endBatch first second pushed hpoint =>
      left
      unfold Server.endBatch
      split <;> rfl
  | kernel hkernel => exact .inl (by rw [timestamp_kernel hkernel])
  | readHead => exact .inl rfl
  | sync => exact .inl rfl
  | collect => exact .inl rfl
  | finished => exact .inl rfl
  | progressed => exact .inl rfl
  | notified => exact .inl rfl
  | recv => exact .inl rfl
  | drop => exact .inl rfl
  | send => exact .inl rfl

/-- The loop deals with a received packet in one go. -/
theorem Transition.routedAt (h : server.Transition action next events)
    (hrouted : ∀ idx, RoutedAt (server.io.pool.timestamp idx)) (idx : UInt16) :
    RoutedAt (next.io.pool.timestamp idx) := by
  cases h with
  | @postSend first second pushed entry rest hpoint htxOut =>
      by_cases heq : idx = entry.2.2
      · subst heq
        intro timing htiming
        simp only [Server.postSend, BufferPool.markSendSqeAt, BufferPool.postSendSqe,
          BufferPool.insertSlot, Function.update_self, Option.mem_def,
          Option.map_eq_some_iff] at htiming
        obtain ⟨stamp, hstamp, rfl⟩ := htiming
        exact hrouted _ stamp hstamp
      · simp only [Server.postSend, BufferPool.markSendSqeAt, BufferPool.postSendSqe,
          BufferPool.insertSlot, Function.update_of_ne heq]
        exact hrouted idx
  | @arrival first second cqe rest other len next events hpoint htask hnext =>
      simp only [completeRecv, Option.map_eq_some_iff, Prod.mk.injEq] at hnext
      obtain ⟨routed, hroute, rfl, -⟩ := hnext
      simp only [BufferPool.markRecvFor, BufferPool.markShardDoneAt]
      by_cases heq : idx = other
      · subst heq
        rw [Function.update_self, Function.update_self]
        intro timing htiming
        cases htiming
        rfl
      · rw [Function.update_of_ne heq, Function.update_of_ne heq]
        exact hrouted idx
  | @sent first second cqe rest other hpoint htask =>
      simp only [completeSend, BufferPool.takeRecvFor, Server.release, BufferPool.release,
        BufferPool.postRecvSqe, BufferPool.insertSlot]
      by_cases heq : idx = other
      · subst heq
        rw [Function.update_self]
        intro timing htiming
        cases htiming
      · rw [Function.update_of_ne heq]
        exact hrouted idx
  | @endBatch first second pushed hpoint =>
      unfold Server.endBatch
      split
      · exact hrouted idx
      · exact hrouted idx
  | kernel hkernel =>
      rw [timestamp_kernel hkernel]
      exact hrouted idx
  | readHead => exact hrouted idx
  | sync => exact hrouted idx
  | collect => exact hrouted idx
  | finished => exact hrouted idx
  | progressed => exact hrouted idx
  | notified => exact hrouted idx
  | recv => exact hrouted idx
  | drop => exact hrouted idx
  | send => exact hrouted idx

/-- The records of all packets, and of those with a send, are as far as they should be. -/
structure Timed (server : Server cfg) : Prop where
  routed : ∀ idx, RoutedAt (server.io.pool.timestamp idx)
  sent : ∀ idx, server.Sending idx → SentAt (server.io.pool.timestamp idx)

theorem Transition.timed (h : server.Transition action next events) (hnodup : next.held.Nodup)
    (htimed : server.Timed) : next.Timed where
  routed := h.routedAt htimed.routed
  sent idx := by
    refine marked_of_sends (fun _ => h.sending) h.sentAt (fun idx _ hsending => ?_) htimed.sent
    exact Multiset.disjoint_left.mp (Multiset.nodup_add.mp hnodup).2.2 hsending.mem_inRing

theorem timed_started (cfg : Config) : (started cfg).Timed where
  routed idx timing htiming := by cases htiming
  sent idx _ timing htiming := by cases htiming

/-! ## No panic -/

/-- Some `unwrap` has failed. -/
def Panicked (server : Server cfg) : Prop := ∃ completed, server.point = .panicked completed

/-- The loop is about to report on a buffer with a send. -/
theorem sending_of_task {cqe : Cqe} {rest : List Cqe} {idx : UInt16}
    (hpoint : server.point = .completing (cqe :: rest)) (htask : cqe.task = .sent idx) :
    server.Sending idx := by
  right
  rw [completed, hpoint, ← htask]
  exact List.mem_cons_self

/-- The only `unwrap`s on the way are those of the report on a packet. -/
theorem Transition.not_panicked (h : server.Transition action next events)
    (htimed : server.Timed) (hrunning : ¬ server.Panicked) : ¬ next.Panicked := by
  rintro ⟨left, hpanicked⟩
  cases h with
  | readHead _ hpoint =>
      rcases hpoint with rfl | rfl
      · cases hpanicked
      · cases hpanicked
  | postSend => cases hpanicked
  | endBatch =>
      unfold Server.endBatch at hpanicked
      split at hpanicked
      · cases hpanicked
      · cases hpanicked
  | sync _ hnext =>
      rcases hnext with rfl | rfl
      · cases hpanicked
      · cases hpanicked
  | collect => cases hpanicked
  | finished => cases hpanicked
  | progressed => cases hpanicked
  | arrival hpoint htask hnext =>
      simp only [completeRecv, Option.map_eq_some_iff, Prod.mk.injEq] at hnext
      obtain ⟨routed, hroute, rfl, -⟩ := hnext
      obtain ⟨-, -, hafter⟩ := frame_route hroute
      cases hafter.symm.trans hpanicked
  | @sent first second cqe rest idx hpoint htask =>
      have hreport := reportable_of_routedAt (htimed.routed idx)
        (htimed.sent idx (sending_of_task hpoint htask))
      simp only [completeSend, BufferPool.takeRecvFor, Server.release, BufferPool.release,
        BufferPool.postRecvSqe, BufferPool.insertSlot, hreport, if_true] at hpanicked
      cases hpanicked
  | notified => cases hpanicked
  | recv => exact hrunning ⟨left, hpanicked⟩
  | drop => exact hrunning ⟨left, hpanicked⟩
  | send => exact hrunning ⟨left, hpanicked⟩
  | kernel => exact hrunning ⟨left, hpanicked⟩

/-! ## What the loop posts -/

theorem not_readsHead_of_completing {completed : List Cqe}
    (hpoint : server.point = .completing completed) : ¬ server.ReadsHead := by
  rintro (h | h)
  · cases h.symm.trans hpoint
  · cases h.symm.trans hpoint

theorem not_readsHead_of_sending {pushed : ℕ} (hpoint : server.point = .sending pushed) :
    ¬ server.ReadsHead := by
  rintro (h | h)
  · cases h.symm.trans hpoint
  · cases h.symm.trans hpoint

/-- The loop has the buffer of a completion or a message in hand. -/
def InHand (server : Server cfg) (idx : UInt16) : Prop :=
  idx ∈ server.completed.filterMap taskBuffer ∨ idx ∈ server.inTransit

theorem InHand.mem_held {idx : UInt16} (h : server.InHand idx) : idx ∈ server.held := by
  rcases h with hcompleted | htransit
  · simp [held, inRing, hcompleted]
  · exact Multiset.mem_add.mpr (.inr htransit)

theorem inHand_of_task {cqe : Cqe} {rest : List Cqe} {idx : UInt16}
    (hpoint : server.point = .completing (cqe :: rest)) (htask : taskBuffer cqe.task = some idx) :
    server.InHand idx := by
  left
  refine List.mem_filterMap.mpr ⟨cqe.task, ?_, htask⟩
  rw [completed, hpoint]
  exact List.mem_cons_self

/-- What the loop posts is about a buffer in its hand, and fails without room. -/
theorem Transition.posting (h : server.Transition action next events) {event : ServerEvent}
    (hevent : event ∈ events) {idx : UInt16} (hidx : event.sliced = some idx) :
    ¬ server.ReadsHead ∧ server.InHand idx ∧ event.pushFailed = !decide server.HasRoom := by
  cases h with
  | postSend hpoint htxOut =>
      cases List.mem_singleton.mp hevent
      cases hidx
      exact ⟨not_readsHead_of_sending hpoint, .inr (by simp [inTransit, htxOut]), rfl⟩
  | sent hpoint htask =>
      cases List.mem_singleton.mp hevent
      cases hidx
      exact ⟨not_readsHead_of_completing hpoint, inHand_of_task hpoint (by rw [htask]; rfl), rfl⟩
  | notified hpoint htask =>
      cases List.mem_singleton.mp hevent
      cases hidx
      exact ⟨not_readsHead_of_completing hpoint, inHand_of_task hpoint (by rw [htask]; rfl), rfl⟩
  | arrival _ _ hnext =>
      simp only [completeRecv, Option.map_eq_some_iff, Prod.mk.injEq] at hnext
      obtain ⟨-, -, -, rfl⟩ := hnext
      cases List.mem_singleton.mp hevent
      cases hidx
  | drop =>
      cases List.mem_singleton.mp hevent
      cases hidx
  | send =>
      cases List.mem_singleton.mp hevent
      cases hidx
  | kernel hkernel =>
      cases hkernel with
      | receive =>
          cases List.mem_singleton.mp hevent
          cases hidx
      | failReceive =>
          cases List.mem_singleton.mp hevent
          cases hidx
      | submit => cases hevent
      | progressSend => cases hevent
      | finishSend => cases hevent
  | readHead => cases hevent
  | endBatch => cases hevent
  | sync => cases hevent
  | collect => cases hevent
  | finished => cases hevent
  | progressed => cases hevent
  | recv => cases hevent

/-- An index has a live slot from when its memory is first sliced. -/
theorem Transition.isSome_liveSlots (h : server.Transition action next events) {idx : UInt16}
    (hlive : (next.io.pool.liveSlots idx).isSome) :
    (server.io.pool.liveSlots idx).isSome ∨ ∃ event ∈ events, event.sliced = some idx := by
  have hposted : ∀ {pool : BufferPool} {other : UInt16} {slot : MsgHdrSlot} {event : ServerEvent},
      ((pool.insertSlot other slot).liveSlots idx).isSome → event.sliced = some other →
        (pool.liveSlots idx).isSome ∨ ∃ posted ∈ [event], posted.sliced = some idx := by
    intro pool other slot event hslot hsliced
    rcases BufferPool.isSome_insertSlot.mp hslot with hold | heq
    · exact .inl hold
    · exact .inr ⟨event, List.mem_cons_self, heq ▸ hsliced⟩
  cases h with
  | postSend => exact hposted hlive rfl
  | sent => exact hposted hlive rfl
  | notified => exact hposted hlive rfl
  | arrival _ _ hnext =>
      simp only [completeRecv, Option.map_eq_some_iff, Prod.mk.injEq] at hnext
      obtain ⟨routed, -, rfl, -⟩ := hnext
      exact .inl hlive
  | endBatch =>
      left
      unfold Server.endBatch at hlive
      split at hlive
      · exact hlive
      · exact hlive
  | kernel hkernel =>
      left
      cases hkernel with
      | receive hop hfill => exact (BufferPool.isSome_fill hfill).mp hlive
      | submit => exact hlive
      | failReceive => exact hlive
      | progressSend => exact hlive
      | finishSend => exact hlive
  | readHead => exact .inl hlive
  | sync => exact .inl hlive
  | collect => exact .inl hlive
  | finished => exact .inl hlive
  | progressed => exact .inl hlive
  | recv => exact .inl hlive
  | drop => exact .inl hlive
  | send => exact .inl hlive

/-! ## No waiting -/

/-- The packets in a shard's channel are among those in transit. -/
theorem card_buffers_add_le (server : Server cfg) (shard : Fin cfg.numShards) :
    Multiset.card (server.workers shard).buffers + server.txOut.length ≤
      Multiset.card server.inTransit := by
  have hle : (server.workers shard).buffers ≤ ∑ shard, (server.workers shard).buffers :=
    Finset.single_le_sum (f := fun shard => (server.workers shard).buffers)
      (fun _ _ => Multiset.zero_le _) (Finset.mem_univ shard)
  rw [inTransit, Multiset.card_add, Multiset.coe_card, List.length_map]
  exact Nat.add_le_add_right (Multiset.card_le_card hle) _

/-- Only a full channel stops a loop that has not panicked. -/
theorem isSome_loop (hrunning : ¬ server.Panicked)
    (hroom : ∀ cqe rest, server.point = .completing (cqe :: rest) → ∀ idx len,
      cqe.task = .arrival idx len →
        ∀ shard, (server.workers shard).recv.length < cfg.queueCapacity)
    (first second : ℕ) : (server.loop first second).isSome := by
  unfold loop
  split
  · rfl
  · rfl
  · rfl
  · rfl
  · rfl
  · rfl
  · rfl
  · next cqe rest hpoint =>
    have hcqe := hroom cqe rest hpoint
    unfold complete
    cases hdecode : decodeToken cqe.userData with
    | mk op idx =>
        cases op with
        | recv =>
            have hlength := hcqe idx (max cqe.result 0).toNat (by simp only [Cqe.task, hdecode])
            simp only [completeRecv, route, if_pos (hlength _)]
            rfl
        | send => rfl
        | sendNotif => rfl
  · next completed hpoint => exact absurd ⟨completed, hpoint⟩ hrunning

theorem isSome_handle {shard : Fin cfg.numShards} {packet : Packet}
    (hhandling : (server.workers shard).handling = some packet)
    (hroom : server.txOut.length < cfg.txCapacity) : (server.handle shard).isSome := by
  simp only [handle, hhandling, if_pos hroom]
  split <;> rfl

end Server

/-! ## Runs -/

variable {cfg : Config} {c : Server cfg × List ServerEvent}

theorem timed_of_reachable (hc : (serverMachine cfg).Reachable c) : c.1.Timed := by
  refine Machine.Reachable.induct (P := fun c => c.1.Timed) ?_ ?_ hc
  · rw [serverMachine_init]
    exact Server.timed_started cfg
  · intro c action d hc htimed hstep
    have hd := nodup_held (hc.step hstep)
    obtain ⟨next, events, hnext, rfl⟩ := Machine.traced_step.mp hstep
    exact (Server.transition_of_step hnext).timed hd htimed

theorem not_panicked_of_reachable (hc : (serverMachine cfg).Reachable c) : ¬ c.1.Panicked := by
  refine Machine.Reachable.induct (P := fun c => ¬ c.1.Panicked) ?_ ?_ hc
  · rw [serverMachine_init]
    rintro ⟨completed, hpoint⟩
    cases hpoint
  · intro c action d hc hrunning hstep
    obtain ⟨next, events, hnext, rfl⟩ := Machine.traced_step.mp hstep
    exact (Server.transition_of_step hnext).not_panicked (timed_of_reachable hc) hrunning

/-- A buffer that is held is one of the pool. -/
theorem toNat_lt_of_mem_held (hc : (serverMachine cfg).Reachable c) {idx : UInt16}
    (hmem : idx ∈ c.1.held) : idx.toNat < cfg.poolSize := by
  apply (mem_indicesBelow cfg.poolSize_le).mp
  rw [← Multiset.mem_coe, ← held_add_lost hc]
  exact Multiset.mem_add.mpr (.inl hmem)

theorem toNat_lt_of_sliced (hc : (serverMachine cfg).Reachable c) :
    ∀ event ∈ c.2, ∀ idx, event.sliced = some idx → idx.toNat < cfg.poolSize := by
  refine Machine.Reachable.induct (P := fun c =>
    ∀ event ∈ c.2, ∀ idx, event.sliced = some idx → idx.toNat < cfg.poolSize) ?_ ?_ hc
  · rw [serverMachine_init]
    exact fun event hevent => absurd hevent (List.not_mem_nil)
  · intro c action d hc ih hstep event hevent idx hidx
    obtain ⟨next, events, hnext, rfl⟩ := Machine.traced_step.mp hstep
    rcases List.mem_append.mp hevent with hold | hnew
    · exact ih event hold idx hidx
    · have hposting := (Server.transition_of_step hnext).posting hnew hidx
      exact toNat_lt_of_mem_held hc hposting.2.1.mem_held

/-- Every slot that has been made, while seeding or later, is one of the pool. -/
theorem toNat_lt_of_live (hc : (serverMachine cfg).Reachable c) :
    ∀ idx, (c.1.io.pool.liveSlots idx).isSome → idx.toNat < cfg.poolSize := by
  refine Machine.Reachable.induct (P := fun c : Server cfg × List ServerEvent =>
    ∀ idx, (c.1.io.pool.liveSlots idx).isSome → idx.toNat < cfg.poolSize) ?_ ?_ hc
  · rw [serverMachine_init]
    intro idx hlive
    by_contra hlarge
    have hnone : (if idx.toNat < cfg.poolSize then _ else none : Option MsgHdrSlot).isSome := hlive
    rw [if_neg hlarge] at hnone
    cases hnone
  · intro c action d hc ih hstep idx hlive
    have hd := hc.step hstep
    obtain ⟨next, events, hnext, rfl⟩ := Machine.traced_step.mp hstep
    rcases (Server.transition_of_step hnext).isSome_liveSlots hlive with hold | hsliced
    · exact ih idx hold
    · obtain ⟨event, hevent, hidx⟩ := hsliced
      exact toNat_lt_of_sliced hd event (List.mem_append_right _ hevent) idx hidx

/-- In no run does a record of a packet lack a time that the loop unwraps, or does the loop
slice memory beyond the pool's, for the slots of the seeding as little as later. -/
theorem never_panics (hc : (serverMachine cfg).Reachable c) :
    ¬ c.1.Panicked ∧
      (∀ idx, (c.1.io.pool.liveSlots idx).isSome → idx.toNat < cfg.poolSize) ∧
      ∀ event ∈ c.2, ∀ idx, event.sliced = some idx → idx.toNat < cfg.poolSize :=
  ⟨not_panicked_of_reachable hc, toNat_lt_of_live hc, toNat_lt_of_sliced hc⟩

theorem never_panics_twoPackets :
    ∃ server, (serverMachine .main).exec (serverMachine .main).init twoPackets =
      some (server, twoPacketsTrace) ∧ ¬ server.Panicked ∧
      (∀ idx, (server.io.pool.liveSlots idx).isSome → idx.toNat < 1024) ∧
      ∀ event ∈ twoPacketsTrace, ∀ idx, event.sliced = some idx → idx.toNat < 1024 := by
  obtain ⟨server, hexec⟩ := exec_twoPackets
  exact ⟨server, hexec, never_panics ⟨twoPackets, hexec⟩⟩

/-- When the channels hold as many messages as there are buffers, neither the loop nor a shard
with a packet ever waits for room: each can go on at once, whatever the others do. -/
theorem never_waits (hqueue : cfg.poolSize ≤ cfg.queueCapacity)
    (htx : cfg.poolSize ≤ cfg.txCapacity) (hc : (serverMachine cfg).Reachable c) :
    (∀ first second, (c.1.step (.loop first second)).isSome) ∧
      ∀ shard, (c.1.workers shard).handling.isSome → (c.1.step (.handle shard)).isSome := by
  have hheld := card_held_le hc
  simp only [Server.held, Server.inRing, Multiset.card_add, Multiset.coe_card] at hheld
  constructor
  · intro first second
    apply Server.isSome_loop (not_panicked_of_reachable hc)
    intro cqe rest hpoint idx len htask shard
    have hbuffers := c.1.card_buffers_add_le shard
    have harrived : 0 < (c.1.completed.filterMap taskBuffer).length := by
      rw [Server.completed, hpoint, LoopPoint.inHand, List.cons_append, List.map_cons, htask]
      exact Nat.succ_pos _
    simp only [Worker.buffers, Multiset.card_add, Multiset.coe_card, List.length_map] at hbuffers
    omega
  · intro shard hhandling
    obtain ⟨packet, hpacket⟩ := Option.isSome_iff_exists.mp hhandling
    apply Server.isSome_handle hpacket
    have hbuffers := c.1.card_buffers_add_le shard
    simp only [Worker.buffers, hpacket, Option.toList_some, List.map_cons, List.map_nil,
      Multiset.card_add, Multiset.coe_card, List.length_map, List.length_singleton] at hbuffers
    omega

theorem never_waits_twoPackets :
    ∃ server, (serverMachine .main).exec (serverMachine .main).init twoPackets =
      some (server, twoPacketsTrace) ∧
      (∀ first second, (server.step (.loop first second)).isSome) ∧
      ∀ shard, (server.workers shard).handling.isSome → (server.step (.handle shard)).isSome := by
  obtain ⟨server, hexec⟩ := exec_twoPackets
  exact ⟨server, hexec, never_waits (by decide) (by decide) ⟨twoPackets, hexec⟩⟩

end P2PNetworking.TurnServer.FirstImpl
