/-
# The submission queue of the first implementation

The loop reads the head of the queue again after each batch of sends, and only then.  Between
two such looks the kernel can have taken no more entries than there are buffers, and no more
wait to be published, so a queue with twice as many entries as there are buffers has room for
every push, and no buffer is lost for want of it.
-/

import P2PNetworking.TurnServer.FirstImpl.Running

namespace P2PNetworking.TurnServer.FirstImpl

open P2PNetworking.Net P2PNetworking.Lib

/-- The buffer of a packet for which the shard had no session. -/
def ServerEvent.unknown : ServerEvent → Option UInt16
  | .handled packet none => some packet.bufIdx
  | _ => none

/-- Without a failed push only those buffers are lost. -/
theorem lost_eq_unknown {trace : List ServerEvent}
    (h : ∀ event ∈ trace, event.pushFailed = false) :
    lost trace = trace.filterMap ServerEvent.unknown := by
  apply List.filterMap_congr
  intro event hevent
  have hpushed := h event hevent
  cases event with
  | postedRecv idx pushed =>
      cases pushed with
      | false => cases hpushed
      | true => rfl
  | postedSend entry pushed =>
      cases pushed with
      | false => cases hpushed
      | true => rfl
  | handled packet sent => cases sent <;> rfl
  | _ => rfl

namespace Server

variable {cfg : Config} {server next : Server cfg} {action : ServerAction cfg}
  {events : List ServerEvent}

/-- Since the last look the kernel has had no more entries than there are buffers. -/
def Recent (server : Server cfg) : Prop :=
  ¬ server.ReadsHead → server.io.sq.taken + server.io.sq.published.length ≤ cfg.poolSize

theorem length_entries_le (server : Server cfg) :
    server.io.sq.entries.length ≤ Multiset.card server.held := by
  simp only [held, inRing, submitted, Multiset.card_add, Multiset.coe_card, List.length_map,
    List.length_append]
  omega

/-- A step that leaves what the kernel has had. -/
theorem Recent.same (h : server.Recent) (hreads : ¬ server.ReadsHead)
    (htaken : next.io.sq.taken = server.io.sq.taken)
    (hpublished : next.io.sq.published = server.io.sq.published) : next.Recent := by
  intro _
  rw [htaken, hpublished]
  exact h hreads

/-- What a push leaves alone. -/
theorem frame_push (sq : SubmissionRing Sqe) (entries : ℕ) (entry : Sqe) :
    ((sq.push entries entry).getD sq).taken = sq.taken ∧
      ((sq.push entries entry).getD sq).published = sq.published := by
  unfold SubmissionRing.push
  split
  · exact ⟨rfl, rfl⟩
  · exact ⟨rfl, rfl⟩

theorem recent_kernel {io : IoRing} (h : server.io.Kernel io events) (hrecent : server.Recent) :
    ({ server with io := io } : Server cfg).Recent := by
  intro hreads
  have hbefore := hrecent hreads
  cases h with
  | submit htake =>
      have hlength := SubmissionRing.length_take htake
      have hrest := SubmissionRing.unpublished_take htake
      simp only [SubmissionRing.length, hrest] at hlength
      show _ + _ ≤ cfg.poolSize
      dsimp only
      omega
  | receive => exact hbefore
  | failReceive => exact hbefore
  | progressSend => exact hbefore
  | finishSend => exact hbefore

theorem Transition.recent (h : server.Transition action next events)
    (hheld : Multiset.card server.held ≤ cfg.poolSize) (hrecent : server.Recent) :
    next.Recent := by
  cases h with
  | readHead hreads hpoint =>
      intro _
      have hentries := server.length_entries_le
      simp only [SubmissionRing.entries, List.length_append] at hentries
      simp only [SubmissionRing.refresh]
      omega
  | @postSend first second pushed entry rest hpoint htxOut =>
      obtain ⟨htaken, hpublished⟩ := frame_push server.io.sq cfg.ringEntries
        (Opcode.sendMsgZc.build entry.2.2)
      exact hrecent.same (not_readsHead_of_sending hpoint) htaken hpublished
  | @endBatch first second pushed hpoint =>
      unfold Server.endBatch
      split
      · intro hreads
        exact absurd (.inr rfl) hreads
      · exact hrecent.same (not_readsHead_of_sending hpoint) rfl rfl
  | sync hpoint hnext =>
      have hreads : ¬ server.ReadsHead := by
        rintro (h | h) <;> rcases hpoint with hpoint | hpoint <;> cases h.symm.trans hpoint
      exact hrecent.same hreads rfl rfl
  | collect hpoint =>
      have hreads : ¬ server.ReadsHead := by rintro (h | h) <;> cases h.symm.trans hpoint
      exact hrecent.same hreads rfl rfl
  | finished hpoint => exact hrecent.same (not_readsHead_of_completing hpoint) rfl rfl
  | progressed hpoint _ => exact hrecent.same (not_readsHead_of_completing hpoint) rfl rfl
  | arrival hpoint _ hnext =>
      simp only [completeRecv, Option.map_eq_some_iff, Prod.mk.injEq] at hnext
      obtain ⟨routed, hroute, rfl, -⟩ := hnext
      exact hrecent.same (not_readsHead_of_completing hpoint) rfl rfl
  | @sent first second cqe rest idx hpoint htask =>
      obtain ⟨htaken, hpublished⟩ := frame_push server.io.sq cfg.ringEntries
        (Opcode.recvMsg.build idx)
      exact hrecent.same (not_readsHead_of_completing hpoint) htaken hpublished
  | @notified first second cqe rest idx hpoint htask =>
      obtain ⟨htaken, hpublished⟩ := frame_push server.io.sq cfg.ringEntries
        (Opcode.recvMsg.build idx)
      exact hrecent.same (not_readsHead_of_completing hpoint) htaken hpublished
  | recv => exact hrecent
  | drop => exact hrecent
  | send => exact hrecent
  | kernel hkernel => exact recent_kernel hkernel hrecent

/-- With a buffer in hand the queue has room for its entry. -/
theorem hasRoom_of_recent (hring : 2 * cfg.poolSize ≤ cfg.ringEntries)
    (hheld : Multiset.card server.held ≤ cfg.poolSize) (hrecent : server.Recent)
    (hreads : ¬ server.ReadsHead) {idx : UInt16} (hhand : server.InHand idx) :
    server.HasRoom := by
  have hbefore := hrecent hreads
  have hpositive : 0 < (server.completed.filterMap taskBuffer).length +
      Multiset.card server.inTransit := by
    rcases hhand with hcompleted | htransit
    · exact Nat.add_pos_left (List.length_pos_of_mem hcompleted) _
    · exact Nat.add_pos_right _ (Multiset.card_pos_iff_exists_mem.mpr ⟨idx, htransit⟩)
  simp only [held, inRing, submitted, SubmissionRing.entries, Multiset.card_add,
    Multiset.coe_card, List.length_map, List.length_append] at hheld
  unfold HasRoom SubmissionRing.HasRoom SubmissionRing.length
  omega

/-- No push of a step fails. -/
theorem Transition.pushed (h : server.Transition action next events)
    (hring : 2 * cfg.poolSize ≤ cfg.ringEntries)
    (hheld : Multiset.card server.held ≤ cfg.poolSize) (hrecent : server.Recent)
    {event : ServerEvent} (hevent : event ∈ events) : event.pushFailed = false := by
  cases hidx : event.sliced with
  | none =>
      cases event with
      | postedRecv => cases hidx
      | postedSend => cases hidx
      | _ => rfl
  | some idx =>
      obtain ⟨hreads, hhand, hfailed⟩ := h.posting hevent hidx
      rw [hfailed, decide_eq_true (hasRoom_of_recent hring hheld hrecent hreads hhand)]
      rfl

end Server

/-! ## Runs -/

variable {cfg : Config} {c : Server cfg × List ServerEvent}

theorem recent_of_reachable (hc : (serverMachine cfg).Reachable c) : c.1.Recent := by
  refine Machine.Reachable.induct (P := fun c => c.1.Recent) ?_ ?_ hc
  · rw [serverMachine_init]
    exact fun hreads => absurd (.inl rfl) hreads
  · intro c action d hc hrecent hstep
    obtain ⟨next, events, hnext, rfl⟩ := Machine.traced_step.mp hstep
    exact (Server.transition_of_step hnext).recent (card_held_le hc) hrecent

theorem pushed_of_reachable (hring : 2 * cfg.poolSize ≤ cfg.ringEntries)
    (hc : (serverMachine cfg).Reachable c) : ∀ event ∈ c.2, event.pushFailed = false := by
  refine Machine.Reachable.induct
    (P := fun c => ∀ event ∈ c.2, event.pushFailed = false) ?_ ?_ hc
  · rw [serverMachine_init]
    exact fun event hevent => absurd hevent List.not_mem_nil
  · intro c action d hc ih hstep event hevent
    obtain ⟨next, events, hnext, rfl⟩ := Machine.traced_step.mp hstep
    rcases List.mem_append.mp hevent with hold | hnew
    · exact ih event hold
    · exact (Server.transition_of_step hnext).pushed hring (card_held_le hc)
        (recent_of_reachable hc) hnew

/-- With twice as many entries as buffers, whatever the kernel's timing, the queue has room for
every receive and send that the loop posts, and the buffers that the server no longer holds
are exactly those of the packets for which a shard had no session. -/
theorem queue_has_room (hring : 2 * cfg.poolSize ≤ cfg.ringEntries)
    (hc : (serverMachine cfg).Reachable c) :
    (∀ event ∈ c.2, event.pushFailed = false) ∧
      c.1.held + (c.2.filterMap ServerEvent.unknown : Multiset UInt16) =
        (indicesBelow cfg.poolSize : Multiset UInt16) := by
  have hpushed := pushed_of_reachable hring hc
  refine ⟨hpushed, ?_⟩
  rw [← lost_eq_unknown hpushed]
  exact held_add_lost hc

theorem queue_has_room_twoPackets :
    ∃ server, (serverMachine .main).exec (serverMachine .main).init twoPackets =
      some (server, twoPacketsTrace) ∧
      (∀ event ∈ twoPacketsTrace, event.pushFailed = false) ∧
      server.held + (twoPacketsTrace.filterMap ServerEvent.unknown : Multiset UInt16) =
        (indicesBelow 1024 : Multiset UInt16) := by
  obtain ⟨server, hexec⟩ := exec_twoPackets
  exact ⟨server, hexec, queue_has_room (by decide) ⟨twoPackets, hexec⟩⟩

end P2PNetworking.TurnServer.FirstImpl
