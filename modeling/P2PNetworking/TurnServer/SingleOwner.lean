/-
# No buffer has two owners

What the books of the buffers imply for every run: a buffer is received into only
when nothing else has it, the slot of an operation stays in place until the
operation is over, and a packet is sent once at most.
-/

import P2PNetworking.TurnServer.Ownership

namespace P2PNetworking.TurnServer

open P2PNetworking.Net P2PNetworking.Lib

variable {cfg : Config}

namespace Server

variable {server next : Server cfg}

/-- The operations that may still use the slot of their buffer: those submitted and not
finished, and receives whose completion the loop has not read. -/
def outstanding (server : Server cfg) : List UInt16 :=
  server.submitted.map Sqe.bufIdx ++ server.completed.filterMap Task.arrived

/-- A buffer that is free again or on its way through the relay has no operation. -/
theorem notMem_outstanding (hnodup : server.held.Nodup) {idx : UInt16}
    (hidx : idx ∈ server.completed.filterMap Task.freed ∨ idx ∈ server.relay.inTransit) :
    idx ∉ server.outstanding := by
  intro hout
  have hcount := Multiset.nodup_iff_count_le_one.mp hnodup idx
  have hfirst : 0 < (server.completed.filterMap Task.freed : Multiset UInt16).count idx +
      server.relay.inTransit.count idx := by
    rcases hidx with hfreed | htransit
    · have hpos := Multiset.count_pos.mpr (Multiset.mem_coe.mpr hfreed)
      omega
    · have hpos := Multiset.count_pos.mpr htransit
      omega
  have hsecond : 0 < (server.submitted.map Sqe.bufIdx : Multiset UInt16).count idx +
      (server.completed.filterMap Task.arrived : Multiset UInt16).count idx := by
    rcases List.mem_append.mp hout with hsubmitted | harrived
    · have hpos := Multiset.count_pos.mpr (Multiset.mem_coe.mpr hsubmitted)
      omega
    · have hpos := Multiset.count_pos.mpr (Multiset.mem_coe.mpr harrived)
      omega
  simp only [held, home, away, Multiset.count_add] at hcount
  omega

/-- A buffer that is free again is not on its way through the relay. -/
theorem notMem_inTransit (hnodup : server.held.Nodup) {idx : UInt16}
    (hidx : idx ∈ server.completed.filterMap Task.freed) : idx ∉ server.relay.inTransit := by
  intro htransit
  have hhome : idx ∈ server.home := by simp [home, hidx]
  have haway : idx ∈ server.away := by simp [away, htransit]
  exact Multiset.disjoint_left.mp (Multiset.nodup_add.mp hnodup).2.2 hhome haway

theorem mem_inTransit_of_txOut {dst : SocketAddr} {len : ℕ} {idx : UInt16}
    {rest : List SqeType} (htxOut : server.relay.txOut = (dst, len, idx) :: rest) :
    idx ∈ server.relay.inTransit := by
  rw [Relay.inTransit_take _ htxOut]
  simp

theorem mem_freed_of_next {cqe : Cqe} {cq : CompletionRing Cqe} {idx : UInt16}
    (hnext : server.cq.next = some (cqe, cq)) (hfreed : cqe.task.freed = some idx) :
    idx ∈ server.completed.filterMap Task.freed := by
  simp [completed, CompletionRing.entries_next hnext, hfreed]

/-- A receive is posted for a buffer that nothing else has. -/
theorem Transition.reposted {action : ServerAction cfg} {events : List (ServerEvent cfg)}
    (h : server.Transition action next events) (hnodup : server.held.Nodup) {idx : UInt16}
    (hposted : .postedRecv idx ∈ events) :
    idx ∉ server.outstanding ∧ idx ∉ server.relay.inTransit := by
  have hfree : ∀ {cqe : Cqe} {cq : CompletionRing Cqe} {other : UInt16},
      server.cq.next = some (cqe, cq) → cqe.task.freed = some other → idx = other →
      idx ∉ server.outstanding ∧ idx ∉ server.relay.inTransit := by
    rintro cqe cq other hnext hfreed rfl
    have hmem := mem_freed_of_next hnext hfreed
    exact ⟨notMem_outstanding hnodup (.inl hmem), notMem_inTransit hnodup hmem⟩
  cases h with
  | sent htask hnext hcqe => exact hfree hnext (by rw [hcqe]; rfl) (by simpa using hposted)
  | notified htask hnext hcqe =>
      exact hfree hnext (by rw [hcqe]; rfl) (by simpa using hposted)
  | _ => simp at hposted

/-- The loop does not touch the slot of an operation. -/
theorem Transition.slots_kept {first second : ℕ} {events : List (ServerEvent cfg)}
    (h : server.Transition (.loop first second) next events) (hnodup : server.held.Nodup)
    {idx : UInt16} (hidx : idx ∈ server.outstanding) :
    next.pool.liveSlots idx = server.pool.liveSlots idx := by
  have hother : ∀ {other : UInt16} (slot : MsgHdrSlot), other ∉ server.outstanding →
      (server.pool.insertSlot other slot).liveSlots idx = server.pool.liveSlots idx := by
    intro other slot hother
    refine Function.update_of_ne ?_ _ _
    rintro rfl
    exact hother hidx
  cases h with
  | rest _ hpool => rw [hpool]
  | addSession => rfl
  | postSend _ htxOut =>
      have hmem := mem_inTransit_of_txOut htxOut
      simp only [takeSend, htxOut]
      exact hother _ (notMem_outstanding hnodup (.inr hmem))
  | arrival => rfl
  | sent _ hnext hcqe =>
      have hmem := mem_freed_of_next hnext (by rw [hcqe]; rfl)
      exact hother _ (notMem_outstanding hnodup (.inl hmem))
  | notified _ hnext hcqe =>
      have hmem := mem_freed_of_next hnext (by rw [hcqe]; rfl)
      exact hother _ (notMem_outstanding hnodup (.inl hmem))

end Server

/-- Every buffer has at most one holder, and what follows from it. -/
structure SingleOwner (c : Server cfg × List (ServerEvent cfg)) : Prop where
  /-- Every index is held at most once, -/
  nodup : c.1.held.Nodup
  /-- and is an index of the pool. -/
  inPool : ∀ idx ∈ c.1.held, idx.toNat < cfg.poolSize
  /-- A receive is posted only for a buffer that has no operation and no packet. -/
  reposted : ∀ {action next events} {idx : UInt16}, c.1.step action = some (next, events) →
    .postedRecv idx ∈ events → idx ∉ c.1.outstanding ∧ idx ∉ c.1.relay.inTransit
  /-- A packet is posted to send once at most: between two posts of a buffer a receive
  into it has completed. -/
  postedOnce : ∀ before (idx : UInt16) pushed bytes between pushed' bytes' after,
    c.2 = before ++ .postedSend idx pushed bytes :: between ++
      .postedSend idx pushed' bytes' :: after →
    (∃ packet, .received idx packet ∈ between) ∨ .receiveFailed idx ∈ between
  /-- The loop never replaces the live slot of an outstanding operation. -/
  slotsKept : ∀ {first second next events}, c.1.loop first second = some (next, events) →
    ∀ idx ∈ c.1.outstanding, next.pool.liveSlots idx = c.1.pool.liveSlots idx

/-- No buffer ever has two owners: in every reachable state, for every order of
completions. -/
theorem reachable_single_owner {c : Server cfg × List (ServerEvent cfg)}
    (hc : (serverMachine cfg).Reachable c) : SingleOwner c := by
  have hnodup : c.1.held.Nodup :=
    (bufferTrips cfg).ledger.nodup_held (nodup_held_init cfg) hc
  have hle : c.1.held ≤ (indicesBelow cfg.poolSize : Multiset UInt16) := by
    rw [← held_init]
    exact (bufferTrips cfg).ledger.held_le_init hc
  refine ⟨hnodup, fun idx hidx => ?_, fun hstep hposted => ?_, ?_, fun hloop idx hidx => ?_⟩
  · have hmem := Multiset.mem_of_le hle hidx
    exact (mem_indicesBelow cfg.poolSize_le).mp (Multiset.mem_coe.mp hmem)
  · exact (Server.transition_of_step hstep).reposted hnodup hposted
  · intro before idx pushed bytes between pushed' bytes' after hsplit
    have hturns : turns c.2 = turns before ++ (idx, .back) :: turns between ++
        (idx, .back) :: turns after := by
      rw [hsplit, turns_append, turns_append]
      rfl
    exact mem_turns_out.mp ((alternates_turns hc).out_between hturns)
  · have hstep : c.1.step (.loop _ _) = some _ := hloop
    exact (Server.transition_of_step hstep).slots_kept hnodup hidx

theorem reachable_single_owner_relayOnce :
    ∃ server, (serverMachine .main).exec (serverMachine .main).init relayOnce =
      some (server, relayOnceTrace) ∧ SingleOwner (server, relayOnceTrace) := by
  obtain ⟨server, hexec⟩ := exec_relayOnce
  exact ⟨server, hexec, reachable_single_owner ⟨relayOnce, hexec⟩⟩

end P2PNetworking.TurnServer
