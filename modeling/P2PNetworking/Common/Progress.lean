/-
# The reliable layer never gets stuck

From any state, whatever was lost, the two endpoints can finish: one tick of each
retransmission timer, the sending of queued packets and acknowledgements, and
deliveries suffice to hand over everything submitted so far.

With the ticks everything owed is under way again, and nothing is lost any more.  The
rest is a descent on the number of packets still owed.  A receiver that has
consumed number 0 needs the data packet whose turn it is.  A receiver that has not
needs any bare packet, which its sender sends for the asking.
-/

import P2PNetworking.Common.NothingLost

namespace P2PNetworking.Common

open P2PNetworking.Net P2PNetworking.Lib

/-! ## One endpoint -/

/-- Pieces of `recv` left before the next packet is handed over or the task is
back at `recv_from`. -/
def RecvTask.remaining : RecvTask → ℕ
  | .receiving => 0
  | .handingOver _ | .releasing _ _ => 1
  | .draining _ => 2
  | .queueingAck _ => 3
  | .advancing _ => 4

/-- A busy receive task goes on: it hands over a packet or comes closer to it. -/
theorem Endpoint.exists_recv_step (peerAddr : SocketAddr) {ep : Endpoint}
    (hbusy : ep.recvTask ≠ .receiving) :
    ∃ ep' events, ep.recv peerAddr = some (ep', events) ∧
      ((events = [] ∧ ep'.recvTask.remaining < ep.recvTask.remaining) ∨
        ∃ packet, events = [.handedOver packet]) := by
  unfold recv
  cases htask : ep.recvTask with
  | receiving => exact absurd htask hbusy
  | handingOver packet => exact ⟨_, _, rfl, .inr ⟨packet, rfl⟩⟩
  | advancing packetSeq => exact ⟨_, _, rfl, .inl ⟨rfl, by simp [RecvTask.remaining]⟩⟩
  | queueingAck packetSeq => exact ⟨_, _, rfl, .inl ⟨rfl, by simp [RecvTask.remaining]⟩⟩
  | draining nextExpected =>
      cases hlookup : ep.state.recvBuffer.lookup nextExpected with
      | none =>
          simp only [hlookup]
          exact ⟨_, _, rfl, .inl ⟨rfl, by simp [RecvTask.remaining]⟩⟩
      | some packet =>
          simp only [hlookup]
          exact ⟨_, _, rfl, .inl ⟨rfl, by simp [RecvTask.remaining]⟩⟩
  | releasing nextExpected packet => exact ⟨_, _, rfl, .inr ⟨packet, rfl⟩⟩

/-- Only an application makes an endpoint submit. -/
theorem Endpoint.Transition.submitted_eq_nil {peerAddr : SocketAddr} {ep ep' : Endpoint}
    {action : Action} {events : List Event}
    (hstep : Endpoint.Transition peerAddr ep action ep' events)
    (hquiet : ∀ now packetType, action ≠ .submit now packetType) : submitted events = [] := by
  cases hstep with
  | submitData => exact absurd rfl (hquiet _ _)
  | _ => rfl

/-! ## Continuations without new submissions -/

/-- Retransmission ticks, the sending of queued packets and acknowledgements,
deliveries, and the rest of their handling. -/
def Unprompted : LinkAction → Prop
  | .atEnd _ (.tick _) | .atEnd _ (.transmit _) | .atEnd _ .ack | .atEnd _ .recv
  | .deliver _ _ => True
  | _ => False

/-- The same without any tick. -/
def Untimed : LinkAction → Prop
  | .atEnd _ (.transmit _) | .atEnd _ .ack | .atEnd _ .recv | .deliver _ _ => True
  | _ => False

/-- Ticks at one time, and the sending of queued packets. -/
def Resends (now : ℕ) : LinkAction → Prop
  | .atEnd _ (.tick time) => time = now
  | .atEnd _ (.transmit _) => True
  | _ => False

theorem Untimed.unprompted {action : LinkAction} (h : Untimed action) : Unprompted action := by
  cases action with
  | atEnd side act => cases act <;> trivial
  | _ => exact h

theorem Resends.unprompted {now : ℕ} {action : LinkAction} (h : Resends now action) :
    Unprompted action := by
  cases action with
  | atEnd side act => cases act <;> first | exact h | trivial
  | _ => exact h.elim

/-- Without a clock being read no time passes. -/
theorem Untimed.clock_eq {addr : Addresses} {link next : Link} {action : LinkAction}
    {events : List (Side × Event)} (h : Untimed action)
    (hstep : link.step addr action = some (next, events)) : next.clock = link.clock := by
  cases action with
  | atEnd side act =>
      simp only [Link.step, Option.bind_eq_some_iff] at hstep
      obtain ⟨clock, hclock, hrun⟩ := hstep
      obtain ⟨ep, evs, -, rfl, -⟩ := Link.runEnd_eq_some hrun
      cases act with
      | transmit | ack | recv => exact (Option.some.inj hclock).symm
      | arrive | submit | tick => exact h.elim
  | deliver side datagram =>
      simp only [Link.step] at hstep
      split at hstep
      · obtain ⟨ep, evs, -, rfl, -⟩ := Link.runEnd_eq_some hstep
        rfl
      · cases hstep
  | duplicate | lose => exact h.elim

/-- Retransmission hands nothing over. -/
theorem Resends.handedOver_eq_nil {now : ℕ} {addr : Addresses} {link next : Link}
    {action : LinkAction} {events : List (Side × Event)} (h : Resends now action)
    (hstep : link.step addr action = some (next, events)) (side : Side) :
    handedOver (sideTrace side events) = [] := by
  have hside := Link.step_atSide hstep side
  cases action with
  | atEnd actor act =>
      by_cases hactor : actor = side
      · simp only [LinkAction.atSide, if_pos hactor] at hside
        have htransition := Endpoint.transition_of_step hside
        generalize next.ends side = ep, sideTrace side events = evs at htransition ⊢
        cases htransition with
        | tick | transmit => rfl
        | _ => exact h.elim
      · simp only [LinkAction.atSide, if_neg hactor] at hside
        rw [hside.2]
        rfl
  | deliver | duplicate | lose => exact h.elim

theorem Unprompted.ne_lose {action : LinkAction} (h : Unprompted action) (datagram : Datagram) :
    action ≠ .lose datagram := by
  rintro rfl
  exact h

/-- How many packets a side has handed over. -/
def handedCount (side : Side) (c : Link × List (Side × Event)) : ℕ :=
  (handedOver (sideTrace side c.2)).length

def totalHanded (c : Link × List (Side × Event)) : ℕ :=
  handedCount .left c + handedCount .right c

/-- The state is reachable, and the applications have submitted this much. -/
structure HasSent (addr : Addresses) (sent : Side → List (List UInt8))
    (c : Link × List (Side × Event)) : Prop where
  reachable : (linkMachine addr).Reachable c
  submitted_eq : ∀ side, submittedPayloads side c.2 = sent side

/-- Some continuation hands over one more packet, and no timer goes off. -/
def Advances (addr : Addresses) (c : Link × List (Side × Event)) : Prop :=
  (linkMachine addr).CanReach Untimed c fun d => totalHanded c < totalHanded d

section Advances

variable {addr : Addresses} {c d : Link × List (Side × Event)} {action : LinkAction}

theorem handedCount_le_of_step (hstep : (linkMachine addr).step c action = some d)
    (side : Side) : handedCount side c ≤ handedCount side d := by
  have hsides : sideTrace side c.2 <+: sideTrace side d.2 :=
    (Machine.traced_step_prefix hstep).filterMap _
  have hgrown : handedOver (sideTrace side c.2) <+: handedOver (sideTrace side d.2) :=
    hsides.filterMap _
  exact hgrown.length_le

theorem totalHanded_lt (hall : ∀ side, handedCount side c ≤ handedCount side d) {side : Side}
    (hside : handedCount side c < handedCount side d) : totalHanded c < totalHanded d := by
  have hleft := hall .left
  have hright := hall .right
  unfold totalHanded
  cases side <;> omega

theorem Advances.of_step (haction : Untimed action)
    (hstep : (linkMachine addr).step c action = some d) (hd : Advances addr d) :
    Advances addr c := by
  refine .cons haction hstep (hd.mono fun e he => ?_)
  have hleft := handedCount_le_of_step hstep .left
  have hright := handedCount_le_of_step hstep .right
  unfold totalHanded at he ⊢
  omega

/-- A side takes a step that the clock allows. -/
theorem step_atEnd {side : Side} {endAction : Action} {ep : Endpoint} {events : List Event}
    {clock : ℕ} (hclock : Link.clockAfter c.1.clock endAction = some clock)
    (hend : (c.1.ends side).step (addr.of side.peer) endAction = some (ep, events)) :
    (linkMachine addr).step c (.atEnd side endAction) =
      some (⟨Function.update c.1.ends side ep,
        c.1.inFlight ++ Link.wire addr side events, clock⟩,
        c.2 ++ events.map (Prod.mk side)) := by
  simp [linkMachine, Machine.traced, Link.step, Link.runEnd, hclock, hend]

/-- A datagram under way reaches its addressee. -/
theorem step_deliver {side : Side} {datagram : Datagram} {ep : Endpoint} {events : List Event}
    {peerAddr : SocketAddr} (hpeer : addr.of side.peer = peerAddr)
    (hmem : datagram ∈ c.1.inFlight) (hdst : datagram.dst = addr.of side)
    (hend : (c.1.ends side).step peerAddr (.arrive datagram.src datagram.bytes) =
      some (ep, events)) :
    (linkMachine addr).step c (.deliver side datagram) =
      some (⟨Function.update c.1.ends side ep,
        c.1.inFlight.erase datagram ++ Link.wire addr side events, c.1.clock⟩,
        c.2 ++ events.map (Prod.mk side)) := by
  subst hpeer
  simp [linkMachine, Machine.traced, Link.step, Link.runEnd, hmem, hdst, hend]

end Advances

namespace HasSent

variable {addr : Addresses} {sent : Side → List (List UInt8)}
  {c d : Link × List (Side × Event)}

theorem step (h : HasSent addr sent c) {action : LinkAction} (haction : Unprompted action)
    (hstep : (linkMachine addr).step c action = some d) : HasSent addr sent d := by
  refine ⟨h.reachable.step hstep, fun side => ?_⟩
  obtain ⟨link, events, hnext, rfl⟩ := Machine.traced_step.mp hstep
  have hquiet : submitted (sideTrace side events) = [] := by
    have hside : ∀ {actor : Side} {endAction : Action} {ep : Endpoint} {evs : List Event},
        (c.1.ends actor).step (addr.of actor.peer) endAction = some (ep, evs) →
        (∀ now packetType, endAction ≠ .submit now packetType) →
        submitted (sideTrace side (evs.map (Prod.mk actor))) = [] := by
      intro actor endAction ep evs hend hne
      rcases actor.eq_or_eq_peer side with rfl | rfl
      · rw [sideTrace_map_mk]
        exact (Endpoint.transition_of_step hend).submitted_eq_nil hne
      · rw [sideTrace_map_mk_of_ne actor.peer_ne.symm]
        rfl
    cases action with
    | atEnd actor endAction =>
        simp only [Link.step, Option.bind_eq_some_iff] at hnext
        obtain ⟨clock, -, hrun⟩ := hnext
        obtain ⟨ep, evs, hend, rfl, rfl⟩ := Link.runEnd_eq_some hrun
        apply hside hend
        rintro now packetType rfl
        exact haction
    | deliver actor datagram =>
        simp only [Link.step] at hnext
        split at hnext
        · obtain ⟨ep, evs, hend, rfl, rfl⟩ := Link.runEnd_eq_some hnext
          exact hside hend (by simp)
        · cases hnext
    | duplicate datagram => exact haction.elim
    | lose datagram => exact haction.elim
  have hsame := h.submitted_eq side
  unfold submittedPayloads at hsame ⊢
  rw [sideTrace_append, submitted_append, hquiet, List.append_nil, hsame]

/-- With admissible submissions the invariant of the system is at hand. -/
theorem withinLimits (h : HasSent addr sent c) (hadm : ∀ side, Admissible (sent side)) :
    WithinLimits c.2 := by
  intro side
  have hsame := h.submitted_eq side
  unfold submittedPayloads at hsame
  exact hsame ▸ hadm side

theorem inv (h : HasSent addr sent c) (hadm : ∀ side, Admissible (sent side)) :
    LinkInv addr c.1 c.2 := linkInv_of_reachable h.reachable (h.withinLimits hadm)

/-- The send side of an endpoint, seen from what was submitted. -/
theorem exists_entry (h : HasSent addr sent c) (hadm : ∀ side, Admissible (sent side))
    {side : Side} {number : ℕ} (hpos : 0 < number) (hle : number ≤ (sent side).length) :
    ∃ entry, (c.1.ends side).state.unacked.lookup (.ofNat number) = some entry ∧
      entry.packet.header.seq.toNat = number ∧ Genuine (sent side) entry.packet := by
  have hshort := (hadm side).short
  have hnumber : (UInt32.ofNat number).toNat = number :=
    UInt32.toNat_ofNat_of_lt' (by simp only [UInt32.size]; omega)
  have hsender := (h.inv hadm).send side
  have hsame := h.submitted_eq side
  unfold submittedPayloads at hsame
  rw [hsame] at hsender
  obtain ⟨entry, hentry, hseq, hcarries⟩ :=
    hsender.exists_carrying (by omega) (hnumber.symm ▸ hpos) (hnumber.symm ▸ hle)
  exact ⟨entry, hentry, by rw [hseq, hnumber], .inr hcarries⟩

/-- The receive side of the other endpoint, likewise. -/
theorem numbered (h : HasSent addr sent c) (hadm : ∀ side, Admissible (sent side))
    (sender : Side) : Numbered (sent sender) (handedOver (sideTrace sender.peer c.2)) := by
  have hnumbered := (h.inv hadm).numbered sender.peer
  rw [Side.peer_peer] at hnumbered
  rw [← h.submitted_eq sender]
  exact hnumbered

/-- Once every packet of the stream is handed over, so is every payload. -/
theorem deliveredPayloads_eq (h : HasSent addr sent c) (hadm : ∀ side, Admissible (sent side))
    {sender : Side} (hall : sent sender = [] ∨ (sent sender).length < handedCount sender.peer c) :
    deliveredPayloads sender.peer c.2 = sent sender := by
  have hpayloads := (h.numbered hadm sender).payloads_eq
  unfold deliveredPayloads
  rw [hpayloads]
  rcases hall with hnil | hlt
  · simp [hnil]
  · unfold handedCount at hlt
    exact List.take_of_length_le (by omega)

theorem totalHanded_le (h : HasSent addr sent c) (hadm : ∀ side, Admissible (sent side)) :
    totalHanded c ≤ (sent .left).length + (sent .right).length + 2 := by
  have hleft := (h.numbered hadm .left).length_handed_le
  have hright := (h.numbered hadm .right).length_handed_le
  simp only [Side.peer] at hleft hright
  unfold totalHanded handedCount
  omega

end HasSent

/-! ## One tick of each timer -/

/-- The applications have submitted this much, within the limits, and nothing of it is lost. -/
structure Lossless (addr : Addresses) (sent : Side → List (List UInt8))
    (c : Link × List (Side × Event)) : Prop extends HasSent addr sent c where
  admissible : ∀ side, Admissible (sent side)
  kept : ∀ side, NothingLost addr side c

/-- Everything that a side remembers was sent long ago. -/
def AllOverdue (now : ℕ) (ep : Endpoint) : Prop :=
  ∀ seq entry, ep.state.unacked.lookup seq = some entry → Endpoint.isOverdue now entry = true

section Resend

variable {addr : Addresses} {sent : Side → List (List UInt8)}
  {c d : Link × List (Side × Event)} {now : ℕ}

theorem NothingLost.keep {side : Side} (hadm : ∀ side, Admissible (sent side))
    (h : HasSent addr sent c ∧ NothingLost addr side c) {action : LinkAction}
    (haction : Unprompted action) (hstep : (linkMachine addr).step c action = some d) :
    HasSent addr sent d ∧ NothingLost addr side d := by
  have hd := h.1.step haction hstep
  exact ⟨hd, h.2.step h.1.reachable (hd.withinLimits hadm) hstep haction.ne_lose⟩

/-- `send` finishes its current arm, and then the timer goes off. -/
theorem HasSent.canReach_resent (h : HasSent addr sent c) (hadm : ∀ side, Admissible (sent side))
    (side : Side) (hclock : c.1.clock ≤ now) (hdue : AllOverdue now (c.1.ends side)) :
    (linkMachine addr).CanReach (Resends now) c fun d =>
      (HasSent addr sent d ∧ NothingLost addr side d) ∧ d.1.clock = now ∧
        d.1.ends side.peer = c.1.ends side.peer := by
  induction hn : (c.1.ends side).outgoing generalizing c with
  | nil =>
      have htick : Resends now (.atEnd side (.tick now)) := rfl
      have hafter : Link.clockAfter c.1.clock (.tick now) = some now := if_pos hclock
      have hend : (c.1.ends side).step (addr.of side.peer) (.tick now) = _ :=
        Endpoint.step_tick now hn
      have hstep := step_atEnd hafter hend
      have hd := h.step htick.unprompted hstep
      refine .one htick hstep ⟨⟨hd, ?_⟩, rfl, Function.update_of_ne side.peer_ne _ _⟩
      refine nothingLost_of_outgoing (hd.inv hadm) (hd.withinLimits hadm) fun seq entry hentry => ?_
      simp only [Function.update_self, Endpoint.checkRetransmission, Table.lookup_mapValues,
        Option.map_eq_some_iff] at hentry ⊢
      obtain ⟨old, hold, rfl⟩ := hentry
      have hvalue : old ∈ Table.values (c.1.ends side).state.unacked :=
        Table.mem_values.mpr ⟨seq, hold⟩
      rw [hdue seq old hold, if_pos rfl]
      exact List.mem_map.mpr ⟨old, List.mem_filter.mpr ⟨hvalue, hdue seq old hold⟩, rfl⟩
  | cons packet rest ih =>
      have hpacket : (c.1.ends side).outgoing[0]? = some packet := by rw [hn]; rfl
      have htransmit : Resends now (.atEnd side (.transmit 0)) := trivial
      have hafter : Link.clockAfter c.1.clock (.transmit 0) = some c.1.clock := rfl
      have hend : (c.1.ends side).step (addr.of side.peer) (.transmit 0) = _ :=
        Endpoint.step_transmit hpacket
      have hstep := step_atEnd hafter hend
      refine .cons htransmit hstep ((ih (h.step htransmit.unprompted hstep) hclock ?_ ?_).mono ?_)
      · show AllOverdue now (Function.update c.1.ends side _ side)
        rw [Function.update_self]
        exact hdue
      · simp [hn]
      · rintro e ⟨he, hnow, hpeer⟩
        exact ⟨he, hnow, hpeer.trans (Function.update_of_ne side.peer_ne _ _)⟩

/-- With one tick of each timer, when everything is overdue, everything is under way. -/
theorem HasSent.canReach_lossless (h : HasSent addr sent c)
    (hadm : ∀ side, Admissible (sent side)) (hnow : c.1.clock + Endpoint.retransmitTimeout < now) :
    (linkMachine addr).CanReach (Resends now) c fun d =>
      Lossless addr sent d ∧ d.1.clock = now := by
  have hdue : ∀ side, AllOverdue now (c.1.ends side) := by
    intro side seq entry hentry
    have hshort := (h.withinLimits hadm side).short
    have hfew : (submittedPayloads side c.2).length < 2 ^ 32 := by
      unfold submittedPayloads
      omega
    have hle := timeSent_le_clock h.reachable hfew hentry
    simp only [Endpoint.isOverdue, decide_eq_true_eq]
    omega
  refine (h.canReach_resent hadm .left (by omega) (hdue .left)).trans fun d hd => ?_
  obtain ⟨hleft, hclock, hright⟩ := hd
  have hdue' : AllOverdue now (d.1.ends .right) := hright ▸ hdue .right
  have hreach := hleft.1.canReach_resent hadm .right (Nat.le_of_eq hclock) hdue'
  refine (hreach.keeping hleft fun e action f he haction hstep =>
    NothingLost.keep hadm he haction.unprompted hstep).mono ?_
  rintro e ⟨⟨⟨he, hkeptRight⟩, hclock', -⟩, -, hkeptLeft⟩
  refine ⟨⟨he, hadm, fun side => ?_⟩, hclock'⟩
  cases side with
  | left => exact hkeptLeft
  | right => exact hkeptRight

end Resend

/-! ## Descent -/

/-- Neither side has received or handed over anything in between. -/
structure SameReceivers (c d : Link × List (Side × Event)) : Prop where
  recvTask : ∀ side, (d.1.ends side).recvTask = (c.1.ends side).recvTask
  handedCount : ∀ side, handedCount side d = handedCount side c

theorem SameReceivers.trans {c d e : Link × List (Side × Event)}
    (hfirst : SameReceivers c d) (hsecond : SameReceivers d e) : SameReceivers c e where
  recvTask side := (hsecond.recvTask side).trans (hfirst.recvTask side)
  handedCount side := (hsecond.handedCount side).trans (hfirst.handedCount side)

namespace Lossless

variable {addr : Addresses} {sent : Side → List (List UInt8)}
  {c d : Link × List (Side × Event)}

theorem step (h : Lossless addr sent c) {action : LinkAction} (haction : Unprompted action)
    (hstep : (linkMachine addr).step c action = some d) : Lossless addr sent d where
  toHasSent := h.toHasSent.step haction hstep
  admissible := h.admissible
  kept side := (NothingLost.keep h.admissible ⟨h.toHasSent, h.kept side⟩ haction hstep).2

theorem inv (h : Lossless addr sent c) : LinkInv addr c.1 c.2 := h.toHasSent.inv h.admissible

/-- A waiting receiver expects as many packets as it has handed over. -/
theorem expectedSequence_eq (h : Lossless addr sent c) {side : Side}
    (htask : (c.1.ends side).recvTask = .receiving) :
    (c.1.ends side).state.expectedSequence.toNat = handedCount side c :=
  h.inv.expectedSequence_eq htask

/-- What a waiting receiver needs has not come. -/
theorem seq_ne_of_received (h : Lossless addr sent c) {side : Side}
    (htask : (c.1.ends side).recvTask = .receiving) {packet : Packet}
    (hmem : packet ∈ received (sideTrace side c.2)) :
    packet.header.seq.toNat ≠ handedCount side c :=
  (h.inv.receive side).seq_ne_of_receiving htask hmem

/-- A side takes a step of its own, and the rest goes on from there. -/
theorem advances_atEnd (h : Lossless addr sent c) {side : Side} {action : Action} {ep : Endpoint}
    {events : List Event} {clock : ℕ}
    (hend : (c.1.ends side).step (addr.of side.peer) action = some (ep, events))
    (haction : Untimed (.atEnd side action))
    (hclock : Link.clockAfter c.1.clock action = some clock)
    (hrest : ∀ d, Lossless addr sent d → d.1.ends side = ep →
      d.1.ends side.peer = c.1.ends side.peer →
      d.1.inFlight = c.1.inFlight ++ Link.wire addr side events →
      d.2 = c.2 ++ events.map (Prod.mk side) → Advances addr d) : Advances addr c := by
  have hstep := step_atEnd hclock hend
  refine .of_step haction hstep (hrest _ (h.step haction.unprompted hstep) ?_ ?_ rfl rfl)
  · exact Function.update_self _ _ _
  · exact Function.update_of_ne side.peer_ne _ _

/-- A hand-over is an advance. -/
theorem advances_handOver {side : Side} {action : Action} {ep : Endpoint}
    {packet : Packet} {clock : ℕ}
    (hend : (c.1.ends side).step (addr.of side.peer) action =
      some (ep, [.handedOver packet]))
    (haction : Untimed (.atEnd side action))
    (hclock : Link.clockAfter c.1.clock action = some clock) : Advances addr c := by
  have hstep := step_atEnd hclock hend
  refine .one haction hstep (totalHanded_lt (handedCount_le_of_step hstep)
    (show handedCount side c < _ from ?_))
  simp [handedCount, sideTrace, handedOver]

/-- It is enough to advance from states in which `recv` of one side waits for a
datagram: on the way there nothing else changes, or a packet is handed over. -/
theorem advances_of_receiving (h : Lossless addr sent c) (side : Side)
    (hrest : ∀ d, Lossless addr sent d → (d.1.ends side).recvTask = .receiving →
      d.1.ends side.peer = c.1.ends side.peer → d.2 = c.2 → Advances addr d) :
    Advances addr c := by
  induction hn : (c.1.ends side).recvTask.remaining using Nat.strongRecOn generalizing c with
  | ind n ih =>
      subst hn
      by_cases hidle : (c.1.ends side).recvTask = .receiving
      · exact hrest c h hidle rfl rfl
      · obtain ⟨ep, events, hrecv, ⟨rfl, hless⟩ | ⟨packet, rfl⟩⟩ :=
          Endpoint.exists_recv_step (addr.of side.peer) hidle
        · refine h.advances_atEnd (show Endpoint.step _ _ .recv = _ from hrecv) trivial rfl ?_
          rintro d hd rfl hpeer - htrace
          rw [List.map_nil, List.append_nil] at htrace
          refine ih _ hless hd (fun e he hidle' hpeer' htrace' => ?_) rfl
          exact hrest e he hidle' (hpeer'.trans hpeer) (htrace'.trans htrace)
        · exact advances_handOver (show Endpoint.step _ _ .recv = _ from hrecv) trivial rfl

/-- The steps of `send` and `periodic_acks` leave both receivers alone. -/
theorem advances_sending (h : Lossless addr sent c) {side : Side} {action : Action}
    {ep : Endpoint} {events : List Event} {clock : ℕ}
    (hend : (c.1.ends side).step (addr.of side.peer) action = some (ep, events))
    (haction : Untimed (.atEnd side action))
    (hclock : Link.clockAfter c.1.clock action = some clock)
    (htask : ep.recvTask = (c.1.ends side).recvTask) (hevents : handedOver events = [])
    (hrest : ∀ d, Lossless addr sent d → SameReceivers c d → d.1.ends side = ep →
      d.1.inFlight = c.1.inFlight ++ Link.wire addr side events → Advances addr d) :
    Advances addr c := by
  refine h.advances_atEnd hend haction hclock fun d hd hself hpeer hflight htrace => ?_
  refine hrest d hd ⟨fun other => ?_, fun other => ?_⟩ hself hflight
  · rcases side.eq_or_eq_peer other with rfl | rfl
    · rw [hself, htask]
    · rw [hpeer]
  · unfold handedCount
    rw [htrace, sideTrace_append, handedOver_append]
    rcases side.eq_or_eq_peer other with rfl | rfl
    · rw [sideTrace_map_mk, hevents, List.append_nil]
    · rw [sideTrace_map_mk_of_ne side.peer_ne.symm]
      simp [handedOver]

/-- `send` can finish its current arm. -/
theorem advances_of_idle (h : Lossless addr sent c) (side : Side)
    (hrest : ∀ d, Lossless addr sent d → SameReceivers c d → (d.1.ends side).outgoing = [] →
      Advances addr d) : Advances addr c := by
  induction hn : (c.1.ends side).outgoing generalizing c with
  | nil => exact hrest c h ⟨fun _ => rfl, fun _ => rfl⟩ hn
  | cons packet rest ih =>
      have hpacket : (c.1.ends side).outgoing[0]? = some packet := by rw [hn]; rfl
      refine h.advances_sending (Endpoint.step_transmit hpacket) trivial rfl rfl rfl
        fun d hd hsame hself _ => ?_
      exact ih hd (fun e he hsame' => hrest e he (hsame.trans hsame')) (by simp [hself, hn])

/-! ## Deliveries -/

/-- A genuine packet under way reaches a waiting receiver. -/
theorem advances_deliver (h : Lossless addr sent c) {sender : Side} {packet : Packet}
    (hmem : addr.datagram sender packet ∈ c.1.inFlight)
    (hgenuine : Genuine (sent sender) packet)
    (htask : (c.1.ends sender.peer).recvTask = .receiving)
    (hrest : ∀ d, Lossless addr sent d →
      d.1.ends sender.peer = ((c.1.ends sender.peer).onPacket (addr.of sender) packet).1 →
      d.1.ends sender = c.1.ends sender →
      (∀ datagram ∈ Link.wire addr sender.peer
        ((c.1.ends sender.peer).onPacket (addr.of sender) packet).2, datagram ∈ d.1.inFlight) →
      (∀ side, handedCount side d = handedCount side c) → Advances addr d) :
    Advances addr c := by
  have hpeer : addr.of sender.peer.peer = addr.of sender := by rw [Side.peer_peer]
  have hstep := step_deliver hpeer hmem rfl
    (Endpoint.step_arrive htask (hgenuine.deserialize_take (h.admissible sender)))
  have haction : Untimed (.deliver sender.peer (addr.datagram sender packet)) := trivial
  refine .of_step haction hstep (hrest _ (h.step haction.unprompted hstep) ?_ ?_ ?_ fun side => ?_)
  · exact Function.update_self _ _ _
  · exact Function.update_of_ne sender.peer_ne.symm _ _
  · exact fun datagram hdatagram => List.mem_append_right _ hdatagram
  · unfold handedCount
    rw [sideTrace_append, handedOver_append]
    rcases sender.peer.eq_or_eq_peer side with rfl | rfl
    · rw [sideTrace_map_mk]
      have hnone := Endpoint.handedOver_onPacket (addr.of sender) (c.1.ends sender.peer) packet
      simpa [handedOver] using hnone
    · rw [sideTrace_map_mk_of_ne sender.peer.peer_ne.symm]
      simp [handedOver]

/-- The packet whose turn it is gets handed over. -/
theorem advances_accept (h : Lossless addr sent c) {sender : Side} {packet : Packet}
    (hmem : addr.datagram sender packet ∈ c.1.inFlight)
    (hgenuine : Genuine (sent sender) packet)
    (htask : (c.1.ends sender.peer).recvTask = .receiving)
    (hseq : packet.header.seq.toNat = handedCount sender.peer c) : Advances addr c := by
  have hturn : packet.header.seq = (c.1.ends sender.peer).state.expectedSequence := by
    apply UInt32.toNat_inj.mp
    rw [hseq, h.expectedSequence_eq htask]
  refine h.advances_deliver hmem hgenuine htask fun d hd hself _ _ _ => ?_
  rw [Endpoint.onPacket_of_eq hturn] at hself
  obtain ⟨ep, hend⟩ : ∃ ep, (d.1.ends sender.peer).step (addr.of sender.peer.peer) .recv =
      some (ep, [.handedOver packet]) := by
    rw [hself]
    exact ⟨_, rfl⟩
  exact advances_handOver hend trivial rfl

/-- A receiver past number 0 gets its next data packet. -/
theorem advances_data (h : Lossless addr sent c) {sender : Side}
    (hidle : (c.1.ends sender).outgoing = [])
    (htask : (c.1.ends sender.peer).recvTask = .receiving)
    (hpos : 0 < handedCount sender.peer c)
    (hle : handedCount sender.peer c ≤ (sent sender).length) : Advances addr c := by
  obtain ⟨entry, hentry, hseq, hgenuine⟩ := h.exists_entry h.admissible hpos hle
  rcases (h.kept sender).data _ entry hentry with (hqueued | hflight) | hcome
  · rw [hidle] at hqueued
    cases hqueued
  · exact h.advances_accept hflight hgenuine htask hseq
  · exact absurd hseq (h.seq_ne_of_received htask hcome)

/-- A receiver that has not consumed number 0 gets it with any acknowledgement. -/
theorem advances_greeted (h : Lossless addr sent c) {sender : Side} {ack : UInt32}
    (hmem : addr.datagram sender (ackPacket ack) ∈ c.1.inFlight)
    (htask : (c.1.ends sender.peer).recvTask = .receiving)
    (hzero : handedCount sender.peer c = 0) : Advances addr c :=
  h.advances_accept hmem (genuine_ackPacket ack) htask hzero.symm

/-- The sender has an acknowledgement for it. -/
theorem advances_queued (h : Lossless addr sent c) {sender : Side}
    (hqueue : (c.1.ends sender).ackRx ≠ [])
    (htask : (c.1.ends sender.peer).recvTask = .receiving)
    (hzero : handedCount sender.peer c = 0) : Advances addr c := by
  obtain ⟨info, rest, hinfo⟩ := List.exists_cons_of_ne_nil hqueue
  have hdest := (h.inv.send sender).ackRx info (hinfo ▸ List.mem_cons_self)
  refine h.advances_sending (Endpoint.step_ack hinfo) trivial rfl rfl rfl
    fun d hd hsame _ hflight => ?_
  have hanswer : addr.datagram sender (ackPacket info.ackNum) ∈ d.1.inFlight := by
    rw [hflight]
    exact List.mem_append_right _ (by simp [Link.wire, Addresses.datagram, hdest])
  exact hd.advances_greeted hanswer ((hsame.recvTask sender.peer).trans htask)
    ((hsame.handedCount sender.peer).trans hzero)

/-- It has asked the sender for one: the sender takes the question in its turn, or answers. -/
theorem advances_asked (h : Lossless addr sent c) {sender : Side} {ack : UInt32}
    (hmem : addr.datagram sender.peer (ackPacket ack) ∈ c.1.inFlight)
    (hidle : (c.1.ends sender).recvTask = .receiving)
    (htask : (c.1.ends sender.peer).recvTask = .receiving)
    (hzero : handedCount sender.peer c = 0) : Advances addr c := by
  have hidle' : (c.1.ends sender.peer.peer).recvTask = .receiving := by
    rw [Side.peer_peer, hidle]
  rcases Nat.eq_zero_or_pos (handedCount sender c) with hstart | hstarted
  · exact h.advances_greeted hmem hidle' (by rw [Side.peer_peer, hstart])
  · have hbehind : (ackPacket ack).header.seq <
        (c.1.ends sender.peer.peer).state.expectedSequence := by
      rw [UInt32.lt_iff_toNat_lt, h.expectedSequence_eq hidle', Side.peer_peer]
      exact hstarted
    apply h.advances_deliver hmem (genuine_ackPacket ack) hidle'
    intro d hd hself hother _ hsame
    rw [Endpoint.onPacket_of_lt hbehind, if_pos (ackPacket_isBare ack), Side.peer_peer] at hself
    refine hd.advances_queued ?_ (by rw [hother, htask]) (by rw [hsame, hzero])
    rw [hself]
    simp

/-- A receiver that has not consumed number 0 gets a bare packet; if nothing else is under way,
the first data packet makes it ask for one. -/
theorem advances_start (h : Lossless addr sent c) {sender : Side}
    (hout : (c.1.ends sender).outgoing = [])
    (hidle : (c.1.ends sender).recvTask = .receiving)
    (htask : (c.1.ends sender.peer).recvTask = .receiving)
    (hzero : handedCount sender.peer c = 0) (hsome : sent sender ≠ []) : Advances addr c := by
  obtain ⟨entry, hentry, -, -⟩ :=
    h.exists_entry h.admissible Nat.one_pos (List.length_pos_iff.mpr hsome)
  rcases (h.kept sender).greeting entry hentry with hgreets | ⟨packet, hcome, hnumber⟩
  · cases hgreets with
    | sent ack hmem => exact h.advances_greeted hmem htask hzero
    | owed hqueue =>
        refine h.advances_queued (hqueue.resolve_left ?_) htask hzero
        rw [hidle]
        exact Bool.false_ne_true
    | asked ack hmem => exact h.advances_asked hmem hidle htask hzero
    | first packet hseq hgenuine hunderway =>
        rcases hunderway with hqueued | hflight
        · rw [hout] at hqueued
          cases hqueued
        · have hahead : (c.1.ends sender.peer).state.expectedSequence < packet.header.seq := by
            rw [UInt32.lt_iff_toNat_lt, h.expectedSequence_eq htask, hzero, hseq]
            decide
          rw [h.submitted_eq] at hgenuine
          refine h.advances_deliver hflight hgenuine htask fun d hd hself hother hwire hsame => ?_
          rw [Endpoint.onPacket_of_gt hahead] at hself hwire
          have hasked : addr.datagram sender.peer
              (ackPacket (c.1.ends sender.peer).state.receiverAcknowledged) ∈ d.1.inFlight :=
            hwire _ (by simp [Link.wire, Addresses.datagram])
          exact hd.advances_asked hasked (by rw [hother, hidle]) (by rw [hself]; exact htask)
            (by rw [hsame, hzero])
  · exact absurd (by rw [hnumber, hzero]; rfl) (h.seq_ne_of_received htask hcome)

/-- Whatever is still owed, the next packet can be handed over. -/
theorem advances (h : Lossless addr sent c) {sender : Side} (hsome : sent sender ≠ [])
    (hle : handedCount sender.peer c ≤ (sent sender).length) : Advances addr c := by
  refine h.advances_of_receiving sender fun d hd hidle _ htrace => ?_
  refine hd.advances_of_receiving sender.peer fun e he htask hother htrace' => ?_
  rw [Side.peer_peer] at hother
  refine he.advances_of_idle sender fun f hf hsame hout => ?_
  have hcount : handedCount sender.peer f = handedCount sender.peer c := by
    rw [hsame.handedCount]
    unfold handedCount
    rw [htrace', htrace]
  have htask' := (hsame.recvTask sender.peer).trans htask
  rw [← hcount] at hle
  rcases Nat.eq_zero_or_pos (handedCount sender.peer f) with hzero | hpos
  · exact hf.advances_start hout (by rw [hsame.recvTask, hother, hidle]) htask' hzero hsome
  · exact hf.advances_data hout htask' hpos hle

/-- Without any further tick everything is handed over. -/
theorem canReach_delivered (h : Lossless addr sent c) :
    (linkMachine addr).CanReach Untimed c fun d =>
      ∀ side, deliveredPayloads side d.2 = sent side.peer := by
  let owed (d : Link × List (Side × Event)) : ℕ :=
    (sent .left).length + (sent .right).length + 2 - totalHanded d
  refine Machine.CanReach.of_measure owed (fun d (hd : Lossless addr sent d) hgoal => ?_) h
  obtain ⟨side, hside⟩ := not_forall.mp hgoal
  have hshort : ¬ (sent side.peer = [] ∨
      (sent side.peer).length < handedCount side.peer.peer d) := by
    intro hall
    apply hside
    have hequal := hd.deliveredPayloads_eq hd.admissible hall
    rwa [Side.peer_peer] at hequal
  obtain ⟨hsome, hle⟩ := not_or.mp hshort
  have hadvances := hd.advances hsome (Nat.le_of_not_lt hle)
  refine (hadvances.keeping hd fun e action f he haction hstep =>
    he.step haction.unprompted hstep).mono fun e he => ⟨he.2, ?_⟩
  have hbound := he.2.totalHanded_le he.2.admissible
  have hmore := he.1
  simp only [owed]
  omega

end Lossless

/-- The reliable layer never gets stuck: from every reachable state, unprompted
steps can hand over everything that has been submitted so far. -/
theorem canReach_allDelivered {addr : Addresses} {c : Link × List (Side × Event)}
    (hc : (linkMachine addr).Reachable c) (hlimits : WithinLimits c.2) :
    (linkMachine addr).CanReach Unprompted c fun d =>
      ∀ side, deliveredPayloads side d.2 = submittedPayloads side.peer c.2 := by
  have hsent : HasSent addr (fun side => submittedPayloads side c.2) c := ⟨hc, fun _ => rfl⟩
  have hresent := hsent.canReach_lossless hlimits (Nat.lt_succ_self _)
  refine (hresent.weaken fun action => Resends.unprompted).trans fun d hd => ?_
  exact hd.1.canReach_delivered.weaken fun action => Untimed.unprompted

/-- The first message is submitted and lost on its way; the packet with number 0
has reached nobody. -/
def lostMessage : List LinkAction :=
  [.atEnd .left (.submit 0 (.data [104, 105])), .atEnd .left (.transmit 0),
    .lose (loopback.datagram .left ⟨⟨1, 0⟩, some [104, 105]⟩)]

theorem canReach_allDelivered_lostMessage :
    ∃ c, (linkMachine loopback).exec (linkMachine loopback).init lostMessage = some c ∧
      c.1.inFlight = [] ∧
      (linkMachine loopback).CanReach Unprompted c fun d =>
        ∀ side, deliveredPayloads side d.2 = submittedPayloads side.peer c.2 := by
  refine ⟨((linkMachine loopback).exec (linkMachine loopback).init lostMessage).get (by decide),
    (Option.some_get _).symm, by decide, ?_⟩
  refine canReach_allDelivered ⟨lostMessage, (Option.some_get _).symm⟩ fun side => ?_
  cases side <;> exact ⟨by decide, by decide⟩

end P2PNetworking.Common
