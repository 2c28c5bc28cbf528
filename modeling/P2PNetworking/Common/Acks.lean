/-
# Acknowledgements

An acknowledgement names the last of the packets that its sender has handed over,
and it is owed once for every packet received.  Both hold along the branches
`Equal` and `Greater` of `recv`.  They fail in two places.  Branch `Less` passes a
number on that the peer has acknowledged, as if it had been handed over here, and
so answers every acknowledgement with another one.  And the drain loop advances
`receiver_acknowledged` before it hands the packet over, so that data numbered in
between acknowledges too much.

The results are about one endpoint whose peer may do anything; the system gets
them through `sideComponent`.
-/

import P2PNetworking.Common.Delivery

namespace P2PNetworking.Common

open P2PNetworking.Net P2PNetworking.Lib

/-! ## Soundness -/

/-- A packet with this number came from the peer and has been handed over. -/
def Handed (trace : List Event) (seq : UInt32) : Prop :=
  ∃ packet ∈ handedOver trace, packet ∈ received trace ∧ packet.header.seq = seq

/-- So have all packets from number 1 to this one. -/
def HandedUpTo (trace : List Event) (ack : UInt32) : Prop :=
  ∀ seq, 1 ≤ seq → seq ≤ ack → Handed trace seq

/-- So have all packets from number 1 up to, but without, this one. -/
def HandedBelow (trace : List Event) (expected : UInt32) : Prop :=
  ∀ seq, 1 ≤ seq → seq < expected → Handed trace seq

instance (trace : List Event) (seq : UInt32) : Decidable (Handed trace seq) :=
  inferInstanceAs (Decidable (∃ packet ∈ handedOver trace, _))

/-- The numbers up to an acknowledgement are counted through. -/
instance (trace : List Event) (ack : UInt32) : Decidable (HandedUpTo trace ack) :=
  decidable_of_iff (∀ i < ack.toNat, Handed trace (.ofNat (i + 1))) (by
    constructor
    · intro h seq hpos hle
      rw [UInt32.le_iff_toNat_le] at hpos hle
      rw [UInt32.toNat_one] at hpos
      have hself := h (seq.toNat - 1) (by omega)
      rwa [Nat.sub_add_cancel hpos, UInt32.ofNat_toNat] at hself
    · intro h i hi
      have hlt := ack.toNat_lt
      have hvalue : (UInt32.ofNat (i + 1)).toNat = i + 1 :=
        UInt32.toNat_ofNat_of_lt' (by simp only [UInt32.size]; omega)
      apply h
      · rw [UInt32.le_iff_toNat_le, hvalue, UInt32.toNat_one]
        omega
      · rw [UInt32.le_iff_toNat_le, hvalue]
        omega)

/-- At every emission, what the header acknowledges has been handed over. -/
def AcksSound (trace : List Event) : Prop :=
  ∀ before packet dest after, trace = before ++ .emitted packet dest :: after →
    HandedUpTo before packet.header.ack

section Handed

variable {trace events : List Event} {seq ack expected : UInt32}

theorem Handed.append (h : Handed trace seq) (events : List Event) :
    Handed (trace ++ events) seq := by
  obtain ⟨packet, hhanded, hreceived, hseq⟩ := h
  refine ⟨packet, ?_, ?_, hseq⟩
  · rw [handedOver_append]
    exact List.mem_append_left _ hhanded
  · rw [received_append]
    exact List.mem_append_left _ hreceived

/-- What has been received and is handed over now has been handed over. -/
theorem handed_handedOver {packet : Packet} (hreceived : packet ∈ received trace) :
    Handed (trace ++ [.handedOver packet]) packet.header.seq := by
  refine ⟨packet, ?_, ?_, rfl⟩
  · rw [handedOver_append]
    exact List.mem_append_right _ List.mem_cons_self
  · rw [received_append]
    exact List.mem_append_left _ hreceived

theorem HandedUpTo.append (h : HandedUpTo trace ack) (events : List Event) :
    HandedUpTo (trace ++ events) ack :=
  fun seq hpos hle => (h seq hpos hle).append events

theorem HandedBelow.append (h : HandedBelow trace expected) (events : List Event) :
    HandedBelow (trace ++ events) expected :=
  fun seq hpos hlt => (h seq hpos hlt).append events

theorem handedUpTo_zero (trace : List Event) : HandedUpTo trace 0 := by
  intro seq hpos hle
  rw [UInt32.le_iff_toNat_le] at hpos hle
  simp only [UInt32.toNat_one, UInt32.toNat_zero] at hpos hle
  omega

theorem handedBelow_zero (trace : List Event) : HandedBelow trace 0 := by
  intro seq _ hlt
  exact absurd hlt (UInt32.not_lt_zero)

/-- Up to a number is below the next one, also where the next one is 0. -/
theorem HandedUpTo.below_add_one (h : HandedUpTo trace ack) :
    HandedBelow trace (ack + 1) := by
  intro seq hpos hlt
  apply h seq hpos
  rw [UInt32.le_iff_toNat_le]
  rw [UInt32.lt_iff_toNat_lt, UInt32.toNat_add, UInt32.toNat_one] at hlt
  have := Nat.mod_le (ack.toNat + 1) (2 ^ 32)
  omega

theorem HandedBelow.upTo (h : HandedBelow trace ack) (hself : Handed trace ack) :
    HandedUpTo trace ack := by
  intro seq hpos hle
  rcases UInt32.lt_or_eq_of_le hle with hlt | rfl
  · exact h seq hpos hlt
  · exact hself

/-- Sound histories are extended by emissions that are sound already. -/
theorem AcksSound.append (h : AcksSound trace)
    (hnew : ∀ packet dest, Event.emitted packet dest ∈ events →
      HandedUpTo trace packet.header.ack) : AcksSound (trace ++ events) := by
  intro before packet dest after hsplit
  rcases List.append_eq_append_iff.mp hsplit with ⟨between, hbefore, hevents⟩ |
    ⟨between, htrace, hrest⟩
  · rw [hbefore]
    refine (hnew packet dest ?_).append between
    rw [hevents]
    simp
  · cases between with
    | nil =>
        rw [List.append_nil] at htrace
        rw [List.nil_append] at hrest
        rw [← htrace]
        exact hnew packet dest (hrest ▸ List.mem_cons_self)
    | cons event between =>
        obtain ⟨rfl, -⟩ := List.cons.inj hrest
        exact h before packet dest between htrace

end Handed

/-- Where acknowledgements stay sound: a bare packet below the expected number
brings no acknowledgement that this endpoint could not give itself, and data is
not numbered while `recv` is between the counters and the hand-over. -/
def SoundStep (peerAddr : SocketAddr) (c : Endpoint × List Event) : Action → Prop
  | .arrive src bytes => ∀ packet, src = peerAddr →
      deserialize (bytes.take Endpoint.recvBufferSize) = .ok packet → packet.isBare = true →
      packet.header.seq < c.1.state.expectedSequence → HandedUpTo c.2 packet.header.ack
  | .submit _ (.data _) =>
      ∀ nextExpected packet, c.1.recvTask ≠ .releasing nextExpected packet
  | _ => True

instance (peerAddr : SocketAddr) (c : Endpoint × List Event) (action : Action) :
    Decidable (SoundStep peerAddr c action) :=
  match action with
  | .arrive src bytes =>
      match hbytes : deserialize (bytes.take Endpoint.recvBufferSize) with
      | .error _ => .isTrue (by simp [SoundStep, hbytes])
      | .ok packet => decidable_of_iff (src = peerAddr → packet.isBare = true →
          packet.header.seq < c.1.state.expectedSequence → HandedUpTo c.2 packet.header.ack)
          (by simp [SoundStep, hbytes])
  | .submit _ (.data _) =>
      match htask : c.1.recvTask with
      | .releasing _ _ => .isFalse (by simp [SoundStep, htask])
      | .receiving | .handingOver _ | .advancing _ | .queueingAck _ | .draining _ =>
          .isTrue (by simp [SoundStep, htask])
  | .submit _ (.ack _) | .recv | .tick _ | .transmit _ | .ack => .isTrue trivial

/-- The counters of the receive side, given what has been handed over. -/
def AckPosition (ep : Endpoint) (trace : List Event) : Prop :=
  let expected := ep.state.expectedSequence
  let acknowledged := ep.state.receiverAcknowledged
  match ep.recvTask with
  | .receiving => HandedUpTo trace acknowledged ∧ HandedBelow trace expected
  | .handingOver packet =>
      HandedUpTo trace acknowledged ∧ HandedBelow trace expected ∧
        packet.header.seq = expected ∧ packet ∈ received trace
  | .advancing packetSeq =>
      HandedUpTo trace acknowledged ∧ HandedUpTo trace packetSeq ∧ expected = packetSeq
  | .queueingAck packetSeq =>
      HandedUpTo trace packetSeq ∧ acknowledged = packetSeq ∧ expected = packetSeq + 1
  | .draining nextExpected =>
      HandedUpTo trace acknowledged ∧ expected = nextExpected ∧ nextExpected = acknowledged + 1
  | .releasing nextExpected packet =>
      -- here alone the acknowledged number has not been handed over
      HandedBelow trace nextExpected ∧ acknowledged = nextExpected ∧
        expected = nextExpected + 1 ∧ packet.header.seq = nextExpected ∧
        packet ∈ received trace

/-- Every acknowledgement that an endpoint has in store is sound. -/
structure AckInv (c : Endpoint × List Event) : Prop where
  sound : AcksSound c.2
  ackRx : ∀ info ∈ c.1.ackRx, HandedUpTo c.2 info.ackNum
  outgoing : ∀ packet ∈ c.1.outgoing, HandedUpTo c.2 packet.header.ack
  unacked : ∀ seq entry, c.1.state.unacked.lookup seq = some entry →
    HandedUpTo c.2 entry.packet.header.ack
  buffer : ∀ seq packet, c.1.state.recvBuffer.lookup seq = some packet →
    packet.header.seq = seq ∧ packet ∈ received c.2
  position : AckPosition c.1 c.2

theorem AckInv.new : AckInv (.new, []) where
  sound := by
    intro before packet dest after hsplit
    simp at hsplit
  ackRx := by simp [Endpoint.new]
  outgoing := by simp [Endpoint.new]
  unacked := by simp [Endpoint.new, SharedState.new]
  buffer := by simp [Endpoint.new, SharedState.new]
  position := ⟨handedUpTo_zero _, handedBelow_zero _⟩

section AckInv

variable {peerAddr : SocketAddr} {ep ep' : Endpoint} {trace events : List Event}
  {action : Action}

/-- Positions survive whatever else happens. -/
theorem AckPosition.append (h : AckPosition ep trace) (events : List Event) :
    AckPosition ep (trace ++ events) := by
  have hreceived : ∀ packet, packet ∈ received trace → packet ∈ received (trace ++ events) := by
    intro packet hmem
    rw [received_append]
    exact List.mem_append_left _ hmem
  unfold AckPosition at h ⊢
  split <;> simp_all only [and_true, HandedUpTo.append, HandedBelow.append]

/-- Except in the drain loop the acknowledged number is sound. -/
theorem AckPosition.acknowledged (h : AckPosition ep trace)
    (htask : ∀ nextExpected packet, ep.recvTask ≠ .releasing nextExpected packet) :
    HandedUpTo trace ep.state.receiverAcknowledged := by
  unfold AckPosition at h
  split at h
  · exact h.1
  · exact h.1
  · exact h.1
  · exact h.2.1 ▸ h.1
  · exact h.1
  · next hreleasing => exact absurd hreleasing (htask _ _)

/-- A history that grows by sound emissions leaves everything in store sound. -/
theorem AckInv.grow (h : AckInv (ep, trace))
    (hemitted : ∀ packet dest, Event.emitted packet dest ∈ events →
      HandedUpTo trace packet.header.ack) : AckInv (ep, trace ++ events) where
  sound := h.sound.append hemitted
  ackRx info hmem := (h.ackRx info hmem).append events
  outgoing packet hmem := (h.outgoing packet hmem).append events
  unacked seq entry hlookup := (h.unacked seq entry hlookup).append events
  buffer seq packet hlookup := by
    rw [received_append]
    exact (h.buffer seq packet hlookup).imp_right (List.mem_append_left _)
  position := h.position.append events

/-- A step without emissions. -/
private theorem AckInv.silent (h : AckInv (ep, trace)) (events : List Event)
    (hsilent : ∀ packet dest, Event.emitted packet dest ∉ events) :
    AckInv (ep, trace ++ events) :=
  h.grow fun packet dest hmem => absurd hmem (hsilent packet dest)

/-- One more acknowledgement in the channel. -/
private theorem AckInv.enqueue (h : AckInv (ep, trace)) {info : AckInfo}
    (hinfo : HandedUpTo trace info.ackNum) :
    ∀ other ∈ ep.ackRx ++ [info], HandedUpTo trace other.ackNum := by
  intro other hmem
  rcases List.mem_append.mp hmem with hmem | hmem
  · exact h.ackRx other hmem
  · rw [List.mem_singleton.mp hmem]
    exact hinfo

private theorem mem_received_received (trace rest : List Event) (packet : Packet) :
    packet ∈ received (trace ++ .received packet :: rest) := by
  rw [received_append]
  exact List.mem_append_right _ List.mem_cons_self

/-- Steps that meet the guard keep every acknowledgement sound. -/
theorem AckInv.step (h : AckInv (ep, trace)) (hguard : SoundStep peerAddr (ep, trace) action)
    (hstep : Endpoint.Transition peerAddr ep action ep' events) :
    AckInv (ep', trace ++ events) := by
  have hposition := h.position
  cases hstep with
  | foreign | malformed | submitAck => exact h.silent [] (by simp)
  | duplicate => exact h.silent _ (by simp)
  | @accept bytes packet htask hbytes hseq =>
      simp only [AckPosition, htask] at hposition
      obtain ⟨hacked, hbelow⟩ := hposition
      exact { h.silent [.received packet] (by simp) with
        position := ⟨hacked.append _, hbelow.append _, hseq, mem_received_received _ _ _⟩ }
  | @buffer bytes packet htask hbytes hseq =>
      have hacked := hposition.acknowledged (by simp [htask])
      have hgrown : AckInv (ep, trace ++ [.received packet,
          .emitted (ackPacket ep.state.receiverAcknowledged) peerAddr]) :=
        h.grow fun sent dest hmem => by
        simp only [List.mem_cons, reduceCtorEq, Event.emitted.injEq, List.not_mem_nil, or_false,
          false_or] at hmem
        rw [hmem.1]
        exact hacked
      refine { hgrown with buffer := fun seq other hlookup => ?_ }
      rw [Table.lookup_insert_eq_ite] at hlookup
      split at hlookup
      · next heq =>
        cases hlookup
        exact ⟨heq.symm, mem_received_received _ _ _⟩
      · exact hgrown.buffer seq other hlookup
  | @echo bytes packet htask hbytes hseq hbare =>
      have hearned := hguard packet rfl hbytes hbare hseq
      have hgrown := h.silent [.received packet] (by simp)
      exact { hgrown with ackRx := hgrown.enqueue (hearned.append _) }
  | @handOver packet htask =>
      simp only [AckPosition, htask] at hposition
      obtain ⟨hacked, hbelow, hseq, hreceived⟩ := hposition
      have hself := handed_handedOver hreceived
      exact { h.silent [.handedOver packet] (by simp) with
        position := ⟨hacked.append _, ((hseq ▸ hbelow).append _).upTo hself, hseq.symm⟩ }
  | advance htask =>
      simp only [AckPosition, htask] at hposition
      obtain ⟨-, hseq, hexpected⟩ := hposition
      exact { h.silent [] (by simp) with
        position := ⟨hseq.append _, rfl, by simp only [hexpected]⟩ }
  | queueAck htask =>
      simp only [AckPosition, htask] at hposition
      obtain ⟨hseq, hacked, hexpected⟩ := hposition
      have hgrown := h.silent [] (by simp)
      have hacknowledged : HandedUpTo (trace ++ []) ep.state.receiverAcknowledged := by
        rw [hacked]
        exact hseq.append _
      exact { hgrown with
        ackRx := hgrown.enqueue (hseq.append _)
        position := ⟨hacknowledged, hexpected, by simp only [hacked]⟩ }
  | drained htask hbuffer =>
      simp only [AckPosition, htask] at hposition
      obtain ⟨hacked, hexpected, hnext⟩ := hposition
      exact { h.silent [] (by simp) with
        position := ⟨hacked.append _, by
          simp only [hexpected, hnext]
          exact (hacked.append _).below_add_one⟩ }
  | @drain nextExpected packet htask hbuffer =>
      simp only [AckPosition, htask] at hposition
      obtain ⟨hacked, hexpected, hnext⟩ := hposition
      have hgrown := h.silent [] (by simp)
      obtain ⟨hseq, hreceived⟩ := hgrown.buffer nextExpected packet hbuffer
      have hbelow : HandedBelow (trace ++ []) nextExpected := by
        rw [hnext]
        exact (hacked.append _).below_add_one
      refine { hgrown with
        buffer := fun seq other hlookup => ?_
        position := ⟨hbelow, hnext.symm, by simp only [hexpected], hseq, hreceived⟩ }
      rw [Table.lookup_erase_eq_ite] at hlookup
      split at hlookup
      · cases hlookup
      · exact hgrown.buffer seq other hlookup
  | @release nextExpected packet htask =>
      simp only [AckPosition, htask] at hposition
      obtain ⟨hbelow, hacked, hexpected, hseq, hreceived⟩ := hposition
      have hself := handed_handedOver hreceived
      rw [hseq] at hself
      exact { h.silent [.handedOver packet] (by simp) with
        position := ⟨hacked ▸ (hbelow.append _).upTo hself, hexpected, by simp only [hacked]⟩ }
  | @submitData now payload hidle =>
      have hacked := hposition.acknowledged hguard
      have hgrown := h.silent [.submitted payload] (by simp)
      refine { hgrown with
        outgoing := fun packet hmem => ?_
        unacked := fun seq entry hlookup => ?_ }
      · rw [List.mem_singleton.mp hmem]
        exact hacked.append _
      · simp only [Endpoint.send, Table.lookup_insert_eq_ite] at hlookup
        split at hlookup
        · cases hlookup
          exact hacked.append _
        · exact hgrown.unacked seq entry hlookup
  | @tick now hidle =>
      have hgrown := h.silent [] (by simp)
      refine { hgrown with
        outgoing := fun packet hmem => ?_
        unacked := fun seq entry hlookup => ?_ }
      · obtain ⟨entry, hentry, rfl⟩ := List.mem_map.mp hmem
        obtain ⟨seq, hlookup⟩ := Table.mem_values.mp (List.mem_filter.mp hentry).1
        exact hgrown.unacked seq entry hlookup
      · simp only [Endpoint.checkRetransmission, Table.lookup_mapValues,
          Option.map_eq_some_iff] at hlookup
        obtain ⟨old, hold, rfl⟩ := hlookup
        have := hgrown.unacked seq old hold
        split <;> exact this
  | @transmit index packet hpacket =>
      have hgrown : AckInv (ep, trace ++ [.emitted packet peerAddr]) :=
        h.grow fun sent dest hmem => by
        simp only [List.mem_singleton, Event.emitted.injEq] at hmem
        rw [hmem.1]
        exact h.outgoing packet (List.mem_of_getElem? hpacket)
      exact { hgrown with
        outgoing := fun other hmem => hgrown.outgoing other (List.mem_of_mem_eraseIdx hmem) }
  | @ack info rest hqueue =>
      have hgrown : AckInv (ep, trace ++ [.emitted (ackPacket info.ackNum) info.peerAddr]) :=
        h.grow fun sent dest hmem => by
        simp only [List.mem_singleton, Event.emitted.injEq] at hmem
        rw [hmem.1]
        exact h.ackRx info (by simp [hqueue])
      exact { hgrown with
        ackRx := fun other hmem => hgrown.ackRx other (by simp [hqueue, hmem]) }

end AckInv

/-- In every schedule whose steps all meet the guard, no side ever acknowledges a
packet that it has not handed over. -/
theorem acksSound_of_along {addr : Addresses} {side : Side} {actions : List LinkAction}
    {c : Link × List (Side × Event)}
    (hexec : (linkMachine addr).exec (linkMachine addr).init actions = some c)
    (halong : (linkMachine addr).Along
      ((sideComponent addr side).lift (SoundStep (addr.of side.peer)))
      (linkMachine addr).init actions) : AcksSound (sideTrace side c.2) := by
  have hinv : AckInv ((sideComponent addr side).view c) := by
    refine (sideComponent addr side).along_induct AckInv.new ?_ hexec halong
    rintro ⟨ep, trace⟩ action d - h hguard hstep
    obtain ⟨ep', events, hnext, rfl⟩ := Machine.traced_step.mp hstep
    exact h.step hguard (Endpoint.transition_of_step hnext)
  exact hinv.sound

/-- The left side's second message, after which the right side's cumulative
acknowledgement of number 2 comes back.  The left side, to which nothing has ever
been sent, passes that number on as its own. -/
def passedOnAck : List LinkAction :=
  firstMessage ++
    [.atEnd .right .recv,
      .atEnd .left (.submit 1 (.data [33])), .atEnd .left (.transmit 0),
      .deliver .right (loopback.datagram .left ⟨⟨2, 0⟩, some [33]⟩),
      .atEnd .right .recv, .atEnd .right .recv, .atEnd .right .recv, .atEnd .right .recv,
      .atEnd .right .ack, .atEnd .right .ack,
      .deliver .left (loopback.datagram .right (ackPacket 2)), .atEnd .left .ack]

theorem acksSound_passedOnAck :
    ∃ c, (linkMachine loopback).exec (linkMachine loopback).init passedOnAck = some c ∧
      ackPacket 2 ∈ emitted (sideTrace .right c.2) ∧ AcksSound (sideTrace .right c.2) :=
  ⟨((linkMachine loopback).exec (linkMachine loopback).init passedOnAck).get (by decide),
    (Option.some_get _).symm, by decide,
    acksSound_of_along (Option.some_get _).symm (by decide)⟩

theorem not_acksSound_passedOnAck :
    ∃ c, (linkMachine loopback).exec (linkMachine loopback).init passedOnAck = some c ∧
      submitted (sideTrace .right c.2) = [] ∧ ¬ AcksSound (sideTrace .left c.2) := by
  refine ⟨((linkMachine loopback).exec (linkMachine loopback).init passedOnAck).get (by decide),
    (Option.some_get _).symm, by decide, fun hsound => ?_⟩
  have hsplit := hsound _ (ackPacket 2) (loopback.of .right) []
    (List.dropLast_append_getLast? (Event.emitted (ackPacket 2) (loopback.of .right))
      (by decide)).symm
  obtain ⟨packet, hhanded, -, hseq⟩ := hsplit 1 (by decide) (by decide)
  revert packet
  decide

end P2PNetworking.Common
