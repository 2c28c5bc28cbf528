/-
# What is remembered for retransmission

`send` remembers every data packet in `unacked`, and `check_retransmission` sends
the overdue ones again.  Nothing takes a packet out: `recv` reads the
acknowledgement of a packet only to pass it on, and `sender_acknowdgeded` is
never used.  So nothing is forgotten before the numbers come round, and everything
is kept too long.
-/

import P2PNetworking.Common.Delivery

namespace P2PNetworking.Common

open P2PNetworking.Net P2PNetworking.Lib

/-- The packets of the peer that `recv` is done with. -/
def processed (c : Endpoint × List Event) : List Packet :=
  match c.1.recvTask with
  | .receiving => received c.2
  | _ => (received c.2).dropLast

/-- No acknowledgement processed so far covers the payload at this position of
the stream. -/
def Unacknowledged (c : Endpoint × List Event) (i : ℕ) : Prop :=
  ∀ packet ∈ processed c, packet.header.ack.toNat < i + 1

/-- `unacked` is exactly what has been sent and not been acknowledged, and so is
what is sent again. -/
structure UnackedExact (c : Endpoint × List Event) : Prop where
  settled : ∀ packet ∈ processed c, ∀ seq entry,
    c.1.state.unacked.lookup seq = some entry → packet.header.ack < seq
  pending : ∀ i payload, (submitted c.2)[i]? = some payload → Unacknowledged c i →
    ∃ entry, c.1.state.unacked.lookup (.ofNat (i + 1)) = some entry ∧
      entry.packet.payload = some payload
  resent : ∀ now, ∀ sent ∈ (c.1.checkRetransmission now).outgoing, ∀ packet ∈ processed c,
    packet.header.ack < sent.header.seq
  remembered : ∀ i payload, (submitted c.2)[i]? = some payload → Unacknowledged c i →
    ∃ timeSent, ∀ now, now - timeSent > Endpoint.retransmitTimeout →
      ∃ sent ∈ (c.1.checkRetransmission now).outgoing,
        sent.header.seq = .ofNat (i + 1) ∧ sent.payload = some payload

/-- No payload gave way in `unacked` to another one with its number: sequence
numbers have 32 bits, and `send` does not look whether one is taken. -/
def NothingOverwritten (payloads : List (List UInt8)) : Prop :=
  ∀ i j payload later, payloads[i]? = some payload → payloads[j]? = some later →
    UInt32.ofNat (i + 1) = .ofNat (j + 1) → payload = later

theorem NothingOverwritten.of_short {payloads : List (List UInt8)}
    (hshort : payloads.length < 2 ^ 32) : NothingOverwritten payloads := by
  intro i j payload later hi hj hnumber
  obtain rfl := eq_of_ofNat_succ_eq hshort (List.getElem?_eq_some_iff.mp hi).1
    (List.getElem?_eq_some_iff.mp hj).1 hnumber
  exact Option.some_inj.mp (hi.symm.trans hj)

/-! ## What `unacked` holds -/

/-- Every payload sent is still remembered under its number, unless another one
took its place. -/
theorem SenderInv.exists_entry {peerAddr : SocketAddr} {payloads : List (List UInt8)}
    {ep : Endpoint} (h : SenderInv peerAddr payloads ep)
    (hkept : NothingOverwritten payloads) {i : ℕ} {payload : List UInt8}
    (hi : payloads[i]? = some payload) :
    ∃ entry, ep.state.unacked.lookup (.ofNat (i + 1)) = some entry ∧
      entry.packet.header.seq = .ofNat (i + 1) ∧ entry.packet.payload = some payload := by
  obtain ⟨entry, hentry⟩ := Option.isSome_iff_exists.mp
    (h.complete i (List.getElem?_eq_some_iff.mp hi).1)
  obtain ⟨hseq, j, later, hj, hnumber, hpayload, -⟩ := h.unacked _ entry hentry
  refine ⟨entry, hentry, hseq, ?_⟩
  rw [hpayload, hkept i j payload later hi hj (hseq.symm.trans hnumber)]

section Reachable

variable {peerAddr : SocketAddr} {c : Endpoint × List Event}

/-- With the table exact and a message sent, no packet processed acknowledges
anything: number 1 is still there.  Nor have the numbers come round to 0. -/
theorem UnackedExact.quiet (h : UnackedExact c) (hinv : SenderInv peerAddr (submitted c.2) c.1)
    (hsome : submitted c.2 ≠ []) {packet : Packet} (hmem : packet ∈ processed c) :
    packet.header.ack = 0 ∧ (submitted c.2).length < 2 ^ 32 := by
  have hlt : ∀ i < (submitted c.2).length, packet.header.ack < .ofNat (i + 1) := by
    intro i hi
    obtain ⟨entry, hentry⟩ := Option.isSome_iff_exists.mp (hinv.complete i hi)
    exact h.settled packet hmem _ entry hentry
  constructor
  · have hone := hlt 0 (List.length_pos_iff.mpr hsome)
    rw [UInt32.lt_iff_toNat_lt] at hone
    apply UInt32.toNat_inj.mp
    change packet.header.ack.toNat < 1 at hone
    rw [UInt32.toNat_zero]
    omega
  · by_contra hlong
    have hzero := hlt (2 ^ 32 - 1) (by omega)
    rw [UInt32.lt_iff_toNat_lt] at hzero
    exact Nat.not_lt_zero _ hzero

theorem UnackedExact.nothingOverwritten (h : UnackedExact c)
    (hinv : SenderInv peerAddr (submitted c.2) c.1) : NothingOverwritten (submitted c.2) := by
  intro i j payload later hi hj hnumber
  by_cases hnone : processed c = []
  · have hvacuous : ∀ k, Unacknowledged c k := by simp [Unacknowledged, hnone]
    obtain ⟨entry, hentry, hpayload⟩ := h.pending i payload hi (hvacuous i)
    obtain ⟨entry', hentry', hlater⟩ := h.pending j later hj (hvacuous j)
    rw [← hnumber, hentry] at hentry'
    cases hentry'
    exact Option.some_inj.mp (hpayload.symm.trans hlater)
  · obtain ⟨packet, hmem⟩ := List.exists_mem_of_ne_nil _ hnone
    have hsome : submitted c.2 ≠ [] := fun hnil => by simp [hnil] at hi
    exact NothingOverwritten.of_short (h.quiet hinv hsome hmem).2 i j payload later hi hj hnumber

/-- What is in the table stands above everything acknowledged, as long as nothing
is acknowledged. -/
theorem SenderInv.settled (hinv : SenderInv peerAddr (submitted c.2) c.1)
    (hquiet : submitted c.2 = [] ∨
      ∀ packet ∈ processed c, packet.header.ack = 0 ∧ (submitted c.2).length < 2 ^ 32)
    {packet : Packet} (hmem : packet ∈ processed c) {seq : UInt32} {entry : SentPacket}
    (hentry : c.1.state.unacked.lookup seq = some entry) : packet.header.ack < seq := by
  obtain ⟨hseq, i, payload, hi, hnumber, -⟩ := hinv.unacked seq entry hentry
  rcases hquiet with hnone | hzero
  · simp [hnone] at hi
  · obtain ⟨hack, hshort⟩ := hzero packet hmem
    have hlt := (List.getElem?_eq_some_iff.mp hi).1
    rw [hack, ← hseq, hnumber, UInt32.lt_iff_toNat_lt,
      UInt32.toNat_ofNat_of_lt' (by simp only [UInt32.size]; omega), UInt32.toNat_zero]
    exact Nat.succ_pos i

theorem SenderInv.unackedExact (hinv : SenderInv peerAddr (submitted c.2) c.1)
    (hkept : NothingOverwritten (submitted c.2))
    (hquiet : submitted c.2 = [] ∨
      ∀ packet ∈ processed c, packet.header.ack = 0 ∧ (submitted c.2).length < 2 ^ 32) :
    UnackedExact c where
  settled packet hmem seq entry hentry := hinv.settled hquiet hmem hentry
  pending i payload hi _ := by
    obtain ⟨entry, hentry, -, hpayload⟩ := hinv.exists_entry hkept hi
    exact ⟨entry, hentry, hpayload⟩
  resent now sent hsent packet hmem := by
    obtain ⟨entry, hvalue, rfl⟩ := List.mem_map.mp hsent
    obtain ⟨seq, hentry⟩ := Table.mem_values.mp (List.mem_filter.mp hvalue).1
    rw [(hinv.unacked seq entry hentry).1]
    exact hinv.settled hquiet hmem hentry
  remembered i payload hi _ := by
    obtain ⟨entry, hentry, hseq, hpayload⟩ := hinv.exists_entry hkept hi
    refine ⟨entry.timeSent, fun now hoverdue => ⟨entry.packet, ?_, hseq, hpayload⟩⟩
    have hvalue : entry ∈ Table.values c.1.state.unacked := Table.mem_values.mpr ⟨_, hentry⟩
    exact List.mem_map_of_mem (List.mem_filter.mpr ⟨hvalue, decide_eq_true hoverdue⟩)

/-- `unacked` is exact as long as nothing is acknowledged or nothing is sent, and
not any longer; and for no longer than its numbers last. -/
theorem unackedExact_iff (hc : (endpointMachine peerAddr).Reachable c) :
    UnackedExact c ↔
      NothingOverwritten (submitted c.2) ∧ (submitted c.2 = [] ∨
        ∀ packet ∈ processed c, packet.header.ack = 0 ∧ (submitted c.2).length < 2 ^ 32) := by
  have hinv := senderInv_of_reachable hc
  constructor
  · intro hexact
    refine ⟨hexact.nothingOverwritten hinv, or_iff_not_imp_left.mpr fun hsome => ?_⟩
    exact fun packet hmem => hexact.quiet hinv hsome hmem
  · rintro ⟨hkept, hquiet⟩
    exact hinv.unackedExact hkept hquiet

end Reachable

/-- One message and one acknowledgement of the peer, processed to its end. -/
def acknowledgedMessage (ack : UInt32) : List Action :=
  [.submit 0 (.data [104, 105]), .transmit 0,
    .arrive (loopback.of .right) (serialize (ackPacket ack)), .recv, .recv, .recv, .recv]

theorem unackedExact_acknowledgedMessage :
    ∃ c, (endpointMachine (loopback.of .right)).exec
        (endpointMachine (loopback.of .right)).init (acknowledgedMessage 0) = some c ∧
      processed c = [ackPacket 0] ∧ UnackedExact c :=
  ⟨((endpointMachine (loopback.of .right)).exec
      (endpointMachine (loopback.of .right)).init (acknowledgedMessage 0)).get (by decide),
    (Option.some_get _).symm, by decide,
    (unackedExact_iff ⟨_, (Option.some_get _).symm⟩).mpr
      ⟨.of_short (by decide), .inr (by decide)⟩⟩

/-- The message is acknowledged, remembered, and sent again. -/
theorem not_unackedExact_acknowledgedMessage :
    ∃ c, (endpointMachine (loopback.of .right)).exec
        (endpointMachine (loopback.of .right)).init (acknowledgedMessage 1) = some c ∧
      processed c = [ackPacket 1] ∧
      (c.1.checkRetransmission (Endpoint.retransmitTimeout + 1)).outgoing.length = 1 ∧
      ¬ UnackedExact c := by
  refine ⟨((endpointMachine (loopback.of .right)).exec
      (endpointMachine (loopback.of .right)).init (acknowledgedMessage 1)).get (by decide),
    (Option.some_get _).symm, by decide, by decide, fun hexact => ?_⟩
  have hresent := hexact.resent (Endpoint.retransmitTimeout + 1) ⟨⟨1, 0⟩, some [104, 105]⟩
    (by decide) (ackPacket 1) (by decide)
  revert hresent
  decide

end P2PNetworking.Common
