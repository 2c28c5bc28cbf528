/-
# The receive side of an endpoint

Whatever the peer sends, what `recv` has handed over, what it has in hand and what is in
`recv_buffer` are together the packets that have come: those handed over are numbered
from 0 on without a gap, the others have higher numbers, and the three counters say how
far the task has come.  Only the last number is excluded, since with it the counters
come round.
-/

import P2PNetworking.Common.SingleConnection

namespace P2PNetworking.Common

open P2PNetworking.Net P2PNetworking.Lib

/-- The counters of the receive side, given how many packets it has handed over. -/
def CountersAt (count : ℕ) (ep : Endpoint) : Prop :=
  let expected := ep.state.expectedSequence.toNat
  let acknowledged := ep.state.receiverAcknowledged.toNat
  match ep.recvTask with
  | .receiving => expected = count ∧ acknowledged = count - 1
  | .handingOver packet =>
      expected = count ∧ acknowledged = count - 1 ∧ packet.header.seq.toNat = count
  | .advancing packetSeq => expected + 1 = count ∧ packetSeq.toNat + 1 = count
  | .queueingAck packetSeq =>
      expected = count ∧ acknowledged + 1 = count ∧ packetSeq.toNat + 1 = count
  | .draining nextExpected =>
      expected = count ∧ acknowledged + 1 = count ∧ nextExpected.toNat = count
  | .releasing nextExpected packet =>
      expected = count + 1 ∧ acknowledged = count ∧ nextExpected.toNat = count ∧
        packet.header.seq.toNat = count

/-- The packet that `recv` is about to hand over. -/
def RecvTask.inHand : RecvTask → Option Packet
  | .handingOver packet => some packet
  | .releasing _ packet => some packet
  | _ => none

/-- The least number that may stand in `recv_buffer`: while a packet has been handed
over and the buffer has not been looked at, the next one may. -/
def RecvTask.bufferFloor (count : ℕ) : RecvTask → ℕ
  | .receiving | .handingOver _ | .releasing _ _ => count + 1
  | .advancing _ | .queueingAck _ | .draining _ => count

/-- Every packet received has been handed over, is in hand or in the buffer. -/
structure ReceiveInv (packets handed : List Packet) (ep : Endpoint) : Prop where
  counters : CountersAt handed.length ep
  numbered : handed.map (fun packet => packet.header.seq.toNat) = List.range handed.length
  genuine : ∀ packet ∈ handed, packet ∈ packets
  inHand : ∀ packet ∈ ep.recvTask.inHand, packet ∈ packets
  buffer : ∀ seq packet, ep.state.recvBuffer.lookup seq = some packet →
    packet.header.seq = seq ∧ packet ∈ packets ∧
      ep.recvTask.bufferFloor handed.length ≤ seq.toNat
  covered : ∀ packet ∈ packets, packet.header.seq.toNat < handed.length ∨
    packet.header.seq ∈ ep.recvTask.inHand.map (fun held => held.header.seq) ∨
    packet.header.seq ∈ ep.state.recvBuffer

/-- No number is the last one. -/
def BelowMax (packets : List Packet) : Prop :=
  ∀ packet ∈ packets, packet.header.seq.toNat < 2 ^ 32 - 1

section ReceiveInv

variable {peerAddr : SocketAddr} {packets handed : List Packet} {ep ep' : Endpoint}

theorem ReceiveInv.new : ReceiveInv [] [] .new where
  counters := ⟨rfl, rfl⟩
  numbered := rfl
  genuine := by simp
  inHand := by simp [Endpoint.new, RecvTask.inHand]
  buffer := by simp [Endpoint.new, SharedState.new]
  covered := by simp

/-- What has been handed over has come under numbers that do not wrap. -/
theorem ReceiveInv.length_handed_lt (h : ReceiveInv packets handed ep)
    (hbelow : BelowMax packets) : handed.length < 2 ^ 32 := by
  cases handed using List.reverseRecOn with
  | nil => simp
  | append_singleton before last =>
      have hlast := hbelow last (h.genuine last (by simp))
      have hnumbered := h.numbered
      rw [List.length_append, List.length_singleton, List.range_succ, List.map_append] at hnumbered
      have hseq := (List.append_inj' hnumbered rfl).2
      simp only [List.map_cons, List.map_nil, List.cons.injEq, and_true] at hseq
      rw [List.length_append, List.length_singleton]
      omega

/-- Order and number of the packets do not matter. -/
theorem ReceiveInv.congr (h : ReceiveInv packets handed ep) {others : List Packet}
    (hsame : ∀ packet, packet ∈ packets ↔ packet ∈ others) : ReceiveInv others handed ep where
  counters := h.counters
  numbered := h.numbered
  genuine packet hmem := (hsame packet).mp (h.genuine packet hmem)
  inHand packet hmem := (hsame packet).mp (h.inHand packet hmem)
  buffer seq packet hlookup := by
    obtain ⟨hseq, hmem, hfloor⟩ := h.buffer seq packet hlookup
    exact ⟨hseq, (hsame packet).mp hmem, hfloor⟩
  covered packet hmem := h.covered packet ((hsame packet).mpr hmem)

/-- What concerns the sending side, or comes again, changes nothing. -/
theorem ReceiveInv.unmoved (h : ReceiveInv packets handed ep) {late : List Packet}
    (hlate : ∀ packet ∈ late, packet.header.seq.toNat < handed.length)
    (htask : ep'.recvTask = ep.recvTask)
    (hexpected : ep'.state.expectedSequence = ep.state.expectedSequence)
    (hacknowledged : ep'.state.receiverAcknowledged = ep.state.receiverAcknowledged)
    (hbuffer : ep'.state.recvBuffer = ep.state.recvBuffer) :
    ReceiveInv (packets ++ late) handed ep' where
  counters := by
    rw [CountersAt, htask, hexpected, hacknowledged]
    exact h.counters
  numbered := h.numbered
  genuine packet hmem := List.mem_append_left _ (h.genuine packet hmem)
  inHand packet hmem := by
    rw [htask] at hmem
    exact List.mem_append_left _ (h.inHand packet hmem)
  buffer seq packet hlookup := by
    rw [hbuffer] at hlookup
    obtain ⟨hseq, hmem, hfloor⟩ := h.buffer seq packet hlookup
    rw [htask]
    exact ⟨hseq, List.mem_append_left _ hmem, hfloor⟩
  covered packet hmem := by
    rw [htask, hbuffer]
    rcases List.mem_append.mp hmem with hmem | hmem
    · exact h.covered packet hmem
    · exact .inl (hlate packet hmem)

/-- The task goes on with nothing in hand. -/
theorem ReceiveInv.goOn (h : ReceiveInv packets handed ep)
    (hcounters : CountersAt handed.length ep') (hhand : ep.recvTask.inHand = none)
    (hhand' : ep'.recvTask.inHand = none)
    (hbuffer : ep'.state.recvBuffer = ep.state.recvBuffer)
    (hfloor : ∀ seq packet, ep.state.recvBuffer.lookup seq = some packet →
      ep.recvTask.bufferFloor handed.length ≤ seq.toNat →
      ep'.recvTask.bufferFloor handed.length ≤ seq.toNat) :
    ReceiveInv packets handed ep' where
  counters := hcounters
  numbered := h.numbered
  genuine := h.genuine
  inHand packet hmem := by
    rw [hhand'] at hmem
    cases hmem
  buffer seq packet hlookup := by
    rw [hbuffer] at hlookup
    obtain ⟨hseq, hmem, hle⟩ := h.buffer seq packet hlookup
    exact ⟨hseq, hmem, hfloor seq packet hlookup hle⟩
  covered packet hmem := by
    have hcovered := h.covered packet hmem
    rw [hhand] at hcovered
    rw [hhand', hbuffer]
    exact hcovered

/-- The packet in hand is the next one in turn. -/
theorem ReceiveInv.handOver (h : ReceiveInv packets handed ep) {packet : Packet}
    (hpacket : packet ∈ packets) (hseq : packet.header.seq.toNat = handed.length)
    (hhand : ep.recvTask.inHand = some packet)
    (hfloor : ep.recvTask.bufferFloor handed.length = handed.length + 1)
    (hstate : ep'.state = ep.state) (hdone : ep'.recvTask.inHand = none)
    (hfloor' : ep'.recvTask.bufferFloor (handed.length + 1) = handed.length + 1)
    (hcounters : CountersAt (handed.length + 1) ep') :
    ReceiveInv packets (handed ++ [packet]) ep' where
  counters := by
    rw [List.length_append, List.length_singleton]
    exact hcounters
  numbered := by
    rw [List.length_append, List.length_singleton, List.range_succ, List.map_append, h.numbered,
      List.map_singleton, hseq]
  genuine other hmem := by
    rcases List.mem_append.mp hmem with hmem | hmem
    · exact h.genuine other hmem
    · rw [List.mem_singleton.mp hmem]
      exact hpacket
  inHand other hmem := by
    rw [hdone] at hmem
    cases hmem
  buffer seq other hlookup := by
    rw [hstate] at hlookup
    obtain ⟨hother, hmem, hle⟩ := h.buffer seq other hlookup
    rw [hfloor] at hle
    rw [List.length_append, List.length_singleton, hfloor']
    exact ⟨hother, hmem, hle⟩
  covered other hmem := by
    rw [List.length_append, List.length_singleton, hstate]
    rcases h.covered other hmem with hlt | hheld | hbuffered
    · exact .inl (by omega)
    · -- the number of the packet in hand is now below the count
      rw [hhand, Option.map_some, Option.mem_some_iff] at hheld
      rw [← hheld, hseq]
      exact .inl (by omega)
    · exact .inr (.inr hbuffered)

/-- With nothing in hand, every packet has been handed over or is in the buffer. -/
theorem ReceiveInv.covered_of_idle (h : ReceiveInv packets handed ep)
    (hhand : ep.recvTask.inHand = none) {packet : Packet} (hmem : packet ∈ packets) :
    packet.header.seq.toNat < handed.length ∨ packet.header.seq ∈ ep.state.recvBuffer := by
  have hcovered := h.covered packet hmem
  rw [hhand] at hcovered
  rcases hcovered with hlt | hheld | hbuffered
  · exact .inl hlt
  · cases hheld
  · exact .inr hbuffered

/-- A waiting receiver has not received the packet that it waits for. -/
theorem ReceiveInv.seq_ne_of_receiving (h : ReceiveInv packets handed ep)
    (htask : ep.recvTask = .receiving) {packet : Packet} (hmem : packet ∈ packets) :
    packet.header.seq.toNat ≠ handed.length := by
  rcases h.covered_of_idle (by rw [htask]; rfl) hmem with hlt | hbuffered
  · exact Nat.ne_of_lt hlt
  · obtain ⟨stored, hstored⟩ := Option.isSome_iff_exists.mp (AList.lookup_isSome.mpr hbuffered)
    obtain ⟨-, -, hfloor⟩ := h.buffer _ stored hstored
    rw [htask] at hfloor
    exact Nat.ne_of_gt hfloor

/-- At the head of the inner loop only the next number may be below the others. -/
theorem ReceiveInv.lt_of_draining (h : ReceiveInv packets handed ep) {nextExpected seq : UInt32}
    {packet : Packet} (htask : ep.recvTask = .draining nextExpected)
    (hlookup : ep.state.recvBuffer.lookup seq = some packet) (hne : seq ≠ nextExpected) :
    handed.length < seq.toNat := by
  have hcounters := h.counters
  rw [CountersAt, htask] at hcounters
  obtain ⟨-, -, hle⟩ := h.buffer seq packet hlookup
  rw [htask] at hle
  have hnat : handed.length ≠ seq.toNat := by
    rw [← hcounters.2.2]
    exact fun heq => hne (UInt32.toNat_inj.mp heq.symm)
  exact Nat.lt_of_le_of_ne hle hnat

/-- The packet whose turn it is comes and is taken in hand. -/
theorem ReceiveInv.accept (h : ReceiveInv packets handed ep) {packet : Packet}
    (htask : ep.recvTask = .receiving) (hseq : packet.header.seq = ep.state.expectedSequence) :
    ReceiveInv (packets ++ [packet]) handed { ep with recvTask := .handingOver packet } := by
  have hcounters := h.counters
  rw [CountersAt, htask] at hcounters
  have hidle : ep.recvTask.inHand = none := by
    rw [htask]
    rfl
  constructor
  · exact ⟨hcounters.1, hcounters.2, by rw [hseq, hcounters.1]⟩
  · exact h.numbered
  · exact fun other hmem => List.mem_append_left _ (h.genuine other hmem)
  · intro other hmem
    rw [← Option.mem_some_iff.mp hmem]
    exact List.mem_append_right _ List.mem_cons_self
  · intro seq other hlookup
    obtain ⟨hother, hmem, hfloor⟩ := h.buffer seq other hlookup
    rw [htask] at hfloor
    exact ⟨hother, List.mem_append_left _ hmem, hfloor⟩
  · intro other hmem
    rcases List.mem_append.mp hmem with hmem | hmem
    · exact (h.covered_of_idle hidle hmem).imp_right .inr
    · rw [List.mem_singleton.mp hmem]
      exact .inr (.inl rfl)

/-- A packet ahead of its turn comes and is put into the buffer. -/
theorem ReceiveInv.store (h : ReceiveInv packets handed ep) {packet : Packet}
    (htask : ep.recvTask = .receiving) (hlt : ep.state.expectedSequence < packet.header.seq) :
    ReceiveInv (packets ++ [packet]) handed
      { ep with state := { ep.state with
          recvBuffer := ep.state.recvBuffer.insert packet.header.seq packet } } := by
  have hcounters := h.counters
  rw [CountersAt, htask] at hcounters
  rw [UInt32.lt_iff_toNat_lt, hcounters.1] at hlt
  constructor
  · rw [CountersAt, htask]
    exact hcounters
  · exact h.numbered
  · exact fun other hmem => List.mem_append_left _ (h.genuine other hmem)
  · exact fun other hmem => List.mem_append_left _ (h.inHand other hmem)
  · intro seq other hlookup
    rw [Table.lookup_insert_eq_ite] at hlookup
    split at hlookup
    · next heq =>
      cases hlookup
      rw [htask, heq]
      exact ⟨rfl, List.mem_append_right _ List.mem_cons_self, hlt⟩
    · obtain ⟨hother, hmem, hfloor⟩ := h.buffer seq other hlookup
      exact ⟨hother, List.mem_append_left _ hmem, hfloor⟩
  · intro other hmem
    rcases List.mem_append.mp hmem with hmem | hmem
    · rcases h.covered other hmem with hlow | hheld | hbuffered
      · exact .inl hlow
      · exact .inr (.inl hheld)
      · exact .inr (.inr ((AList.mem_insert _).mpr (.inr hbuffered)))
    · rw [List.mem_singleton.mp hmem]
      exact .inr (.inr ((AList.mem_insert _).mpr (.inl rfl)))

/-- The next packet is found in the buffer and taken in hand. -/
theorem ReceiveInv.drain (h : ReceiveInv packets handed ep) (hbelow : BelowMax packets)
    {nextExpected : UInt32} {packet : Packet} (htask : ep.recvTask = .draining nextExpected)
    (hbuffer : ep.state.recvBuffer.lookup nextExpected = some packet) :
    ReceiveInv packets handed
      { ep with
        state := { ep.state with
          expectedSequence := ep.state.expectedSequence + 1
          receiverAcknowledged := ep.state.receiverAcknowledged + 1
          recvBuffer := ep.state.recvBuffer.erase nextExpected }
        recvTask := .releasing nextExpected packet } := by
  have hcounters := h.counters
  have hcount := h.length_handed_lt hbelow
  rw [CountersAt, htask] at hcounters
  obtain ⟨hexpected, hacknowledged, hnext⟩ := hcounters
  obtain ⟨hseq, hpacket, -⟩ := h.buffer nextExpected packet hbuffer
  have hmax := hbelow packet hpacket
  rw [hseq] at hmax
  have hidle : ep.recvTask.inHand = none := by
    rw [htask]
    rfl
  constructor
  · simp only [CountersAt]
    rw [toNat_add_one (by omega), toNat_add_one (by omega), hseq]
    omega
  · exact h.numbered
  · exact h.genuine
  · intro other hmem
    rw [← Option.mem_some_iff.mp hmem]
    exact hpacket
  · intro seq other hlookup
    rw [Table.lookup_erase_eq_ite] at hlookup
    split at hlookup
    · cases hlookup
    · next hne =>
      obtain ⟨hother, hmem, -⟩ := h.buffer seq other hlookup
      exact ⟨hother, hmem, h.lt_of_draining htask hlookup hne⟩
  · intro other hmem
    rcases h.covered_of_idle hidle hmem with hlt | hbuffered
    · exact .inl hlt
    · by_cases heq : other.header.seq = nextExpected
      · refine .inr (.inl ?_)
        rw [heq, ← hseq]
        rfl
      · exact .inr (.inr (AList.mem_erase.mpr ⟨heq, hbuffered⟩))

/-- Every step of an endpoint keeps the invariant. -/
theorem ReceiveInv.step (h : ReceiveInv packets handed ep) {action : Action}
    {events : List Event} (hbelow : BelowMax (packets ++ received events))
    (hstep : Endpoint.Transition peerAddr ep action ep' events) :
    ReceiveInv (packets ++ received events) (handed ++ handedOver events) ep' := by
  have hcounters := h.counters
  have hold : BelowMax packets := fun packet hmem => hbelow packet (List.mem_append_left _ hmem)
  have hcount := h.length_handed_lt hold
  cases hstep with
  | foreign | malformed | submitAck | submitData | tick | transmit | ack =>
      change ReceiveInv (packets ++ []) (handed ++ []) _
      rw [List.append_nil handed]
      exact h.unmoved (by simp) rfl rfl rfl rfl
  | @duplicate bytes packet htask _ hlt | @echo bytes packet htask _ hlt =>
      change ReceiveInv (packets ++ [packet]) (handed ++ []) _
      rw [List.append_nil]
      rw [CountersAt, htask] at hcounters
      rw [UInt32.lt_iff_toNat_lt, hcounters.1] at hlt
      refine h.unmoved (fun other hmem => ?_) rfl rfl rfl rfl
      rw [List.mem_singleton.mp hmem]
      exact hlt
  | @accept bytes packet htask _ hseq =>
      change ReceiveInv (packets ++ [packet]) (handed ++ []) _
      rw [List.append_nil]
      exact h.accept htask hseq
  | @buffer bytes packet htask _ hlt =>
      change ReceiveInv (packets ++ [packet]) (handed ++ []) _
      rw [List.append_nil]
      exact h.store htask hlt
  | @handOver packet htask =>
      change ReceiveInv (packets ++ []) (handed ++ [packet]) _
      rw [List.append_nil]
      rw [CountersAt, htask] at hcounters
      have hpacket := h.inHand packet (by simp [htask, RecvTask.inHand])
      refine h.handOver hpacket hcounters.2.2 ?_ ?_ rfl rfl rfl ?_
      · rw [htask]
        rfl
      · rw [htask]
        rfl
      · simp [CountersAt, hcounters.1, hcounters.2.2]
  | @advance packetSeq htask =>
      change ReceiveInv (packets ++ []) (handed ++ []) _
      rw [List.append_nil, List.append_nil]
      rw [CountersAt, htask] at hcounters
      refine h.goOn ?_ ?_ ?_ rfl ?_
      · simp only [CountersAt]
        rw [toNat_add_one (by omega)]
        exact ⟨hcounters.1, hcounters.2, hcounters.2⟩
      · rw [htask]
        rfl
      · rfl
      · intro _ _ _ hle
        rwa [htask] at hle
  | @queueAck packetSeq htask =>
      change ReceiveInv (packets ++ []) (handed ++ []) _
      rw [List.append_nil, List.append_nil]
      rw [CountersAt, htask] at hcounters
      refine h.goOn ?_ ?_ ?_ rfl ?_
      · simp only [CountersAt]
        rw [toNat_add_one (by omega)]
        exact hcounters
      · rw [htask]
        rfl
      · rfl
      · intro _ _ _ hle
        rwa [htask] at hle
  | @drained nextExpected htask hbuffer =>
      change ReceiveInv (packets ++ []) (handed ++ []) _
      rw [List.append_nil, List.append_nil]
      rw [CountersAt, htask] at hcounters
      refine h.goOn ?_ ?_ rfl rfl ?_
      · exact ⟨hcounters.1, by simp only; omega⟩
      · rw [htask]
        rfl
      · intro seq packet hlookup _
        refine h.lt_of_draining htask hlookup ?_
        rintro rfl
        rw [hbuffer] at hlookup
        cases hlookup
  | @drain nextExpected packet htask hbuffer =>
      change ReceiveInv (packets ++ []) (handed ++ []) _
      rw [List.append_nil, List.append_nil]
      exact h.drain hold htask hbuffer
  | @release nextExpected packet htask =>
      change ReceiveInv (packets ++ []) (handed ++ [packet]) _
      rw [List.append_nil]
      rw [CountersAt, htask] at hcounters
      obtain ⟨hexpected, hacknowledged, hnext, hseq⟩ := hcounters
      have hpacket := h.inHand packet (by simp [htask, RecvTask.inHand])
      have hmax := hbelow packet (List.mem_append_left _ hpacket)
      refine h.handOver hpacket hseq ?_ ?_ rfl rfl rfl ?_
      · rw [htask]
        rfl
      · rw [htask]
        rfl
      · simp only [CountersAt]
        rw [toNat_add_one (by omega)]
        omega

end ReceiveInv

theorem receiveInv_of_reachable {peerAddr : SocketAddr} {c : Endpoint × List Event}
    (hc : (endpointMachine peerAddr).Reachable c) (hbelow : BelowMax (received c.2)) :
    ReceiveInv (received c.2) (handedOver c.2) c.1 := by
  refine Machine.Reachable.induct
    (P := fun c : Endpoint × List Event => BelowMax (received c.2) →
      ReceiveInv (received c.2) (handedOver c.2) c.1) ?_ ?_ hc hbelow
  · intro _
    exact .new
  rintro ⟨ep, trace⟩ action d - ih hstep hbelow
  obtain ⟨ep', events, hnext, rfl⟩ := Machine.traced_step.mp hstep
  rw [received_append] at hbelow ⊢
  rw [handedOver_append]
  have hbefore := ih fun packet hmem => hbelow packet (List.mem_append_left _ hmem)
  exact hbefore.step hbelow (Endpoint.transition_of_step hnext)

end P2PNetworking.Common
