/-
# What becomes of a payload in transit

Whatever the sender has done before, the datagram it emits under a payload's number
carries that payload, at the first sending and at every other, until the number is
used again.  The receiver decodes what fits its buffer: a longer datagram is cut, the
rest of the payload is taken for the whole, and sending it again does not help.
-/

import P2PNetworking.Common.Delivery

namespace P2PNetworking.Common

open P2PNetworking.Net P2PNetworking.Lib

/-! ## The sender -/

/-- A step that emits does not submit. -/
theorem Endpoint.Transition.submitted_eq_nil_of_emitted {peerAddr : SocketAddr}
    {ep ep' : Endpoint} {action : Action} {events : List Event}
    (hstep : Endpoint.Transition peerAddr ep action ep' events) {packet : Packet}
    {dest : SocketAddr} (hmem : Event.emitted packet dest ∈ events) : submitted events = [] := by
  cases hstep with
  | submitData => simp at hmem
  | _ => rfl

/-- The datagrams that the endpoint emits for a payload: data packets under the number
that `send` has given it, before the number comes round. -/
structure EmittedFor (payload : List UInt8) (packet : Packet) (trace : List Event) : Prop where
  data : packet.payload ≠ none
  history : ∃ before between dest after,
    trace = before ++ .submitted payload :: between ++ .emitted packet dest :: after ∧
      (submitted between).length < 2 ^ 32 ∧
      packet.header.seq = .ofNat ((submitted before).length + 1)

/-- Every data packet of a history is the latest under its number when it is emitted. -/
theorem carriesLatest_of_reachable {peerAddr : SocketAddr} {c : Endpoint × List Event}
    (hc : (endpointMachine peerAddr).Reachable c) {before after : List Event} {packet : Packet}
    {dest : SocketAddr} (hsplit : c.2 = before ++ .emitted packet dest :: after)
    (hdata : packet.payload ≠ none) : CarriesLatest (submitted before) packet := by
  refine Machine.Reachable.induct (P := fun c : Endpoint × List Event =>
    ∀ before after, c.2 = before ++ .emitted packet dest :: after →
      CarriesLatest (submitted before) packet) ?_ ?_ hc before after hsplit
  · intro before after hsplit
    simp [endpointMachine] at hsplit
  · rintro ⟨ep, trace⟩ action d hreachable hold hstep before after hsplit
    obtain ⟨ep', events, hnext, rfl⟩ := Machine.traced_step.mp hstep
    have hsender : SenderInv peerAddr (submitted trace) ep := senderInv_of_reachable hreachable
    have htransition := Endpoint.transition_of_step hnext
    obtain ⟨gap, rfl, hgap⟩ | ⟨gap, rfl, hgap⟩ := List.append_eq_append_iff.mp hsplit
    · -- the step itself emits the packet
      have hmem : Event.emitted packet dest ∈ events := by
        rw [hgap]
        exact List.mem_append_right _ List.mem_cons_self
      have hquiet := htransition.submitted_eq_nil_of_emitted hmem
      rw [hgap, submitted_append, List.append_eq_nil_iff] at hquiet
      rw [submitted_append, hquiet.1, List.append_nil]
      exact hsender.carriesLatest_of_emitted htransition hmem hdata
    · cases gap with
      | nil =>
          have hmem : Event.emitted packet dest ∈ events := by
            rw [← List.nil_append events, ← hgap]
            exact List.mem_cons_self
          rw [List.append_nil] at hsender
          exact hsender.carriesLatest_of_emitted htransition hmem hdata
      | cons event rest =>
          obtain ⟨rfl, -⟩ := List.cons.inj hgap
          exact hold before rest rfl

/-- What is emitted for a payload carries it. -/
theorem EmittedFor.payload_eq {peerAddr : SocketAddr} {c : Endpoint × List Event}
    {payload : List UInt8} {packet : Packet} (h : EmittedFor payload packet c.2)
    (hc : (endpointMachine peerAddr).Reachable c) : packet.payload = some payload := by
  obtain ⟨before, between, dest, after, hsplit, hshort, hseq⟩ := h.history
  obtain ⟨i, sent, hi, hseq', hpayload, hsender⟩ := carriesLatest_of_reachable hc hsplit h.data
  have hsubmitted : submitted (before ++ .submitted payload :: between) =
      submitted before ++ payload :: submitted between := submitted_append _ _
  have hlt := (List.getElem?_eq_some_iff.mp hi).1
  rw [hsubmitted] at hi hlt hsender
  rw [List.length_append, List.length_cons] at hlt hsender
  -- of the last `2 ^ 32` submissions only one has the number
  have hindex : i = (submitted before).length := by
    rw [hseq, ofNat_succ_eq_iff] at hseq'
    omega
  subst hindex
  rw [List.getElem?_append_right le_rfl, Nat.sub_self, List.getElem?_cons_zero] at hi
  rw [hpayload, hi]

/-! ## The receiver -/

/-- What the receive buffer leaves for the payload. -/
def maxPayload : ℕ := 6592

theorem maxPayload_add_eight : 8 + maxPayload = Endpoint.recvBufferSize := rfl

/-- The buffer cuts the payload and leaves the header alone. -/
theorem take_recvBufferSize_serialize (packet : Packet) :
    (serialize packet).take Endpoint.recvBufferSize =
      serialize ⟨packet.header, packet.payload.map (List.take maxPayload)⟩ := by
  have hheader : (toBeBytes packet.header.seq ++ toBeBytes packet.header.ack).length = 8 := rfl
  have hpayload : (packet.payload.map (List.take maxPayload)).getD [] =
      (packet.payload.getD []).take maxPayload := by
    cases packet.payload with
    | none => rfl
    | some payload => rfl
  rw [← maxPayload_add_eight, serialize, serialize, hpayload, ← hheader]
  exact List.take_length_add_append maxPayload

/-- A datagram that does not fit the buffer decodes as one with a shorter payload. -/
theorem deserialize_take_serialize (header : Header) {payload : List UInt8}
    (hpos : 1 ≤ payload.length) :
    deserialize ((serialize ⟨header, some payload⟩).take Endpoint.recvBufferSize) =
      .ok ⟨header, some (payload.take maxPayload)⟩ := by
  have hne : payload.take maxPayload ≠ [] := by
    rw [← List.length_pos_iff, List.length_take]
    exact Nat.lt_min.mpr ⟨by decide, hpos⟩
  rw [take_recvBufferSize_serialize, deserialize_serialize]
  simp [Option.filter, hne]

/-- Whatever its length, a datagram decodes to its header. -/
theorem header_eq_of_deserialize {packet arrived : Packet}
    (h : deserialize ((serialize packet).take Endpoint.recvBufferSize) = .ok arrived) :
    arrived.header = packet.header := by
  rw [take_recvBufferSize_serialize, deserialize_serialize] at h
  cases h
  rfl

/-- The packet that `recv` delivers at once or buffers under a number, when a datagram
has taken it from one state to another, has this payload. -/
structure TakesIn (peerAddr : SocketAddr) (ep ep' : Endpoint) (seq : UInt32)
    (payload : List UInt8) : Prop where
  delivers : seq = ep.state.expectedSequence → ∃ packet next,
    ep'.recv peerAddr = some (next, [.handedOver packet]) ∧ packet.header.seq = seq ∧
      packet.payload = some payload
  buffers : ep.state.expectedSequence < seq → ∃ packet,
    ep'.state.recvBuffer.lookup seq = some packet ∧ packet.header.seq = seq ∧
      packet.payload = some payload

/-- Whatever the states of sender and receiver: if a datagram that was emitted for the
payload reaches `recv`, the payload is taken in under its number. -/
def Unaltered (payload : List UInt8) : Prop :=
  ∀ (sender receiver : SocketAddr) (c d : Endpoint × List Event) (packet : Packet),
    (endpointMachine receiver).Reachable c → EmittedFor payload packet c.2 →
    (endpointMachine sender).Reachable d →
    ∀ ep events, d.1.step sender (.arrive sender (serialize packet)) = some (ep, events) →
      TakesIn sender d.1 ep packet.header.seq payload

/-- What is taken in is what fits the buffer. -/
theorem takesIn_of_arrive {sender : SocketAddr} {ep ep' : Endpoint} {header : Header}
    {payload : List UInt8} (hpos : 1 ≤ payload.length) {events : List Event}
    (hstep : ep.step sender (.arrive sender (serialize ⟨header, some payload⟩)) =
      some (ep', events)) : TakesIn sender ep ep' header.seq (payload.take maxPayload) := by
  have hbytes := deserialize_take_serialize header hpos
  rw [Endpoint.step_arrive (Endpoint.receiving_of_step_arrive hstep) hbytes] at hstep
  cases hstep
  refine ⟨fun heq => ?_, fun hlt => ?_⟩
  · rw [Endpoint.onPacket_of_eq heq]
    exact ⟨_, _, rfl, rfl, rfl⟩
  · rw [Endpoint.onPacket_of_gt hlt]
    exact ⟨_, AList.lookup_insert _, rfl, rfl⟩

/-- The first message of an endpoint, and its datagram. -/
def firstSend (payload : List UInt8) : List Action := [.submit 0 (.data payload), .transmit 0]

theorem exec_firstSend (receiver : SocketAddr) (payload : List UInt8) : ∃ ep,
    (endpointMachine receiver).exec (endpointMachine receiver).init (firstSend payload) =
      some (ep, [.submitted payload, .emitted ⟨⟨1, 0⟩, some payload⟩ receiver]) :=
  ⟨_, rfl⟩

theorem emittedFor_firstSend (receiver : SocketAddr) (payload : List UInt8) :
    EmittedFor payload ⟨⟨1, 0⟩, some payload⟩
      [.submitted payload, .emitted ⟨⟨1, 0⟩, some payload⟩ receiver] :=
  ⟨by simp, [], [], receiver, [], rfl, by decide, rfl⟩

/-- A payload that does not fit the receive buffer is altered on the very first sending. -/
theorem length_le_of_unaltered {payload : List UInt8} (hpos : 1 ≤ payload.length)
    (h : Unaltered payload) : payload.length ≤ maxPayload := by
  obtain ⟨ep, hsend⟩ := exec_firstSend (.v4 2 2) payload
  obtain ⟨ep', events, harrive⟩ : ∃ ep' events, Endpoint.new.step (.v4 1 1)
      (.arrive (.v4 1 1) (serialize ⟨⟨1, 0⟩, some payload⟩)) = some (ep', events) :=
    ⟨_, _, Endpoint.step_arrive rfl (deserialize_take_serialize _ hpos)⟩
  have hlt : Endpoint.new.state.expectedSequence < 1 := by decide
  have htaken := h (.v4 1 1) (.v4 2 2) _ (.new, []) _ ⟨_, hsend⟩ (emittedFor_firstSend _ _)
    (Machine.reachable_init _) ep' events harrive
  obtain ⟨packet, hlookup, -, hpayload⟩ := htaken.buffers hlt
  obtain ⟨packet', hlookup', -, hcut⟩ := (takesIn_of_arrive hpos harrive).buffers hlt
  cases hlookup.symm.trans hlookup'
  have hsame : payload = payload.take maxPayload := Option.some_inj.mp (hpayload.symm.trans hcut)
  rw [hsame, List.length_take]
  exact Nat.min_le_left _ _

/-- A payload is unaltered exactly if it fits the receive buffer behind the header. -/
theorem unaltered_iff {payload : List UInt8} (hpos : 1 ≤ payload.length) :
    Unaltered payload ↔ payload.length ≤ maxPayload := by
  refine ⟨length_le_of_unaltered hpos, fun hfits => ?_⟩
  intro sender receiver c d packet hc hemitted hd ep events hstep
  have hpayload := hemitted.payload_eq hc
  obtain ⟨header, carried⟩ := packet
  obtain rfl : carried = some payload := hpayload
  have htaken := takesIn_of_arrive hpos hstep
  rwa [List.take_of_length_le hfits] at htaken

theorem unaltered_iff_byte : Unaltered [104] ↔ [(104 : UInt8)].length ≤ maxPayload :=
  unaltered_iff (by decide)

/-- One byte more than fits, in a datagram that can be sent. -/
theorem long_payload_altered : (List.replicate 6593 (7 : UInt8)).length ≤ 65499 ∧
    ¬ Unaltered (List.replicate 6593 7) := by
  have hlength : (List.replicate 6593 (7 : UInt8)).length = 6593 := List.length_replicate
  refine ⟨by omega, fun h => ?_⟩
  have hfits := length_le_of_unaltered (by omega) h
  rw [hlength] at hfits
  exact absurd hfits (by decide)

end P2PNetworking.Common
