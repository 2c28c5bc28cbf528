/-
# The send side of an endpoint

`send` numbers the payloads from 1 on and remembers each of them in `unacked`, from where
nothing takes it out again.  The numbers have 32 bits: what is remembered, or about to be
sent, under a number is the last payload that was given it.
-/

import P2PNetworking.Common.SingleConnection

namespace P2PNetworking.Common

open P2PNetworking.Net P2PNetworking.Lib

/-- The packet carries the last payload that was given its number. -/
def CarriesLatest (payloads : List (List UInt8)) (packet : Packet) : Prop :=
  ∃ i payload, payloads[i]? = some payload ∧ packet.header.seq = .ofNat (i + 1) ∧
    packet.payload = some payload ∧ payloads.length ≤ i + 2 ^ 32

/-- With one more payload a packet is still the latest, unless its number was taken. -/
theorem CarriesLatest.append {payloads : List (List UInt8)} {packet : Packet}
    (h : CarriesLatest payloads packet) {payload : List UInt8}
    (hne : packet.header.seq ≠ .ofNat (payloads.length + 1)) :
    CarriesLatest (payloads ++ [payload]) packet := by
  obtain ⟨i, sent, hi, hseq, hpayload, hlatest⟩ := h
  have hlt := (List.getElem?_eq_some_iff.mp hi).1
  have hgap : payloads.length ≠ i + 2 ^ 32 := by
    intro heq
    rw [hseq, Ne, ofNat_succ_eq_iff] at hne
    omega
  refine ⟨i, sent, ?_, hseq, hpayload, ?_⟩
  · rw [List.getElem?_append_left hlt, hi]
  · rw [List.length_append, List.length_singleton]
    omega

/-- What the send side of an endpoint owes to the payloads submitted to it: whatever is
remembered or about to be sent is the latest under its number, every number handed out is
remembered, and acknowledgements go to the peer. -/
structure SenderInv (peerAddr : SocketAddr) (payloads : List (List UInt8)) (ep : Endpoint) :
    Prop where
  nextSeq : ep.state.nextSeq = .ofNat payloads.length
  unacked : ∀ seq entry, ep.state.unacked.lookup seq = some entry →
    entry.packet.header.seq = seq ∧ CarriesLatest payloads entry.packet
  complete : ∀ i < payloads.length, (ep.state.unacked.lookup (.ofNat (i + 1))).isSome
  outgoing : ∀ packet ∈ ep.outgoing, CarriesLatest payloads packet
  ackRx : ∀ info ∈ ep.ackRx, info.peerAddr = peerAddr

namespace SenderInv

variable {peerAddr : SocketAddr} {payloads : List (List UInt8)} {ep ep' : Endpoint}

theorem new (peerAddr : SocketAddr) : SenderInv peerAddr [] .new where
  nextSeq := rfl
  unacked := by simp [Endpoint.new, SharedState.new]
  complete := by simp
  outgoing := by simp [Endpoint.new]
  ackRx := by simp [Endpoint.new]

theorem nextSeq_add_one (h : SenderInv peerAddr payloads ep) :
    ep.state.nextSeq + 1 = .ofNat (payloads.length + 1) := by
  rw [h.nextSeq, UInt32.ofNat_add]
  rfl

/-- Only the counter, the table and the two queues matter. -/
theorem congr (h : SenderInv peerAddr payloads ep) (hnext : ep'.state.nextSeq = ep.state.nextSeq)
    (hunacked : ep'.state.unacked = ep.state.unacked)
    (houtgoing : ∀ packet ∈ ep'.outgoing, packet ∈ ep.outgoing)
    (hackRx : ∀ info ∈ ep'.ackRx, info ∈ ep.ackRx ∨ info.peerAddr = peerAddr) :
    SenderInv peerAddr payloads ep' where
  nextSeq := hnext.trans h.nextSeq
  unacked := by
    rw [hunacked]
    exact h.unacked
  complete := by
    rw [hunacked]
    exact h.complete
  outgoing packet hmem := h.outgoing packet (houtgoing packet hmem)
  ackRx info hmem := (hackRx info hmem).elim (h.ackRx info) id

/-- Sending data remembers one more payload, over the one that had its number. -/
theorem send (h : SenderInv peerAddr payloads ep) (payload : List UInt8) (now : ℕ) :
    SenderInv peerAddr (payloads ++ [payload]) (ep.send now (.data payload)).1 := by
  have hnext := h.nextSeq_add_one
  have hlength : (payloads ++ [payload]).length = payloads.length + 1 := by simp
  have hnew : ∀ ack, CarriesLatest (payloads ++ [payload])
      ⟨⟨ep.state.nextSeq + 1, ack⟩, some payload⟩ := fun ack =>
    ⟨payloads.length, payload, by simp, hnext, rfl, by omega⟩
  constructor
  · simpa [Endpoint.send] using hnext
  · intro seq entry hlookup
    simp only [Endpoint.send, Table.lookup_insert_eq_ite] at hlookup
    split at hlookup
    · next heq =>
      cases hlookup
      exact ⟨heq.symm, hnew _⟩
    · next hne =>
      obtain ⟨hseq, hcarries⟩ := h.unacked seq entry hlookup
      exact ⟨hseq, hcarries.append (by rwa [hseq, ← hnext])⟩
  · intro i hi
    simp only [Endpoint.send, Table.lookup_insert_eq_ite]
    split
    · rfl
    · next hne =>
      have hne' : i ≠ payloads.length := fun heq => hne (by rw [heq, hnext])
      exact h.complete i (by omega)
  · intro packet hmem
    rw [List.mem_singleton.mp hmem]
    exact hnew _
  · exact h.ackRx

/-- A retransmission tick stamps entries anew, takes none out and sends no others. -/
theorem checkRetransmission (h : SenderInv peerAddr payloads ep) (now : ℕ) :
    SenderInv peerAddr payloads (ep.checkRetransmission now) := by
  constructor
  · exact h.nextSeq
  · intro seq entry hlookup
    simp only [Endpoint.checkRetransmission, Table.lookup_mapValues,
      Option.map_eq_some_iff] at hlookup
    obtain ⟨old, hold, rfl⟩ := hlookup
    have hkept := h.unacked seq old hold
    split
    · exact hkept
    · exact hkept
  · intro i hi
    simpa [Endpoint.checkRetransmission, Table.lookup_mapValues] using h.complete i hi
  · intro packet hmem
    obtain ⟨entry, hvalue, rfl⟩ := List.mem_map.mp hmem
    obtain ⟨seq, hentry⟩ := Table.mem_values.mp (List.mem_filter.mp hvalue).1
    exact (h.unacked seq entry hentry).2
  · exact h.ackRx

theorem step {action : Action} {events : List Event} (h : SenderInv peerAddr payloads ep)
    (hstep : Endpoint.Transition peerAddr ep action ep' events) :
    SenderInv peerAddr (payloads ++ submitted events) ep' := by
  cases hstep with
  | submitData => exact h.send _ _
  | tick =>
      change SenderInv peerAddr (payloads ++ []) _
      rw [List.append_nil]
      exact h.checkRetransmission _
  | transmit =>
      change SenderInv peerAddr (payloads ++ []) _
      rw [List.append_nil]
      exact h.congr rfl rfl (fun _ => List.mem_of_mem_eraseIdx) fun _ => .inl
  | ack hqueue =>
      change SenderInv peerAddr (payloads ++ []) _
      rw [List.append_nil]
      refine h.congr rfl rfl (fun _ => id) fun info hmem => .inl ?_
      exact hqueue ▸ List.mem_cons_of_mem _ hmem
  | echo | queueAck =>
      change SenderInv peerAddr (payloads ++ []) _
      rw [List.append_nil]
      refine h.congr rfl rfl (fun _ => id) fun info hmem => ?_
      refine (List.mem_append.mp hmem).imp_right fun hlast => ?_
      rw [List.mem_singleton.mp hlast]
  | foreign | malformed | duplicate | submitAck | accept | buffer | handOver | advance | drained
    | drain | release =>
      change SenderInv peerAddr (payloads ++ []) _
      rw [List.append_nil]
      exact h.congr rfl rfl (fun _ => id) fun _ => .inl

/-- Whatever a step puts on the wire is addressed to the peer, and is an acknowledgement or
the latest under its number. -/
theorem emitted {action : Action} {events : List Event} (h : SenderInv peerAddr payloads ep)
    (hstep : Endpoint.Transition peerAddr ep action ep' events) {packet : Packet}
    {dest : SocketAddr} (hmem : Event.emitted packet dest ∈ events) :
    dest = peerAddr ∧ ((∃ ack, packet = ackPacket ack) ∨ CarriesLatest payloads packet) := by
  cases hstep with
  | buffer =>
      simp only [List.mem_cons, reduceCtorEq, Event.emitted.injEq, List.not_mem_nil, or_false,
        false_or] at hmem
      exact ⟨hmem.2, .inl ⟨_, hmem.1⟩⟩
  | transmit hpacket =>
      simp only [List.mem_singleton, Event.emitted.injEq] at hmem
      obtain ⟨rfl, rfl⟩ := hmem
      exact ⟨rfl, .inr (h.outgoing _ (List.mem_of_getElem? hpacket))⟩
  | ack hqueue =>
      simp only [List.mem_singleton, Event.emitted.injEq] at hmem
      obtain ⟨rfl, rfl⟩ := hmem
      exact ⟨h.ackRx _ (by simp [hqueue]), .inl ⟨_, rfl⟩⟩
  | foreign | malformed | accept | echo | duplicate | handOver | advance | queueAck | drained
    | drain | release | submitAck | submitData | tick => simp at hmem

/-- A packet with a payload that a step emits is the latest under its number. -/
theorem carriesLatest_of_emitted {action : Action} {events : List Event}
    (h : SenderInv peerAddr payloads ep)
    (hstep : Endpoint.Transition peerAddr ep action ep' events) {packet : Packet}
    {dest : SocketAddr} (hmem : Event.emitted packet dest ∈ events)
    (hdata : packet.payload ≠ none) : CarriesLatest payloads packet := by
  obtain ⟨-, ⟨ack, rfl⟩ | hcarries⟩ := h.emitted hstep hmem
  · exact absurd rfl hdata
  · exact hcarries

end SenderInv

theorem senderInv_of_reachable {peerAddr : SocketAddr} {c : Endpoint × List Event}
    (hc : (endpointMachine peerAddr).Reachable c) : SenderInv peerAddr (submitted c.2) c.1 := by
  have hinit : SenderInv peerAddr (submitted (endpointMachine peerAddr).init.2)
      (endpointMachine peerAddr).init.1 := .new peerAddr
  refine Machine.Reachable.induct (P := fun c => SenderInv peerAddr (submitted c.2) c.1) hinit ?_ hc
  intro c action d _ ih hstep
  obtain ⟨ep, events, hnext, rfl⟩ := Machine.traced_step.mp hstep
  rw [submitted_append]
  exact ih.step (Endpoint.transition_of_step hnext)

end P2PNetworking.Common
