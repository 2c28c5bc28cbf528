/-
# What the two endpoints and the datagrams under way agree on

Data of one direction starts at number 1 while the receiver starts by expecting
number 0, which only a packet without payload carries.  Every packet that exists
anywhere is therefore one of two kinds: bare with number 0, or the data packet of
one submitted payload, whose position in the stream is its number less one.  Every
step keeps that division, whatever the sizes of the payloads; within the limits it
says of each receive side what it has handed over and what it has in store.
-/

import P2PNetworking.Common.Link
import P2PNetworking.Common.ReceiveInvariant
import P2PNetworking.Common.SenderInvariant

namespace P2PNetworking.Common

open P2PNetworking.Net P2PNetworking.Lib

/-! ## Genuine packets -/

/-- The packet carries one of the payloads under its number. -/
def Carries (payloads : List (List UInt8)) (packet : Packet) : Prop :=
  ∃ i payload, payloads[i]? = some payload ∧ packet.header.seq.toNat = i + 1 ∧
    packet.payload = some payload

/-- The packet is a bare packet with number 0 or carries one of the payloads. -/
def Genuine (payloads : List (List UInt8)) (packet : Packet) : Prop :=
  (packet.header.seq = 0 ∧ packet.payload = none) ∨ Carries payloads packet

/-- What the system is promised of one direction: numbers do not run out, and
every payload is non-empty and fits the receive buffer behind the header. -/
structure Admissible (payloads : List (List UInt8)) : Prop where
  short : payloads.length < 2 ^ 32 - 1
  sizes : ∀ payload ∈ payloads, 1 ≤ payload.length ∧ payload.length ≤ 6592

section Genuine

variable {payloads more : List (List UInt8)} {packet : Packet}

theorem Carries.append (h : Carries payloads packet) : Carries (payloads ++ more) packet := by
  obtain ⟨i, payload, hi, hseq, hpayload⟩ := h
  refine ⟨i, payload, ?_, hseq, hpayload⟩
  rw [List.getElem?_append_left (List.getElem?_eq_some_iff.mp hi).1, hi]

theorem Genuine.append (h : Genuine payloads packet) : Genuine (payloads ++ more) packet :=
  h.imp_right Carries.append

theorem Carries.seq_pos (h : Carries payloads packet) : 0 < packet.header.seq.toNat := by
  obtain ⟨i, payload, -, hseq, -⟩ := h
  omega

theorem Carries.seq_le (h : Carries payloads packet) :
    packet.header.seq.toNat ≤ payloads.length := by
  obtain ⟨i, payload, hi, hseq, -⟩ := h
  have := (List.getElem?_eq_some_iff.mp hi).1
  omega

theorem Genuine.seq_le (h : Genuine payloads packet) :
    packet.header.seq.toNat ≤ payloads.length := by
  rcases h with ⟨hseq, -⟩ | hcarries
  · simp [hseq]
  · exact hcarries.seq_le

/-- The number of a genuine packet tells its kind. -/
theorem Genuine.carries_of_seq_pos (h : Genuine payloads packet)
    (hpos : 0 < packet.header.seq.toNat) : Carries payloads packet := by
  rcases h with ⟨hseq, -⟩ | hcarries
  · simp [hseq] at hpos
  · exact hcarries

theorem Genuine.payload_eq_none (h : Genuine payloads packet)
    (hseq : packet.header.seq.toNat = 0) : packet.payload = none := by
  rcases h with ⟨-, hnone⟩ | hcarries
  · exact hnone
  · have := hcarries.seq_pos
    omega

theorem Carries.payload_eq (h : Carries payloads packet) {i : ℕ}
    (hseq : packet.header.seq.toNat = i + 1) : packet.payload = payloads[i]? := by
  obtain ⟨j, payload, hj, hseq', hpayload⟩ := h
  obtain rfl : j = i := by omega
  rw [hpayload, hj]

theorem genuine_ackPacket (ack : UInt32) : Genuine payloads (ackPacket ack) :=
  .inl ⟨rfl, rfl⟩

theorem Admissible.of_append (h : Admissible (payloads ++ more)) : Admissible payloads where
  short := by
    have := h.short
    rw [List.length_append] at this
    omega
  sizes payload hmem := h.sizes payload (List.mem_append_left _ hmem)

/-- A genuine packet survives the wire, the buffer and the decoder. -/
theorem Genuine.deserialize_take (h : Genuine payloads packet) (hadm : Admissible payloads) :
    deserialize ((serialize packet).take Endpoint.recvBufferSize) = .ok packet := by
  have hpayload : packet.payload = none ∨
      ∃ payload, packet.payload = some payload ∧ 1 ≤ payload.length ∧ payload.length ≤ 6592 := by
    rcases h with ⟨-, hnone⟩ | ⟨i, payload, hi, -, hsome⟩
    · exact .inl hnone
    · exact .inr ⟨payload, hsome, hadm.sizes payload (List.mem_of_getElem? hi)⟩
  have hfits : 8 + (packet.payload.getD []).length ≤ Endpoint.recvBufferSize := by
    rcases hpayload with hnone | ⟨payload, hsome, -, hle⟩
    · simp [hnone, Endpoint.recvBufferSize]
    · simp only [hsome, Option.getD_some, Endpoint.recvBufferSize]
      omega
  rw [take_serialize hfits, deserialize_serialize]
  obtain ⟨header, payload⟩ := packet
  rcases hpayload with hnone | ⟨payload, hsome, hpos, -⟩
  · cases hnone
    rfl
  · cases hsome
    have hne : payload ≠ [] := List.ne_nil_of_length_pos hpos
    simp [Option.filter, hne]

end Genuine

/-! ## The send side -/

section SenderInv

variable {peerAddr : SocketAddr} {payloads : List (List UInt8)} {ep ep' : Endpoint}
  {packet : Packet}

/-- Before the numbers come round, the latest payload under a number is the only one. -/
theorem CarriesLatest.carries (h : CarriesLatest payloads packet)
    (hshort : payloads.length < 2 ^ 32) : Carries payloads packet := by
  obtain ⟨i, payload, hi, hseq, hpayload, -⟩ := h
  have hlt := (List.getElem?_eq_some_iff.mp hi).1
  refine ⟨i, payload, hi, ?_, hpayload⟩
  rw [hseq, UInt32.toNat_ofNat', Nat.mod_eq_of_lt (by omega)]

/-- Every number that has been given out is remembered with its payload. -/
theorem SenderInv.exists_carrying (h : SenderInv peerAddr payloads ep)
    (hshort : payloads.length < 2 ^ 32) {seq : UInt32} (hpos : 0 < seq.toNat)
    (hle : seq.toNat ≤ payloads.length) :
    ∃ entry, ep.state.unacked.lookup seq = some entry ∧ entry.packet.header.seq = seq ∧
      Carries payloads entry.packet := by
  have hcomplete := h.complete (seq.toNat - 1) (by omega)
  rw [Nat.sub_add_cancel hpos, UInt32.ofNat_toNat] at hcomplete
  obtain ⟨entry, hentry⟩ := Option.isSome_iff_exists.mp hcomplete
  obtain ⟨hseq, hcarries⟩ := h.unacked seq entry hentry
  exact ⟨entry, hentry, hseq, hcarries.carries hshort⟩

/-- Whatever a step puts on the wire is genuine and addressed to the peer. -/
theorem SenderInv.emitted_genuine (h : SenderInv peerAddr payloads ep)
    (hshort : payloads.length < 2 ^ 32) {action : Action} {events : List Event}
    (hstep : Endpoint.Transition peerAddr ep action ep' events) {dest : SocketAddr}
    (hmem : Event.emitted packet dest ∈ events) : dest = peerAddr ∧ Genuine payloads packet := by
  obtain ⟨hdest, ⟨ack, rfl⟩ | hcarries⟩ := h.emitted hstep hmem
  · exact ⟨hdest, genuine_ackPacket ack⟩
  · exact ⟨hdest, .inr (hcarries.carries hshort)⟩

end SenderInv

/-! ## The receive side -/

/-- What has been handed over is an initial piece of the numbering of the payloads. -/
def Numbered (payloads : List (List UInt8)) (handed : List Packet) : Prop :=
  ∀ i packet, handed[i]? = some packet → packet.header.seq.toNat = i ∧ Genuine payloads packet

/-- No more is handed over than number 0 and the submitted payloads. -/
theorem Numbered.length_handed_le {payloads : List (List UInt8)} {handed : List Packet}
    (h : Numbered payloads handed) : handed.length ≤ payloads.length + 1 := by
  rcases Nat.eq_zero_or_pos handed.length with hzero | hpos
  · omega
  · obtain ⟨packet, hlast⟩ : ∃ packet, handed[handed.length - 1]? = some packet :=
      ⟨_, List.getElem?_eq_getElem (by omega)⟩
    obtain ⟨hseq, hgenuine⟩ := h _ packet hlast
    have := hgenuine.seq_le
    omega

/-- An endpoint to which nothing but genuine packets have come. -/
theorem ReceiveInv.numbered_handed {payloads : List (List UInt8)} {handed packets : List Packet}
    {ep : Endpoint} (h : ReceiveInv packets handed ep)
    (hgenuine : ∀ packet ∈ packets, Genuine payloads packet) : Numbered payloads handed := by
  intro i packet hi
  obtain ⟨hlt, hpacket⟩ := List.getElem?_eq_some_iff.mp hi
  have hseq := List.getElem_of_eq h.numbered (i := i) (by rwa [List.length_map])
  rw [List.getElem_map, List.getElem_range, hpacket] at hseq
  exact ⟨hseq, hgenuine packet (h.genuine packet (List.mem_of_getElem? hi))⟩

/-! ## Both sides and the network -/

/-- Both directions keep to their limits. -/
def WithinLimits (trace : List (Side × Event)) : Prop :=
  ∀ side, Admissible (submitted (sideTrace side trace))

theorem WithinLimits.of_prefix {shorter longer : List (Side × Event)}
    (h : WithinLimits longer) (hpre : shorter <+: longer) : WithinLimits shorter := by
  obtain ⟨rest, rfl⟩ := hpre
  intro side
  have hside := h side
  rw [sideTrace_append, submitted_append] at hside
  exact hside.of_append

/-- What the send sides and the network keep to, whatever the sizes of the payloads. -/
structure StreamInv (addr : Addresses) (link : Link) (trace : List (Side × Event)) : Prop where
  send : ∀ side, SenderInv (addr.of side.peer) (submitted (sideTrace side trace))
    (link.ends side)
  flight : ∀ datagram ∈ link.inFlight, ∃ side packet,
    datagram = ⟨addr.of side, addr.of side.peer, serialize packet⟩ ∧
      Genuine (submitted (sideTrace side trace)) packet

/-- The invariant of the whole system: nothing but genuine packets has come, and the receive
sides are in order with what has come. -/
structure LinkInv (addr : Addresses) (link : Link) (trace : List (Side × Event)) : Prop
    extends StreamInv addr link trace where
  genuine : ∀ side, ∀ packet ∈ received (sideTrace side trace),
    Genuine (submitted (sideTrace side.peer trace)) packet
  receive : ∀ side, ReceiveInv (received (sideTrace side trace))
    (handedOver (sideTrace side trace)) (link.ends side)

/-- What a side has handed over is an initial piece of the stream of the other. -/
theorem LinkInv.numbered {addr : Addresses} {link : Link} {trace : List (Side × Event)}
    (h : LinkInv addr link trace) (side : Side) :
    Numbered (submitted (sideTrace side.peer trace)) (handedOver (sideTrace side trace)) :=
  (h.receive side).numbered_handed (h.genuine side)

section LinkInv

variable {addr : Addresses} {link link' : Link} {trace : List (Side × Event)}
  {events : List (Side × Event)}

theorem StreamInv.new : StreamInv addr .new [] where
  send side := .new _
  flight := by simp [Link.new]

/-- A datagram addressed to a side holds a genuine packet of its peer. -/
theorem StreamInv.genuine_of_mem (h : StreamInv addr link trace) {src : SocketAddr} {side : Side}
    {bytes : List UInt8} (hmem : ⟨src, addr.of side, bytes⟩ ∈ link.inFlight) :
    src = addr.of side.peer ∧ ∃ packet, bytes = serialize packet ∧
      Genuine (submitted (sideTrace side.peer trace)) packet := by
  obtain ⟨sender, packet, heq, hgenuine⟩ := h.flight _ hmem
  simp only [Datagram.mk.injEq] at heq
  obtain ⟨rfl, hdst, rfl⟩ := heq
  obtain rfl : side = sender.peer := addr.of_injective hdst
  rw [Side.peer_peer]
  exact ⟨rfl, packet, rfl, hgenuine⟩

theorem StreamInv.step (h : StreamInv addr link trace)
    (hstep : Link.Transition addr link link' events)
    (hshort : ∀ side, (submitted (sideTrace side (trace ++ events))).length < 2 ^ 32) :
    StreamInv addr link' (trace ++ events) := by
  cases hstep with
  | network hends hflight =>
      rw [List.append_nil]
      exact ⟨hends ▸ h.send, fun datagram hmem => h.flight datagram (hflight datagram hmem)⟩
  | @side side action ep evs htrans hends hflight harrive =>
      have hself : sideTrace side (trace ++ evs.map (Prod.mk side)) =
          sideTrace side trace ++ evs := by simp
      have hother : sideTrace side.peer (trace ++ evs.map (Prod.mk side)) =
          sideTrace side.peer trace := by
        simp [sideTrace_map_mk_of_ne side.peer_ne.symm]
      have hside := hshort side
      rw [hself, submitted_append, List.length_append] at hside
      refine ⟨fun other => ?_, fun datagram hmem => ?_⟩
      · rw [hends]
        rcases side.eq_or_eq_peer other with rfl | rfl
        · rw [Function.update_self, hself, submitted_append]
          exact (h.send _).step htrans
        · rw [Function.update_of_ne side.peer_ne, hother]
          exact h.send _
      · rcases hflight datagram hmem with hold | hnew
        · obtain ⟨sender, packet, heq, hpacket⟩ := h.flight datagram hold
          refine ⟨sender, packet, heq, ?_⟩
          rw [sideTrace_append, submitted_append]
          exact hpacket.append
        · obtain ⟨packet, dest, hevent, rfl⟩ := Link.mem_wire.mp hnew
          obtain ⟨rfl, hpacket⟩ := (h.send side).emitted_genuine (by omega) htrans hevent
          refine ⟨side, packet, rfl, ?_⟩
          rw [hself, submitted_append]
          exact hpacket.append

/-- The invariant of the send sides and the network holds as long as numbers last. -/
theorem streamInv_of_reachable {c : Link × List (Side × Event)}
    (hc : (linkMachine addr).Reachable c)
    (hshort : ∀ side, (submitted (sideTrace side c.2)).length < 2 ^ 32) :
    StreamInv addr c.1 c.2 := by
  refine Machine.Reachable.induct (P := fun c : Link × List (Side × Event) =>
    (∀ side, (submitted (sideTrace side c.2)).length < 2 ^ 32) → StreamInv addr c.1 c.2)
    (fun _ => .new) ?_ hc hshort
  intro c action d _ ih hstep hshort
  have hpre := Machine.traced_step_prefix hstep
  obtain ⟨link', events, hnext, rfl⟩ := Machine.traced_step.mp hstep
  refine (ih fun side => ?_).step (Link.transition_of_step hnext) hshort
  have hgrown : submitted (sideTrace side c.2) <+: submitted (sideTrace side (c.2 ++ events)) :=
    (hpre.filterMap _).filterMap _
  exact Nat.lt_of_le_of_lt hgrown.length_le (hshort side)

/-- What a step receives has come from the peer. -/
theorem Endpoint.Transition.exists_arrive {peerAddr : SocketAddr} {ep ep' : Endpoint}
    {action : Action} {events : List Event}
    (hstep : Endpoint.Transition peerAddr ep action ep' events) {packet : Packet}
    (hmem : packet ∈ received events) : ∃ bytes, action = .arrive peerAddr bytes ∧
      deserialize (bytes.take Endpoint.recvBufferSize) = .ok packet := by
  cases hstep with
  | accept _ hbytes | buffer _ hbytes | echo _ hbytes | duplicate _ hbytes =>
      rw [List.mem_singleton.mp hmem]
      exact ⟨_, rfl, hbytes⟩
  | _ => cases hmem

/-- What a side receives is what its buffer makes of a packet that the peer has sent. -/
theorem exists_sent_of_received {c : Link × List (Side × Event)}
    (hc : (linkMachine addr).Reachable c)
    (hshort : ∀ side, (submitted (sideTrace side c.2)).length < 2 ^ 32) (side : Side) :
    ∀ packet ∈ received (sideTrace side c.2),
      ∃ sent, Genuine (submitted (sideTrace side.peer c.2)) sent ∧
        deserialize ((serialize sent).take Endpoint.recvBufferSize) = .ok packet := by
  refine Machine.Reachable.induct (P := fun c : Link × List (Side × Event) =>
    (∀ side, (submitted (sideTrace side c.2)).length < 2 ^ 32) →
      ∀ packet ∈ received (sideTrace side c.2),
        ∃ sent, Genuine (submitted (sideTrace side.peer c.2)) sent ∧
          deserialize ((serialize sent).take Endpoint.recvBufferSize) = .ok packet) ?_ ?_ hc hshort
  · intro _ packet hmem
    cases hmem
  · intro c action d hc ih hstep hshort packet hmem
    obtain ⟨link', events, hnext, rfl⟩ := Machine.traced_step.mp hstep
    have hbefore : ∀ side, (submitted (sideTrace side c.2)).length < 2 ^ 32 := fun side => by
      have := hshort side
      simp only [sideTrace_append, submitted_append, List.length_append] at this
      omega
    simp only [sideTrace_append, submitted_append, received_append, List.mem_append] at hmem ⊢
    rcases hmem with hmem | hmem
    · obtain ⟨sent, hgenuine, hbytes⟩ := ih hbefore packet hmem
      exact ⟨sent, hgenuine.append, hbytes⟩
    cases Link.transition_of_step hnext with
    | network => cases hmem
    | @side actor endAction ep evs htrans hends hflight harrive =>
        rcases side.eq_or_eq_peer actor with rfl | rfl
        · rw [sideTrace_map_mk] at hmem
          obtain ⟨bytes, rfl, hbytes⟩ := htrans.exists_arrive hmem
          have hstream := streamInv_of_reachable hc hbefore
          obtain ⟨-, sent, rfl, hgenuine⟩ := hstream.genuine_of_mem (harrive _ _ rfl)
          exact ⟨sent, hgenuine.append, hbytes⟩
        · rw [sideTrace_map_mk_of_ne side.peer_ne] at hmem
          cases hmem

/-- The invariant holds after every schedule that keeps to the limits: what is received is
then what was sent, and the receive sides are in order with it. -/
theorem linkInv_of_reachable {c : Link × List (Side × Event)}
    (hc : (linkMachine addr).Reachable c) (hlimits : WithinLimits c.2) :
    LinkInv addr c.1 c.2 := by
  have hshort : ∀ side, (submitted (sideTrace side c.2)).length < 2 ^ 32 := fun side => by
    have := (hlimits side).short
    omega
  have hstream := streamInv_of_reachable hc hshort
  have hgenuine : ∀ side, ∀ packet ∈ received (sideTrace side c.2),
      Genuine (submitted (sideTrace side.peer c.2)) packet := by
    intro side packet hmem
    obtain ⟨sent, hsent, hbytes⟩ := exists_sent_of_received hc hshort side packet hmem
    rw [hsent.deserialize_take (hlimits side.peer)] at hbytes
    cases hbytes
    exact hsent
  refine ⟨hstream, hgenuine, fun side => ?_⟩
  have hbelow : BelowMax (received (sideTrace side c.2)) := fun packet hmem => by
    have hle := (hgenuine side packet hmem).seq_le
    have := (hlimits side.peer).short
    omega
  exact receiveInv_of_reachable ((sideComponent addr side).reachable_view hc) hbelow

end LinkInv

end P2PNetworking.Common
