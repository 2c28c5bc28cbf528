/-
# As long as the network loses nothing

Once every packet that a sender remembers is on its way to the other side or has come there, this
remains so until a datagram is lost.  The packet with number 0 is remembered nowhere: a side
gets it as an answer, and what asks for the answer is again under way.  One tick of the timer, at a
time when all is overdue, brings this about.
-/

import P2PNetworking.Common.Pacing

namespace P2PNetworking.Common

open P2PNetworking.Net P2PNetworking.Lib

/-! ## Datagrams under way -/

namespace Link

variable {addr : Addresses} {link next : Link} {action : LinkAction} {events : List (Side × Event)}

/-- What is under way stays under way, unless it is delivered or lost. -/
theorem mem_inFlight_of_step (hstep : link.step addr action = some (next, events))
    (hkept : ∀ datagram, action ≠ .lose datagram) {datagram : Datagram}
    (hmem : datagram ∈ link.inFlight) :
    datagram ∈ next.inFlight ∨ ∃ side, action = .deliver side datagram := by
  cases action with
  | atEnd side act =>
      simp only [step, Option.bind_eq_some_iff] at hstep
      obtain ⟨clock, -, hrun⟩ := hstep
      obtain ⟨ep, evs, -, rfl, -⟩ := runEnd_eq_some hrun
      exact .inl (List.mem_append_left _ hmem)
  | deliver side delivered =>
      simp only [step] at hstep
      split at hstep
      · obtain ⟨ep, evs, -, rfl, -⟩ := runEnd_eq_some hstep
        by_cases heq : datagram = delivered
        · exact .inr ⟨side, by rw [heq]⟩
        · exact .inl (List.mem_append_left _ ((List.mem_erase_of_ne heq).mpr hmem))
      · cases hstep
  | duplicate copied =>
      simp only [step] at hstep
      split at hstep
      · cases hstep
        exact .inl (List.mem_cons_of_mem _ hmem)
      · cases hstep
  | lose lost => exact absurd rfl (hkept lost)

/-- What a side emits is under way. -/
theorem mem_inFlight_of_emitted (hstep : link.step addr action = some (next, events))
    {side : Side} {packet : Packet} {dest : SocketAddr}
    (hmem : Event.emitted packet dest ∈ sideTrace side events) :
    ⟨addr.of side, dest, serialize packet⟩ ∈ next.inFlight := by
  have hrun : ∀ {start : Link} {actor : Side} {act : Action},
      start.runEnd addr actor act = some (next, events) →
      ⟨addr.of side, dest, serialize packet⟩ ∈ next.inFlight := by
    intro start actor act hrun
    obtain ⟨ep, evs, -, rfl, rfl⟩ := runEnd_eq_some hrun
    rcases side.eq_or_eq_peer actor with rfl | rfl
    · rw [sideTrace_map_mk] at hmem
      exact List.mem_append_right _ (mem_wire.mpr ⟨packet, dest, hmem, rfl⟩)
    · rw [sideTrace_map_mk_of_ne side.peer_ne] at hmem
      cases hmem
  cases action with
  | atEnd actor act =>
      simp only [step, Option.bind_eq_some_iff] at hstep
      obtain ⟨clock, -, hend⟩ := hstep
      exact hrun hend
  | deliver actor datagram =>
      simp only [step] at hstep
      split at hstep
      · exact hrun hstep
      · cases hstep
  | duplicate datagram | lose datagram =>
      simp only [step] at hstep
      split at hstep
      · cases hstep
        cases hmem
      · cases hstep

/-- A side rests or takes a step. -/
theorem side_cases (hstep : link.step addr action = some (next, events)) (side : Side) :
    next.ends side = link.ends side ∧ sideTrace side events = [] ∨
      ∃ act, Endpoint.Transition (addr.of side.peer) (link.ends side) act (next.ends side)
        (sideTrace side events) := by
  have hside := step_atSide hstep side
  cases hshare : action.atSide side with
  | none =>
      rw [hshare] at hside
      exact .inl hside
  | some act =>
      rw [hshare] at hside
      exact .inr ⟨act, Endpoint.transition_of_step hside⟩

/-- A packet that is delivered has come to the other side, which has waited for it. -/
theorem deliver_cases {sender side : Side} {packet : Packet}
    (hbytes : deserialize ((serialize packet).take Endpoint.recvBufferSize) = .ok packet)
    (hstep : link.step addr (.deliver side (addr.datagram sender packet)) = some (next, events)) :
    side = sender.peer ∧ (link.ends side).recvTask = .receiving ∧
      next.ends side = ((link.ends side).onPacket (addr.of sender) packet).1 ∧
      sideTrace side events =
        .received packet :: ((link.ends side).onPacket (addr.of sender) packet).2 := by
  have hside := step_atSide hstep side
  obtain rfl : side = sender.peer := by
    simp only [step] at hstep
    split at hstep
    · next hmem => exact (addr.of_injective hmem.2).symm
    · cases hstep
  simp only [LinkAction.atSide, if_true] at hside
  have htask := Endpoint.receiving_of_step_arrive hside
  rw [Side.peer_peer, Addresses.datagram, Endpoint.step_arrive htask hbytes] at hside
  obtain ⟨hends, hevents⟩ := Prod.mk.inj (Option.some.inj hside)
  exact ⟨rfl, htask, hends.symm, hevents.symm⟩

end Link

/-! ## What a step does to what is to be sent -/

namespace Endpoint.Transition

variable {peerAddr : SocketAddr} {ep ep' : Endpoint} {action : Action} {events : List Event}

/-- What leaves the queue of `send` is put on the wire. -/
theorem outgoing_cases (hstep : Endpoint.Transition peerAddr ep action ep' events)
    {packet : Packet} (hmem : packet ∈ ep.outgoing) :
    packet ∈ ep'.outgoing ∨ Event.emitted packet peerAddr ∈ events := by
  cases hstep with
  | submitData hidle | tick hidle =>
      rw [hidle] at hmem
      cases hmem
  | @transmit index sent hpacket =>
      obtain ⟨i, hi⟩ := List.mem_iff_getElem?.mp hmem
      by_cases heq : i = index
      · subst heq
        cases hpacket.symm.trans hi
        exact .inr List.mem_cons_self
      · exact .inl (List.mem_eraseIdx_iff_getElem?.mpr ⟨i, heq, hi⟩)
  | _ => exact .inl hmem

/-- What is remembered was so before, or is about to be sent. -/
theorem unacked_cases (hstep : Endpoint.Transition peerAddr ep action ep' events) {seq : UInt32}
    {entry : SentPacket} (hentry : ep'.state.unacked.lookup seq = some entry) :
    entry.packet ∈ ep'.outgoing ∨
      ∃ old, ep.state.unacked.lookup seq = some old ∧ old.packet = entry.packet := by
  cases hstep with
  | submitData =>
      simp only [Endpoint.send, Table.lookup_insert_eq_ite] at hentry
      split at hentry
      · cases hentry
        exact .inl List.mem_cons_self
      · exact .inr ⟨entry, hentry, rfl⟩
  | tick =>
      simp only [Endpoint.checkRetransmission, Table.lookup_mapValues,
        Option.map_eq_some_iff] at hentry
      obtain ⟨old, hold, rfl⟩ := hentry
      refine .inr ⟨old, hold, ?_⟩
      split <;> rfl
  | _ => exact .inr ⟨entry, hentry, rfl⟩

end Endpoint.Transition

/-- `recv` has taken a packet in its turn and has yet to queue the acknowledgement. -/
def RecvTask.owesAck : RecvTask → Bool
  | .handingOver _ | .advancing _ | .queueingAck _ => true
  | _ => false

/-- An acknowledgement that is owed is queued, and one that is queued is sent. -/
theorem Endpoint.Transition.ack_cases {peerAddr : SocketAddr} {ep ep' : Endpoint} {action : Action}
    {events : List Event} (hstep : Endpoint.Transition peerAddr ep action ep' events)
    (hqueue : ep.recvTask.owesAck = true ∨ ep.ackRx ≠ []) :
    ep'.recvTask.owesAck = true ∨ ep'.ackRx ≠ [] ∨
      ∃ info ∈ ep.ackRx, Event.emitted (ackPacket info.ackNum) info.peerAddr ∈ events := by
  cases hstep with
  | accept | handOver | advance => exact .inl rfl
  | echo | queueAck => exact .inr (.inl (by simp))
  | ack hinfo => exact .inr (.inr ⟨_, hinfo ▸ List.mem_cons_self, List.mem_cons_self⟩)
  | buffer htask | drained htask | drain htask | release htask =>
      rw [htask] at hqueue
      exact .inr (.inl (hqueue.resolve_left Bool.false_ne_true))
  | _ => exact hqueue.imp_right .inl

/-! ## Nothing is lost -/

section NothingLost

variable {addr : Addresses} {sender : Side} {c d : Link × List (Side × Event)}
  {action : LinkAction} {packet : Packet}

/-- The packet has still to come to the other side. -/
def Underway (addr : Addresses) (sender : Side) (link : Link) (packet : Packet) : Prop :=
  packet ∈ (link.ends sender).outgoing ∨ addr.datagram sender packet ∈ link.inFlight

theorem Underway.step {link next : Link} {events : List (Side × Event)}
    (h : Underway addr sender link packet) (hstep : link.step addr action = some (next, events))
    (hkept : ∀ datagram, action ≠ .lose datagram) :
    Underway addr sender next packet ∨
      ∃ side, action = .deliver side (addr.datagram sender packet) := by
  rcases h with hqueued | hflight
  · left
    rcases Link.side_cases hstep sender with ⟨hrest, -⟩ | ⟨act, htrans⟩
    · exact .inl (hrest ▸ hqueued)
    · exact (htrans.outgoing_cases hqueued).imp_right (Link.mem_inFlight_of_emitted hstep)
  · exact (Link.mem_inFlight_of_step hstep hkept hflight).imp_left .inr

/-- What a packet with number 0 for the other side may come of. -/
inductive Greets (addr : Addresses) (sender : Side) (c : Link × List (Side × Event)) : Prop
  /-- It is under way, -/
  | sent (ack : UInt32) (hmem : addr.datagram sender (ackPacket ack) ∈ c.1.inFlight)
  /-- or an acknowledgement is to be sent, -/
  | owed (h : (c.1.ends sender).recvTask.owesAck = true ∨ (c.1.ends sender).ackRx ≠ [])
  /-- or the other side asks for one, -/
  | asked (ack : UInt32) (hmem : addr.datagram sender.peer (ackPacket ack) ∈ c.1.inFlight)
  /-- or the first data packet will make it ask. -/
  | first (packet : Packet) (hseq : packet.header.seq = 1)
      (hgenuine : Genuine (submittedPayloads sender c.2) packet)
      (h : Underway addr sender c.1 packet)

/-- All that a side remembers is under way or has come, and so is the packet with number 0. -/
structure NothingLost (addr : Addresses) (sender : Side) (c : Link × List (Side × Event)) :
    Prop where
  data : ∀ seq entry, (c.1.ends sender).state.unacked.lookup seq = some entry →
    Underway addr sender c.1 entry.packet ∨ entry.packet ∈ received (sideTrace sender.peer c.2)
  greeting : ∀ entry, (c.1.ends sender).state.unacked.lookup 1 = some entry →
    Greets addr sender c ∨ ∃ packet ∈ received (sideTrace sender.peer c.2), packet.header.seq = 0

/-- What a waiting receiver expects is the number of packets that it has handed over. -/
theorem LinkInv.expectedSequence_eq {link : Link} {trace : List (Side × Event)}
    (h : LinkInv addr link trace) {side : Side} (htask : (link.ends side).recvTask = .receiving) :
    (link.ends side).state.expectedSequence.toNat =
      (handedOver (sideTrace side trace)).length := by
  have hcounters := (h.receive side).counters
  rw [CountersAt, htask] at hcounters
  exact hcounters.1

/-- Whoever has handed over something has received number 0. -/
theorem LinkInv.exists_received_zero {link : Link} {trace : List (Side × Event)}
    (h : LinkInv addr link trace) {side : Side}
    (hpos : 0 < (handedOver (sideTrace side trace)).length) :
    ∃ packet ∈ received (sideTrace side trace), packet.header.seq = 0 := by
  obtain ⟨packet, hfirst⟩ : ∃ packet, (handedOver (sideTrace side trace))[0]? = some packet :=
    ⟨_, List.getElem?_eq_getElem hpos⟩
  refine ⟨packet, (h.receive side).genuine packet (List.mem_of_getElem? hfirst), ?_⟩
  exact UInt32.toNat_inj.mp (h.numbered side 0 packet hfirst).1

theorem Greets.step (h : Greets addr sender c) (hinv : LinkInv addr c.1 c.2)
    (hlimits : WithinLimits c.2) (hstep : (linkMachine addr).step c action = some d)
    (hkept : ∀ datagram, action ≠ .lose datagram) :
    Greets addr sender d ∨
      ∃ packet ∈ received (sideTrace sender.peer d.2), packet.header.seq = 0 := by
  obtain ⟨next, events, hnext, rfl⟩ := Machine.traced_step.mp hstep
  cases h with
  | sent ack hmem =>
      rcases Link.mem_inFlight_of_step hnext hkept hmem with hmem | ⟨side, rfl⟩
      · exact .inl (.sent ack hmem)
      · have hbytes := (genuine_ackPacket ack).deserialize_take (hlimits sender)
        obtain ⟨rfl, -, -, hevents⟩ := Link.deliver_cases hbytes hnext
        refine .inr ⟨ackPacket ack, ?_, rfl⟩
        rw [sideTrace_append, hevents, received_append]
        exact List.mem_append_right _ List.mem_cons_self
  | owed hqueue =>
      left
      rcases Link.side_cases hnext sender with ⟨hrest, -⟩ | ⟨act, htrans⟩
      · exact .owed (hrest.symm ▸ hqueue)
      · rcases htrans.ack_cases hqueue with howed | hqueued | ⟨info, hinfo, hevent⟩
        · exact .owed (.inl howed)
        · exact .owed (.inr hqueued)
        · have hflight := Link.mem_inFlight_of_emitted hnext hevent
          rw [(hinv.send sender).ackRx info hinfo] at hflight
          exact .sent info.ackNum hflight
  | asked ack hmem =>
      left
      rcases Link.mem_inFlight_of_step hnext hkept hmem with hmem | ⟨side, rfl⟩
      · exact .asked ack hmem
      · have hbytes := (genuine_ackPacket ack).deserialize_take (hlimits sender)
        obtain ⟨hside, -, hends, -⟩ := Link.deliver_cases hbytes hnext
        rw [Side.peer_peer] at hside
        subst hside
        refine .owed ?_
        rw [hends]
        by_cases hturn : (ackPacket ack).header.seq = (c.1.ends side).state.expectedSequence
        · rw [Endpoint.onPacket_of_eq hturn]
          exact .inl rfl
        · have hbehind : (ackPacket ack).header.seq < (c.1.ends side).state.expectedSequence := by
            rw [UInt32.lt_iff_toNat_lt]
            exact Nat.pos_of_ne_zero fun hzero => hturn (UInt32.toNat_inj.mp hzero.symm)
          rw [Endpoint.onPacket_of_lt hbehind, if_pos (ackPacket_isBare ack)]
          exact .inr (by simp)
  | first packet hseq hgenuine hunderway =>
      rcases hunderway.step hnext hkept with hunderway | ⟨side, rfl⟩
      · left
        refine .first packet hseq ?_ hunderway
        rw [submittedPayloads, sideTrace_append, submitted_append]
        exact hgenuine.append
      · obtain ⟨rfl, htask, -, hevents⟩ :=
          Link.deliver_cases (hgenuine.deserialize_take (hlimits sender)) hnext
        rcases Nat.eq_zero_or_pos (handedOver (sideTrace sender.peer c.2)).length with hzero | hpos
        · -- it is ahead of its turn, and its receiver says so at once
          left
          have hahead : (c.1.ends sender.peer).state.expectedSequence < packet.header.seq := by
            rw [UInt32.lt_iff_toNat_lt, hinv.expectedSequence_eq htask, hzero, hseq]
            decide
          rw [Endpoint.onPacket_of_gt hahead] at hevents
          have hflight := Link.mem_inFlight_of_emitted hnext
            (hevents ▸ List.mem_cons_of_mem _ List.mem_cons_self)
          refine .asked (c.1.ends sender.peer).state.receiverAcknowledged ?_
          rwa [Addresses.datagram, Side.peer_peer]
        · right
          obtain ⟨zero, hmem, hnumber⟩ := hinv.exists_received_zero hpos
          refine ⟨zero, ?_, hnumber⟩
          rw [sideTrace_append, received_append]
          exact List.mem_append_left _ hmem

/-- Every step but a loss keeps it so. -/
theorem NothingLost.step (h : NothingLost addr sender c) (hc : (linkMachine addr).Reachable c)
    (hlimits : WithinLimits d.2) (hstep : (linkMachine addr).step c action = some d)
    (hkept : ∀ datagram, action ≠ .lose datagram) : NothingLost addr sender d := by
  have hbefore := hlimits.of_prefix (Machine.traced_step_prefix hstep)
  have hinv := linkInv_of_reachable hc hbefore
  have hinv' := linkInv_of_reachable (hc.step hstep) hlimits
  have hshort : ∀ side, (submitted (sideTrace side c.2)).length < 2 ^ 32 := fun side =>
    Nat.lt_of_lt_of_le (hbefore side).short (by decide)
  have hshort' : ∀ side, (submitted (sideTrace side d.2)).length < 2 ^ 32 := fun side =>
    Nat.lt_of_lt_of_le (hlimits side).short (by decide)
  obtain ⟨next, events, hnext, rfl⟩ := Machine.traced_step.mp hstep
  have hreceived : ∀ packet ∈ received (sideTrace sender.peer c.2),
      packet ∈ received (sideTrace sender.peer (c.2 ++ events)) := fun packet hmem => by
    rw [sideTrace_append, received_append]
    exact List.mem_append_left _ hmem
  have hcases : ∀ seq entry, (next.ends sender).state.unacked.lookup seq = some entry →
      entry.packet ∈ (next.ends sender).outgoing ∨
        ∃ old, (c.1.ends sender).state.unacked.lookup seq = some old ∧
          old.packet = entry.packet := by
    intro seq entry hentry
    rcases Link.side_cases hnext sender with ⟨hrest, -⟩ | ⟨act, htrans⟩
    · exact .inr ⟨entry, hrest ▸ hentry, rfl⟩
    · exact htrans.unacked_cases hentry
  constructor
  · intro seq entry hentry
    rcases hcases seq entry hentry with hqueued | ⟨old, hold, hpacket⟩
    · exact .inl (.inl hqueued)
    · rw [← hpacket]
      rcases h.data seq old hold with hunderway | hcome
      · refine (hunderway.step hnext hkept).imp_right fun hdelivered => ?_
        obtain ⟨side, rfl⟩ := hdelivered
        have hcarries := ((hinv.send sender).unacked seq old hold).2.carries (hshort sender)
        have hgenuine : Genuine (submitted (sideTrace sender c.2)) old.packet := .inr hcarries
        obtain ⟨rfl, -, -, hevents⟩ :=
          Link.deliver_cases (hgenuine.deserialize_take (hbefore sender)) hnext
        rw [sideTrace_append, hevents, received_append]
        exact List.mem_append_right _ List.mem_cons_self
      · exact .inr (hreceived _ hcome)
  · intro entry hentry
    rcases hcases 1 entry hentry with hqueued | ⟨old, hold, -⟩
    · left
      obtain ⟨hseq, hlatest⟩ := (hinv'.send sender).unacked 1 entry hentry
      exact .first entry.packet hseq (.inr (hlatest.carries (hshort' sender))) (.inl hqueued)
    · rcases h.greeting old hold with hgreets | ⟨packet, hmem, hzero⟩
      · exact hgreets.step hinv hbefore hstep hkept
      · exact .inr ⟨packet, hreceived packet hmem, hzero⟩

/-- A sender that has everything still to send has lost nothing. -/
theorem nothingLost_of_outgoing (hinv : LinkInv addr c.1 c.2) (hlimits : WithinLimits c.2)
    (hall : ∀ seq entry, (c.1.ends sender).state.unacked.lookup seq = some entry →
      entry.packet ∈ (c.1.ends sender).outgoing) : NothingLost addr sender c where
  data seq entry hentry := .inl (.inl (hall seq entry hentry))
  greeting entry hentry := by
    obtain ⟨hseq, hlatest⟩ := (hinv.send sender).unacked 1 entry hentry
    have hcarries := hlatest.carries (Nat.lt_of_lt_of_le (hlimits sender).short (by decide))
    exact .inl (.first entry.packet hseq (.inr hcarries) (.inl (hall 1 entry hentry)))

end NothingLost

end P2PNetworking.Common
