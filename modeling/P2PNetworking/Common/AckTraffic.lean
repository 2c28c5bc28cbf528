/-
# How many acknowledgements are sent

Apart from branch `Less`, an endpoint owes one acknowledgement for each data
packet it receives and one for the packet with number 0.  Branch `Less` owes one
for every bare packet that comes too late, and acknowledgements are bare packets
with number 0: once both sides are past number 0 they answer each other's
acknowledgements without end.
-/

import P2PNetworking.Common.Delivery

namespace P2PNetworking.Common

open P2PNetworking.Net P2PNetworking.Lib

/-- Number 0 and no payload. -/
def Packet.isPureAck (packet : Packet) : Bool :=
  packet.header.seq == 0 && packet.payload.isNone

/-- How many pure acknowledgements have been sent. -/
def pureAcksEmitted (trace : List Event) : ℕ := (emitted trace).countP Packet.isPureAck

/-- How many packets other than pure acknowledgements have been received. -/
def dataReceived (trace : List Event) : ℕ := (received trace).countP fun p => !p.isPureAck

@[simp]
theorem pureAcksEmitted_append (first second : List Event) :
    pureAcksEmitted (first ++ second) = pureAcksEmitted first + pureAcksEmitted second := by
  simp [pureAcksEmitted]

@[simp]
theorem dataReceived_append (first second : List Event) :
    dataReceived (first ++ second) = dataReceived first + dataReceived second := by
  simp [dataReceived]

@[simp]
theorem pureAcksEmitted_nil : pureAcksEmitted [] = 0 := rfl

@[simp]
theorem dataReceived_nil : dataReceived [] = 0 := rfl

/-- What one event adds to the first count. -/
@[simp]
theorem pureAcksEmitted_cons (event : Event) (trace : List Event) :
    pureAcksEmitted (event :: trace) = pureAcksEmitted trace + match event with
      | .emitted packet _ => if packet.isPureAck then 1 else 0
      | _ => 0 := by
  cases event <;> simp [pureAcksEmitted, emitted, List.countP_cons]

/-- What one event adds to the second. -/
@[simp]
theorem dataReceived_cons (event : Event) (trace : List Event) :
    dataReceived (event :: trace) = dataReceived trace + match event with
      | .received packet => if packet.isPureAck then 0 else 1
      | _ => 0 := by
  cases event with
  | received packet =>
      cases hpure : packet.isPureAck <;> simp [dataReceived, received, hpure]
  | _ => simp [dataReceived, received]

@[simp]
theorem isPureAck_ackPacket (ack : UInt32) : (ackPacket ack).isPureAck = true := rfl

/-- Where acknowledgements do not feed themselves: no bare packet comes below the
expected number, and none with number 0 once something has been handed over. -/
def QuietStep (peerAddr : SocketAddr) (c : Endpoint × List Event) : Action → Prop
  | .arrive src bytes => ∀ packet, src = peerAddr →
      deserialize (bytes.take Endpoint.recvBufferSize) = .ok packet → packet.isBare = true →
      c.1.state.expectedSequence ≤ packet.header.seq ∧
        (packet.header.seq = 0 → handedOver c.2 = [])
  | _ => True

instance (peerAddr : SocketAddr) (c : Endpoint × List Event) (action : Action) :
    Decidable (QuietStep peerAddr c action) :=
  match action with
  | .arrive src bytes =>
      match hbytes : deserialize (bytes.take Endpoint.recvBufferSize) with
      | .error _ => .isTrue (by simp [QuietStep, hbytes])
      | .ok packet => decidable_of_iff (src = peerAddr → packet.isBare = true →
          c.1.state.expectedSequence ≤ packet.header.seq ∧
            (packet.header.seq = 0 → handedOver c.2 = []))
          (by simp [QuietStep, hbytes])
  | .submit _ _ | .recv | .tick _ | .transmit _ | .ack => .isTrue trivial

/-- The packet in hand has not been acknowledged yet. -/
def RecvTask.owed : RecvTask → ℕ
  | .handingOver _ | .advancing _ | .queueingAck _ => 1
  | .receiving | .draining _ | .releasing _ _ => 0

/-- The packet with number 0 is in hand or has been handed over. -/
def started (ep : Endpoint) (trace : List Event) : ℕ :=
  match ep.recvTask with
  | .handingOver _ => 1
  | _ => min 1 (handedOver trace).length

theorem started_le_one (ep : Endpoint) (trace : List Event) : started ep trace ≤ 1 := by
  unfold started
  split <;> omega

/-- Acknowledgements sent, queued and owed are paid for by the data received and
the one packet with number 0; what `send` sends is data. -/
structure TrafficInv (c : Endpoint × List Event) : Prop where
  paid : pureAcksEmitted c.2 + c.1.ackRx.length + c.1.recvTask.owed ≤
    dataReceived c.2 + started c.1 c.2
  outgoing : ∀ packet ∈ c.1.outgoing, packet.isPureAck = false
  unacked : ∀ seq entry, c.1.state.unacked.lookup seq = some entry →
    entry.packet.isPureAck = false

theorem TrafficInv.new : TrafficInv (.new, []) where
  paid := by decide
  outgoing := by simp [Endpoint.new]
  unacked := by simp [Endpoint.new, SharedState.new]

theorem Packet.isPureAck_iff {packet : Packet} :
    packet.isPureAck = true ↔ packet.header.seq = 0 ∧ packet.payload = none := by
  simp [isPureAck]

theorem Packet.isBare_of_isPureAck {packet : Packet} (h : packet.isPureAck = true) :
    packet.isBare = true := by
  simp [isBare, (isPureAck_iff.mp h).2]

section TrafficInv

variable {peerAddr : SocketAddr} {ep ep' : Endpoint} {trace events : List Event}
  {action : Action}

/-- Steps that meet the guard keep the books. -/
theorem TrafficInv.step (h : TrafficInv (ep, trace))
    (hguard : QuietStep peerAddr (ep, trace) action)
    (hstep : Endpoint.Transition peerAddr ep action ep' events) :
    TrafficInv (ep', trace ++ events) := by
  have hpaid := h.paid
  cases hstep with
  | foreign | malformed | submitAck =>
      rw [List.append_nil]
      exact h
  | @accept bytes packet htask hbytes hseq =>
      refine ⟨?_, h.outgoing, h.unacked⟩
      cases hpure : packet.isPureAck with
      | true =>
          -- this is number 0, and nothing has been handed over yet
          obtain ⟨-, hfirst⟩ := hguard packet rfl hbytes (Packet.isBare_of_isPureAck hpure)
          have hnone := hfirst (Packet.isPureAck_iff.mp hpure).1
          simp [started, htask, RecvTask.owed, hnone, hpure] at hpaid ⊢
          omega
      | false =>
          simp [started, htask, RecvTask.owed, hpure] at hpaid ⊢
          omega
  | @buffer bytes packet htask hbytes hseq =>
      have hpure : packet.isPureAck = false := by
        rw [Bool.eq_false_iff]
        intro hpure
        rw [(Packet.isPureAck_iff.mp hpure).1] at hseq
        exact UInt32.not_lt_zero hseq
      refine ⟨?_, h.outgoing, h.unacked⟩
      simp [started, htask, RecvTask.owed, hpure] at hpaid ⊢
      omega
  | @echo bytes packet htask hbytes hseq hbare =>
      exact absurd hseq (UInt32.not_lt.mpr (hguard packet rfl hbytes hbare).1)
  | @duplicate bytes packet htask hbytes hseq hbare =>
      refine ⟨?_, h.outgoing, h.unacked⟩
      simp [started, htask, RecvTask.owed] at hpaid ⊢
      omega
  | @handOver packet htask | @release nextExpected packet htask =>
      refine ⟨?_, h.outgoing, h.unacked⟩
      simp [started, htask, RecvTask.owed] at hpaid ⊢
      omega
  | advance htask | queueAck htask | drained htask | drain htask =>
      refine ⟨?_, h.outgoing, h.unacked⟩
      simp [started, htask, RecvTask.owed] at hpaid ⊢
      omega
  | @submitData now payload hidle =>
      refine ⟨?_, fun packet hmem => ?_, fun seq entry hlookup => ?_⟩
      · simpa [started, Endpoint.send] using hpaid
      · rw [List.mem_singleton.mp hmem]
        exact Bool.and_false _
      · simp only [Endpoint.send, Table.lookup_insert_eq_ite] at hlookup
        split at hlookup
        · cases hlookup
          exact Bool.and_false _
        · exact h.unacked seq entry hlookup
  | @tick now hidle =>
      rw [List.append_nil]
      refine ⟨hpaid, fun packet hmem => ?_, fun seq entry hlookup => ?_⟩
      · obtain ⟨entry, hentry, rfl⟩ := List.mem_map.mp hmem
        obtain ⟨seq, hlookup⟩ := Table.mem_values.mp (List.mem_filter.mp hentry).1
        exact h.unacked seq entry hlookup
      · simp only [Endpoint.checkRetransmission, Table.lookup_mapValues,
          Option.map_eq_some_iff] at hlookup
        obtain ⟨old, hold, rfl⟩ := hlookup
        have := h.unacked seq old hold
        split <;> exact this
  | @transmit index packet hpacket =>
      have hpure := h.outgoing packet (List.mem_of_getElem? hpacket)
      refine ⟨?_, fun other hmem => h.outgoing other (List.mem_of_mem_eraseIdx hmem), h.unacked⟩
      simpa [started, hpure] using hpaid
  | @ack info rest hqueue =>
      refine ⟨?_, h.outgoing, h.unacked⟩
      simp [started, hqueue] at hpaid ⊢
      omega

end TrafficInv

/-- One side's books after a schedule whose steps all meet the guard there. -/
private theorem pureAcksEmitted_le {addr : Addresses} {side : Side} {actions : List LinkAction}
    {c : Link × List (Side × Event)}
    (hexec : (linkMachine addr).exec (linkMachine addr).init actions = some c)
    (halong : (linkMachine addr).Along
      ((sideComponent addr side).lift (QuietStep (addr.of side.peer)))
      (linkMachine addr).init actions) :
    pureAcksEmitted (sideTrace side c.2) ≤ dataReceived (sideTrace side c.2) + 1 := by
  have hinv : TrafficInv ((sideComponent addr side).view c) := by
    refine (sideComponent addr side).along_induct TrafficInv.new ?_ hexec halong
    rintro ⟨ep, trace⟩ action d - h hguard hstep
    obtain ⟨ep', events, hnext, rfl⟩ := Machine.traced_step.mp hstep
    exact h.step hguard (Endpoint.transition_of_step hnext)
  have hpaid := hinv.paid
  have hstarted := started_le_one (c.1.ends side) (sideTrace side c.2)
  simp only [sideComponent] at hpaid
  omega

/-- In every schedule whose steps all meet the guard on both sides, there are at
most two more pure acknowledgements than data packets received. -/
theorem pureAcks_le_of_along {addr : Addresses} {actions : List LinkAction}
    {c : Link × List (Side × Event)}
    (hexec : (linkMachine addr).exec (linkMachine addr).init actions = some c)
    (halong : ∀ side, (linkMachine addr).Along
      ((sideComponent addr side).lift (QuietStep (addr.of side.peer)))
      (linkMachine addr).init actions) :
    pureAcksEmitted (sideTrace .left c.2) + pureAcksEmitted (sideTrace .right c.2) ≤
      dataReceived (sideTrace .left c.2) + dataReceived (sideTrace .right c.2) + 2 := by
  have hleft := pureAcksEmitted_le hexec (halong .left)
  have hright := pureAcksEmitted_le hexec (halong .right)
  omega

theorem pureAcks_le_firstMessage :
    ∃ c, (linkMachine loopback).exec (linkMachine loopback).init firstMessage = some c ∧
      pureAcksEmitted (sideTrace .left c.2) + pureAcksEmitted (sideTrace .right c.2) ≤
        dataReceived (sideTrace .left c.2) + dataReceived (sideTrace .right c.2) + 2 := by
  refine ⟨((linkMachine loopback).exec (linkMachine loopback).init firstMessage).get (by decide),
    (Option.some_get _).symm, pureAcks_le_of_along (Option.some_get _).symm fun side => ?_⟩
  cases side <;> decide

/-- After the first message the right side's queued acknowledgement reaches the
left side, which answers it. -/
def answeredAck : List LinkAction :=
  firstMessage ++
    [.atEnd .right .recv, .atEnd .right .ack,
      .deliver .left (loopback.datagram .right (ackPacket 0)), .atEnd .left .ack]

theorem not_pureAcks_le_answeredAck :
    ∃ c, (linkMachine loopback).exec (linkMachine loopback).init answeredAck = some c ∧
      ¬ pureAcksEmitted (sideTrace .left c.2) + pureAcksEmitted (sideTrace .right c.2) ≤
        dataReceived (sideTrace .left c.2) + dataReceived (sideTrace .right c.2) + 2 :=
  ⟨((linkMachine loopback).exec (linkMachine loopback).init answeredAck).get (by decide),
    (Option.some_get _).symm, by decide⟩

end P2PNetworking.Common
