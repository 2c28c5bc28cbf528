/-
# One endpoint of the reliable layer

Three tasks share one `SharedState`: `recv` owns the receive side, `send` owns
the send side, and `periodicAcks` drains the acknowledgement channel.  They run
on a multi-threaded runtime, so a step here is one piece of a task between two
points at which another task could see a difference.  The only shared word that
one task writes and another reads is `receiverAcknowledged`; the counters and
tables a task keeps to itself change together with its neighbouring step.

Additions on sequence numbers wrap, as `fetch_add` does and as `+` does in a
release build.
-/

import P2PNetworking.Common.Packet
import P2PNetworking.Lib.Machine
import P2PNetworking.Lib.Table

namespace P2PNetworking.Common

open P2PNetworking.Net P2PNetworking.Lib

/-! ## State -/

/-- An acknowledgement waiting in the channel from `recv` to `periodicAcks`. -/
structure AckInfo where
  ackNum : UInt32
  peerAddr : SocketAddr
  deriving DecidableEq, Repr

/-- The words and tables that the tasks of one endpoint share.  Nothing in the
source reads or writes `senderAcknowdgeded` after its initialisation. -/
structure SharedState where
  expectedSequence : UInt32
  receiverAcknowledged : UInt32
  recvBuffer : Table UInt32 Packet
  nextSeq : UInt32
  senderAcknowdgeded : UInt32
  unacked : Table UInt32 SentPacket

/-- `SharedState::new`. -/
def SharedState.new : SharedState := ⟨0, 0, ∅, 0, 0, ∅⟩

/-- Where `recv` stands.  Past the address check the sender of the datagram is
the peer, so the positions carry no address. -/
inductive RecvTask
  /-- Blocked in `recv_from`. -/
  | receiving
  /-- Branch `Equal`, before `output_tx.send`. -/
  | handingOver (packet : Packet)
  /-- Before `expected_sequence.fetch_add` and `receiver_acknowledged.store`. -/
  | advancing (packetSeq : UInt32)
  /-- Before `ack_tx.send`. -/
  | queueingAck (packetSeq : UInt32)
  /-- At the head of the `while let`. -/
  | draining (nextExpected : UInt32)
  /-- Both counters advanced, before the `output_tx.send` of the loop body. -/
  | releasing (nextExpected : UInt32) (packet : Packet)
  deriving DecidableEq, Repr

/-- The shared state with the position of each task: `outgoing` are the packets
that the current arm of `send` still has to pass to `send_to`, `ackRx` is the
content of the acknowledgement channel. -/
structure Endpoint where
  state : SharedState
  recvTask : RecvTask
  outgoing : List Packet
  ackRx : List AckInfo

/-- `ReliableOneWayUDP::new`. -/
def Endpoint.new : Endpoint := ⟨.new, .receiving, [], []⟩

/-- What an endpoint does that its application, its peer or the network sees. -/
inductive Event
  /-- The application gave the payload to `send`. -/
  | submitted (payload : List UInt8)
  /-- `recv` decoded a datagram of the peer. -/
  | received (packet : Packet)
  /-- `recv` gave the packet to `output_tx`. -/
  | handedOver (packet : Packet)
  /-- The packet was serialized and given to `send_to`. -/
  | emitted (packet : Packet) (dest : SocketAddr)
  deriving DecidableEq, Repr

/-! ## Histories -/

/-- The payloads the application has given to `send`, in order. -/
def submitted (trace : List Event) : List (List UInt8) :=
  trace.filterMap fun
    | .submitted payload => some payload
    | _ => none

/-- The packets of the peer that `recv` has decoded, in order. -/
def received (trace : List Event) : List Packet :=
  trace.filterMap fun
    | .received packet => some packet
    | _ => none

/-- The packets given to `output_tx`, in order. -/
def handedOver (trace : List Event) : List Packet :=
  trace.filterMap fun
    | .handedOver packet => some packet
    | _ => none

/-- The packets given to the socket, in order. -/
def emitted (trace : List Event) : List Packet :=
  trace.filterMap fun
    | .emitted packet _ => some packet
    | _ => none

@[simp]
theorem submitted_append (first second : List Event) :
    submitted (first ++ second) = submitted first ++ submitted second :=
  List.filterMap_append

@[simp]
theorem received_append (first second : List Event) :
    received (first ++ second) = received first ++ received second :=
  List.filterMap_append

@[simp]
theorem handedOver_append (first second : List Event) :
    handedOver (first ++ second) = handedOver first ++ handedOver second :=
  List.filterMap_append

@[simp]
theorem handedOver_nil : handedOver [] = [] := rfl

@[simp]
theorem handedOver_cons (event : Event) (trace : List Event) :
    handedOver (event :: trace) = match event with
      | .handedOver packet => packet :: handedOver trace
      | _ => handedOver trace := by
  cases event <;> rfl

@[simp]
theorem emitted_append (first second : List Event) :
    emitted (first ++ second) = emitted first ++ emitted second :=
  List.filterMap_append

/-! ## Actions -/

/-- What happens next at an endpoint. -/
inductive Action
  /-- `recv_from` returns a datagram. -/
  | arrive (src : SocketAddr) (bytes : List UInt8)
  /-- `recv` goes on with the datagram it holds. -/
  | recv
  /-- The arm `rx.recv()` of `send` is taken. -/
  | submit (now : ℕ) (packetType : PacketType)
  /-- The arm `retransmit_interval.tick()` of `send` is taken. -/
  | tick (now : ℕ)
  /-- `send` passes one of its packets to `send_to`. -/
  | transmit (index : ℕ)
  /-- `periodic_acks` takes the next acknowledgement. -/
  | ack
  deriving DecidableEq, Repr

namespace Endpoint

/-! ## `ReliableOneWayUDP::recv` -/

/-- `let mut buf = [0u8; 6600]`. -/
def recvBufferSize : ℕ := 6600

/-- The three branches of `packet_seq.cmp(expected)`, up to the next point at
which the task can be seen. -/
def onPacket (peerAddr : SocketAddr) (ep : Endpoint) (packet : Packet) :
    Endpoint × List Event :=
  match compare packet.header.seq ep.state.expectedSequence with
  | .eq => ({ ep with recvTask := .handingOver packet }, [])
  | .gt =>
      ({ ep with state := { ep.state with
          recvBuffer := ep.state.recvBuffer.insert packet.header.seq packet } },
        [.emitted (ackPacket ep.state.receiverAcknowledged) peerAddr])
  | .lt =>
      if packet.isBare then
        ({ ep with ackRx := ep.ackRx ++ [⟨packet.header.ack, peerAddr⟩] }, [])
      else
        (ep, [])

section OnPacket

variable {peerAddr : SocketAddr} {ep : Endpoint} {packet : Packet}

theorem onPacket_of_eq (h : packet.header.seq = ep.state.expectedSequence) :
    ep.onPacket peerAddr packet = ({ ep with recvTask := .handingOver packet }, []) := by
  simp [onPacket, Std.compare_eq_iff_eq.mpr h]

theorem onPacket_of_gt (h : ep.state.expectedSequence < packet.header.seq) :
    ep.onPacket peerAddr packet =
      ({ ep with state := { ep.state with
          recvBuffer := ep.state.recvBuffer.insert packet.header.seq packet } },
        [.emitted (ackPacket ep.state.receiverAcknowledged) peerAddr]) := by
  simp [onPacket, Std.compare_eq_gt.mpr h]

theorem onPacket_of_lt (h : packet.header.seq < ep.state.expectedSequence) :
    ep.onPacket peerAddr packet =
      if packet.isBare then
        ({ ep with ackRx := ep.ackRx ++ [⟨packet.header.ack, peerAddr⟩] }, [])
      else (ep, []) := by
  simp [onPacket, Std.compare_eq_lt.mpr h]

/-- Nothing is handed over before branch `Equal` goes on. -/
theorem handedOver_onPacket (peerAddr : SocketAddr) (ep : Endpoint) (packet : Packet) :
    handedOver (ep.onPacket peerAddr packet).2 = [] := by
  unfold onPacket
  split
  · rfl
  · rfl
  · split <;> rfl

end OnPacket

/-- `recv_from` returns: datagrams of other senders and datagrams that do not
decode are skipped. -/
def arrive (peerAddr : SocketAddr) (ep : Endpoint) (src : SocketAddr)
    (bytes : List UInt8) : Option (Endpoint × List Event) :=
  match ep.recvTask with
  | .receiving =>
      if src ≠ peerAddr then some (ep, [])
      else
        match deserialize (bytes.take recvBufferSize) with
        | .error _ => some (ep, [])
        | .ok packet =>
            let result := ep.onPacket peerAddr packet
            some (result.1, .received packet :: result.2)
  | _ => none

/-- The rest of branch `Equal`, one piece at a time. -/
def recv (peerAddr : SocketAddr) (ep : Endpoint) : Option (Endpoint × List Event) :=
  match ep.recvTask with
  | .receiving => none
  | .handingOver packet =>
      some ({ ep with recvTask := .advancing packet.header.seq }, [.handedOver packet])
  | .advancing packetSeq =>
      some ({ ep with
        state := { ep.state with
          expectedSequence := ep.state.expectedSequence + 1
          receiverAcknowledged := packetSeq }
        recvTask := .queueingAck packetSeq }, [])
  | .queueingAck packetSeq =>
      some ({ ep with
        ackRx := ep.ackRx ++ [⟨packetSeq, peerAddr⟩]
        recvTask := .draining (packetSeq + 1) }, [])
  | .draining nextExpected =>
      match ep.state.recvBuffer.lookup nextExpected with
      | none => some ({ ep with recvTask := .receiving }, [])
      | some packet =>
          some ({ ep with
            state := { ep.state with
              expectedSequence := ep.state.expectedSequence + 1
              receiverAcknowledged := ep.state.receiverAcknowledged + 1
              recvBuffer := ep.state.recvBuffer.erase nextExpected }
            recvTask := .releasing nextExpected packet }, [])
  | .releasing nextExpected packet =>
      some ({ ep with recvTask := .draining (nextExpected + 1) }, [.handedOver packet])

/-! ## `ReliableOneWayUDPHandle::send` -/

/-- The arm `rx.recv()`: acknowledgements asked for by the application are only
logged; data gets the next number, is remembered, and is sent. -/
def send (ep : Endpoint) (now : ℕ) : PacketType → Endpoint × List Event
  | .ack _ => (ep, [])
  | .data payload =>
      let seq := ep.state.nextSeq + 1
      let packet : Packet := ⟨⟨seq, ep.state.receiverAcknowledged⟩, some payload⟩
      ({ ep with
        state := { ep.state with
          nextSeq := seq
          unacked := ep.state.unacked.insert seq ⟨packet, now⟩ }
        outgoing := [packet] }, [.submitted payload])

/-- `Duration::from_millis(2000)`, in nanoseconds. -/
def retransmitTimeout : ℕ := 2000 * 10 ^ 6

/-- `now.duration_since(entry.time_sent) > timeout`. -/
def isOverdue (now : ℕ) (entry : SentPacket) : Bool := now - entry.timeSent > retransmitTimeout

/-- `check_retransmission`: every overdue packet is stamped anew and sent again.
A `DashMap` is walked in no particular order, so `transmit` may take any of them. -/
def checkRetransmission (ep : Endpoint) (now : ℕ) : Endpoint :=
  { ep with
    state := { ep.state with
      unacked := Table.mapValues
        (fun entry => if isOverdue now entry then { entry with timeSent := now } else entry)
        ep.state.unacked }
    outgoing := ((Table.values ep.state.unacked).filter (isOverdue now)).map
      SentPacket.packet }

/-! ## All tasks together -/

/-- One step of an endpoint.  The `select!` of `send` takes a new arm only when
the previous one has passed all its packets to the socket. -/
def step (peerAddr : SocketAddr) (ep : Endpoint) : Action → Option (Endpoint × List Event)
  | .arrive src bytes => ep.arrive peerAddr src bytes
  | .recv => ep.recv peerAddr
  | .submit now packetType =>
      match ep.outgoing with
      | [] => some (ep.send now packetType)
      | _ :: _ => none
  | .tick now =>
      match ep.outgoing with
      | [] => some (ep.checkRetransmission now, [])
      | _ :: _ => none
  | .transmit index =>
      match ep.outgoing[index]? with
      | none => none
      | some packet =>
          some ({ ep with outgoing := ep.outgoing.eraseIdx index }, [.emitted packet peerAddr])
  | .ack =>
      match ep.ackRx with
      | [] => none
      | info :: rest =>
          some ({ ep with ackRx := rest },
            [.emitted (ackPacket info.ackNum) info.peerAddr])

section Step

variable {peerAddr : SocketAddr} {ep : Endpoint}

/-- A well-formed datagram of the peer is handled when `recv` waits for one. -/
theorem step_arrive {bytes : List UInt8} {packet : Packet} (htask : ep.recvTask = .receiving)
    (hbytes : deserialize (bytes.take recvBufferSize) = .ok packet) :
    ep.step peerAddr (.arrive peerAddr bytes) =
      some ((ep.onPacket peerAddr packet).1,
        .received packet :: (ep.onPacket peerAddr packet).2) := by
  simp [step, arrive, htask, hbytes]

/-- No other state of `recv` takes a datagram. -/
theorem receiving_of_step_arrive {src : SocketAddr} {bytes : List UInt8}
    {result : Endpoint × List Event} (hstep : ep.step peerAddr (.arrive src bytes) = some result) :
    ep.recvTask = .receiving := by
  cases htask : ep.recvTask with
  | receiving => rfl
  | _ => simp [step, arrive, htask] at hstep

theorem step_tick (now : ℕ) (hidle : ep.outgoing = []) :
    ep.step peerAddr (.tick now) = some (ep.checkRetransmission now, []) := by
  simp only [step, hidle]

theorem step_transmit {index : ℕ} {packet : Packet} (h : ep.outgoing[index]? = some packet) :
    ep.step peerAddr (.transmit index) =
      some ({ ep with outgoing := ep.outgoing.eraseIdx index },
        [.emitted packet peerAddr]) := by
  simp only [step, h]

theorem step_ack {info : AckInfo} {rest : List AckInfo} (h : ep.ackRx = info :: rest) :
    ep.step peerAddr .ack =
      some ({ ep with ackRx := rest }, [.emitted (ackPacket info.ackNum) info.peerAddr]) := by
  simp only [step, h]

end Step

/-- The branches of a step, each with everything it does. -/
inductive Transition (peerAddr : SocketAddr) (ep : Endpoint) :
    Action → Endpoint → List Event → Prop
  | foreign {src : SocketAddr} {bytes : List UInt8} (hsrc : src ≠ peerAddr) :
      Transition peerAddr ep (.arrive src bytes) ep []
  | malformed {bytes : List UInt8} {error : String}
      (hbytes : deserialize (bytes.take recvBufferSize) = .error error) :
      Transition peerAddr ep (.arrive peerAddr bytes) ep []
  | accept {bytes : List UInt8} {packet : Packet} (htask : ep.recvTask = .receiving)
      (hbytes : deserialize (bytes.take recvBufferSize) = .ok packet)
      (hseq : packet.header.seq = ep.state.expectedSequence) :
      Transition peerAddr ep (.arrive peerAddr bytes)
        { ep with recvTask := .handingOver packet } [.received packet]
  | buffer {bytes : List UInt8} {packet : Packet} (htask : ep.recvTask = .receiving)
      (hbytes : deserialize (bytes.take recvBufferSize) = .ok packet)
      (hseq : ep.state.expectedSequence < packet.header.seq) :
      Transition peerAddr ep (.arrive peerAddr bytes)
        { ep with state := { ep.state with
            recvBuffer := ep.state.recvBuffer.insert packet.header.seq packet } }
        [.received packet, .emitted (ackPacket ep.state.receiverAcknowledged) peerAddr]
  | echo {bytes : List UInt8} {packet : Packet} (htask : ep.recvTask = .receiving)
      (hbytes : deserialize (bytes.take recvBufferSize) = .ok packet)
      (hseq : packet.header.seq < ep.state.expectedSequence) (hbare : packet.isBare = true) :
      Transition peerAddr ep (.arrive peerAddr bytes)
        { ep with ackRx := ep.ackRx ++ [⟨packet.header.ack, peerAddr⟩] } [.received packet]
  | duplicate {bytes : List UInt8} {packet : Packet} (htask : ep.recvTask = .receiving)
      (hbytes : deserialize (bytes.take recvBufferSize) = .ok packet)
      (hseq : packet.header.seq < ep.state.expectedSequence)
      (hbare : packet.isBare = false) :
      Transition peerAddr ep (.arrive peerAddr bytes) ep [.received packet]
  | handOver {packet : Packet} (htask : ep.recvTask = .handingOver packet) :
      Transition peerAddr ep .recv
        { ep with recvTask := .advancing packet.header.seq } [.handedOver packet]
  | advance {packetSeq : UInt32} (htask : ep.recvTask = .advancing packetSeq) :
      Transition peerAddr ep .recv
        { ep with
          state := { ep.state with
            expectedSequence := ep.state.expectedSequence + 1
            receiverAcknowledged := packetSeq }
          recvTask := .queueingAck packetSeq } []
  | queueAck {packetSeq : UInt32} (htask : ep.recvTask = .queueingAck packetSeq) :
      Transition peerAddr ep .recv
        { ep with
          ackRx := ep.ackRx ++ [⟨packetSeq, peerAddr⟩]
          recvTask := .draining (packetSeq + 1) } []
  | drained {nextExpected : UInt32} (htask : ep.recvTask = .draining nextExpected)
      (hbuffer : ep.state.recvBuffer.lookup nextExpected = none) :
      Transition peerAddr ep .recv { ep with recvTask := .receiving } []
  | drain {nextExpected : UInt32} {packet : Packet}
      (htask : ep.recvTask = .draining nextExpected)
      (hbuffer : ep.state.recvBuffer.lookup nextExpected = some packet) :
      Transition peerAddr ep .recv
        { ep with
          state := { ep.state with
            expectedSequence := ep.state.expectedSequence + 1
            receiverAcknowledged := ep.state.receiverAcknowledged + 1
            recvBuffer := ep.state.recvBuffer.erase nextExpected }
          recvTask := .releasing nextExpected packet } []
  | release {nextExpected : UInt32} {packet : Packet}
      (htask : ep.recvTask = .releasing nextExpected packet) :
      Transition peerAddr ep .recv
        { ep with recvTask := .draining (nextExpected + 1) } [.handedOver packet]
  | submitAck {now : ℕ} {ack : UInt32} :
      Transition peerAddr ep (.submit now (.ack ack)) ep []
  | submitData {now : ℕ} {payload : List UInt8} (hidle : ep.outgoing = []) :
      Transition peerAddr ep (.submit now (.data payload))
        (ep.send now (.data payload)).1 [.submitted payload]
  | tick {now : ℕ} (hidle : ep.outgoing = []) :
      Transition peerAddr ep (.tick now) (ep.checkRetransmission now) []
  | transmit {index : ℕ} {packet : Packet} (hpacket : ep.outgoing[index]? = some packet) :
      Transition peerAddr ep (.transmit index)
        { ep with outgoing := ep.outgoing.eraseIdx index } [.emitted packet peerAddr]
  | ack {info : AckInfo} {rest : List AckInfo} (hqueue : ep.ackRx = info :: rest) :
      Transition peerAddr ep .ack { ep with ackRx := rest }
        [.emitted (ackPacket info.ackNum) info.peerAddr]

private theorem transition_of_arrive {peerAddr src : SocketAddr} {ep ep' : Endpoint}
    {bytes : List UInt8} {events : List Event}
    (hstep : ep.arrive peerAddr src bytes = some (ep', events)) :
    Transition peerAddr ep (.arrive src bytes) ep' events := by
  unfold arrive at hstep
  split at hstep
  · next htask =>
    split at hstep
    · next hsrc =>
      cases hstep
      exact .foreign hsrc
    · next hsrc =>
      obtain rfl : src = peerAddr := not_not.mp hsrc
      split at hstep
      · next hbytes =>
        cases hstep
        exact .malformed hbytes
      · next packet hbytes =>
        cases hcmp : compare packet.header.seq ep.state.expectedSequence with
        | eq =>
            have hseq := Std.compare_eq_iff_eq.mp hcmp
            simp only [onPacket_of_eq hseq] at hstep
            cases hstep
            exact .accept htask hbytes hseq
        | gt =>
            have hseq := Std.compare_eq_gt.mp hcmp
            simp only [onPacket_of_gt hseq] at hstep
            cases hstep
            exact .buffer htask hbytes hseq
        | lt =>
            have hseq := Std.compare_eq_lt.mp hcmp
            simp only [onPacket_of_lt hseq] at hstep
            cases hbare : packet.isBare with
            | true =>
                simp only [hbare, if_true] at hstep
                cases hstep
                exact .echo htask hbytes hseq hbare
            | false =>
                simp only [hbare] at hstep
                cases hstep
                exact .duplicate htask hbytes hseq hbare
  · cases hstep

private theorem transition_of_recv {peerAddr : SocketAddr} {ep ep' : Endpoint}
    {events : List Event} (hstep : ep.recv peerAddr = some (ep', events)) :
    Transition peerAddr ep .recv ep' events := by
  unfold recv at hstep
  split at hstep
  · cases hstep
  · next htask =>
    cases hstep
    exact .handOver htask
  · next htask =>
    cases hstep
    exact .advance htask
  · next htask =>
    cases hstep
    exact .queueAck htask
  · next htask =>
    split at hstep
    · next hbuffer =>
      cases hstep
      exact .drained htask hbuffer
    · next hbuffer =>
      cases hstep
      exact .drain htask hbuffer
  · next htask =>
    cases hstep
    exact .release htask

/-- Every step is one of the branches. -/
theorem transition_of_step {peerAddr : SocketAddr} {ep ep' : Endpoint} {action : Action}
    {events : List Event} (hstep : ep.step peerAddr action = some (ep', events)) :
    Transition peerAddr ep action ep' events := by
  cases action with
  | arrive src bytes => exact transition_of_arrive hstep
  | recv => exact transition_of_recv hstep
  | submit now packetType =>
      simp only [step] at hstep
      split at hstep
      · next hidle =>
        cases packetType with
        | ack ack =>
            cases hstep
            exact .submitAck
        | data payload =>
            cases hstep
            exact .submitData hidle
      · cases hstep
  | tick now =>
      simp only [step] at hstep
      split at hstep
      · next hidle =>
        cases hstep
        exact .tick hidle
      · cases hstep
  | transmit index =>
      simp only [step] at hstep
      split at hstep
      · cases hstep
      · next hpacket =>
        cases hstep
        exact .transmit hpacket
  | ack =>
      simp only [step] at hstep
      split at hstep
      · cases hstep
      · next hqueue =>
        cases hstep
        exact .ack hqueue

end Endpoint

/-- An endpoint whose peer and application may do anything. -/
def endpointMachine (peerAddr : SocketAddr) : Machine (Endpoint × List Event) Action :=
  .traced .new (Endpoint.step peerAddr)

end P2PNetworking.Common
