/-
# How a data packet is answered

`recv` answers on two paths: ahead of its turn a packet is acknowledged at once, in its
turn it is acknowledged through the channel, before the packets it releases from the
buffer.  A duplicate that carries data is ignored.  Between the arrival and the next
`recv_from` the other tasks may do anything; they neither answer nor move the counters
of the receive side.
-/

import P2PNetworking.Common.AckTraffic
import P2PNetworking.Common.Receiving

namespace P2PNetworking.Common

open P2PNetworking.Net P2PNetworking.Lib

/-! ## Answers -/

/-- The acknowledgement that an event gives to the socket. -/
def Event.sentAck : Event → Option AckInfo
  | .emitted packet dest => if packet.isPureAck then some ⟨packet.header.ack, dest⟩ else none
  | _ => none

@[simp]
theorem Event.sentAck_ackPacket (ack : UInt32) (dest : SocketAddr) :
    (Event.emitted (ackPacket ack) dest).sentAck = some ⟨ack, dest⟩ := rfl

@[simp]
theorem Event.sentAck_received (packet : Packet) : (Event.received packet).sentAck = none := rfl

@[simp]
theorem Event.sentAck_handedOver (packet : Packet) :
    (Event.handedOver packet).sentAck = none := rfl

/-- The acknowledgements that `recv` has sent or queued in a step, with their
destinations. -/
def answersIn (ep ep' : Endpoint) (events : List Event) : Action → List AckInfo
  | .arrive _ _ | .recv => events.filterMap Event.sentAck ++ ep'.ackRx.drop ep.ackRx.length
  | _ => []

/-- The same for a whole schedule. -/
def answers (peerAddr : SocketAddr) : Endpoint → List Action → List AckInfo
  | _, [] => []
  | ep, action :: actions =>
      match ep.step peerAddr action with
      | none => []
      | some (ep', events) => answersIn ep ep' events action ++ answers peerAddr ep' actions

/-- The answer that `recv` still has to give. -/
def RecvTask.answerDue (peerAddr : SocketAddr) : RecvTask → List AckInfo
  | .handingOver packet => [⟨packet.header.seq, peerAddr⟩]
  | .advancing packetSeq | .queueingAck packetSeq => [⟨packetSeq, peerAddr⟩]
  | .receiving | .draining _ | .releasing _ _ => []

section Answers

variable {peerAddr : SocketAddr} {ep ep' : Endpoint} {action : Action} {events : List Event}

theorem answers_cons (hstep : ep.step peerAddr action = some (ep', events))
    (actions : List Action) : answers peerAddr ep (action :: actions) =
      answersIn ep ep' events action ++ answers peerAddr ep' actions := by
  rw [answers, hstep]

/-- Between two datagrams each step gives what was due. -/
theorem Endpoint.Transition.answers_due (hstep : Endpoint.Transition peerAddr ep action ep' events)
    (hbetween : ∀ src bytes, action ≠ .arrive src bytes) :
    ep.recvTask.answerDue peerAddr =
      answersIn ep ep' events action ++ ep'.recvTask.answerDue peerAddr := by
  cases hstep with
  | foreign | malformed | accept | buffer | echo | duplicate => exact absurd rfl (hbetween _ _)
  | handOver htask | advance htask | drained htask | drain htask | release htask =>
      simp [htask, answersIn, RecvTask.answerDue]
  | queueAck htask => simp [htask, answersIn, RecvTask.answerDue]
  | submitAck | submitData | tick | transmit | ack => rfl

theorem arrivals_cons_eq_nil {actions : List Action} :
    arrivals (action :: actions) = [] ↔
      (∀ src bytes, action ≠ .arrive src bytes) ∧ arrivals actions = [] := by
  cases action <;> simp [arrivals]

/-- What every step between two datagrams keeps, a whole schedule of them keeps. -/
theorem between_induct {P : Endpoint → Prop}
    (hkeep : ∀ ep action ep' events, P ep → (∀ src bytes, action ≠ .arrive src bytes) →
      Endpoint.Transition peerAddr ep action ep' events → P ep')
    {actions : List Action} {trace : List Event} {d : Endpoint × List Event}
    (hexec : (endpointMachine peerAddr).exec (ep, trace) actions = some d)
    (hbetween : arrivals actions = []) (hep : P ep) : P d.1 := by
  induction actions generalizing ep trace with
  | nil =>
      cases hexec
      exact hep
  | cons action actions ih =>
      rw [Machine.exec_cons, Option.bind_eq_some_iff] at hexec
      obtain ⟨e, hstep, hrest⟩ := hexec
      obtain ⟨ep', events, hnext, rfl⟩ := Machine.traced_step.mp hstep
      obtain ⟨haction, hactions⟩ := arrivals_cons_eq_nil.mp hbetween
      exact ih hrest hactions (hkeep _ _ _ _ hep haction (Endpoint.transition_of_step hnext))

/-- A schedule that brings no new datagram gives what was due, and no more. -/
theorem answers_eq_due {actions : List Action} {trace : List Event} {d : Endpoint × List Event}
    (hexec : (endpointMachine peerAddr).exec (ep, trace) actions = some d)
    (hbetween : arrivals actions = []) (hdone : d.1.recvTask = .receiving) :
    answers peerAddr ep actions = ep.recvTask.answerDue peerAddr := by
  induction actions generalizing ep trace with
  | nil =>
      cases hexec
      rw [hdone]
      rfl
  | cons action actions ih =>
      rw [Machine.exec_cons, Option.bind_eq_some_iff] at hexec
      obtain ⟨e, hstep, hrest⟩ := hexec
      obtain ⟨ep', events, hnext, rfl⟩ := Machine.traced_step.mp hstep
      obtain ⟨haction, hactions⟩ := arrivals_cons_eq_nil.mp hbetween
      rw [answers_cons hnext, ih hrest hactions]
      exact ((Endpoint.transition_of_step hnext).answers_due haction).symm

end Answers

/-! ## Until the next datagram -/

/-- The receive task waits, and everything up to a number has been acknowledged. -/
def Waiting (acknowledged : UInt32) (ep : Endpoint) : Prop :=
  ep.recvTask = .receiving ∧ ep.state.receiverAcknowledged = acknowledged

/-- A packet is being delivered that releases no other one. -/
def DeliversAlone (seq : UInt32) (ep : Endpoint) : Prop :=
  seq + 1 ∉ ep.state.recvBuffer ∧ match ep.recvTask with
    | .handingOver packet => packet.header.seq = seq
    | .advancing packetSeq => packetSeq = seq
    | .queueingAck packetSeq => packetSeq = seq ∧ ep.state.receiverAcknowledged = seq
    | .draining nextExpected => nextExpected = seq + 1 ∧ ep.state.receiverAcknowledged = seq
    | .receiving => ep.state.receiverAcknowledged = seq
    | .releasing _ _ => False

section Steps

variable {peerAddr : SocketAddr} {ep ep' : Endpoint} {action : Action} {events : List Event}
  {seq : UInt32}

theorem Waiting.step (h : Waiting seq ep) (hbetween : ∀ src bytes, action ≠ .arrive src bytes)
    (hstep : Endpoint.Transition peerAddr ep action ep' events) : Waiting seq ep' := by
  obtain ⟨htask, hacknowledged⟩ := h
  cases hstep with
  | foreign | malformed | accept | buffer | echo | duplicate => exact absurd rfl (hbetween _ _)
  | handOver hbusy | advance hbusy | queueAck hbusy | drained hbusy | drain hbusy
    | release hbusy =>
      rw [htask] at hbusy
      cases hbusy
  | submitAck | submitData | tick | transmit | ack => exact ⟨htask, hacknowledged⟩

theorem DeliversAlone.step (h : DeliversAlone seq ep)
    (hbetween : ∀ src bytes, action ≠ .arrive src bytes)
    (hstep : Endpoint.Transition peerAddr ep action ep' events) : DeliversAlone seq ep' := by
  obtain ⟨halone, htask⟩ := h
  cases hstep with
  | foreign | malformed | accept | buffer | echo | duplicate => exact absurd rfl (hbetween _ _)
  | handOver hbusy =>
      rw [hbusy] at htask
      exact ⟨halone, htask⟩
  | advance hbusy =>
      rw [hbusy] at htask
      exact ⟨halone, htask, htask⟩
  | queueAck hbusy =>
      rw [hbusy] at htask
      exact ⟨halone, congrArg (· + 1) htask.1, htask.2⟩
  | drained hbusy =>
      rw [hbusy] at htask
      exact ⟨halone, htask.2⟩
  | drain hbusy hbuffer =>
      -- the loop finds nothing under the next number
      rw [hbusy] at htask
      have hmem := AList.lookup_isSome.mp (Option.isSome_iff_exists.mpr ⟨_, hbuffer⟩)
      exact absurd (htask.1 ▸ hmem) halone
  | release hbusy =>
      rw [hbusy] at htask
      exact htask.elim
  | submitAck | submitData | tick | transmit | ack => exact ⟨halone, htask⟩

end Steps

/-! ## Every data packet -/

/-- The endpoint gets a datagram of its peer and deals with it, among whatever else its
tasks do until it waits for the next one. -/
structure Handles (peerAddr : SocketAddr) (c : Endpoint × List Event) (bytes : List UInt8)
    (actions : List Action) (d : Endpoint × List Event) : Prop where
  exec : (endpointMachine peerAddr).exec c (.arrive peerAddr bytes :: actions) = some d
  between : arrivals actions = []
  done : d.1.recvTask = .receiving

/-- How a waiting endpoint answers a packet. -/
structure AnswersData (peerAddr : SocketAddr) (c : Endpoint × List Event)
    (bytes : List UInt8) (packet : Packet) : Prop where
  /-- It gets done with it. -/
  completes : ∃ actions d, Handles peerAddr c bytes actions d
  /-- Ahead of its turn it is answered once, by what has been delivered. -/
  ahead : c.1.state.expectedSequence < packet.header.seq → ∀ actions d,
    Handles peerAddr c bytes actions d →
    answers peerAddr c.1 (.arrive peerAddr bytes :: actions) =
      [⟨d.1.state.receiverAcknowledged, peerAddr⟩]
  /-- In its turn it is answered once, -/
  inTurn : packet.header.seq = c.1.state.expectedSequence → ∀ actions d,
    Handles peerAddr c bytes actions d →
    ∃ ackNum, answers peerAddr c.1 (.arrive peerAddr bytes :: actions) = [⟨ackNum, peerAddr⟩]
  /-- and by what has been delivered in the end if it releases no other packet. -/
  alone : packet.header.seq = c.1.state.expectedSequence →
    packet.header.seq + 1 ∉ c.1.state.recvBuffer → ∀ actions d,
    Handles peerAddr c bytes actions d →
    answers peerAddr c.1 (.arrive peerAddr bytes :: actions) =
      [⟨d.1.state.receiverAcknowledged, peerAddr⟩]
  /-- A duplicate is ignored. -/
  late : packet.header.seq < c.1.state.expectedSequence → ∀ actions d,
    Handles peerAddr c bytes actions d →
    answers peerAddr c.1 (.arrive peerAddr bytes :: actions) = []

section Handles

variable {peerAddr : SocketAddr} {c d : Endpoint × List Event} {bytes : List UInt8}
  {packet : Packet} {actions : List Action}

/-- The first answer is that of the arrival, the rest is what it leaves due. -/
theorem Handles.answers_eq (h : Handles peerAddr c bytes actions d)
    (htask : c.1.recvTask = .receiving)
    (hbytes : deserialize (bytes.take Endpoint.recvBufferSize) = .ok packet) :
    answers peerAddr c.1 (.arrive peerAddr bytes :: actions) =
        answersIn c.1 (c.1.onPacket peerAddr packet).1
          (.received packet :: (c.1.onPacket peerAddr packet).2) (.arrive peerAddr bytes) ++
        (c.1.onPacket peerAddr packet).1.recvTask.answerDue peerAddr ∧
      ∃ trace, (endpointMachine peerAddr).exec ((c.1.onPacket peerAddr packet).1, trace)
        actions = some d := by
  have harrive : c.1.step peerAddr (.arrive peerAddr bytes) = _ :=
    Endpoint.step_arrive htask hbytes
  have hexec := h.exec
  rw [Machine.exec_cons, Option.bind_eq_some_iff] at hexec
  obtain ⟨e, hstep, hrest⟩ := hexec
  obtain ⟨ep', events, hnext, rfl⟩ := Machine.traced_step.mp hstep
  cases harrive.symm.trans hnext
  refine ⟨?_, _, hrest⟩
  rw [answers_cons harrive, answers_eq_due hrest h.between h.done]

/-- Every state reached with a datagram has dealt with the ones before. -/
theorem exists_handles (peerAddr : SocketAddr) (bytes : List UInt8)
    (htask : c.1.recvTask = .receiving)
    (hbytes : deserialize (bytes.take Endpoint.recvBufferSize) = .ok packet) :
    ∃ actions d, Handles peerAddr c bytes actions d := by
  have harrive : c.1.step peerAddr (.arrive peerAddr bytes) = _ :=
    Endpoint.step_arrive htask hbytes
  have hstep : (endpointMachine peerAddr).step c (.arrive peerAddr bytes) = some _ :=
    Machine.traced_step.mpr ⟨_, _, harrive, rfl⟩
  obtain ⟨actions, d, hall, hrun, hdone⟩ := canReach_receiving peerAddr _
  refine ⟨actions, d, ?_, arrivals_eq_nil_of_recv hall, hdone⟩
  rw [Machine.exec_cons, hstep]
  exact hrun

/-- A waiting endpoint answers every packet that is not a duplicate once. -/
theorem answersData (htask : c.1.recvTask = .receiving)
    (hbytes : deserialize (bytes.take Endpoint.recvBufferSize) = .ok packet)
    (hdata : packet.isBare = false) : AnswersData peerAddr c bytes packet where
  completes := exists_handles peerAddr bytes htask hbytes
  ahead hlt actions d h := by
    obtain ⟨hanswers, trace, hrest⟩ := h.answers_eq htask hbytes
    rw [Endpoint.onPacket_of_gt hlt] at hanswers hrest
    have hend : Waiting c.1.state.receiverAcknowledged d.1 :=
      between_induct (fun _ _ _ _ => Waiting.step) hrest h.between ⟨htask, rfl⟩
    rw [hanswers, hend.2]
    simp [answersIn, RecvTask.answerDue, htask, List.filterMap_cons]
  inTurn heq actions d h := by
    obtain ⟨hanswers, -⟩ := h.answers_eq htask hbytes
    rw [Endpoint.onPacket_of_eq heq] at hanswers
    refine ⟨packet.header.seq, ?_⟩
    rw [hanswers]
    simp [answersIn, RecvTask.answerDue]
  alone heq halone actions d h := by
    obtain ⟨hanswers, trace, hrest⟩ := h.answers_eq htask hbytes
    rw [Endpoint.onPacket_of_eq heq] at hanswers hrest
    have hend : DeliversAlone packet.header.seq d.1 :=
      between_induct (fun _ _ _ _ => DeliversAlone.step) hrest h.between ⟨halone, rfl⟩
    have hacknowledged := hend.2
    rw [h.done] at hacknowledged
    rw [hanswers, hacknowledged]
    simp [answersIn, RecvTask.answerDue]
  late hlt actions d h := by
    obtain ⟨hanswers, -⟩ := h.answers_eq htask hbytes
    rw [Endpoint.onPacket_of_lt hlt, hdata] at hanswers
    rw [hanswers]
    simp [answersIn, RecvTask.answerDue, htask]

end Handles

/-- A peer's first packet carries data and is delivered. -/
def firstData : List Action :=
  [.arrive (.v4 2 2) [0, 0, 0, 0, 0, 0, 0, 0, 104], .recv, .recv, .recv, .recv]

theorem exec_firstData : ∃ c,
    (endpointMachine (.v4 2 2)).exec (endpointMachine (.v4 2 2)).init firstData = some c ∧
      c.1.recvTask = .receiving ∧ c.1.state.expectedSequence = 1 :=
  ⟨((endpointMachine (.v4 2 2)).exec (endpointMachine (.v4 2 2)).init firstData).get (by decide),
    (Option.some_get _).symm, by decide, by decide⟩

/-- The next packet is answered. -/
theorem answersData_firstData : ∃ c,
    (endpointMachine (.v4 2 2)).exec (endpointMachine (.v4 2 2)).init firstData = some c ∧
      AnswersData (.v4 2 2) c [0, 0, 0, 1, 0, 0, 0, 0, 105] ⟨⟨1, 0⟩, some [105]⟩ := by
  obtain ⟨c, hexec, htask, -⟩ := exec_firstData
  exact ⟨c, hexec, answersData htask (by decide) (by decide)⟩

/-- The same packet again is not. -/
theorem duplicate_unanswered : ∃ c d,
    (endpointMachine (.v4 2 2)).exec (endpointMachine (.v4 2 2)).init firstData = some c ∧
      c.1.recvTask = .receiving ∧
      Handles (.v4 2 2) c [0, 0, 0, 0, 0, 0, 0, 0, 104] [] d ∧
      answers (.v4 2 2) c.1 [.arrive (.v4 2 2) [0, 0, 0, 0, 0, 0, 0, 0, 104]] = [] := by
  obtain ⟨c, hexec, htask, hexpected⟩ := exec_firstData
  have hbytes : deserialize (List.take Endpoint.recvBufferSize [0, 0, 0, 0, 0, 0, 0, 0, 104]) =
      .ok ⟨⟨0, 0⟩, some [104]⟩ := by decide
  have harrive : c.1.step (.v4 2 2)
      (.arrive (.v4 2 2) [0, 0, 0, 0, 0, 0, 0, 0, 104]) = _ := Endpoint.step_arrive htask hbytes
  rw [Endpoint.onPacket_of_lt (by rw [hexpected]; decide)] at harrive
  have hstep : (endpointMachine (.v4 2 2)).step c
      (.arrive (.v4 2 2) [0, 0, 0, 0, 0, 0, 0, 0, 104]) = some _ :=
    Machine.traced_step.mpr ⟨_, _, harrive, rfl⟩
  refine ⟨c, _, hexec, htask, ⟨Machine.exec_singleton _ hstep, rfl, htask⟩, ?_⟩
  rw [answers_cons harrive]
  simp [answersIn, answers, Packet.isBare, List.filterMap_cons]

end P2PNetworking.Common
