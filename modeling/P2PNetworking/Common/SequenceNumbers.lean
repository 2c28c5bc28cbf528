/-
# Sequence numbers

`send` counts payloads from 1; `recv` expects 0 first, the number that every pure
acknowledgement carries, and counts on from there.  All of it is done with words of 32
bits.  An endpoint adds exactly as long as it submits fewer than `2 ^ 32` payloads and
no packet of the peer has the last number, which leaves `2 ^ 32 - 2` payloads for each
direction of a connection.  One more, and the receiver is back at 0, where it takes an
acknowledgement for the next data packet.
-/

import P2PNetworking.Common.Receiving
import P2PNetworking.Common.Transit

namespace P2PNetworking.Common

open P2PNetworking.Net P2PNetworking.Lib

/-! ## Numbers that do not run into each other -/

namespace Endpoint

/-- The numbers to which an action adds one. -/
def incremented (ep : Endpoint) : Action → List UInt32
  | .submit _ (.data _) => [ep.state.nextSeq]
  | .recv =>
      match ep.recvTask with
      | .advancing _ => [ep.state.expectedSequence]
      | .queueingAck packetSeq => [packetSeq]
      | .draining nextExpected =>
          match ep.state.recvBuffer.lookup nextExpected with
          | none => []
          | some _ => [ep.state.receiverAcknowledged, ep.state.expectedSequence]
      | .releasing nextExpected _ => [nextExpected]
      | .receiving | .handingOver _ => []
  | _ => []

/-- The numbers that an action gives to payloads. -/
def given (ep : Endpoint) : Action → List UInt32
  | .submit now (.data payload) =>
      (ep.send now (.data payload)).1.outgoing.map fun packet => packet.header.seq
  | _ => []

end Endpoint

/-- No addition overflows. -/
def AddsExactly (c : Endpoint × List Event) (action : Action) : Prop :=
  ∀ n ∈ c.1.incremented action, n.toNat + 1 < 2 ^ 32

/-- The numbers that `send` gives to payloads along a schedule, in order. -/
def givenNumbers (peerAddr : SocketAddr) (actions : List Action) : List UInt32 :=
  (endpointMachine peerAddr).outputs (fun c action => c.1.given action)
    (endpointMachine peerAddr).init actions

/-- So many numbers from 1 on. -/
def firstNumbers (count : ℕ) : List UInt32 := (List.range count).map fun i => .ofNat (i + 1)

/-- Along a schedule of an endpoint, sequence numbers do not run into each other. -/
structure SequenceSound (peerAddr : SocketAddr) (actions : List Action) : Prop where
  /-- No addition on them overflows. -/
  adds : (endpointMachine peerAddr).Along AddsExactly (endpointMachine peerAddr).init actions
  /-- No data packet is given the number of acknowledgements, -/
  nonzero : 0 ∉ givenNumbers peerAddr actions
  /-- and no two payloads are given the same number. -/
  distinct : (givenNumbers peerAddr actions).Nodup
  /-- The expected number does not return to 0, -/
  leaves : ∀ before between after c d, actions = before ++ between ++ after →
    (endpointMachine peerAddr).exec (endpointMachine peerAddr).init before = some c →
    (endpointMachine peerAddr).exec c between = some d →
    c.1.state.expectedSequence ≠ 0 → d.1.state.expectedSequence ≠ 0
  /-- and nothing with the number of acknowledgements is taken for the next packet once a
  packet has been handed over. -/
  taken : ∀ before after c, actions = before ++ after →
    (endpointMachine peerAddr).exec (endpointMachine peerAddr).init before = some c →
    handedOver c.2 ≠ [] → ∀ packet ∈ c.1.recvTask.inHand, packet.header.seq ≠ 0

/-! ## One endpoint -/

section Endpoint

variable {peerAddr : SocketAddr} {ep ep' : Endpoint} {action : Action} {events : List Event}

/-- The expected number stays, or one is added to it. -/
theorem Endpoint.Transition.expectedSequence_eq
    (hstep : Endpoint.Transition peerAddr ep action ep' events) :
    ep'.state.expectedSequence = ep.state.expectedSequence ∨
      ep.state.expectedSequence ∈ ep.incremented action ∧
        ep'.state.expectedSequence = ep.state.expectedSequence + 1 := by
  cases hstep with
  | advance htask => exact .inr ⟨by simp [Endpoint.incremented, htask], rfl⟩
  | drain htask hbuffer => exact .inr ⟨by simp [Endpoint.incremented, htask, hbuffer], rfl⟩
  | _ => exact .inl rfl

/-- A schedule without overflow never lowers the expected number. -/
theorem expectedSequence_le {actions : List Action} {c d : Endpoint × List Event}
    (hexec : (endpointMachine peerAddr).exec c actions = some d)
    (hadds : (endpointMachine peerAddr).Along AddsExactly c actions) :
    c.1.state.expectedSequence.toNat ≤ d.1.state.expectedSequence.toNat := by
  refine Machine.along_keep (P := fun d : Endpoint × List Event =>
    c.1.state.expectedSequence.toNat ≤ d.1.state.expectedSequence.toNat) ?_ hexec hadds le_rfl
  intro d action e hle hguard hstep
  obtain ⟨ep, events, hnext, rfl⟩ := Machine.traced_step.mp hstep
  rcases (Endpoint.transition_of_step hnext).expectedSequence_eq with hsame | ⟨hmem, hnew⟩
  · simp only [hsame, hle]
  · simp only [hnew]
    rw [toNat_add_one (hguard _ hmem)]
    omega

/-- A step that takes a payload gives it the next number. -/
theorem Endpoint.Transition.given_eq
    (hstep : Endpoint.Transition peerAddr ep action ep' events) :
    (submitted events = [] ∧ ep.given action = []) ∨
      ∃ payload, submitted events = [payload] ∧ ep.given action = [ep.state.nextSeq + 1] := by
  cases hstep with
  | @submitData now payload => exact .inr ⟨payload, rfl, rfl⟩
  | _ => exact .inl ⟨rfl, rfl⟩

theorem firstNumbers_succ (count : ℕ) :
    firstNumbers (count + 1) = firstNumbers count ++ [.ofNat (count + 1)] := by
  rw [firstNumbers, List.range_succ, List.map_append, List.map_singleton, ← firstNumbers]

/-- As long as they last, the numbers from 1 on do without 0, -/
theorem zero_notMem_firstNumbers {count : ℕ} (hcount : count < 2 ^ 32) :
    0 ∉ firstNumbers count := by
  simp only [firstNumbers, List.mem_map, List.mem_range, not_exists, not_and]
  intro i hi hzero
  have hvalue := congrArg UInt32.toNat hzero
  rw [UInt32.toNat_ofNat_of_lt' (by simp only [UInt32.size]; omega), UInt32.toNat_zero] at hvalue
  omega

/-- and they are all different. -/
theorem nodup_firstNumbers {count : ℕ} (hcount : count < 2 ^ 32) :
    (firstNumbers count).Nodup := by
  refine List.nodup_range.map_on ?_
  intro i hi j hj heq
  exact eq_of_ofNat_succ_eq hcount (List.mem_range.mp hi) (List.mem_range.mp hj) heq

/-- The numbers given are those from 1 on, in order. -/
theorem givenNumbers_eq {actions : List Action} {c : Endpoint × List Event}
    (hexec : (endpointMachine peerAddr).exec (endpointMachine peerAddr).init actions = some c) :
    givenNumbers peerAddr actions = firstNumbers (submitted c.2).length := by
  induction actions using List.reverseRecOn generalizing c with
  | nil =>
      cases hexec
      rfl
  | append_singleton actions action ih =>
      obtain ⟨⟨ep, trace⟩, hpre, hstep⟩ := (Machine.exec_concat _).mp hexec
      have hnumbers : givenNumbers peerAddr (actions ++ [action]) =
          givenNumbers peerAddr actions ++ ep.given action :=
        Machine.outputs_concat hpre hstep
      have hseq : ep.state.nextSeq = .ofNat (submitted trace).length :=
        (senderInv_of_reachable ⟨actions, hpre⟩).nextSeq
      obtain ⟨ep', events, hnext, rfl⟩ := Machine.traced_step.mp hstep
      rw [hnumbers, ih hpre, submitted_append]
      rcases (Endpoint.transition_of_step hnext).given_eq with ⟨hnone, hgiven⟩ |
        ⟨payload, hone, hgiven⟩
      · rw [hnone, hgiven, List.append_nil, List.append_nil]
      · rw [hone, hgiven, hseq, List.length_append, List.length_singleton, firstNumbers_succ,
          UInt32.ofNat_add]
        rfl

/-- An endpoint that has not been sent the last number adds exactly, as long as it has
numbers left to give. -/
theorem ReceiveInv.addsExactly {packets handed : List Packet} (h : ReceiveInv packets handed ep)
    (hbelow : BelowMax packets) (hstep : Endpoint.Transition peerAddr ep action ep' events)
    (hleft : ep.state.nextSeq.toNat + (submitted events).length < 2 ^ 32)
    (trace : List Event) : AddsExactly (ep, trace) action := by
  have hcounters := h.counters
  have hcount := h.length_handed_lt hbelow
  intro n hmem
  cases hstep with
  | submitData =>
      rw [List.mem_singleton.mp hmem]
      exact hleft
  | advance htask =>
      rw [CountersAt, htask] at hcounters
      simp only [Endpoint.incremented, htask, List.mem_singleton] at hmem
      rw [hmem, hcounters.1]
      exact hcount
  | queueAck htask =>
      rw [CountersAt, htask] at hcounters
      simp only [Endpoint.incremented, htask, List.mem_singleton] at hmem
      rw [hmem, hcounters.2.2]
      exact hcount
  | @drain nextExpected packet htask hbuffer =>
      rw [CountersAt, htask] at hcounters
      obtain ⟨hexpected, hacknowledged, hnext⟩ := hcounters
      obtain ⟨hseq, hpacket, -⟩ := h.buffer nextExpected packet hbuffer
      have hmax := hbelow packet hpacket
      rw [hseq, hnext] at hmax
      simp only [Endpoint.incremented, htask, hbuffer, List.mem_cons, List.not_mem_nil,
        or_false] at hmem
      rcases hmem with rfl | rfl
      · rw [hacknowledged]
        exact hcount
      · rw [hexpected]
        omega
  | @release nextExpected packet htask =>
      rw [CountersAt, htask] at hcounters
      obtain ⟨-, -, hnext, hseq⟩ := hcounters
      have hmax := hbelow packet (h.inHand packet (by simp [htask, RecvTask.inHand]))
      simp only [Endpoint.incremented, htask, List.mem_singleton] at hmem
      rw [hmem, hnext, ← hseq]
      omega
  | handOver htask => simp [Endpoint.incremented, htask] at hmem
  | drained htask hbuffer => simp [Endpoint.incremented, htask, hbuffer] at hmem
  | foreign | malformed | accept | buffer | echo | duplicate | submitAck | tick | transmit
    | ack => cases hmem

/-- What is about to be handed over has the number of what has been handed over. -/
theorem ReceiveInv.seq_inHand {packets handed : List Packet} (h : ReceiveInv packets handed ep)
    {packet : Packet} (hmem : packet ∈ ep.recvTask.inHand) :
    packet.header.seq.toNat = handed.length := by
  have hcounters := h.counters
  rw [CountersAt] at hcounters
  cases htask : ep.recvTask with
  | handingOver held =>
      rw [htask] at hcounters hmem
      cases hmem
      exact hcounters.2.2
  | releasing nextExpected held =>
      rw [htask] at hcounters hmem
      cases hmem
      exact hcounters.2.2.2
  | receiving | advancing _ | queueingAck _ | draining _ =>
      rw [htask] at hmem
      cases hmem

/-- On the way to a state that has not been sent the last number, the receive side is in
order. -/
theorem receiveInv_before {before after : List Action} {c d : Endpoint × List Event}
    (hbefore : (endpointMachine peerAddr).exec (endpointMachine peerAddr).init before = some d)
    (hafter : (endpointMachine peerAddr).exec d after = some c)
    (hbelow : BelowMax (received c.2)) :
    BelowMax (received d.2) ∧ ReceiveInv (received d.2) (handedOver d.2) d.1 := by
  have hpre := Machine.traced_exec_prefix hafter
  have hgrown : received d.2 <+: received c.2 := hpre.filterMap _
  have hd : BelowMax (received d.2) := fun packet hmem => hbelow packet (hgrown.mem hmem)
  exact ⟨hd, receiveInv_of_reachable ⟨before, hbefore⟩ hd⟩

/-- Nothing overflows on the way to a state that has given numbers once at most and has not
been sent the last one. -/
theorem along_addsExactly {actions : List Action} {c : Endpoint × List Event}
    (hexec : (endpointMachine peerAddr).exec (endpointMachine peerAddr).init actions = some c)
    (hsent : (submitted c.2).length < 2 ^ 32) (hbelow : BelowMax (received c.2)) :
    (endpointMachine peerAddr).Along AddsExactly (endpointMachine peerAddr).init actions := by
  rw [Machine.along_iff_forall]
  rintro before action after ⟨ep, trace⟩ rfl hbefore
  rw [Machine.exec_append, hbefore, Option.bind_some] at hexec
  obtain ⟨hd, hreceive⟩ := receiveInv_before hbefore hexec hbelow
  rw [Machine.exec_cons, Option.bind_eq_some_iff] at hexec
  obtain ⟨e, hstep, hafter⟩ := hexec
  obtain ⟨ep', events, hnext, rfl⟩ := Machine.traced_step.mp hstep
  have hpre := Machine.traced_exec_prefix hafter
  have hgrown : submitted (trace ++ events) <+: submitted c.2 := hpre.filterMap _
  have hle := hgrown.length_le
  rw [submitted_append, List.length_append] at hle
  have hseq : ep.state.nextSeq.toNat = (submitted trace).length := by
    rw [(senderInv_of_reachable ⟨before, hbefore⟩).nextSeq,
      UInt32.toNat_ofNat_of_lt' (by simp only [UInt32.size]; omega)]
  have hleft : ep.state.nextSeq.toNat + (submitted events).length < 2 ^ 32 := by omega
  exact hreceive.addsExactly hd (Endpoint.transition_of_step hnext) hleft trace

/-- Numbers do not run into each other at an endpoint that submits fewer than `2 ^ 32`
payloads and is not sent the last number. -/
theorem sequenceSound_of_belowMax {actions : List Action} {c : Endpoint × List Event}
    (hexec : (endpointMachine peerAddr).exec (endpointMachine peerAddr).init actions = some c)
    (hsent : (submitted c.2).length < 2 ^ 32) (hbelow : BelowMax (received c.2)) :
    SequenceSound peerAddr actions := by
  have hadds := along_addsExactly hexec hsent hbelow
  have hgiven := givenNumbers_eq hexec
  refine ⟨hadds, hgiven ▸ zero_notMem_firstNumbers hsent, hgiven ▸ nodup_firstNumbers hsent,
    ?_, ?_⟩
  · rintro before between after d e rfl hbefore hbetween hne hzero
    -- the expected number only grows
    rw [List.append_assoc, Machine.along_append hbefore, Machine.along_append hbetween] at hadds
    have hle := expectedSequence_le hbetween hadds.2.1
    rw [hzero, UInt32.toNat_zero, Nat.le_zero, ← UInt32.toNat_zero, UInt32.toNat_inj] at hle
    exact hne hle
  · rintro before after d rfl hbefore hsome packet hmem hzero
    -- what is in hand has the number of what has been handed over
    rw [Machine.exec_append, hbefore, Option.bind_some] at hexec
    have hseq := (receiveInv_before hbefore hexec hbelow).2.seq_inHand hmem
    rw [hzero, UInt32.toNat_zero] at hseq
    exact hsome (List.eq_nil_of_length_eq_zero hseq.symm)

end Endpoint

/-! ## Two endpoints -/

/-- What a schedule of the system asks of a side. -/
def actionsAt (addr : Addresses) (side : Side) (actions : List LinkAction) : List Action :=
  (sideComponent addr side).schedule (linkMachine addr).init actions

section Link

variable {addr : Addresses} {c : Link × List (Side × Event)} {actions : List LinkAction}

/-- Numbers do not run into each other in a connection that keeps to the limit. -/
theorem sequenceSound_of_length_le
    (hexec : (linkMachine addr).exec (linkMachine addr).init actions = some c)
    (hlimit : ∀ side, (submittedPayloads side c.2).length ≤ 2 ^ 32 - 2) (side : Side) :
    SequenceSound (addr.of side.peer) (actionsAt addr side actions) := by
  have hshort : ∀ side, (submittedPayloads side c.2).length < 2 ^ 32 := fun side => by
    have := hlimit side
    omega
  have hview := (sideComponent addr side).exec_view hexec
  refine sequenceSound_of_belowMax hview (hshort side) fun packet hmem => ?_
  obtain ⟨sent, hgenuine, hbytes⟩ :=
    exists_sent_of_received ⟨actions, hexec⟩ hshort side packet hmem
  -- the buffer may cut a payload, but it leaves the header alone
  have hle : packet.header.seq.toNat ≤ (submittedPayloads side.peer c.2).length := by
    rw [header_eq_of_deserialize hbytes]
    exact hgenuine.seq_le
  have := hlimit side.peer
  omega

end Link

/-! ## A transfer without losses -/

/-- A side submits a message of one byte and puts it on the wire. -/
def sends (side : Side) : List LinkAction :=
  [.atEnd side (.submit 0 (.data [0])), .atEnd side (.transmit 0)]

/-- A side receives the packet whose turn it is, hands it over and looks for the next one. -/
def takes (addr : Addresses) (side : Side) (packet : Packet) : List LinkAction :=
  [.deliver side (addr.datagram side.peer packet), .atEnd side .recv, .atEnd side .recv,
    .atEnd side .recv, .atEnd side .recv]

/-- The right side gets number 0: its first message overtakes that number, and the
acknowledgement which the left side sends at once carries it. -/
def opening (addr : Addresses) : List LinkAction :=
  sends .right ++ ([.deliver .left (addr.datagram .right ⟨⟨1, 0⟩, some [0]⟩)] ++
    takes addr .right (ackPacket 0))

/-- The left side when it has received the message ahead of number 0. -/
def overtaken : Endpoint :=
  { Endpoint.new with state := { SharedState.new with
    recvBuffer := (∅ : Table UInt32 Packet).insert 1 ⟨⟨1, 0⟩, some [0]⟩ } }

/-- The left side's next message, when it has sent this many. -/
def nextMessage (addr : Addresses) (count : ℕ) : List LinkAction :=
  sends .left ++ takes addr .right ⟨⟨.ofNat (count + 1), 0⟩, some [0]⟩

/-- The right side gets so many messages of the left side, each before the next. -/
def transfer (addr : Addresses) : ℕ → List LinkAction
  | 0 => opening addr
  | count + 1 => transfer addr count ++ nextMessage addr count

/-- So many messages of the left side have come through, and nothing is under way. -/
structure Transferred (count : ℕ) (c : Link × List (Side × Event)) : Prop where
  clock : c.1.clock = 0
  inFlight : c.1.inFlight = []
  outgoing : (c.1.ends .left).outgoing = []
  nextSeq : (c.1.ends .left).state.nextSeq = .ofNat count
  acknowledged : (c.1.ends .left).state.receiverAcknowledged = 0
  recvTask : (c.1.ends .right).recvTask = .receiving
  recvBuffer : (c.1.ends .right).state.recvBuffer = ∅
  expected : (c.1.ends .right).state.expectedSequence = .ofNat (count + 1)
  sentLeft : (submittedPayloads .left c.2).length = count
  sentRight : (submittedPayloads .right c.2).length = 1

section Transfer

variable {c : Link × List (Side × Event)} {side : Side} {packet : Packet}

/-- A side that has sent everything can send the next message. -/
theorem exec_sends (addr : Addresses) (hclock : c.1.clock = 0) (hflight : c.1.inFlight = [])
    (hidle : (c.1.ends side).outgoing = [])
    (hpacket : packet = ⟨⟨(c.1.ends side).state.nextSeq + 1,
      (c.1.ends side).state.receiverAcknowledged⟩, some [0]⟩) :
    ∃ d, (linkMachine addr).exec c (sends side) = some d ∧
      d.1.clock = 0 ∧ d.1.inFlight = [addr.datagram side packet] ∧
      d.1.ends = Function.update c.1.ends side
        { ((c.1.ends side).send 0 (.data [0])).1 with outgoing := [] } ∧
      d.2 = c.2 ++ [(side, .submitted [0]), (side, .emitted packet (addr.of side.peer))] := by
  have hsubmit : (c.1.ends side).step (addr.of side.peer) (.submit 0 (.data [0])) =
      some ((c.1.ends side).send 0 (.data [0])) := by
    simp only [Endpoint.step, hidle]
  have hclock' : Link.clockAfter c.1.clock (.submit 0 (.data [0])) = some 0 := by
    rw [hclock]
    rfl
  have hexec : (linkMachine addr).exec c (sends side) =
      some (⟨Function.update c.1.ends side
        { ((c.1.ends side).send 0 (.data [0])).1 with outgoing := [] },
        [addr.datagram side packet], 0⟩,
        c.2 ++ [(side, .submitted [0]), (side, .emitted packet (addr.of side.peer))]) := by
    rw [sends, Machine.exec_cons, step_atEnd hclock' hsubmit, Option.bind_some,
      Machine.exec_cons, step_atEnd rfl (@Endpoint.step_transmit _ _ 0 packet ?_)]
    · simp [hflight, Link.wire, Endpoint.send, Addresses.datagram]
    · simp [hpacket]
  exact ⟨_, hexec, rfl, rfl, rfl, rfl⟩

/-- A side that waits for the packet under way takes it in. -/
theorem exec_takes (addr : Addresses) (side : Side)
    (hflight : c.1.inFlight = [addr.datagram side.peer packet])
    (hbytes : deserialize ((serialize packet).take Endpoint.recvBufferSize) = .ok packet)
    (htask : (c.1.ends side).recvTask = .receiving)
    (hseq : packet.header.seq = (c.1.ends side).state.expectedSequence)
    (hbuffer : (c.1.ends side).state.recvBuffer = ∅) :
    ∃ d acks, (linkMachine addr).exec c (takes addr side packet) = some d ∧
      d.1.clock = c.1.clock ∧ d.1.inFlight = [] ∧
      d.1.ends = Function.update c.1.ends side
        { c.1.ends side with
          state := { (c.1.ends side).state with
            expectedSequence := (c.1.ends side).state.expectedSequence + 1
            receiverAcknowledged := packet.header.seq }
          ackRx := acks } ∧
      d.2 = c.2 ++ [(side, .received packet), (side, .handedOver packet)] := by
  have hmem : addr.datagram side.peer packet ∈ c.1.inFlight := by
    rw [hflight]
    exact List.mem_cons_self
  have hdst : (addr.datagram side.peer packet).dst = addr.of side := by
    rw [Addresses.datagram, Side.peer_peer]
  have harrive := @Endpoint.step_arrive (addr.of side.peer) _ _ _ htask hbytes
  rw [Endpoint.onPacket_of_eq hseq] at harrive
  have hexec : (linkMachine addr).exec c (takes addr side packet) =
      some (⟨Function.update c.1.ends side
        { c.1.ends side with
          state := { (c.1.ends side).state with
            expectedSequence := (c.1.ends side).state.expectedSequence + 1
            receiverAcknowledged := packet.header.seq }
          ackRx := (c.1.ends side).ackRx ++ [⟨packet.header.seq, addr.of side.peer⟩] },
        [], c.1.clock⟩, c.2 ++ [(side, .received packet), (side, .handedOver packet)]) := by
    rw [takes, Machine.exec_cons, step_deliver rfl hmem hdst harrive, Option.bind_some]
    simp [Machine.exec_cons, linkMachine, Machine.traced, Link.step, Link.runEnd,
      Link.clockAfter, Endpoint.step, Endpoint.recv, hbuffer, hflight, htask, Link.wire]
  exact ⟨_, _, hexec, rfl, rfl, rfl, rfl⟩

theorem deserialize_message (header : Header) :
    deserialize ((serialize ⟨header, some [0]⟩).take Endpoint.recvBufferSize) =
      .ok ⟨header, some [0]⟩ := deserialize_take_serialize header (by decide)

/-- One more message comes through. -/
theorem Transferred.next (addr : Addresses) {count : ℕ} (h : Transferred count c) :
    ∃ d, (linkMachine addr).exec c (nextMessage addr count) = some d ∧
      Transferred (count + 1) d := by
  have hadd : ∀ n : ℕ, UInt32.ofNat n + 1 = .ofNat (n + 1) := fun n => (UInt32.ofNat_add n 1).symm
  have hpacket : (⟨⟨.ofNat (count + 1), 0⟩, some [0]⟩ : Packet) =
      ⟨⟨(c.1.ends .left).state.nextSeq + 1, (c.1.ends .left).state.receiverAcknowledged⟩,
        some [0]⟩ := by
    rw [h.nextSeq, h.acknowledged, hadd]
  obtain ⟨d, hsends, hclock, hflight, hends, htrace⟩ :=
    exec_sends addr h.clock h.inFlight h.outgoing hpacket
  have hright : d.1.ends .right = c.1.ends .right := by simp [hends]
  obtain ⟨e, acks, htakes, hclock', hflight', hends', htrace'⟩ :=
    exec_takes addr .right hflight (deserialize_message _) (by rw [hright, h.recvTask])
      (by rw [hright, h.expected]) (by rw [hright, h.recvBuffer])
  have hleft : e.1.ends .left =
      { ((c.1.ends .left).send 0 (.data [0])).1 with outgoing := [] } := by
    simp [hends', hends]
  have hsentLeft : submittedPayloads .left e.2 = submittedPayloads .left c.2 ++ [[0]] := by
    rw [htrace', htrace]
    simp [submittedPayloads, sideTrace, submitted]
  have hsentRight : submittedPayloads .right e.2 = submittedPayloads .right c.2 := by
    rw [htrace', htrace]
    simp [submittedPayloads, sideTrace, submitted]
  refine ⟨e, Machine.exec_trans _ hsends htakes, ?_⟩
  constructor
  · rw [hclock', hclock]
  · exact hflight'
  · rw [hleft]
  · rw [hleft, ← hadd, ← h.nextSeq]
    rfl
  · rw [hleft]
    exact h.acknowledged
  · rw [hends', Function.update_self, hright]
    exact h.recvTask
  · rw [hends', Function.update_self, hright]
    exact h.recvBuffer
  · rw [hends', Function.update_self, hright, ← hadd (count + 1), ← h.expected]
  · rw [hsentLeft, List.length_append, h.sentLeft, List.length_singleton]
  · rw [hsentRight, h.sentRight]

/-- The left side, which has had nothing yet, cannot use the right side's first message and
acknowledges at once. -/
theorem step_overtaken (addr : Addresses) (hclock : c.1.clock = 0)
    (hflight : c.1.inFlight = [addr.datagram .right ⟨⟨1, 0⟩, some [0]⟩])
    (hleft : c.1.ends .left = .new) :
    ∃ d, (linkMachine addr).step c
        (.deliver .left (addr.datagram .right ⟨⟨1, 0⟩, some [0]⟩)) = some d ∧
      d.1.clock = 0 ∧ d.1.inFlight = [addr.datagram .left (ackPacket 0)] ∧
      d.1.ends = Function.update c.1.ends .left overtaken ∧
      d.2 = c.2 ++ [(.left, .received ⟨⟨1, 0⟩, some [0]⟩),
        (.left, .emitted (ackPacket 0) (addr.of .right))] := by
  have harrive : (c.1.ends .left).step (addr.of .right)
      (.arrive (addr.of .right) (serialize ⟨⟨1, 0⟩, some [0]⟩)) = some (overtaken,
        [.received ⟨⟨1, 0⟩, some [0]⟩, .emitted (ackPacket 0) (addr.of .right)]) := by
    rw [hleft]
    exact Endpoint.step_arrive rfl (deserialize_message _)
  have hmem : addr.datagram .right ⟨⟨1, 0⟩, some [0]⟩ ∈ c.1.inFlight := by
    rw [hflight]
    exact List.mem_cons_self
  refine ⟨_, step_deliver rfl hmem rfl harrive, hclock, ?_, rfl, rfl⟩
  simp [hflight, Link.wire, Addresses.datagram, Side.peer]

theorem exec_opening (addr : Addresses) :
    ∃ c, (linkMachine addr).exec (linkMachine addr).init (opening addr) = some c ∧
      Transferred 0 c := by
  have hpacket : (⟨⟨1, 0⟩, some [0]⟩ : Packet) =
      ⟨⟨Endpoint.new.state.nextSeq + 1, Endpoint.new.state.receiverAcknowledged⟩, some [0]⟩ := rfl
  obtain ⟨c, hsends, hclock, hflight, hends, htrace⟩ :=
    @exec_sends (linkMachine addr).init .right _ addr rfl rfl rfl hpacket
  have hfresh : c.1.ends .left = .new := by
    rw [hends, Function.update_of_ne (by decide)]
    rfl
  obtain ⟨d, hdeliver, hclock', hflight', hends', htrace'⟩ :=
    step_overtaken addr hclock hflight hfresh
  have hright : d.1.ends .right =
      { (Endpoint.new.send 0 (.data [0])).1 with outgoing := [] } := by
    rw [hends', Function.update_of_ne (by decide), hends, Function.update_self]
    rfl
  obtain ⟨e, acks, htakes, hclock'', hflight'', hends'', htrace''⟩ :=
    exec_takes addr .right hflight' (by decide) (by rw [hright]; rfl) (by rw [hright]; rfl)
      (by rw [hright]; rfl)
  have hleft : e.1.ends .left = overtaken := by
    rw [hends'', Function.update_of_ne (by decide), hends', Function.update_self]
  refine ⟨e, Machine.exec_trans _ hsends
    (Machine.exec_trans _ (Machine.exec_singleton _ hdeliver) htakes), ?_⟩
  constructor
  · rw [hclock'', hclock']
  · exact hflight''
  · rw [hleft]
    rfl
  · rw [hleft]
    rfl
  · rw [hleft]
    rfl
  · rw [hends'', Function.update_self, hright]
    rfl
  · rw [hends'', Function.update_self, hright]
    rfl
  · rw [hends'', Function.update_self, hright]
    rfl
  · rw [htrace'', htrace', htrace]
    rfl
  · rw [htrace'', htrace', htrace]
    rfl

theorem exec_transfer (addr : Addresses) (count : ℕ) :
    ∃ c, (linkMachine addr).exec (linkMachine addr).init (transfer addr count) = some c ∧
      Transferred count c := by
  induction count with
  | zero => exact exec_opening addr
  | succ count ih =>
      obtain ⟨c, hexec, hc⟩ := ih
      obtain ⟨d, hnext, hd⟩ := hc.next addr
      exact ⟨d, Machine.exec_trans _ hexec hnext, hd⟩

/-- Every transfer begins with the opening. -/
theorem exists_transfer_eq (addr : Addresses) (count : ℕ) :
    ∃ rest, transfer addr count = opening addr ++ rest := by
  induction count with
  | zero => exact ⟨[], (List.append_nil _).symm⟩
  | succ count ih =>
      obtain ⟨rest, hrest⟩ := ih
      refine ⟨rest ++ nextMessage addr count, ?_⟩
      rw [transfer, hrest, List.append_assoc]

/-- A transfer after which the expected number has come round. -/
theorem not_sequenceSound_transfer (addr : Addresses) {count : ℕ}
    (hround : UInt32.ofNat (count + 1) = 0) :
    ¬ SequenceSound (addr.of .left) (actionsAt addr .right (transfer addr count)) := by
  intro hsound
  obtain ⟨rest, hrest⟩ := exists_transfer_eq addr count
  obtain ⟨c, hopening, hc⟩ := exec_opening addr
  obtain ⟨d, hexec, hd⟩ := exec_transfer addr count
  rw [hrest, Machine.exec_append, hopening, Option.bind_some] at hexec
  have hsplit : actionsAt addr .right (transfer addr count) =
      actionsAt addr .right (opening addr) ++
        (sideComponent addr .right).schedule c rest ++ [] := by
    rw [hrest, List.append_nil]
    exact (sideComponent addr .right).schedule_append hopening
  refine hsound.leaves _ _ _ _ _ hsplit ((sideComponent addr .right).exec_view hopening)
    ((sideComponent addr .right).exec_view hexec) ?_ ?_
  · change (c.1.ends .right).state.expectedSequence ≠ 0
    rw [hc.expected]
    decide
  · exact hd.expected.trans hround

end Transfer

/-- Numbers do not run into each other in any connection in which each side submits so
many payloads at most, exactly if that leaves two numbers over. -/
theorem sequenceSound_iff (addr : Addresses) (limit : ℕ) :
    (∀ actions c, (linkMachine addr).exec (linkMachine addr).init actions = some c →
      (∀ side, (submittedPayloads side c.2).length ≤ limit) →
      ∀ side, SequenceSound (addr.of side.peer) (actionsAt addr side actions)) ↔
    limit ≤ 2 ^ 32 - 2 := by
  constructor
  · intro hall
    by_contra hlimit
    obtain ⟨c, hexec, hc⟩ := exec_transfer addr (2 ^ 32 - 1)
    refine not_sequenceSound_transfer addr (by decide) (hall _ c hexec (fun side => ?_) .right)
    cases side with
    | left =>
        rw [hc.sentLeft]
        omega
    | right =>
        rw [hc.sentRight]
        omega
  · intro hlimit actions c hexec hlengths side
    exact sequenceSound_of_length_le hexec (fun side => (hlengths side).trans hlimit) side

/-- The last number is delivered, and the receiver takes an acknowledgement, whatever it
acknowledges, for the next data packet. -/
theorem transfer_comes_round : ∃ c,
    (linkMachine loopback).exec (linkMachine loopback).init (transfer loopback (2 ^ 32 - 1)) =
      some c ∧
    (∀ side, (submittedPayloads side c.2).length ≤ 2 ^ 32 - 1) ∧
    (∀ ack, ((c.1.ends .right).onPacket (loopback.of .left) (ackPacket ack)).1.recvTask =
      .handingOver (ackPacket ack)) ∧
    ¬ SequenceSound (loopback.of .left)
      (actionsAt loopback .right (transfer loopback (2 ^ 32 - 1))) := by
  obtain ⟨c, hexec, hc⟩ := exec_transfer loopback (2 ^ 32 - 1)
  refine ⟨c, hexec, fun side => ?_, fun ack => ?_, not_sequenceSound_transfer loopback (by decide)⟩
  · cases side with
    | left => exact hc.sentLeft.le
    | right =>
        rw [hc.sentRight]
        decide
  · have hzero : UInt32.ofNat (2 ^ 32 - 1 + 1) = 0 := by decide
    have hturn : (ackPacket ack).header.seq = (c.1.ends .right).state.expectedSequence := by
      rw [hc.expected, hzero]
      rfl
    rw [Endpoint.onPacket_of_eq hturn]

end P2PNetworking.Common
