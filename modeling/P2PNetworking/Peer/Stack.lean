/-
# The chat over its transport

What the chat was promised, the reliable layer keeps: on each side the tasks of the chat send
through a channel to the task that numbers payloads, and the task that receives datagrams hands
packets over through another channel to the chat, both of a hundred places.  In between is a
network that loses, copies and reorders.  Every run of all of this together is, for the two
users, a run of the chat in which every payload arrives.

A process that has left may go on with its tasks for a while; nothing is said about when it
stops.  The chat's check of the address of a packet always succeeds, since the task that
receives has made a stricter one.
-/

import P2PNetworking.Peer.Transcript
import P2PNetworking.Common.Delivery

namespace P2PNetworking.Peer

open P2PNetworking.Lib
open P2PNetworking.Common (Side Link LinkAction Addresses linkMachine sideTrace sideTrace_append
  WithinLimits submitted handedOver submittedPayloads deliveredPayloads)

/-! ## The system -/

/-- `mpsc::channel(100)`, of both channels. -/
def channelCapacity : ℕ := 100

/-- What a user sees or does. -/
inductive Seen
  /-- A line has been typed and trimmed. -/
  | typed (side : Side) (line : List Char)
  /-- The search or the chat has read these bytes. -/
  | read (side : Side) (reading : Reading) (bytes : List UInt8)
  deriving DecidableEq

/-- What a user sees of an event of the chat. -/
def ChatEvent.seen : ChatEvent → Seen
  | .typed side line => .typed side line
  | .read side reading payload => .read side reading payload.bytes

/-- Both peers, their channels, and the transport. -/
structure Stack where
  link : Link
  peers : Side → ChatPeer
  /-- From the tasks of the chat to `send`. -/
  packetRx : Side → List Payload
  /-- From `recv` to the search and the chat. -/
  outputRx : Side → List Common.Packet

inductive StackEvent
  | link (side : Side) (event : Common.Event)
  | seen (seen : Seen)
  deriving DecidableEq

inductive StackAction
  /-- A task of the chat goes on. -/
  | chat (action : ChatAction)
  /-- `send` takes a payload from its channel. -/
  | submit (side : Side) (now : ℕ)
  /-- Another task of an endpoint goes on, or the network does something. -/
  | link (action : LinkAction)
  deriving DecidableEq

/-- The arm of `send` that takes a payload is not chosen by the endpoint alone. -/
def isSubmit : LinkAction → Bool
  | .atEnd _ (.submit _ _) => true
  | _ => false

namespace Stack

variable (addr : Addresses)

def new : Stack := ⟨.new, fun _ => ⟨.searching, 6, []⟩, fun _ => [], fun _ => []⟩

/-- The tasks of the chat, sending into their own channels. -/
def outgoing (stack : Stack) : Chat := ⟨stack.peers, stack.packetRx⟩

/-- A peer goes on to a phase. -/
def enter (stack : Stack) (side : Side) (phase : Phase) : Stack :=
  { stack with
    peers := Function.update stack.peers side { stack.peers side with phase := phase } }

/-- `output_rx.recv()` in the search and in the chat; a packet without a payload is passed
over. -/
def receive (stack : Stack) (side : Side) : Option (Stack × List StackEvent) :=
  match stack.outputRx side with
  | [] => none
  | packet :: rest =>
      let taken := { stack with outputRx := Function.update stack.outputRx side rest }
      match (stack.peers side).phase, packet.payload with
      | .searching, none | .chatting, none => some (taken, [])
      | .searching, some bytes =>
          let phase := if detects bytes then .detected else .searching
          some (taken.enter side phase, [.seen (.read side .passedOver bytes)])
      | .chatting, some bytes =>
          let reading := reaction bytes
          let phase := if reading = .left then .closed else .chatting
          some (taken.enter side phase, [.seen (.read side reading bytes)])
      | .detected, _ | .failed, _ | .closed, _ => none

/-- A task of the chat that does not read; it waits for room in its channel. -/
def chat (stack : Stack) (action : ChatAction) : Option (Stack × List StackEvent) :=
  match stack.outgoing.step action with
  | none => none
  | some (next, events) =>
      if ∀ side ∈ [Side.left, Side.right], (next.pipe side).length ≤ channelCapacity then
        some ({ stack with peers := next.peers, packetRx := next.pipe },
          (events.map ChatEvent.seen).map .seen)
      else none

/-- The transport takes a step, and what it hands over goes into the channels; a channel that
nobody reads from any more takes everything. -/
def transport (stack : Stack) (action : LinkAction) : Option (Stack × List StackEvent) :=
  match stack.link.step addr action with
  | none => none
  | some (link, events) =>
      let outputRx := fun side => stack.outputRx side ++ handedOver (sideTrace side events)
      if ∀ side ∈ [Side.left, Side.right], handedOver (sideTrace side events) ≠ [] →
          Chat.Running (stack.peers side).phase → (outputRx side).length ≤ channelCapacity then
        some ({ stack with link := link, outputRx := outputRx },
          events.map fun event => .link event.1 event.2)
      else none

/-- `rx.recv()` in `send`. -/
def submit (stack : Stack) (side : Side) (now : ℕ) : Option (Stack × List StackEvent) :=
  match stack.packetRx side with
  | [] => none
  | payload :: rest =>
      { stack with packetRx := Function.update stack.packetRx side rest }.transport addr
        (.atEnd side (.submit now (.data payload.bytes)))

/-- One step of the system. -/
def step (stack : Stack) : StackAction → Option (Stack × List StackEvent)
  | .chat (.receive side) => stack.receive side
  | .chat action => stack.chat action
  | .submit side now => stack.submit addr side now
  | .link action => if isSubmit action then none else stack.transport addr action

end Stack

/-- The whole system from its start. -/
def stackMachine (addr : Addresses) : Machine (Stack × List StackEvent) StackAction :=
  .traced .new (Stack.step addr)

/-! ## Histories -/

/-- What the transport has done. -/
def linkTrace (trace : List StackEvent) : List (Side × Common.Event) :=
  trace.filterMap fun
    | .link side event => some (side, event)
    | .seen _ => none

/-- What the users have seen and done. -/
def seenTrace (trace : List StackEvent) : List Seen :=
  trace.filterMap fun
    | .seen seen => some seen
    | .link _ _ => none

@[simp]
theorem linkTrace_nil : linkTrace [] = [] := rfl

@[simp]
theorem seenTrace_nil : seenTrace [] = [] := rfl

@[simp]
theorem linkTrace_seen (seen : Seen) : linkTrace [.seen seen] = [] := rfl

@[simp]
theorem seenTrace_seen (seen : Seen) : seenTrace [.seen seen] = [seen] := rfl

@[simp]
theorem linkTrace_append (first second : List StackEvent) :
    linkTrace (first ++ second) = linkTrace first ++ linkTrace second := List.filterMap_append

@[simp]
theorem seenTrace_append (first second : List StackEvent) :
    seenTrace (first ++ second) = seenTrace first ++ seenTrace second := List.filterMap_append

@[simp]
theorem linkTrace_map_link (events : List (Side × Common.Event)) :
    linkTrace (events.map fun event => .link event.1 event.2) = events := by
  simp [linkTrace, List.filterMap_map]

@[simp]
theorem seenTrace_map_link (events : List (Side × Common.Event)) :
    seenTrace (events.map fun event => .link event.1 event.2) = [] := by
  simp [seenTrace, List.filterMap_map]

@[simp]
theorem linkTrace_map_seen (events : List Seen) :
    linkTrace (events.map StackEvent.seen) = [] := by
  simp [linkTrace, List.filterMap_map]

@[simp]
theorem seenTrace_map_seen (events : List Seen) :
    seenTrace (events.map StackEvent.seen) = events := by
  simp [seenTrace, List.filterMap_map]

/-! ## The transport in the system -/

namespace Stack

variable {addr : Addresses} {stack next : Stack} {events : List StackEvent}

variable (addr) in
/-- Every kind of step, with what it changes. -/
inductive Transition (stack : Stack) : StackAction → Stack → List StackEvent → Prop
  | chat {action : ChatAction} {chat : Chat} {new : List ChatEvent}
      (hwrites : ∀ side, action ≠ .receive side)
      (hstep : stack.outgoing.step action = some (chat, new))
      (hroom : ∀ side, (chat.pipe side).length ≤ channelCapacity) :
      Transition stack (.chat action) { stack with peers := chat.peers, packetRx := chat.pipe }
        ((new.map ChatEvent.seen).map .seen)
  | skip {side : Side} {packet : Common.Packet} {rest : List Common.Packet}
      (houtput : stack.outputRx side = packet :: rest) (hpayload : packet.payload = none) :
      Transition stack (.chat (.receive side))
        { stack with outputRx := Function.update stack.outputRx side rest } []
  | read {side : Side} {packet : Common.Packet} {rest : List Common.Packet} {bytes : List UInt8}
      {phase : Phase} {reading : Reading} (houtput : stack.outputRx side = packet :: rest)
      (hpayload : packet.payload = some bytes)
      (hreads : ∀ payload : Payload, payload.bytes = bytes →
        (stack.peers side).phase.Reads payload phase reading) :
      Transition stack (.chat (.receive side))
        ({ stack with outputRx := Function.update stack.outputRx side rest }.enter side phase)
        [.seen (.read side reading bytes)]
  | submit {side : Side} {now : ℕ} {payload : Payload} {rest : List Payload} {link : Link}
      {new : List (Side × Common.Event)} (hqueue : stack.packetRx side = payload :: rest)
      (hstep : stack.link.step addr (.atEnd side (.submit now (.data payload.bytes))) =
        some (link, new)) :
      Transition stack (.submit side now)
        { link := link
          peers := stack.peers
          packetRx := Function.update stack.packetRx side rest
          outputRx := fun side => stack.outputRx side ++ handedOver (sideTrace side new) }
        (new.map fun event => .link event.1 event.2)
  | link {action : LinkAction} {link : Link} {new : List (Side × Common.Event)}
      (hsubmit : isSubmit action = false)
      (hstep : stack.link.step addr action = some (link, new)) :
      Transition stack (.link action)
        { stack with
          link := link
          outputRx := fun side => stack.outputRx side ++ handedOver (sideTrace side new) }
        (new.map fun event => .link event.1 event.2)

theorem transport_cases {action : LinkAction}
    (hstep : stack.transport addr action = some (next, events)) :
    ∃ link new, stack.link.step addr action = some (link, new) ∧
      next = { stack with
        link := link
        outputRx := fun side => stack.outputRx side ++ handedOver (sideTrace side new) } ∧
      events = new.map fun event => .link event.1 event.2 := by
  unfold transport at hstep
  split at hstep
  · cases hstep
  · next link new hlink =>
    dsimp only at hstep
    split at hstep
    · cases hstep
      exact ⟨link, new, hlink, rfl, rfl⟩
    · cases hstep

theorem transition_of_chat {action : ChatAction} (hwrites : ∀ side, action ≠ .receive side)
    (hstep : stack.chat action = some (next, events)) :
    stack.Transition addr (.chat action) next events := by
  unfold chat at hstep
  split at hstep
  · cases hstep
  · next chat new hchat =>
    split at hstep
    · next hroom =>
      cases hstep
      refine .chat hwrites hchat fun side => hroom side ?_
      cases side <;> simp
    · cases hstep

theorem transition_of_receive {side : Side} (hstep : stack.receive side = some (next, events)) :
    stack.Transition addr (.chat (.receive side)) next events := by
  unfold receive at hstep
  split at hstep
  · cases hstep
  · next packet rest houtput =>
    dsimp only at hstep
    split at hstep
    · next hpayload =>
      cases hstep
      exact .skip houtput hpayload
    · next hpayload =>
      cases hstep
      exact .skip houtput hpayload
    · next bytes hphase hpayload =>
      cases hstep
      refine .read houtput hpayload ?_
      rintro payload rfl
      rw [hphase]
      exact .search
    · next bytes hphase hpayload =>
      cases hstep
      refine .read houtput hpayload ?_
      rintro payload rfl
      rw [hphase]
      exact .chat
    · cases hstep
    · cases hstep
    · cases hstep

/-- Every step is of one of these kinds. -/
theorem transition_of_step {action : StackAction}
    (hstep : stack.step addr action = some (next, events)) :
    stack.Transition addr action next events := by
  cases action with
  | chat action =>
      cases action with
      | receive side => exact transition_of_receive hstep
      | _ => exact transition_of_chat nofun hstep
  | submit side now =>
      simp only [step, submit] at hstep
      split at hstep
      · cases hstep
      · next payload rest hqueue =>
        obtain ⟨link, new, hlink, rfl, rfl⟩ := transport_cases hstep
        exact .submit hqueue hlink
  | link action =>
      simp only [step] at hstep
      split at hstep
      · cases hstep
      · next hsubmit =>
        obtain ⟨link, new, hlink, rfl, rfl⟩ := transport_cases hstep
        exact .link (by simpa using hsubmit) hlink

/-- The step that the transport takes. -/
def share (stack : Stack) : StackAction → Option LinkAction
  | .chat _ => none
  | .submit side now =>
      (stack.packetRx side).head?.map fun payload =>
        .atEnd side (.submit now (.data payload.bytes))
  | .link action => some action

end Stack

/-- In the system, the transport is the two endpoints with their network. -/
def linkComponent (addr : Addresses) : (stackMachine addr).Component (linkMachine addr) where
  view c := (c.1.link, linkTrace c.2)
  share c action := c.1.share action
  view_init := rfl
  step_share := by
    intro c action d act hstep hshare
    obtain ⟨next, events, hnext, rfl⟩ := Machine.traced_step.mp hstep
    cases Stack.transition_of_step hnext with
    | chat => cases hshare
    | skip => cases hshare
    | read => cases hshare
    | submit hqueue hlink =>
        simp only [Stack.share, hqueue, List.head?_cons, Option.map_some] at hshare
        cases hshare
        exact Machine.traced_step.mpr ⟨_, _, hlink, by simp⟩
    | link _ hlink =>
        cases hshare
        exact Machine.traced_step.mpr ⟨_, _, hlink, by simp⟩
  step_rest := by
    intro c action d hstep hshare
    obtain ⟨next, events, hnext, rfl⟩ := Machine.traced_step.mp hstep
    cases Stack.transition_of_step hnext with
    | chat => rw [linkTrace_append, linkTrace_map_seen, List.append_nil]
    | skip => rw [List.append_nil]
    | read =>
        rw [linkTrace_append]
        exact congrArg (Prod.mk c.1.link) (List.append_nil _)
    | submit hqueue => simp [Stack.share, hqueue] at hshare
    | link => cases hshare

end P2PNetworking.Peer
