/-
# What is typed and what is displayed

Seen from one side, a chat is a direction: what the sender has typed and not sent, what is
on its way, and where the receiver is.  The receiver tells messages from control words by
their bytes, so a line that is a control word is taken for one.  Any other line is
displayed: the confirmation is sent before the first line, and so the receiver's search
has read a sign of the sender, and ended, before a line reaches it.
-/

import P2PNetworking.Peer.Chat

namespace P2PNetworking.Peer

open P2PNetworking.Lib
open P2PNetworking.Common (Side)

/-! ## Directions -/

/-- A sender with what it has typed and sent, and the phase of its receiver. -/
structure Direction where
  sender : Phase
  stdin : List (List Char)
  pipe : List Payload
  receiver : Phase

/-- The direction from a side to the other. -/
def Chat.direction (chat : Chat) (side : Side) : Direction :=
  ⟨(chat.peers side).phase, (chat.peers side).stdin, chat.pipe side,
    (chat.peers side.peer).phase⟩

/-- `start_chat` has been called. -/
def Phase.InChat (phase : Phase) : Prop := phase = .chatting ∨ phase = .closed

/-- What a receiver does with a payload, by its phase. -/
inductive Phase.Reads : Phase → Payload → Phase → Reading → Prop
  | search {payload : Payload} :
      Reads .searching payload (if detects payload.bytes then .detected else .searching)
        .passedOver
  | chat {payload : Payload} :
      Reads .chatting payload (if reaction payload.bytes = .left then .closed else .chatting)
        (reaction payload.bytes)

/-- Only a running side reads, and it does not start the chat by reading. -/
theorem Phase.Reads.inChat {phase next : Phase} {payload : Payload} {reading : Reading}
    (h : phase.Reads payload next reading) :
    phase ≠ .closed ∧ (next.InChat → phase.InChat) := by
  cases h with
  | search =>
      refine ⟨by simp, fun hchat => ?_⟩
      split at hchat <;> rcases hchat with hchat | hchat <;> cases hchat
  | chat => exact ⟨by simp, fun _ => .inl rfl⟩

/-- What a step does to a direction, with the lines typed and the payloads read. -/
inductive Direction.Step (d : Direction) :
    Direction → List (List Char) → List (Reading × Payload) → Prop
  | rest : Step d d [] []
  | enter {phase : Phase} (hopen : d.sender ≠ .closed)
      (hchat : phase.InChat → d.sender.InChat) : Step d { d with sender := phase } [] []
  | control {word : ControlWord} {phase : Phase} (hopen : d.sender ≠ .closed)
      (hword : word ≠ .goodbye)
      (hchat : phase.InChat → d.sender.InChat ∨ detects (Payload.control word).bytes) :
      Step d { d with sender := phase, pipe := d.pipe ++ [.control word] } [] []
  | type {line : List Char} (hchat : d.sender = .chatting) :
      Step d { d with stdin := d.stdin ++ [line] } [line] []
  | skip {line : List Char} {rest : List (List Char)} (hstdin : d.stdin = line :: rest)
      (hmessage : ¬ IsMessage line) : Step d { d with stdin := rest } [] []
  | send {line : List Char} {rest : List (List Char)} (hchat : d.sender = .chatting)
      (hstdin : d.stdin = line :: rest) (hmessage : IsMessage line) :
      Step d { d with stdin := rest, pipe := d.pipe ++ [.line line] } [] []
  | exit {rest : List (List Char)} (hchat : d.sender = .chatting)
      (hstdin : d.stdin = exitText :: rest) :
      Step d
        { d with sender := .closed, stdin := rest, pipe := d.pipe ++ [.control .goodbye] } [] []
  | meet {phase : Phase} (hphase : phase ≠ .searching) :
      Step d { d with receiver := phase } [] []
  | receive {payload : Payload} {rest : List Payload} {phase : Phase} {reading : Reading}
      (hpipe : d.pipe = payload :: rest) (hreads : d.receiver.Reads payload phase reading) :
      Step d { d with pipe := rest, receiver := phase } [] [(reading, payload)]

/-! ## Histories -/

/-- The lines typed at a side. -/
def typedAt (side : Side) (trace : List ChatEvent) : List (List Char) :=
  trace.filterMap fun
    | .typed other line => if other = side then some line else none
    | _ => none

/-- The payloads read at a side. -/
def readAt (side : Side) (trace : List ChatEvent) : List (Reading × Payload) :=
  trace.filterMap fun
    | .read other reading payload => if other = side then some (reading, payload) else none
    | .typed _ _ => none

@[simp]
theorem typedAt_append (side : Side) (first second : List ChatEvent) :
    typedAt side (first ++ second) = typedAt side first ++ typedAt side second :=
  List.filterMap_append

@[simp]
theorem readAt_append (side : Side) (first second : List ChatEvent) :
    readAt side (first ++ second) = readAt side first ++ readAt side second :=
  List.filterMap_append

namespace Chat

section Direction

variable (chat : Chat) (side : Side)

@[simp]
theorem direction_setPeer_self (peer : ChatPeer) :
    (chat.setPeer side peer).direction side =
      { chat.direction side with sender := peer.phase, stdin := peer.stdin } := by
  simp [direction, setPeer]

@[simp]
theorem direction_setPeer_peer (peer : ChatPeer) :
    (chat.setPeer side.peer peer).direction side =
      { chat.direction side with receiver := peer.phase } := by
  simp [direction, setPeer, Function.update_of_ne (Side.peer_ne side).symm]

@[simp]
theorem direction_push_self (payload : Payload) :
    (chat.push side payload).direction side =
      { chat.direction side with pipe := chat.pipe side ++ [payload] } := by
  simp [direction, push]

@[simp]
theorem direction_push_peer (payload : Payload) :
    (chat.push side.peer payload).direction side = chat.direction side := by
  simp [direction, push, Function.update_of_ne (Side.peer_ne side).symm]

@[simp]
theorem direction_pop_self (rest : List Payload) :
    (chat.pop side rest).direction side = chat.direction side := by
  simp [direction, pop, Function.update_of_ne (Side.peer_ne side).symm]

@[simp]
theorem direction_pop_peer (rest : List Payload) :
    (chat.pop side.peer rest).direction side = { chat.direction side with pipe := rest } := by
  simp [direction, pop]

@[simp]
theorem direction_enter_self (phase : Phase) :
    (chat.enter side phase).direction side = { chat.direction side with sender := phase } := by
  rw [enter, direction_setPeer_self]
  rfl

@[simp]
theorem direction_enter_peer (phase : Phase) :
    (chat.enter side.peer phase).direction side =
      { chat.direction side with receiver := phase } := by
  rw [enter, direction_setPeer_peer]

end Direction

variable {chat next : Chat} {events : List ChatEvent}

/-- A side that reads takes a payload of the other side, and goes on by what it is. -/
theorem receive_cases {side : Side} (hstep : chat.receive side = some (next, events)) :
    ∃ payload rest phase reading, chat.pipe side.peer = payload :: rest ∧
      (chat.peers side).phase.Reads payload phase reading ∧
      next = (chat.pop side rest).enter side phase ∧ events = [.read side reading payload] := by
  unfold receive at hstep
  split at hstep
  · next payload rest hphase hpipe =>
    cases hstep
    rw [hphase]
    exact ⟨payload, rest, _, _, hpipe, .search, rfl, rfl⟩
  · next payload rest hphase hpipe =>
    cases hstep
    rw [hphase]
    exact ⟨payload, rest, _, _, hpipe, .chat, rfl, rfl⟩
  · cases hstep

theorem direction_receive_self {side : Side} (hstep : chat.receive side = some (next, events)) :
    (chat.direction side).Step (next.direction side) (typedAt side events)
      (readAt side.peer events) := by
  obtain ⟨payload, rest, phase, reading, -, hreads, rfl, rfl⟩ := receive_cases hstep
  have hother : readAt side.peer [.read side reading payload] = [] := by
    simp [readAt, (Side.peer_ne side).symm]
  rw [hother, direction_enter_self, direction_pop_self]
  exact .enter hreads.inChat.1 hreads.inChat.2

theorem direction_receive_peer {side : Side}
    (hstep : chat.receive side.peer = some (next, events)) :
    (chat.direction side).Step (next.direction side) (typedAt side events)
      (readAt side.peer events) := by
  obtain ⟨payload, rest, phase, reading, hpipe, hreads, rfl, rfl⟩ := receive_cases hstep
  have hown : readAt side.peer [.read side.peer reading payload] = [(reading, payload)] := by
    simp [readAt]
  rw [hown, direction_enter_peer, direction_pop_peer]
  rw [Side.peer_peer] at hpipe
  exact .receive hpipe hreads

theorem send_silent {side : Side} (hstep : chat.send side = some (next, events)) :
    events = [] := by
  unfold send at hstep
  split at hstep
  · split at hstep
    · cases hstep
      rfl
    · split at hstep <;> cases hstep <;> rfl
  · cases hstep

theorem direction_send_self {side : Side} (hstep : chat.send side = some (next, events)) :
    (chat.direction side).Step (next.direction side) [] [] := by
  unfold send at hstep
  split at hstep
  · next line rest hphase hstdin =>
    split at hstep
    · next hexit =>
      cases hstep
      subst hexit
      simp only [direction_enter_self, direction_push_self, direction_setPeer_self]
      exact .exit hphase hstdin
    · next hexit =>
      split at hstep
      · next hempty =>
        cases hstep
        simp only [direction_push_self, direction_setPeer_self]
        exact .send hphase hstdin ⟨hempty, hexit⟩
      · next hempty =>
        cases hstep
        rw [direction_setPeer_self]
        exact .skip hstdin fun hmessage => hempty hmessage.1
  · cases hstep

theorem direction_send_peer {side : Side} (hstep : chat.send side.peer = some (next, events)) :
    (chat.direction side).Step (next.direction side) [] [] := by
  unfold send at hstep
  split at hstep
  · next line rest hphase hstdin =>
    split at hstep
    · cases hstep
      simp only [direction_enter_peer, direction_push_peer, direction_setPeer_peer]
      exact .meet (by decide)
    · split at hstep
      · cases hstep
        simp only [direction_push_peer, direction_setPeer_peer]
        exact .rest
      · cases hstep
        rw [direction_setPeer_peer]
        exact .rest
  · cases hstep

/-- Every step of the chat is a step of the direction. -/
theorem direction_step {action : ChatAction} (hstep : chat.step action = some (next, events))
    (side : Side) :
    (chat.direction side).Step (next.direction side) (typedAt side events)
      (readAt side.peer events) := by
  cases action with
  | punch actor =>
      simp only [step] at hstep
      split at hstep
      · next hrunning =>
        cases hstep
        rcases Side.eq_or_eq_peer side actor with rfl | rfl
        · simp only [direction_push_self, direction_setPeer_self]
          exact .control hrunning.1.2 (by decide) .inl
        · simp only [direction_push_peer, direction_setPeer_peer]
          exact .rest
      · cases hstep
  | confirm actor =>
      simp only [step] at hstep
      split at hstep
      · next hphase =>
        cases hstep
        rcases Side.eq_or_eq_peer side actor with rfl | rfl
        · simp only [direction_enter_self, direction_push_self]
          refine .control ?_ (by decide) fun _ => .inr (by decide)
          simp [direction, hphase]
        · simp only [direction_enter_peer, direction_push_peer]
          exact .meet (by decide)
      · cases hstep
  | timeout actor =>
      simp only [step] at hstep
      split at hstep
      · next hphase =>
        cases hstep
        rcases Side.eq_or_eq_peer side actor with rfl | rfl
        · rw [direction_enter_self]
          refine .enter ?_ ?_
          · simp [direction, hphase]
          · simp [Phase.InChat]
        · rw [direction_enter_peer]
          exact .meet (by decide)
      · cases hstep
  | keepAlive actor =>
      simp only [step] at hstep
      split at hstep
      · next hphase =>
        cases hstep
        rcases Side.eq_or_eq_peer side actor with rfl | rfl
        · rw [direction_push_self]
          refine .control ?_ (by decide) .inl
          simp [direction, hphase]
        · rw [direction_push_peer]
          exact .rest
      · cases hstep
  | type actor input =>
      simp only [step] at hstep
      split at hstep
      · next hphase =>
        cases hstep
        rcases Side.eq_or_eq_peer side actor with rfl | rfl
        · have hown : typedAt actor [.typed actor (trim input)] = [trim input] := by
            simp [typedAt]
          rw [hown, direction_setPeer_self]
          exact .type hphase
        · have hother : typedAt side [.typed side.peer (trim input)] = [] := by
            simp [typedAt]
          rw [hother, direction_setPeer_peer]
          exact .rest
      · cases hstep
  | send actor =>
      obtain rfl := send_silent hstep
      rcases Side.eq_or_eq_peer side actor with rfl | rfl
      · exact direction_send_self hstep
      · exact direction_send_peer hstep
  | receive actor =>
      rcases Side.eq_or_eq_peer side actor with rfl | rfl
      · exact direction_receive_self hstep
      · exact direction_receive_peer hstep

end Chat

/-! ## Nothing is swallowed -/

/-- The lines that are messages. -/
def messages (lines : List (List Char)) : List (List Char) := lines.filter fun line => IsMessage line

/-- The message that a payload is. -/
def Payload.message : Payload → Option (List Char)
  | .control _ => none
  | .line text => some text

/-- The messages that have been typed and not read. -/
def Direction.underWay (d : Direction) : List (List Char) :=
  d.pipe.filterMap Payload.message ++ messages d.stdin

/-- What has been displayed of what has been read. -/
def displayed (read : List (Reading × Payload)) : List (List UInt8) :=
  read.filterMap fun entry => if entry.1 = .displayed then some entry.2.bytes else none

/-- Before any message there is a sign of the sender. -/
def Signed (pipe : List Payload) : Prop :=
  ∃ before sign after, pipe = before ++ sign :: after ∧
    (∀ payload ∈ before, payload.message = none) ∧ detects sign.bytes = true

theorem Signed.append {pipe : List Payload} (h : Signed pipe) (more : List Payload) :
    Signed (pipe ++ more) := by
  obtain ⟨before, sign, after, rfl, hbefore, hsign⟩ := h
  exact ⟨before, sign, after ++ more, by simp, hbefore, hsign⟩

/-- What no step of a direction undoes, if no control word is typed. -/
structure Direction.Inv (d : Direction) (typed : List (List Char))
    (read : List (Reading × Payload)) : Prop where
  /-- Every message typed is displayed or under way. -/
  conserved : (messages typed).map utf8 = displayed read ++ d.underWay.map utf8
  /-- What is not displayed was no message. -/
  control : ∀ reading payload, (reading, payload) ∈ read → reading ≠ .displayed →
    payload.message = none
  piped : ∀ text, .line text ∈ d.pipe → ¬ IsControlWord text
  queued : ∀ line ∈ d.stdin, ¬ IsControlWord line
  /-- A search comes upon a sign of the sender before it comes upon a message. -/
  announced : d.receiver = .searching →
    Signed d.pipe ∨ (∀ payload ∈ d.pipe, payload.message = none) ∧ ¬ d.sender.InChat
  farewell : .control .goodbye ∈ d.pipe → d.sender = .closed

namespace Direction.Inv

variable {d : Direction} {typed : List (List Char)} {read : List (Reading × Payload)}

theorem enter (h : d.Inv typed read) {phase : Phase} (hopen : d.sender ≠ .closed)
    (hchat : phase.InChat → d.sender.InChat) : { d with sender := phase }.Inv typed read where
  conserved := h.conserved
  control := h.control
  piped := h.piped
  queued := h.queued
  announced hsearching := (h.announced hsearching).imp_right fun hnone =>
    ⟨hnone.1, fun hphase => hnone.2 (hchat hphase)⟩
  farewell hmem := absurd (h.farewell hmem) hopen

/-- A control word is sent. -/
theorem say (h : d.Inv typed read) {word : ControlWord} {phase : Phase}
    (hopen : d.sender ≠ .closed)
    (hword : word = .goodbye → phase = .closed)
    (hchat : phase.InChat → d.sender.InChat ∨ detects (Payload.control word).bytes) :
    { d with sender := phase, pipe := d.pipe ++ [Payload.control word] }.Inv typed read where
  conserved := by
    rw [h.conserved]
    simp [underWay, Payload.message]
  control := h.control
  piped text hmem := h.piped text (by simpa using hmem)
  queued := h.queued
  announced hsearching := by
    rcases h.announced hsearching with hsigned | ⟨hnone, hout⟩
    · exact .inl (hsigned.append _)
    · by_cases hphase : phase.InChat
      · have hsign := (hchat hphase).resolve_left hout
        exact .inl ⟨d.pipe, .control word, [], rfl, hnone, hsign⟩
      · refine .inr ⟨fun payload hmem => ?_, hphase⟩
        rcases List.mem_append.mp hmem with hold | hlast
        · exact hnone payload hold
        · rw [List.mem_singleton.mp hlast]
          rfl
  farewell hmem := by
    rcases List.mem_append.mp hmem with hold | hlast
    · exact absurd (h.farewell hold) hopen
    · cases List.mem_singleton.mp hlast
      exact hword rfl

theorem type (h : d.Inv typed read) {line : List Char} (hline : ¬ IsControlWord line) :
    { d with stdin := d.stdin ++ [line] }.Inv (typed ++ [line]) read where
  conserved := by
    rw [messages, List.filter_append, List.map_append, ← messages, h.conserved]
    simp [underWay, messages]
  control := h.control
  piped := h.piped
  queued other hmem := by
    rcases List.mem_append.mp hmem with hold | hlast
    · exact h.queued other hold
    · rw [List.mem_singleton.mp hlast]
      exact hline
  announced := h.announced
  farewell := h.farewell

theorem skip (h : d.Inv typed read) {line : List Char} {rest : List (List Char)}
    (hstdin : d.stdin = line :: rest) (hmessage : ¬ IsMessage line) :
    { d with stdin := rest }.Inv typed read where
  conserved := by
    rw [h.conserved]
    simp [underWay, messages, hstdin, hmessage]
  control := h.control
  piped := h.piped
  queued other hmem := h.queued other (hstdin ▸ List.mem_cons_of_mem _ hmem)
  announced := h.announced
  farewell := h.farewell

theorem send (h : d.Inv typed read) {line : List Char} {rest : List (List Char)}
    (hchat : d.sender = .chatting) (hstdin : d.stdin = line :: rest)
    (hmessage : IsMessage line) :
    { d with stdin := rest, pipe := d.pipe ++ [Payload.line line] }.Inv typed read where
  conserved := by
    rw [h.conserved]
    simp [underWay, messages, hstdin, hmessage, Payload.message]
  control := h.control
  piped text hmem := by
    rcases List.mem_append.mp hmem with hold | hlast
    · exact h.piped text hold
    · cases List.mem_singleton.mp hlast
      exact h.queued _ (hstdin ▸ List.mem_cons_self)
  queued other hmem := h.queued other (hstdin ▸ List.mem_cons_of_mem _ hmem)
  announced hsearching := by
    rcases h.announced hsearching with hsigned | ⟨-, hout⟩
    · exact .inl (hsigned.append _)
    · exact absurd (.inl hchat) hout
  farewell hmem := h.farewell (by simpa using hmem)

theorem meet (h : d.Inv typed read) {phase : Phase} (hphase : phase ≠ .searching) :
    { d with receiver := phase }.Inv typed read where
  conserved := h.conserved
  control := h.control
  piped := h.piped
  queued := h.queued
  announced hsearching := absurd hsearching hphase
  farewell := h.farewell

/-- A search does not come upon a message. -/
theorem message_of_searching (h : d.Inv typed read) (hsearching : d.receiver = .searching)
    {payload : Payload} {rest : List Payload} (hpipe : d.pipe = payload :: rest) :
    payload.message = none ∧ (detects payload.bytes = false →
      Signed rest ∨ (∀ other ∈ rest, other.message = none) ∧ ¬ d.sender.InChat) := by
  rcases h.announced hsearching with ⟨before, sign, after, hsplit, hbefore, hsign⟩ | ⟨hnone, hout⟩
  · rw [hpipe] at hsplit
    cases before with
    | nil =>
        obtain ⟨rfl, rfl⟩ := List.cons.inj hsplit
        refine ⟨?_, fun hother => absurd hsign (by simp [hother])⟩
        cases payload with
        | control word => rfl
        | line text =>
            have hline : ¬ IsControlWord text := h.piped text (hpipe ▸ List.mem_cons_self)
            rw [(reaction_line hline).2] at hsign
            cases hsign
    | cons head before =>
        obtain ⟨rfl, rfl⟩ := List.cons.inj hsplit
        exact ⟨hbefore _ List.mem_cons_self, fun _ => .inl ⟨before, sign, after, rfl,
          fun other hmem => hbefore other (List.mem_cons_of_mem _ hmem), hsign⟩⟩
  · rw [hpipe] at hnone
    exact ⟨hnone _ List.mem_cons_self, fun _ => .inr
      ⟨fun other hmem => hnone other (List.mem_cons_of_mem _ hmem), hout⟩⟩

/-- A receiver displays the messages and nothing else. -/
theorem displayed_iff (h : d.Inv typed read) {payload : Payload} {rest : List Payload}
    {phase : Phase} {reading : Reading} (hpipe : d.pipe = payload :: rest)
    (hreads : d.receiver.Reads payload phase reading) :
    reading = .displayed ↔ payload.message.isSome := by
  generalize hreceiver : d.receiver = receiver at hreads
  cases hreads with
  | search => simp [(h.message_of_searching hreceiver hpipe).1]
  | chat =>
      cases payload with
      | control word =>
          rw [reaction_control]
          cases word <;> simp [Payload.message]
      | line text =>
          have hline : ¬ IsControlWord text := h.piped text (hpipe ▸ List.mem_cons_self)
          simp [(reaction_line hline).1, Payload.message]

theorem receive (h : d.Inv typed read) {payload : Payload} {rest : List Payload}
    {phase : Phase} {reading : Reading} (hpipe : d.pipe = payload :: rest)
    (hreads : d.receiver.Reads payload phase reading) :
    { d with pipe := rest, receiver := phase }.Inv typed (read ++ [(reading, payload)]) where
  conserved := by
    have hdisplayed := h.displayed_iff hpipe hreads
    rw [h.conserved]
    cases payload with
    | control word =>
        have hother : reading ≠ .displayed := by simpa [Payload.message] using hdisplayed
        simp [displayed, underWay, hpipe, List.filterMap_cons, Payload.message, hother]
    | line text =>
        have hshown : reading = .displayed := by simpa [Payload.message] using hdisplayed
        simp [displayed, underWay, hpipe, Payload.message, hshown, Payload.bytes]
  control other found hmem hother := by
    rcases List.mem_append.mp hmem with hold | hlast
    · exact h.control other found hold hother
    · cases List.mem_singleton.mp hlast
      have hdisplayed := h.displayed_iff hpipe hreads
      simpa [hother] using hdisplayed
  piped text hmem := h.piped text (hpipe ▸ List.mem_cons_of_mem _ hmem)
  queued := h.queued
  announced hsearching := by
    generalize hreceiver : d.receiver = receiver at hreads
    cases hreads with
    | search =>
        have hsign : detects payload.bytes = false := by
          by_contra hsign
          simp [hsign] at hsearching
        exact (h.message_of_searching hreceiver hpipe).2 hsign
    | chat =>
        have hchat : (if reaction payload.bytes = .left then Phase.closed else .chatting) ≠
            .searching := by split <;> decide
        exact absurd hsearching hchat
  farewell hmem := h.farewell (hpipe ▸ List.mem_cons_of_mem _ hmem)

theorem start : Direction.Inv ⟨.searching, [], [], .searching⟩ [] [] where
  conserved := rfl
  control reading payload hmem := by cases hmem
  piped text hmem := by cases hmem
  queued line hmem := by cases hmem
  announced _ := .inr ⟨by simp, by simp [Phase.InChat]⟩
  farewell hmem := by cases hmem

/-- No step undoes the invariant, unless a control word is typed. -/
theorem step (h : d.Inv typed read) {next : Direction} {lines : List (List Char)}
    {readings : List (Reading × Payload)} (hstep : d.Step next lines readings)
    (hlines : ∀ line ∈ lines, ¬ IsControlWord line) :
    next.Inv (typed ++ lines) (read ++ readings) := by
  cases hstep with
  | rest => simpa using h
  | enter hopen hchat => simpa using h.enter hopen hchat
  | control hopen hword hchat => simpa using h.say hopen (fun heq => absurd heq hword) hchat
  | type hchat => simpa using h.type (hlines _ List.mem_cons_self)
  | skip hstdin hmessage => simpa using h.skip hstdin hmessage
  | send hchat hstdin hmessage => simpa using h.send hchat hstdin hmessage
  | exit hchat hstdin =>
      have hskipped := h.skip hstdin fun hmessage => hmessage.2 rfl
      simpa using hskipped.say (by simp [hchat]) (fun _ => rfl) fun _ => .inl (.inl hchat)
  | meet hphase => simpa using h.meet hphase
  | receive hpipe hreads => simpa using h.receive hpipe hreads

end Direction.Inv

/-! ## Whole runs -/

/-- The step types no control word. -/
def Innocent : ChatAction → Prop
  | .type _ input => ¬ IsControlWord (trim input)
  | _ => True

instance : DecidablePred Innocent
  | .type _ input => inferInstanceAs (Decidable (¬ IsControlWord (trim input)))
  | .punch _ | .confirm _ | .timeout _ | .keepAlive _ | .send _ | .receive _ => .isTrue trivial

theorem typedAt_of_step {chat next : Chat} {action : ChatAction} {events : List ChatEvent}
    (hstep : chat.step action = some (next, events)) {side : Side} {line : List Char}
    (hline : line ∈ typedAt side events) : ∃ input, action = .type side input ∧ line = trim input := by
  cases action with
  | type actor input =>
      simp only [Chat.step] at hstep
      split at hstep
      · cases hstep
        simp only [typedAt, List.filterMap_cons, List.filterMap_nil] at hline
        split at hline
        · cases hline
        · next heq =>
          split at heq
          · next hside =>
            cases heq
            exact ⟨input, by rw [hside], List.mem_singleton.mp hline⟩
          · cases heq
      · cases hstep
  | receive actor =>
      obtain ⟨payload, rest, phase, reading, -, -, -, rfl⟩ := Chat.receive_cases hstep
      cases hline
  | send actor =>
      rw [Chat.send_silent hstep] at hline
      cases hline
  | _ =>
      simp only [Chat.step] at hstep
      split at hstep
      · cases hstep
        cases hline
      · cases hstep

/-- An innocent step keeps the invariant of both directions. -/
theorem inv_step {chat next : Chat} {trace events : List ChatEvent} {action : ChatAction}
    (hstep : chat.step action = some (next, events)) (hinnocent : Innocent action) {side : Side}
    (h : (chat.direction side).Inv (typedAt side trace) (readAt side.peer trace)) :
    (next.direction side).Inv (typedAt side (trace ++ events))
      (readAt side.peer (trace ++ events)) := by
  rw [typedAt_append, readAt_append]
  refine h.step (Chat.direction_step hstep side) fun line hline => ?_
  obtain ⟨input, rfl, rfl⟩ := typedAt_of_step hstep hline
  exact hinnocent

theorem inv_of_along {actions : List ChatAction} {c : Chat × List ChatEvent}
    (hexec : chatMachine.exec chatMachine.init actions = some c)
    (halong : chatMachine.Along (fun _ action => Innocent action) chatMachine.init actions)
    (side : Side) :
    (c.1.direction side).Inv (typedAt side c.2) (readAt side.peer c.2) := by
  refine Machine.along_induct (P := fun c =>
    (c.1.direction side).Inv (typedAt side c.2) (readAt side.peer c.2)) .start ?_ hexec halong
  rintro ⟨chat, trace⟩ action d _ h hinnocent hstep
  obtain ⟨next, events, hnext, rfl⟩ := Machine.traced_step.mp hstep
  exact inv_step hnext hinnocent h

/-! ## What is under way arrives -/

/-- The steps that bring the messages of a side across. -/
def Carries (side : Side) (action : ChatAction) : Prop :=
  action = .send side ∨ action = .receive side.peer ∨ action = .confirm side.peer

/-- The sender chats and does not mean to leave, and the receiver is there. -/
structure Direction.Flowing (d : Direction) : Prop where
  chatting : d.sender = .chatting
  staying : exitText ∉ d.stdin
  running : Chat.Running d.receiver

/-- How far a direction is from being empty. -/
def Direction.load (d : Direction) : ℕ :=
  3 * d.stdin.length + 2 * d.pipe.length + if d.receiver = .detected then 1 else 0

theorem flows_send {chat : Chat} {side : Side} (hflow : (chat.direction side).Flowing)
    {line : List Char} {rest : List (List Char)} (hstdin : (chat.peers side).stdin = line :: rest) :
    ∃ next, chat.step (.send side) = some (next, []) ∧ (next.direction side).Flowing ∧
      (next.direction side).load < (chat.direction side).load := by
  have hchat : (chat.peers side).phase = .chatting := hflow.chatting
  have hstaying : exitText ∉ line :: rest := hstdin ▸ hflow.staying
  have hline : line ≠ exitText := by
    rintro rfl
    exact hstaying List.mem_cons_self
  have hrest : exitText ∉ rest := fun hmem => hstaying (List.mem_cons_of_mem _ hmem)
  by_cases hempty : line = []
  · subst hempty
    refine ⟨chat.setPeer side { chat.peers side with stdin := rest }, ?_, ?_, ?_⟩
    · simp [Chat.step, Chat.send, hchat, hstdin, hline]
    · rw [Chat.direction_setPeer_self]
      exact ⟨hchat, hrest, hflow.running⟩
    · rw [Chat.direction_setPeer_self]
      simp [Direction.load, Chat.direction, hstdin]
  · refine ⟨(chat.setPeer side { chat.peers side with stdin := rest }).push side (.line line),
      ?_, ?_, ?_⟩
    · simp [Chat.step, Chat.send, hchat, hstdin, hline, hempty]
    · rw [Chat.direction_push_self, Chat.direction_setPeer_self]
      exact ⟨hchat, hrest, hflow.running⟩
    · rw [Chat.direction_push_self, Chat.direction_setPeer_self]
      simp only [Direction.load, Chat.direction, hstdin, List.length_cons, List.length_append,
        List.length_nil, Chat.setPeer]
      omega

theorem flows_confirm {chat : Chat} {side : Side} (hflow : (chat.direction side).Flowing)
    (hdetected : (chat.peers side.peer).phase = .detected) :
    ∃ next, chat.step (.confirm side.peer) = some (next, []) ∧ (next.direction side).Flowing ∧
      (next.direction side).load < (chat.direction side).load := by
  have hrunning : Chat.Running .chatting := by decide
  refine ⟨(chat.push side.peer (.control .connected)).enter side.peer .chatting, ?_, ?_, ?_⟩
  · simp [Chat.step, hdetected]
  · rw [Chat.direction_enter_peer, Chat.direction_push_peer]
    exact ⟨hflow.chatting, hflow.staying, hrunning⟩
  · rw [Chat.direction_enter_peer, Chat.direction_push_peer]
    simp [Direction.load, Chat.direction, hdetected]

/-- The receiver does not leave, since the sender has not said goodbye. -/
theorem flows_receive {chat : Chat} {side : Side} {typed : List (List Char)}
    {read : List (Reading × Payload)} (h : (chat.direction side).Inv typed read)
    (hflow : (chat.direction side).Flowing)
    (hdetected : (chat.peers side.peer).phase ≠ .detected)
    {payload : Payload} {rest : List Payload} (hpipe : chat.pipe side = payload :: rest) :
    ∃ next events, chat.step (.receive side.peer) = some (next, events) ∧
      (next.direction side).Flowing ∧
      (next.direction side).load < (chat.direction side).load := by
  have hhead : payload ∈ (chat.direction side).pipe := by
    rw [show (chat.direction side).pipe = payload :: rest from hpipe]
    exact List.mem_cons_self
  have hstays : reaction payload.bytes ≠ .left := by
    cases payload with
    | control word =>
        have hword : word ≠ .goodbye := by
          rintro rfl
          have hclosed := h.farewell hhead
          rw [hflow.chatting] at hclosed
          cases hclosed
        simp [reaction_control, hword]
    | line text => simp [(reaction_line (h.piped text hhead)).1]
  have hnext : ∀ phase, Chat.Running phase →
      (((chat.pop side.peer rest).enter side.peer phase).direction side).Flowing ∧
        (((chat.pop side.peer rest).enter side.peer phase).direction side).load <
          (chat.direction side).load := by
    intro phase hrunning
    rw [Chat.direction_enter_peer, Chat.direction_pop_peer]
    refine ⟨⟨hflow.chatting, hflow.staying, hrunning⟩, ?_⟩
    simp only [Direction.load, Chat.direction, hpipe, List.length_cons]
    split <;> omega
  cases hphase : (chat.peers side.peer).phase with
  | searching =>
      refine ⟨_, [.read side.peer .passedOver payload], ?_,
        hnext (if detects payload.bytes then .detected else .searching) ?_⟩
      · simp [Chat.step, Chat.receive, hphase, hpipe]
      · split <;> decide
  | chatting =>
      refine ⟨_, [.read side.peer (reaction payload.bytes) payload], ?_,
        hnext .chatting (by decide)⟩
      simp [Chat.step, Chat.receive, hphase, hpipe, hstays]
  | detected => exact absurd hphase hdetected
  | failed => exact absurd hphase hflow.running.1
  | closed => exact absurd hphase hflow.running.2

/-- A direction that is not empty can be made emptier. -/
theorem flows {chat : Chat} {side : Side} {typed : List (List Char)}
    {read : List (Reading × Payload)} (h : (chat.direction side).Inv typed read)
    (hflow : (chat.direction side).Flowing) (hfull : (chat.direction side).underWay ≠ []) :
    ∃ action next events, Carries side action ∧ chat.step action = some (next, events) ∧
      (next.direction side).Flowing ∧
      (next.direction side).load < (chat.direction side).load := by
  cases hstdin : (chat.peers side).stdin with
  | cons line rest =>
      obtain ⟨next, hstep, hnext⟩ := flows_send hflow hstdin
      exact ⟨_, next, _, .inl rfl, hstep, hnext⟩
  | nil =>
      by_cases hdetected : (chat.peers side.peer).phase = .detected
      · obtain ⟨next, hstep, hnext⟩ := flows_confirm hflow hdetected
        exact ⟨_, next, _, .inr (.inr rfl), hstep, hnext⟩
      · cases hpipe : chat.pipe side with
        | nil => exact absurd (by simp [Direction.underWay, Chat.direction, hpipe, hstdin,
            messages]) hfull
        | cons payload rest =>
            obtain ⟨next, events, hstep, hnext⟩ := flows_receive h hflow hdetected hpipe
            exact ⟨_, next, events, .inr (.inl rfl), hstep, hnext⟩

theorem Carries.innocent {side : Side} {action : ChatAction} (h : Carries side action) :
    Innocent action ∧ ∀ {chat next : Chat} {events : List ChatEvent},
      chat.step action = some (next, events) → typedAt side events = [] := by
  have hsilent : ∀ {chat next : Chat} {events : List ChatEvent}, (∀ input, action ≠ .type side input) →
      chat.step action = some (next, events) → typedAt side events = [] := by
    intro chat next events haction hstep
    refine List.eq_nil_iff_forall_not_mem.mpr fun line hline => ?_
    obtain ⟨input, htype, -⟩ := typedAt_of_step hstep hline
    exact haction input htype
  rcases h with rfl | rfl | rfl
  · exact ⟨trivial, hsilent (by simp)⟩
  · exact ⟨trivial, hsilent (by simp)⟩
  · exact ⟨trivial, hsilent (by simp)⟩

/-- The direction flows, and these are the lines typed into it. -/
structure Settling (side : Side) (typed : List (List Char)) (d : Chat × List ChatEvent) :
    Prop where
  inv : (d.1.direction side).Inv (typedAt side d.2) (readAt side.peer d.2)
  flowing : (d.1.direction side).Flowing
  typed : typedAt side d.2 = typed

/-- Everything that has been typed comes to be displayed if the steps are taken that carry
it across. -/
theorem canReach_displayed {c : Chat × List ChatEvent} {side : Side}
    (h : (c.1.direction side).Inv (typedAt side c.2) (readAt side.peer c.2))
    (hflow : (c.1.direction side).Flowing) :
    chatMachine.CanReach (Carries side) c fun d => typedAt side d.2 = typedAt side c.2 ∧
      displayed (readAt side.peer d.2) = (messages (typedAt side c.2)).map utf8 := by
  have hstart : Settling side (typedAt side c.2) c := ⟨h, hflow, rfl⟩
  refine Machine.CanReach.of_measure (fun d => (d.1.direction side).load) ?_ hstart
  rintro ⟨chat, trace⟩ hsettling hgoal
  have hfull : (chat.direction side).underWay ≠ [] := by
    intro hempty
    have hconserved := hsettling.inv.conserved
    rw [hempty, List.map_nil, List.append_nil, hsettling.typed] at hconserved
    exact hgoal ⟨hsettling.typed, hconserved.symm⟩
  obtain ⟨action, next, events, hcarries, hstep, hnext, hload⟩ :=
    flows hsettling.inv hsettling.flowing hfull
  have hinv := inv_step hstep hcarries.innocent.1 hsettling.inv
  refine .one hcarries (Machine.traced_step.mpr ⟨next, events, hstep, rfl⟩)
    ⟨⟨hinv, hnext, ?_⟩, hload⟩
  rw [typedAt_append, hcarries.innocent.2 hstep, List.append_nil]
  exact hsettling.typed

/-! ## Transparency -/

/-- What is typed on either side is what the other side displays. -/
structure Transparent (c : Chat × List ChatEvent) : Prop where
  /-- The messages typed are those displayed, in this order, and then those under way. -/
  conserved : ∀ side, (messages (typedAt side c.2)).map utf8 =
    displayed (readAt side.peer c.2) ++ (c.1.direction side).underWay.map utf8
  /-- No search and no chat passes over a message or ends at one. -/
  control : ∀ side reading payload, (reading, payload) ∈ readAt side c.2 →
    reading ≠ .displayed → ∃ word, payload = .control word
  /-- While the sender chats and the receiver is there, what is under way can still be
  displayed. -/
  arrives : ∀ side, (c.1.direction side).Flowing →
    chatMachine.CanReach (Carries side) c fun d => typedAt side d.2 = typedAt side c.2 ∧
      displayed (readAt side.peer d.2) = (messages (typedAt side c.2)).map utf8

/-- The chat is transparent in every run in which nobody types a control word. -/
theorem transparent_of_along {actions : List ChatAction} {c : Chat × List ChatEvent}
    (hexec : chatMachine.exec chatMachine.init actions = some c)
    (halong : chatMachine.Along (fun _ action => Innocent action) chatMachine.init actions) :
    Transparent c where
  conserved side := (inv_of_along hexec halong side).conserved
  control side reading payload hmem hother := by
    have hinv := inv_of_along hexec halong side.peer
    rw [Side.peer_peer] at hinv
    have hmessage := hinv.control reading payload hmem hother
    cases payload with
    | control word => exact ⟨word, rfl⟩
    | line text => cases hmessage
  arrives side hflow := canReach_displayed (inv_of_along hexec halong side) hflow

/-- The two sides find each other, and the left one starts to chat. -/
def meeting : List ChatAction :=
  [.punch .left, .receive .right, .confirm .right, .receive .left, .confirm .left, .receive .right]

/-- The left side types "hi", and the right side reads it. -/
def greeting : List ChatAction :=
  meeting ++ [.type .left ['h', 'i', '\n'], .send .left, .receive .right]

theorem transparent_of_along_greeting :
    ∃ c, chatMachine.exec chatMachine.init greeting = some c ∧
      displayed (readAt .right c.2) = [utf8 ['h', 'i']] ∧ Transparent c := by
  have hsome : (chatMachine.exec chatMachine.init greeting).isSome := by decide +kernel
  obtain ⟨c, hexec⟩ := Option.isSome_iff_exists.mp hsome
  have htrace : (chatMachine.exec chatMachine.init greeting).map
      (fun c => displayed (readAt .right c.2)) = some [utf8 ['h', 'i']] := by decide +kernel
  rw [hexec] at htrace
  exact ⟨c, hexec, Option.some.inj htrace, transparent_of_along hexec (by decide +kernel)⟩

/-- The left side types "KEEP_ALIVE" and "GOODBYE", and the right side reads both. -/
def controlWordsTyped : List ChatAction :=
  meeting ++ [.type .left (ControlWord.keepAlive.text ++ ['\n']), .send .left, .receive .right,
    .type .left (ControlWord.goodbye.text ++ ['\n']), .send .left, .receive .right]

/-- The first message is swallowed, and the second ends the chat of the right side. -/
theorem typed_goodbye_ends_chat :
    ∃ c, chatMachine.exec chatMachine.init controlWordsTyped = some c ∧
      readAt .right c.2 = [(.passedOver, .control .holePunch), (.passedOver, .control .connected),
        (.passedOver, .line ControlWord.keepAlive.text),
        (.left, .line ControlWord.goodbye.text)] ∧ ¬ Transparent c := by
  have hread : (chatMachine.exec chatMachine.init controlWordsTyped).map
      (fun c => readAt .right c.2) =
        some [(.passedOver, .control .holePunch), (.passedOver, .control .connected),
          (.passedOver, .line ControlWord.keepAlive.text),
          (.left, .line ControlWord.goodbye.text)] := by decide +kernel
  obtain ⟨c, hexec, htrace⟩ := Option.map_eq_some_iff.mp hread
  refine ⟨c, hexec, htrace, fun htransparent => ?_⟩
  obtain ⟨word, hword⟩ := htransparent.control .right .left (.line ControlWord.goodbye.text)
    (by simp [htrace]) (by decide)
  cases hword

end P2PNetworking.Peer
