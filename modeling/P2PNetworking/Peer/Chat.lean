/-
# Two peers who find each other and chat

Each side runs `hole_punching_wan` and then `start_chat`.  What a user types and what the
two functions tell each other goes as bytes through one channel: the task that punches,
the function itself, the keep-alive task and the chat all send into it, and at the other
end the two functions read from it one after the other.

The transport is taken to deliver every payload, unchanged and in order; packets without
a payload, and the addresses of packets, are left out.  Nothing is said about when a task
runs: a search may time out at any moment, sooner or later than after its five seconds.
-/

import P2PNetworking.Common.Link
import P2PNetworking.Net.AddrText

namespace P2PNetworking.Peer

open P2PNetworking.Net P2PNetworking.Lib
open P2PNetworking.Common (Side)

/-! ## Text -/

/-- The bytes of a text. -/
def utf8 (text : List Char) : List UInt8 := text.flatMap String.utf8EncodeChar

theorem isText_utf8 (text : List Char) : IsText (utf8 text) := by
  refine .intro text ?_
  ext1
  simp [utf8, List.utf8Encode]

theorem utf8_inj {text other : List Char} : utf8 text = utf8 other ↔ text = other := by
  refine ⟨fun h => ?_, congrArg utf8⟩
  apply String.ofList_injective
  rw [← String.toByteArray_inj]
  exact congrArg List.toByteArray h

/-- `char::is_whitespace`: the Unicode property `White_Space`. -/
def isWhitespace (c : Char) : Bool :=
  (9 ≤ c.toNat && c.toNat ≤ 13) || (0x2000 ≤ c.toNat && c.toNat ≤ 0x200a) ||
    c.toNat ∈ [0x20, 0x85, 0xa0, 0x1680, 0x2028, 0x2029, 0x202f, 0x205f, 0x3000]

/-- `str::trim`. -/
def trim (text : List Char) : List Char :=
  ((text.dropWhile isWhitespace).reverse.dropWhile isWhitespace).reverse

/-- The payloads that the two functions send of their own. -/
inductive ControlWord
  | holePunch
  | connected
  | keepAlive
  | goodbye
  deriving DecidableEq, Repr

def ControlWord.text : ControlWord → List Char
  | .holePunch => ['H', 'O', 'L', 'E', '_', 'P', 'U', 'N', 'C', 'H']
  | .connected => ['C', 'O', 'N', 'N', 'E', 'C', 'T', 'E', 'D']
  | .keepAlive => ['K', 'E', 'E', 'P', '_', 'A', 'L', 'I', 'V', 'E']
  | .goodbye => ['G', 'O', 'O', 'D', 'B', 'Y', 'E']

/-- The text is one of those payloads. -/
def IsControlWord (text : List Char) : Prop :=
  text ∈ [ControlWord.holePunch, .connected, .keepAlive, .goodbye].map ControlWord.text

instance : DecidablePred IsControlWord := fun _ => inferInstanceAs (Decidable (_ ∈ _))

theorem isControlWord_text (word : ControlWord) : IsControlWord word.text := by
  cases word <;> decide

/-- What a user types to leave. -/
def exitText : List Char := ['e', 'x', 'i', 't']

/-- The chat sends the line as a message. -/
def IsMessage (line : List Char) : Prop := line ≠ [] ∧ line ≠ exitText

instance : DecidablePred IsMessage := fun _ => inferInstanceAs (Decidable (_ ∧ _))

/-! ## Payloads -/

/-- A payload with where it comes from, which only its bytes can tell the other side. -/
inductive Payload
  | control (word : ControlWord)
  | line (text : List Char)
  deriving DecidableEq, Repr

def Payload.bytes : Payload → List UInt8
  | control word => utf8 word.text
  | line text => utf8 text

/-- `payload == b"HOLE_PUNCH" || payload == b"CONNECTED"`. -/
def detects (bytes : List UInt8) : Bool :=
  bytes = utf8 ControlWord.holePunch.text || bytes = utf8 ControlWord.connected.text

/-- What a receiver does with a payload. -/
inductive Reading
  | displayed
  /-- It reads the next one. -/
  | passedOver
  /-- It ends the chat. -/
  | left
  deriving DecidableEq, Repr

/-- What the chat's receiver does with a payload. -/
def reaction (bytes : List UInt8) : Reading :=
  if IsText bytes then
    if bytes = utf8 ControlWord.keepAlive.text then .passedOver
    else if bytes = utf8 ControlWord.goodbye.text then .left
    else if detects bytes then .passedOver
    else .displayed
  else .passedOver

/-- A line that is no control word is displayed, and is no sign of the other side. -/
theorem reaction_line {text : List Char} (htext : ¬ IsControlWord text) :
    reaction (Payload.line text).bytes = .displayed ∧ detects (Payload.line text).bytes = false := by
  have hword : ∀ word : ControlWord, utf8 text ≠ utf8 word.text := by
    intro word heq
    rw [utf8_inj.mp heq] at htext
    exact htext (isControlWord_text word)
  have hdetects : detects (utf8 text) = false := by simp [detects, hword]
  exact ⟨by simp [reaction, Payload.bytes, isText_utf8, hword, hdetects], hdetects⟩

/-- A control word is never displayed. -/
theorem reaction_control (word : ControlWord) :
    reaction (Payload.control word).bytes = if word = .goodbye then .left else .passedOver := by
  cases word <;> simp [reaction, Payload.bytes, isText_utf8, detects, utf8_inj, ControlWord.text]

/-! ## The peers -/

/-- Where a peer is. -/
inductive Phase
  /-- In the loop of `hole_punching_wan`. -/
  | searching
  /-- It has detected the other side, and has still to confirm that. -/
  | detected
  /-- In `start_chat`. -/
  | chatting
  /-- The search has timed out. -/
  | failed
  /-- The chat is over. -/
  | closed
  deriving DecidableEq, Repr

structure ChatPeer where
  phase : Phase
  /-- How many packets the task that punches has still to send. -/
  punches : ℕ
  /-- The lines that have been read and not looked at. -/
  stdin : List (List Char)
  deriving DecidableEq

/-- Both peers, and the payloads on their way from each. -/
structure Chat where
  peers : Side → ChatPeer
  pipe : Side → List Payload

inductive ChatEvent
  /-- A line has been typed and trimmed. -/
  | typed (side : Side) (line : List Char)
  /-- The search or the chat has read a payload. -/
  | read (side : Side) (reading : Reading) (payload : Payload)
  deriving DecidableEq

inductive ChatAction
  | punch (side : Side)
  /-- The search sends its confirmation and starts the chat. -/
  | confirm (side : Side)
  | timeout (side : Side)
  | keepAlive (side : Side)
  /-- The thread that reads the keyboard reads a line. -/
  | type (side : Side) (input : List Char)
  /-- The chat looks at a line. -/
  | send (side : Side)
  /-- The search or the chat reads a payload. -/
  | receive (side : Side)
  deriving DecidableEq

namespace Chat

def new : Chat := ⟨fun _ => ⟨.searching, 6, []⟩, fun _ => []⟩

/-- One peer changes. -/
def setPeer (chat : Chat) (side : Side) (peer : ChatPeer) : Chat :=
  { chat with peers := Function.update chat.peers side peer }

/-- A peer sends a payload. -/
def push (chat : Chat) (side : Side) (payload : Payload) : Chat :=
  { chat with pipe := Function.update chat.pipe side (chat.pipe side ++ [payload]) }

/-- The other peer's payload has been read. -/
def pop (chat : Chat) (side : Side) (rest : List Payload) : Chat :=
  { chat with pipe := Function.update chat.pipe side.peer rest }

/-- A peer goes on to a phase. -/
def enter (chat : Chat) (side : Side) (phase : Phase) : Chat :=
  chat.setPeer side { chat.peers side with phase := phase }

/-- `output_rx.recv()`, in the search and in the chat. -/
def receive (chat : Chat) (side : Side) : Option (Chat × List ChatEvent) :=
  match (chat.peers side).phase, chat.pipe side.peer with
  | .searching, payload :: rest =>
      let phase := if detects payload.bytes then .detected else .searching
      some ((chat.pop side rest).enter side phase, [.read side .passedOver payload])
  | .chatting, payload :: rest =>
      let reading := reaction payload.bytes
      let phase := if reading = .left then .closed else .chatting
      some ((chat.pop side rest).enter side phase, [.read side reading payload])
  | _, _ => none

/-- `stdin_rx.recv()` in the chat.  The reader is closed together with the loop: what the receiver
task still reads until `receiver.abort()` it may as well have read before the loop takes `exit`. -/
def send (chat : Chat) (side : Side) : Option (Chat × List ChatEvent) :=
  match (chat.peers side).phase, (chat.peers side).stdin with
  | .chatting, line :: rest =>
      let taken := chat.setPeer side { chat.peers side with stdin := rest }
      if line = exitText then some ((taken.push side (.control .goodbye)).enter side .closed, [])
      else if line ≠ [] then some (taken.push side (.line line), [])
      else some (taken, [])
  | _, _ => none

/-- The process is running, past the search or in it. -/
def Running (phase : Phase) : Prop := phase ≠ .failed ∧ phase ≠ .closed

instance : DecidablePred Running := fun _ => inferInstanceAs (Decidable (_ ∧ _))

/-- One step of a task of a peer. -/
def step (chat : Chat) : ChatAction → Option (Chat × List ChatEvent)
  | .punch side =>
      let peer := chat.peers side
      if Running peer.phase ∧ 0 < peer.punches then
        some ((chat.setPeer side { peer with punches := peer.punches - 1 }).push side
          (.control .holePunch), [])
      else none
  | .confirm side =>
      if (chat.peers side).phase = .detected then
        some ((chat.push side (.control .connected)).enter side .chatting, [])
      else none
  | .timeout side =>
      if (chat.peers side).phase = .searching then some (chat.enter side .failed, []) else none
  | .keepAlive side =>
      if (chat.peers side).phase = .chatting then
        some (chat.push side (.control .keepAlive), [])
      else none
  | .type side input =>
      let peer := chat.peers side
      if peer.phase = .chatting then
        some (chat.setPeer side { peer with stdin := peer.stdin ++ [trim input] },
          [.typed side (trim input)])
      else none
  | .send side => chat.send side
  | .receive side => chat.receive side

end Chat

/-- The two peers under any schedule of their tasks. -/
def chatMachine : Machine (Chat × List ChatEvent) ChatAction := .traced .new Chat.step

end P2PNetworking.Peer
