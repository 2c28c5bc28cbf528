/-
# What the rendezvous server makes of a datagram

`udp_handler` reads every datagram into one buffer and looks at the front of the
buffer, not at how many bytes have been read.  A datagram that is too short for what
it starts is therefore completed with bytes of earlier ones, from other clients.

The hash of addresses and datagrams only names tracing spans and is left out.
-/

import P2PNetworking.Net.Address

namespace P2PNetworking.Rendezvous

open P2PNetworking.Net

/-! ## Handler -/

/-- `LOBBY_CREATE`. -/
def lobbyCreate : UInt8 := 0

/-- `LOBBY_JOIN`. -/
def lobbyJoin : UInt8 := 1

/-- The size of the receive buffer. -/
def bufSize : ℕ := 65535

/-- What the handler tells the `RelayManager`. -/
inductive MessageType
  | createLobby (code : Uuid) (hostAddr : SocketAddr)
  | joinLobby (code : Uuid) (clientAddr : SocketAddr)
  deriving DecidableEq, Repr

/-- A received datagram; `fresh` is the code that `Uuid::new_v4` would give now. -/
structure Request where
  src : SocketAddr
  bytes : List UInt8
  fresh : Uuid
  deriving DecidableEq, Repr

/-- The message for what the buffer holds after a receive. -/
def message (buf : RecvBuffer bufSize) (src : SocketAddr) (fresh : Uuid) :
    Option MessageType :=
  if buf.bytes[0]? = some lobbyCreate then some (.createLobby fresh src)
  else if buf.bytes[0]? = some lobbyJoin then
    (Uuid.fromSlice ((buf.bytes.drop 1).take 16)).map fun code => .joinLobby code src
  else none

/-- All that the handler keeps from one datagram to the next. -/
structure UdpHandler where
  buf : RecvBuffer bufSize

namespace UdpHandler

/-- `[0u8; 65535]`. -/
def new : UdpHandler := ⟨.zeroed bufSize⟩

/-- One round of the loop in `udp_handler`. -/
def handle (handler : UdpHandler) (request : Request) : UdpHandler × Option MessageType :=
  let filled := handler.buf.fill request.bytes
  (⟨filled⟩, message filled request.src request.fresh)

/-- The handler after a history of datagrams. -/
def after (history : List Request) : UdpHandler :=
  history.foldl (fun handler request => (handler.handle request).1) .new

/-- The message for a datagram that comes after a history. -/
def messageAfter (history : List Request) (request : Request) : Option MessageType :=
  ((after history).handle request).2

/-! ## Where the bytes come from -/

variable {buf : RecvBuffer bufSize} {bytes : List UInt8}

/-- The first byte is the datagram's own if it has one. -/
theorem head_fill_of_ne_nil (hne : bytes ≠ []) : (buf.fill bytes).bytes[0]? = bytes[0]? := by
  obtain ⟨byte, rest, rfl⟩ := List.exists_cons_of_ne_nil hne
  rw [RecvBuffer.head_fill (by decide)]
  rfl

/-- The sixteen bytes after it are the datagram's own if it is long enough. -/
theorem code_fill_of_le (hle : 17 ≤ bytes.length) :
    ((buf.fill bytes).bytes.drop 1).take 16 = (bytes.drop 1).take 16 := by
  apply List.ext_getElem?
  intro i
  simp only [List.getElem?_take, List.getElem?_drop]
  split
  · apply RecvBuffer.getElem?_fill_of_lt
    unfold RecvBuffer.bytesRead bufSize
    omega
  · rfl

/-- There is always a code to read. -/
theorem exists_code (buf : RecvBuffer bufSize) :
    ∃ code, Uuid.fromSlice ((buf.bytes.drop 1).take 16) = some code := by
  have hlength : ((buf.bytes.drop 1).take 16).length = 16 := by
    rw [List.length_take, List.length_drop, buf.length_bytes]
    rfl
  exact ⟨_, dif_pos hlength⟩

/-! ## Acting on the datagram alone -/

/-- The message for a datagram depends on it alone: it is the same after every history,
a lobby is joined only with the code in the datagram, and created only by a datagram
that says so. -/
structure ActsOnDatagram (src : SocketAddr) (bytes : List UInt8) : Prop where
  independent : ∀ history history' fresh,
    messageAfter history ⟨src, bytes, fresh⟩ = messageAfter history' ⟨src, bytes, fresh⟩
  join : ∀ history fresh code addr,
    messageAfter history ⟨src, bytes, fresh⟩ = some (.joinLobby code addr) →
      addr = src ∧ 17 ≤ bytes.length ∧ bytes[0]? = some lobbyJoin ∧
        code.toList = (bytes.drop 1).take 16
  create : ∀ history fresh code addr,
    messageAfter history ⟨src, bytes, fresh⟩ = some (.createLobby code addr) →
      addr = src ∧ code = fresh ∧ bytes[0]? = some lobbyCreate

/-- The datagram has a first byte, and one that starts to join has a whole code. -/
def LongEnough (bytes : List UInt8) : Prop :=
  bytes ≠ [] ∧ (bytes[0]? = some lobbyJoin → 17 ≤ bytes.length)

/-- The message of a datagram that is long enough, read off the datagram. -/
def ownMessage (src : SocketAddr) (bytes : List UInt8) (fresh : Uuid) : Option MessageType :=
  if bytes[0]? = some lobbyCreate then some (.createLobby fresh src)
  else if bytes[0]? = some lobbyJoin then
    (Uuid.fromSlice ((bytes.drop 1).take 16)).map fun code => .joinLobby code src
  else none

theorem messageAfter_eq_ownMessage (hlong : LongEnough bytes) (history : List Request)
    (src : SocketAddr) (fresh : Uuid) :
    messageAfter history ⟨src, bytes, fresh⟩ = ownMessage src bytes fresh := by
  simp only [messageAfter, handle, message, ownMessage, head_fill_of_ne_nil hlong.1]
  split
  · rfl
  · split
    · next hjoin => rw [code_fill_of_le (hlong.2 hjoin)]
    · rfl

/-- On a fresh buffer an empty datagram creates a lobby. -/
theorem messageAfter_nil_nil (src : SocketAddr) (fresh : Uuid) :
    messageAfter [] ⟨src, [], fresh⟩ = some (.createLobby fresh src) := by
  simp only [messageAfter, handle, RecvBuffer.fill_nil]
  rfl

/-- On a fresh buffer a datagram that starts to join does join, however short it is. -/
theorem exists_messageAfter_nil_join (hjoin : bytes[0]? = some lobbyJoin) (src : SocketAddr)
    (fresh : Uuid) : ∃ code, messageAfter [] ⟨src, bytes, fresh⟩ = some (.joinLobby code src) := by
  have hne : bytes ≠ [] := by
    rintro rfl
    cases hjoin
  have hhead : (new.buf.fill bytes).bytes[0]? = some lobbyJoin := by
    rw [head_fill_of_ne_nil hne, hjoin]
  have hdiffer : some lobbyJoin ≠ some lobbyCreate := by decide
  obtain ⟨code, hcode⟩ := exists_code (new.buf.fill bytes)
  refine ⟨code, ?_⟩
  simp only [messageAfter, handle, message, after, List.foldl_nil, hhead, if_neg hdiffer, hcode]
  rfl

theorem ActsOnDatagram.longEnough {src : SocketAddr} (h : ActsOnDatagram src bytes) :
    LongEnough bytes := by
  constructor
  · rintro rfl
    obtain ⟨-, -, hcreate⟩ := h.create [] (.replicate 16 0) _ _ (messageAfter_nil_nil src _)
    cases hcreate
  · intro hjoin
    obtain ⟨code, hmessage⟩ := exists_messageAfter_nil_join hjoin src (.replicate 16 0)
    exact (h.join [] _ _ _ hmessage).2.1

/-- A lobby is joined with the datagram's own code, -/
theorem joinLobby_of_ownMessage {src addr : SocketAddr} {fresh code : Uuid}
    (h : ownMessage src bytes fresh = some (.joinLobby code addr)) :
    addr = src ∧ bytes[0]? = some lobbyJoin ∧ code.toList = (bytes.drop 1).take 16 := by
  unfold ownMessage at h
  split at h
  · cases h
  · split at h
    · next hjoin =>
      obtain ⟨own, hown, hsame⟩ := Option.map_eq_some_iff.mp h
      cases hsame
      exact ⟨rfl, hjoin, Uuid.fromSlice_eq_some.mp hown⟩
    · cases h

/-- and created on its own first byte. -/
theorem createLobby_of_ownMessage {src addr : SocketAddr} {fresh code : Uuid}
    (h : ownMessage src bytes fresh = some (.createLobby code addr)) :
    addr = src ∧ code = fresh ∧ bytes[0]? = some lobbyCreate := by
  unfold ownMessage at h
  split at h
  · next hcreate =>
    cases h
    exact ⟨rfl, rfl, hcreate⟩
  · split at h
    · obtain ⟨own, -, hsame⟩ := Option.map_eq_some_iff.mp h
      cases hsame
    · cases h

theorem LongEnough.actsOnDatagram (hlong : LongEnough bytes) (src : SocketAddr) :
    ActsOnDatagram src bytes := by
  refine ⟨fun history history' fresh => ?_, fun history fresh code addr hmessage => ?_,
    fun history fresh code addr hmessage => ?_⟩
  · rw [messageAfter_eq_ownMessage hlong, messageAfter_eq_ownMessage hlong]
  · rw [messageAfter_eq_ownMessage hlong] at hmessage
    obtain ⟨haddr, hjoin, hcode⟩ := joinLobby_of_ownMessage hmessage
    exact ⟨haddr, hlong.2 hjoin, hjoin, hcode⟩
  · rw [messageAfter_eq_ownMessage hlong] at hmessage
    exact createLobby_of_ownMessage hmessage

/-- The handler acts on a datagram alone exactly when the datagram is long enough. -/
theorem actsOnDatagram_iff (src : SocketAddr) (bytes : List UInt8) :
    ActsOnDatagram src bytes ↔ LongEnough bytes :=
  ⟨fun h => h.longEnough, fun h => h.actsOnDatagram src⟩

/-- A client that joins with its code. -/
def joinRequest : Request := ⟨.v4 1 1, lobbyJoin :: List.replicate 16 5, .replicate 16 0⟩

/-- After it, another client's datagram of one byte, or of none, joins the same lobby. -/
theorem short_datagram_joins :
    messageAfter [joinRequest] ⟨.v4 2 2, [lobbyJoin], .replicate 16 0⟩ =
        some (.joinLobby (.replicate 16 5) (.v4 2 2)) ∧
      messageAfter [joinRequest] ⟨.v4 2 2, [], .replicate 16 0⟩ =
        some (.joinLobby (.replicate 16 5) (.v4 2 2)) ∧
      messageAfter [] ⟨.v4 2 2, [lobbyJoin], .replicate 16 0⟩ ≠
        messageAfter [joinRequest] ⟨.v4 2 2, [lobbyJoin], .replicate 16 0⟩ := by
  decide +kernel

end UdpHandler

end P2PNetworking.Rendezvous
