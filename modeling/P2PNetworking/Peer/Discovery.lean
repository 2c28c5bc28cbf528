/-
# How a peer learns whom to talk to

`listen_to_relay` runs on the host and `request_host_addr` on the client; each sends its
request to the rendezvous server and then reads datagrams until one of them ends the
call.  Both read every datagram into one small buffer, and neither looks at where it came
from, except to answer it.

What the calls print is left out.
-/

import P2PNetworking.Net.AddrText

namespace P2PNetworking.Peer

open P2PNetworking.Net

/-- `LOBBY_CREATE`. -/
def lobbyCreate : UInt8 := 0

/-- `LOBBY_JOIN`. -/
def lobbyJoin : UInt8 := 1

/-- The size of the receive buffer. -/
def bufSize : ℕ := 120

/-- What `recv_from` comes back with: an error, or a datagram. -/
inductive Incoming
  | failed
  | datagram (src : SocketAddr) (bytes : List UInt8)
  deriving DecidableEq, Repr

/-- A datagram to be sent: where to, and its bytes. -/
abbrev Outgoing := SocketAddr × List UInt8

/-- `&[2]`. -/
def echo : List UInt8 := [2]

/-- What has become of a call. -/
inductive Result
  | waiting
  | returned (addr : SocketAddr)
  | parseError
  | panicked
  deriving DecidableEq, Repr

/-- `&buf[..bytes_read]` after a datagram has been read. -/
def received (buf : RecvBuffer bufSize) (bytes : List UInt8) : List UInt8 :=
  (buf.fill bytes).bytes.take (RecvBuffer.bytesRead bufSize bytes)

/-- It is the datagram, cut to the buffer. -/
theorem received_eq (buf : RecvBuffer bufSize) (bytes : List UInt8) :
    received buf bytes = bytes.take bufSize := by
  rw [received, RecvBuffer.fill, RecvBuffer.bytesRead]
  exact List.take_left' (by rw [List.length_take])

/-- The text of an IPv4 address fits the buffer and is read back. -/
theorem fromStr_take_toText (ip : UInt32) (port : UInt16) :
    SocketAddr.fromStr ((SocketAddr.toText (.v4 ip port)).take bufSize) = some (.v4 ip port) := by
  have hshort := length_toText_v4_le ip port
  rw [List.take_of_length_le (Nat.le_trans hshort (by decide)), fromStr_toText_v4]

/-! ## The host -/

/-- A call of `listen_to_relay`; the first receive is the one that expects the code. -/
structure ListenToRelay where
  buf : RecvBuffer bufSize
  firstOver : Bool
  result : Result

namespace ListenToRelay

def new : ListenToRelay := ⟨.zeroed bufSize, false, .waiting⟩

/-- What is sent first. -/
def request (serverAddr : SocketAddr) : Outgoing := (serverAddr, [lobbyCreate])

/-- What the call does with what `recv_from` comes back with. -/
def receive (call : ListenToRelay) (incoming : Incoming) : ListenToRelay × List Outgoing :=
  if call.result ≠ .waiting then (call, [])
  else
    match incoming with
    | .failed => ({ call with firstOver := true }, [])
    | .datagram src bytes =>
        let buf := call.buf.fill bytes
        let text := received call.buf bytes
        if call.firstOver then
          match if IsText text then SocketAddr.fromStr text else none with
          | some addr => (⟨buf, true, .returned addr⟩, [])
          | none => (⟨buf, true, .waiting⟩, [(src, echo)])
        else
          match Uuid.fromSlice text with
          | some _ => (⟨buf, true, .waiting⟩, [])
          -- `expect`
          | none => (⟨buf, true, .panicked⟩, [])

variable {call : ListenToRelay}

theorem receive_of_ended (hended : call.result ≠ .waiting) (incoming : Incoming) :
    call.receive incoming = (call, []) := if_pos hended

section Waiting

variable (hwaiting : call.result = .waiting)

include hwaiting

theorem firstOver_receive (incoming : Incoming) :
    (call.receive incoming).1.firstOver = true := by
  unfold receive
  rw [if_neg (not_not_intro hwaiting)]
  cases incoming with
  | failed => rfl
  | datagram src bytes =>
      dsimp only
      split
      · split <;> rfl
      · split <;> rfl

theorem result_receive_failed : (call.receive .failed).1.result = .waiting := by
  unfold receive
  rw [if_neg (not_not_intro hwaiting)]
  exact hwaiting

/-- The first datagram has to be of the size of a code, -/
theorem result_receive_first (hfirst : call.firstOver = false) (src : SocketAddr)
    (bytes : List UInt8) : (call.receive (.datagram src bytes)).1.result =
      if (bytes.take bufSize).length = 16 then .waiting else .panicked := by
  simp only [receive, if_neg (not_not_intro hwaiting), hfirst, received_eq, Bool.false_eq_true,
    if_false]
  by_cases hlength : (bytes.take bufSize).length = 16
  · simp only [Uuid.fromSlice, dif_pos hlength, if_pos hlength]
  · simp only [Uuid.fromSlice, dif_neg hlength, if_neg hlength]

/-- and after it every address ends the call. -/
theorem result_receive (hfirst : call.firstOver = true) (src : SocketAddr)
    (bytes : List UInt8) : (call.receive (.datagram src bytes)).1.result =
      (SocketAddr.fromStr (bytes.take bufSize)).elim .waiting .returned := by
  simp only [receive, if_neg (not_not_intro hwaiting), hfirst, received_eq, if_true]
  cases hparse : SocketAddr.fromStr (bytes.take bufSize) with
  | none => simp only [ite_self, Option.elim_none]
  | some addr => simp only [if_pos (isText_of_fromStr hparse), Option.elim_some]

/-- What is returned has been read from a datagram. -/
theorem fromStr_of_returned {incoming : Incoming} {addr : SocketAddr}
    (hreturned : (call.receive incoming).1.result = .returned addr) :
    ∃ src bytes, incoming = .datagram src bytes ∧
      SocketAddr.fromStr (bytes.take bufSize) = some addr := by
  cases incoming with
  | failed =>
      rw [result_receive_failed hwaiting] at hreturned
      cases hreturned
  | datagram src bytes =>
      refine ⟨src, bytes, rfl, ?_⟩
      cases hfirst : call.firstOver with
      | false =>
          rw [result_receive_first hwaiting hfirst] at hreturned
          split at hreturned <;> cases hreturned
      | true =>
          rw [result_receive hwaiting hfirst] at hreturned
          cases hparse : SocketAddr.fromStr (bytes.take bufSize) with
          | none =>
              rw [hparse] at hreturned
              cases hreturned
          | some found =>
              rw [hparse] at hreturned
              cases hreturned
              rfl

end Waiting

/-- Only the sender of a datagram is answered, with an echo. -/
theorem sent_receive {incoming : Incoming} {out : Outgoing} (hout : out ∈ (call.receive incoming).2) :
    ∃ src bytes, incoming = .datagram src bytes ∧ out = (src, echo) := by
  unfold receive at hout
  split at hout
  · cases hout
  · cases incoming with
    | failed => cases hout
    | datagram src bytes =>
        dsimp only at hout
        split at hout
        · split at hout
          · cases hout
          · exact ⟨src, bytes, rfl, List.mem_singleton.mp hout⟩
        · split at hout <;> cases hout

end ListenToRelay

/-! ## The client -/

/-- A call of `request_host_addr`. -/
structure RequestHostAddr where
  buf : RecvBuffer bufSize
  result : Result

namespace RequestHostAddr

def new : RequestHostAddr := ⟨.zeroed bufSize, .waiting⟩

/-- What is sent first. -/
def request (serverAddr : SocketAddr) (code : Uuid) : Outgoing :=
  (serverAddr, lobbyJoin :: code.toList)

/-- What the call does with what `recv_from` comes back with. -/
def receive (call : RequestHostAddr) (incoming : Incoming) : RequestHostAddr × List Outgoing :=
  if call.result ≠ .waiting then (call, [])
  else
    match incoming with
    | .failed => (call, [])
    | .datagram src bytes =>
        let buf := call.buf.fill bytes
        let text := received call.buf bytes
        -- not the datagram's own byte if the datagram is empty
        if buf.bytes[0]? = some 0 then (⟨buf, .waiting⟩, [(src, echo)])
        else if IsText text then
          match SocketAddr.fromStr text with
          | some addr => (⟨buf, .returned addr⟩, [])
          | none => (⟨buf, .parseError⟩, [])
        else (⟨buf, .waiting⟩, [])

variable {call : RequestHostAddr}

theorem receive_of_ended (hended : call.result ≠ .waiting) (incoming : Incoming) :
    call.receive incoming = (call, []) := if_pos hended

section Waiting

variable (hwaiting : call.result = .waiting)

include hwaiting

theorem receive_failed : call.receive .failed = (call, []) :=
  if_neg (not_not_intro hwaiting)

theorem buf_receive (src : SocketAddr) (bytes : List UInt8) :
    (call.receive (.datagram src bytes)).1.buf = call.buf.fill bytes := by
  simp only [receive, if_neg (not_not_intro hwaiting)]
  split
  · rfl
  · split
    · split <;> rfl
    · rfl

/-- Every text ends the call, unless a zero byte stands before it. -/
theorem result_receive (src : SocketAddr) (bytes : List UInt8) :
    (call.receive (.datagram src bytes)).1.result =
      if bytes[0]?.or call.buf.bytes[0]? ≠ some 0 ∧ IsText (bytes.take bufSize) then
        (SocketAddr.fromStr (bytes.take bufSize)).elim .parseError .returned
      else .waiting := by
  have hhead := RecvBuffer.head_fill (show 0 < bufSize by decide) call.buf bytes
  simp only [receive, if_neg (not_not_intro hwaiting), received_eq, hhead]
  by_cases hzero : bytes[0]?.or call.buf.bytes[0]? = some 0
  · rw [if_pos hzero, if_neg fun h => h.1 hzero]
  · rw [if_neg hzero]
    by_cases htext : IsText (bytes.take bufSize)
    · rw [if_pos htext, if_pos ⟨hzero, htext⟩]
      cases SocketAddr.fromStr (bytes.take bufSize) with
      | none => rfl
      | some addr => rfl
    · rw [if_neg htext, if_neg fun h => htext h.2]

/-- An address ends it with that address. -/
theorem result_receive_of_fromStr {bytes : List UInt8} {addr : SocketAddr}
    (hparse : SocketAddr.fromStr (bytes.take bufSize) = some addr) (src : SocketAddr) :
    (call.receive (.datagram src bytes)).1.result = .returned addr := by
  obtain ⟨byte, hhead, hbyte⟩ := head_of_fromStr hparse
  have hfirst : bytes[0]? = some byte := by
    rw [List.head?_take, if_neg (by decide)] at hhead
    rw [← List.head?_eq_getElem?]
    exact hhead
  rw [result_receive hwaiting, if_pos ⟨by simpa [hfirst] using hbyte, isText_of_fromStr hparse⟩,
    hparse]
  rfl

/-- What is returned has been read from a datagram. -/
theorem fromStr_of_returned {incoming : Incoming} {addr : SocketAddr}
    (hreturned : (call.receive incoming).1.result = .returned addr) :
    ∃ src bytes, incoming = .datagram src bytes ∧
      SocketAddr.fromStr (bytes.take bufSize) = some addr := by
  cases incoming with
  | failed =>
      rw [receive_failed hwaiting, hwaiting] at hreturned
      cases hreturned
  | datagram src bytes =>
      refine ⟨src, bytes, rfl, ?_⟩
      rw [result_receive hwaiting] at hreturned
      split at hreturned
      · cases hparse : SocketAddr.fromStr (bytes.take bufSize) with
        | none =>
            rw [hparse] at hreturned
            cases hreturned
        | some found =>
            rw [hparse] at hreturned
            cases hreturned
            rfl
      · cases hreturned

end Waiting

/-- Only the sender of a datagram is answered, with an echo. -/
theorem sent_receive {incoming : Incoming} {out : Outgoing} (hout : out ∈ (call.receive incoming).2) :
    ∃ src bytes, incoming = .datagram src bytes ∧ out = (src, echo) := by
  unfold receive at hout
  split at hout
  · cases hout
  · cases incoming with
    | failed => cases hout
    | datagram src bytes =>
        dsimp only at hout
        split at hout
        · exact ⟨src, bytes, rfl, List.mem_singleton.mp hout⟩
        · split at hout
          · split at hout <;> cases hout
          · cases hout

end RequestHostAddr

end P2PNetworking.Peer
