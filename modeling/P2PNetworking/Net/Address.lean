/-
# Addresses, session codes and datagrams

The value types that all programs of the repository share: `SocketAddr` of the
standard library, the 128-bit `Uuid`, and the datagrams a UDP socket hands over.
-/

import Mathlib.Algebra.Group.Nat.Defs
import Mathlib.Data.List.Induction

namespace P2PNetworking.Net

/-- `std::net::SocketAddr`; equality compares every field.  The octets of an
IPv4 address are kept as the number they spell, those of an IPv6 address as they
stand. -/
inductive SocketAddr
  | v4 (ip : UInt32) (port : UInt16)
  | v6 (ip : Vector UInt8 16) (port : UInt16) (flowinfo scopeId : UInt32)
  deriving DecidableEq, Repr

/-- `"0.0.0.0:0".parse()`. -/
def SocketAddr.unspecified : SocketAddr := .v4 0 0

/-- `uuid::Uuid`: sixteen bytes. -/
abbrev Uuid := Vector UInt8 16

/-- `Uuid::from_slice`: exactly sixteen bytes are accepted. -/
def Uuid.fromSlice (bytes : List UInt8) : Option Uuid :=
  if h : bytes.length = 16 then some ⟨bytes.toArray, by simpa using h⟩ else none

theorem Uuid.fromSlice_eq_some {bytes : List UInt8} {code : Uuid} :
    Uuid.fromSlice bytes = some code ↔ code.toList = bytes := by
  unfold Uuid.fromSlice
  constructor
  · intro h
    split at h
    · cases h
      simp
    · cases h
  · rintro rfl
    rw [dif_pos (by simp)]
    rfl

/-- What `recv_from` reports of a datagram: where it came from, where it went,
and its bytes. -/
structure Datagram where
  src : SocketAddr
  dst : SocketAddr
  bytes : List UInt8
  deriving DecidableEq, Repr

/-- A receive buffer of fixed size, reused from one datagram to the next. -/
structure RecvBuffer (size : ℕ) where
  bytes : List UInt8
  length_bytes : bytes.length = size
  deriving DecidableEq

namespace RecvBuffer

variable {size : ℕ}

/-- `[0u8; size]`. -/
def zeroed (size : ℕ) : RecvBuffer size := ⟨List.replicate size 0, by simp⟩

/-- `recv_from(&mut buf)`: the datagram, cut to the buffer, overwrites the front
of the buffer; the rest keeps what earlier datagrams left there. -/
def fill (buf : RecvBuffer size) (bytes : List UInt8) : RecvBuffer size where
  bytes := bytes.take size ++ buf.bytes.drop (min size bytes.length)
  length_bytes := by
    rw [List.length_append, List.length_take, List.length_drop, buf.length_bytes]
    omega

/-- `bytes_read`. -/
def bytesRead (size : ℕ) (bytes : List UInt8) : ℕ := min size bytes.length

/-- What lies within the datagram is read from the datagram. -/
theorem getElem?_fill_of_lt (buf : RecvBuffer size) {bytes : List UInt8} {i : ℕ}
    (hi : i < bytesRead size bytes) : (buf.fill bytes).bytes[i]? = bytes[i]? := by
  have hsize : i < size := by unfold bytesRead at hi; omega
  rw [fill, List.getElem?_append_left (by simpa [bytesRead] using hi),
    List.getElem?_take_of_lt hsize]

/-- An empty datagram leaves the buffer as it was. -/
theorem fill_nil (buf : RecvBuffer size) : buf.fill [] = buf := by
  obtain ⟨bytes, hlength⟩ := buf
  simp [fill]

/-- The first byte is the datagram's own if it has one, and an old one otherwise. -/
theorem head_fill (hsize : 0 < size) (buf : RecvBuffer size) (bytes : List UInt8) :
    (buf.fill bytes).bytes[0]? = bytes[0]?.or buf.bytes[0]? := by
  cases bytes with
  | nil => rw [fill_nil, List.getElem?_nil, Option.none_or]
  | cons byte bytes =>
      rw [getElem?_fill_of_lt buf (by rw [bytesRead, List.length_cons]; omega)]
      rfl

end RecvBuffer

end P2PNetworking.Net
