/-
# Packets of the reliable layer and their encoding

A packet is a header of two 32-bit numbers and an optional payload.  On the wire
the header is eight bytes, big-endian, and whatever follows is the payload; there
is no length and no kind field, so a packet without payload and a packet with an
empty one share an encoding.
-/

import P2PNetworking.Net.Address

namespace P2PNetworking.Common

/-! ## Data -/

/-- What the application asks the sender to put on the wire. -/
inductive PacketType
  | ack (ack : UInt32)
  | data (payload : List UInt8)
  deriving DecidableEq, Repr

/-- Sequence number and cumulative acknowledgement. -/
structure Header where
  seq : UInt32
  ack : UInt32
  deriving DecidableEq, Repr

structure Packet where
  header : Header
  payload : Option (List UInt8)
  deriving DecidableEq, Repr

/-- A packet kept for retransmission; `Instant` is a number of nanoseconds. -/
structure SentPacket where
  packet : Packet
  timeSent : ℕ
  deriving DecidableEq, Repr

/-- `Packet { header: Header { seq: 0, ack }, payload: None }`, the packet both
acknowledgement paths build. -/
def ackPacket (ack : UInt32) : Packet := ⟨⟨0, ack⟩, none⟩

/-- The packet carries no payload, or an empty one. -/
def Packet.isBare (packet : Packet) : Bool :=
  packet.payload.isNone || (packet.payload.map fun p => p.isEmpty).getD false

@[simp]
theorem ackPacket_isBare (ack : UInt32) : (ackPacket ack).isBare = true := rfl

/-! ## Big-endian numbers -/

/-- `u32::to_be_bytes`. -/
def toBeBytes (n : UInt32) : List UInt8 :=
  [.ofNat (n.toNat / 2 ^ 24), .ofNat (n.toNat / 2 ^ 16), .ofNat (n.toNat / 2 ^ 8),
    .ofNat n.toNat]

/-- `u32::from_be_bytes`. -/
def fromBeBytes (bytes : List UInt8) : UInt32 :=
  .ofNat (bytes.foldl (fun n byte => 256 * n + byte.toNat) 0)

@[simp]
theorem length_toBeBytes (n : UInt32) : (toBeBytes n).length = 4 := rfl

@[simp]
theorem fromBeBytes_toBeBytes (n : UInt32) : fromBeBytes (toBeBytes n) = n := by
  have hlt := n.toNat_lt
  apply UInt32.toNat_inj.mp
  simp only [fromBeBytes, toBeBytes, List.foldl_cons, List.foldl_nil, UInt8.toNat_ofNat',
    UInt32.toNat_ofNat']
  omega

/-! ## Encoding -/

/-- Header, then payload. -/
def serialize (packet : Packet) : List UInt8 :=
  toBeBytes packet.header.seq ++ toBeBytes packet.header.ack ++ packet.payload.getD []

/-- At least eight bytes are needed; no byte after them means no payload. -/
def deserialize (buf : List UInt8) : Except String Packet :=
  if buf.length < 8 then
    .error s!"Buffer too short: expected at least 8 bytes, got {buf.length}"
  else
    let seq := fromBeBytes (buf.take 4)
    let ack := fromBeBytes ((buf.drop 4).take 4)
    let payload := if buf.length > 8 then some (buf.drop 8) else none
    .ok ⟨⟨seq, ack⟩, payload⟩

theorem length_serialize (packet : Packet) :
    (serialize packet).length = 8 + (packet.payload.getD []).length := by
  simp only [serialize, List.length_append, length_toBeBytes]

/-- The first four bytes are the sequence number. -/
theorem take_four_serialize (packet : Packet) :
    (serialize packet).take 4 = toBeBytes packet.header.seq := by
  rw [serialize, List.append_assoc]
  exact List.take_left' (length_toBeBytes _)

/-- The next four are the acknowledgement. -/
theorem take_four_drop_four_serialize (packet : Packet) :
    ((serialize packet).drop 4).take 4 = toBeBytes packet.header.ack := by
  rw [serialize, List.append_assoc, List.drop_left' (length_toBeBytes _)]
  exact List.take_left' (length_toBeBytes _)

/-- The rest is the payload. -/
theorem drop_eight_serialize (packet : Packet) :
    (serialize packet).drop 8 = packet.payload.getD [] := by
  rw [serialize]
  exact List.drop_left' (by simp)

/-- Decoding an encoded packet gives it back, an empty payload as none. -/
theorem deserialize_serialize (packet : Packet) :
    deserialize (serialize packet) =
      .ok ⟨packet.header, packet.payload.filter fun p => !p.isEmpty⟩ := by
  have hlong : ¬ (serialize packet).length < 8 := by
    rw [length_serialize]
    omega
  rw [deserialize, if_neg hlong, take_four_serialize, take_four_drop_four_serialize,
    drop_eight_serialize, length_serialize, fromBeBytes_toBeBytes, fromBeBytes_toBeBytes]
  obtain ⟨header, payload⟩ := packet
  cases payload with
  | none => rfl
  | some bytes => cases bytes <;> simp [Option.filter]

/-- An encoded packet that fits the buffer is not cut. -/
theorem take_serialize {packet : Packet} {size : ℕ}
    (hfits : 8 + (packet.payload.getD []).length ≤ size) :
    (serialize packet).take size = serialize packet := by
  apply List.take_of_length_le
  rwa [length_serialize]

/-! ## Sequence numbers -/

/-- Below the top of the range the next sequence number does not wrap. -/
theorem toNat_add_one {n : UInt32} (h : n.toNat + 1 < 2 ^ 32) :
    (n + 1).toNat = n.toNat + 1 := by
  rw [UInt32.toNat_add, UInt32.toNat_one, Nat.mod_eq_of_lt h]

/-- Numbers come round after `2 ^ 32`. -/
theorem ofNat_succ_eq_iff {i j : ℕ} :
    UInt32.ofNat (i + 1) = .ofNat (j + 1) ↔ (i + 1) % 2 ^ 32 = (j + 1) % 2 ^ 32 := by
  rw [← UInt32.toNat_inj, UInt32.toNat_ofNat', UInt32.toNat_ofNat']

/-- Before that they are told apart. -/
theorem eq_of_ofNat_succ_eq {i j length : ℕ} (hshort : length < 2 ^ 32) (hi : i < length)
    (hj : j < length) (h : UInt32.ofNat (i + 1) = .ofNat (j + 1)) : i = j := by
  rw [ofNat_succ_eq_iff, Nat.mod_eq_of_lt (by omega), Nat.mod_eq_of_lt (by omega)] at h
  exact Nat.succ.inj h

end P2PNetworking.Common
