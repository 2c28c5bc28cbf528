/-
# The packet format is exact

A packet without payload is told from one with a payload only by the length of the
datagram, and one with an empty payload not at all.  Up to that, packets and byte strings
of at least eight bytes are the same thing.
-/

import P2PNetworking.Common.Packet
import P2PNetworking.Lib.Codec
import Mathlib.Data.List.Basic

namespace P2PNetworking.Common

open P2PNetworking.Lib

/-- The packet with an empty payload read as none. -/
def Packet.normal (packet : Packet) : Packet :=
  ⟨packet.header, packet.payload.filter fun payload => !payload.isEmpty⟩

theorem Packet.normal_eq_self {packet : Packet} (h : packet.payload ≠ some []) :
    packet.normal = packet := by
  obtain ⟨header, payload⟩ := packet
  cases payload with
  | none => rfl
  | some bytes =>
      have hne : bytes ≠ [] := fun hnil => h (by rw [hnil])
      simp [normal, Option.filter, hne]

/-- Four bytes are what the number they spell is written as. -/
theorem toBeBytes_fromBeBytes {bytes : List UInt8} (hlength : bytes.length = 4) :
    toBeBytes (fromBeBytes bytes) = bytes := by
  obtain ⟨a, b, c, d, rfl⟩ := List.length_eq_four.mp hlength
  have ha := a.toNat_lt
  have hb := b.toNat_lt
  have hc := c.toNat_lt
  have hd := d.toNat_lt
  simp only [toBeBytes, fromBeBytes, List.foldl_cons, List.foldl_nil, UInt32.toNat_ofNat',
    List.cons.injEq, ← UInt8.toNat_inj, UInt8.toNat_ofNat', and_true]
  omega

/-- The decoder accepts exactly what is long enough for a header. -/
theorem deserialize_eq_ok_iff {buf : List UInt8} :
    (∃ packet, deserialize buf = .ok packet) ↔ 8 ≤ buf.length := by
  by_cases hshort : buf.length < 8
  · rw [deserialize, if_pos hshort]
    refine iff_of_false ?_ (by omega)
    rintro ⟨packet, h⟩
    cases h
  · rw [deserialize, if_neg hshort]
    exact iff_of_true ⟨_, rfl⟩ (by omega)

/-- Encoding a decoded packet gives the datagram back. -/
theorem serialize_of_deserialize {buf : List UInt8} {packet : Packet}
    (h : deserialize buf = .ok packet) : serialize packet = buf := by
  have hlong : 8 ≤ buf.length := deserialize_eq_ok_iff.mp ⟨packet, h⟩
  rw [deserialize, if_neg (Nat.not_lt.mpr hlong)] at h
  cases h
  have hseq : (buf.take 4).length = 4 := by rw [List.length_take]; omega
  have hack : ((buf.drop 4).take 4).length = 4 := by
    rw [List.length_take, List.length_drop]
    omega
  have hpayload : (if buf.length > 8 then some (buf.drop 8) else none).getD [] = buf.drop 8 := by
    split
    · rfl
    · next hexact => exact (List.drop_eq_nil_of_le (by omega)).symm
  rw [serialize, hpayload, toBeBytes_fromBeBytes hseq, toBeBytes_fromBeBytes hack,
    ← List.take_add, List.take_append_drop]

/-- The packet format, with the text of the error left out. -/
def packetCodec : Codec Packet (List UInt8) where
  encode := serialize
  decode buf := (deserialize buf).toOption
  normal := Packet.normal
  decode_encode packet := by
    rw [deserialize_serialize]
    rfl
  encode_of_decode := by
    intro buf packet h
    cases hdecode : deserialize buf with
    | error error =>
        rw [hdecode] at h
        cases h
    | ok found =>
        rw [hdecode] at h
        cases h
        exact serialize_of_deserialize hdecode

/-- Decoding undoes encoding but for an empty payload, encoding undoes decoding, and the
decoder accepts everything of at least eight bytes; so datagrams tell packets apart. -/
theorem codec_exact :
    (∀ packet, deserialize (serialize packet) = .ok packet.normal) ∧
      (∀ buf, (∃ packet, deserialize buf = .ok packet) ↔ 8 ≤ buf.length) ∧
      (∀ buf packet, deserialize buf = .ok packet → serialize packet = buf) ∧
      (∀ packet other, serialize packet = serialize other ↔ packet.normal = other.normal) ∧
      ∀ packet other, packet.payload ≠ some [] → other.payload ≠ some [] →
        serialize packet = serialize other → packet = other := by
  refine ⟨deserialize_serialize, fun _ => deserialize_eq_ok_iff,
    fun _ _ => serialize_of_deserialize, fun _ _ => packetCodec.encode_eq_encode_iff, ?_⟩
  intro packet other hpacket hother hsame
  exact packetCodec.eq_of_encode_eq (Packet.normal_eq_self hpacket) (Packet.normal_eq_self hother)
    hsame

end P2PNetworking.Common
