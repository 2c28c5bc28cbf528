/-
# Codecs that are exact up to a normal form

An encoder and a decoder that undo each other: decoding an encoding gives the normal form
of what was encoded, and encoding what was decoded gives the bytes back.  Then an encoding
determines the value up to its normal form.
-/

import Mathlib.Tactic.Common

namespace P2PNetworking.Lib

universe uα uβ

/-- An encoder and a decoder that undo each other. -/
structure Codec (α : Type uα) (β : Type uβ) where
  encode : α → β
  decode : β → Option α
  /-- The value that the decoder gives for an encoding. -/
  normal : α → α
  decode_encode : ∀ a, decode (encode a) = some (normal a)
  encode_of_decode : ∀ {b a}, decode b = some a → encode a = b

namespace Codec

variable {α : Type uα} {β : Type uβ} (C : Codec α β)

/-- The normal form has the same encoding. -/
theorem encode_normal (a : α) : C.encode (C.normal a) = C.encode a :=
  C.encode_of_decode (C.decode_encode a)

/-- Encodings are equal exactly when the normal forms are. -/
theorem encode_eq_encode_iff {a a' : α} :
    C.encode a = C.encode a' ↔ C.normal a = C.normal a' := by
  constructor
  · intro h
    apply Option.some_inj.mp
    rw [← C.decode_encode, ← C.decode_encode, h]
  · intro h
    rw [← C.encode_normal a, h, C.encode_normal]

/-- Between values in normal form the encoder is injective. -/
theorem eq_of_encode_eq {a a' : α} (ha : C.normal a = a) (ha' : C.normal a' = a')
    (h : C.encode a = C.encode a') : a = a' := by
  rw [← ha, ← ha']
  exact C.encode_eq_encode_iff.mp h

end Codec

end P2PNetworking.Lib
