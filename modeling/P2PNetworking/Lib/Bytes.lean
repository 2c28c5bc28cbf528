/-
# Numbers in memory

A number of fixed width stands in memory as its bytes, from the low or from the high end,
as the machine has it.  Byte-order conversions are numbers again: what `toBe` gives stands
in the memory of every machine from the high end.
-/

import Mathlib.Data.Nat.Digits.Defs

namespace P2PNetworking.Lib

/-- The number that bytes spell from the low end. -/
def number (bytes : List UInt8) : ℕ := Nat.ofDigits 256 (bytes.map UInt8.toNat)

/-- The bytes of a number from the low end; what does not fit is lost. -/
def spell : ℕ → ℕ → List UInt8
  | 0, _ => []
  | width + 1, n => .ofNat n :: spell width (n / 256)

@[simp]
theorem length_spell (width n : ℕ) : (spell width n).length = width := by
  induction width generalizing n with
  | zero => rfl
  | succ width ih => rw [spell, List.length_cons, ih]

theorem number_cons (byte : UInt8) (bytes : List UInt8) :
    number (byte :: bytes) = byte.toNat + 256 * number bytes := Nat.ofDigits_cons

theorem number_lt (bytes : List UInt8) : number bytes < 256 ^ bytes.length := by
  have hdigits : ∀ digit ∈ bytes.map UInt8.toNat, digit < 256 := by
    simp only [List.forall_mem_map]
    exact fun byte _ => byte.toNat_lt
  have hlt := Nat.ofDigits_lt_base_pow_length (by decide) hdigits
  rwa [List.length_map] at hlt

/-- A number that fits is what its bytes spell. -/
theorem number_spell {width n : ℕ} (hfits : n < 256 ^ width) : number (spell width n) = n := by
  induction width generalizing n with
  | zero => exact (Nat.lt_one_iff.mp hfits).symm
  | succ width ih =>
      have hrest : n / 256 < 256 ^ width := by
        rw [Nat.pow_succ] at hfits
        exact Nat.div_lt_of_lt_mul (by rwa [Nat.mul_comm])
      rw [spell, number_cons, ih hrest, UInt8.toNat_ofNat']
      exact Nat.mod_add_div n 256

/-- Bytes are those of the number they spell. -/
theorem spell_number (bytes : List UInt8) : spell bytes.length (number bytes) = bytes := by
  induction bytes with
  | nil => rfl
  | cons byte bytes ih =>
      have hbyte := byte.toNat_lt
      have hfirst : UInt8.ofNat (byte.toNat + 256 * number bytes) = byte := by
        apply UInt8.toNat_inj.mp
        rw [UInt8.toNat_ofNat']
        omega
      have hrest : (byte.toNat + 256 * number bytes) / 256 = number bytes := by omega
      rw [List.length_cons, spell, number_cons, hfirst, hrest, ih]

/-- The bytes of a field of a structure. -/
def slice (offset width : ℕ) (bytes : List UInt8) : List UInt8 := (bytes.drop offset).take width

/-- The first field is read from the front, -/
theorem slice_zero {width : ℕ} {field : List UInt8} (hwidth : field.length = width)
    (after : List UInt8) : slice 0 width (field ++ after) = field := List.take_left' hwidth

/-- and every other one behind those before it. -/
theorem slice_append {offset : ℕ} {before : List UInt8} (hbefore : before.length ≤ offset)
    (width : ℕ) (after : List UInt8) :
    slice offset width (before ++ after) = slice (offset - before.length) width after := by
  rw [slice, slice, List.drop_append, List.drop_eq_nil_of_le hbefore, List.nil_append]

/-- The end from which a machine keeps the bytes of a number. -/
inductive Endian
  | little
  | big
  deriving DecidableEq, Repr

namespace Endian

/-- A number of some width in memory. -/
def store (endian : Endian) (width n : ℕ) : List UInt8 :=
  match endian with
  | little => spell width n
  | big => (spell width n).reverse

/-- The number that stands in memory. -/
def load (endian : Endian) (bytes : List UInt8) : ℕ :=
  match endian with
  | little => number bytes
  | big => number bytes.reverse

/-- To big-endian from the machine's order: nothing on a big-endian machine, and the bytes
swapped on a little-endian one. -/
def toBe (endian : Endian) (width n : ℕ) : ℕ :=
  match endian with
  | little => number (spell width n).reverse
  | big => n

variable (endian : Endian) {width n : ℕ}

@[simp]
theorem length_store (width n : ℕ) : (endian.store width n).length = width := by
  cases endian <;> simp [store]

@[simp]
theorem load_store (hfits : n < 256 ^ width) : endian.load (endian.store width n) = n := by
  cases endian with
  | little => exact number_spell hfits
  | big => rw [store, load, List.reverse_reverse, number_spell hfits]

theorem toBe_lt (hfits : n < 256 ^ width) : endian.toBe width n < 256 ^ width := by
  cases endian with
  | little =>
      have hlt := number_lt (spell width n).reverse
      rwa [List.length_reverse, length_spell] at hlt
  | big => exact hfits

/-- The conversion undoes itself. -/
theorem toBe_toBe (hfits : n < 256 ^ width) : endian.toBe width (endian.toBe width n) = n := by
  cases endian with
  | little =>
      have hspell := spell_number (spell width n).reverse
      rw [List.length_reverse, length_spell] at hspell
      rw [toBe, toBe, hspell, List.reverse_reverse, number_spell hfits]
  | big => rfl

/-- A converted number stands in memory from its high end, on every machine. -/
theorem store_toBe (width n : ℕ) : endian.store width (endian.toBe width n) = big.store width n := by
  cases endian with
  | little =>
      have hspell := spell_number (spell width n).reverse
      rwa [List.length_reverse, length_spell] at hspell
  | big => rfl

end Endian

end P2PNetworking.Lib
