/-
# Addresses as text

`SocketAddr` is printed and parsed by the standard library: `Display` on the one side,
the parser behind `FromStr` on the other.  The parser works on bytes and has no
whitespace, no names and no default port.

An IPv4 address comes back from its text, and whatever parses is ASCII.
-/

import P2PNetworking.Net.Address
import P2PNetworking.Lib.Reader

namespace P2PNetworking.Net

open P2PNetworking.Lib

/-! ## UTF-8 -/

/-- `str::from_utf8` accepts the bytes. -/
def IsText (bytes : List UInt8) : Prop := (ByteArray.mk bytes.toArray).IsValidUTF8

instance (bytes : List UInt8) : Decidable (IsText bytes) :=
  inferInstanceAs (Decidable (ByteArray.mk bytes.toArray).IsValidUTF8)

/-- A printable ASCII character. -/
def Printable (byte : UInt8) : Prop := 32 ≤ byte.toNat ∧ byte.toNat < 127

instance : DecidablePred Printable :=
  fun byte => inferInstanceAs (Decidable (32 ≤ byte.toNat ∧ byte.toNat < 127))

theorem isText_of_printable {bytes : List UInt8} (h : ∀ byte ∈ bytes, Printable byte) :
    IsText bytes := by
  induction bytes using List.reverseRecOn with
  | nil => exact ByteArray.isValidUTF8_empty
  | append_singleton bytes byte ih =>
      have hbyte : byte.toNat < 127 := (h byte (by simp)).2
      have hfront : IsText bytes := ih fun other hother => h other (by simp [hother])
      have hchar : (Char.ofUInt8 byte).toUInt8 = byte := UInt8.toUInt8_toUInt32 byte
      have hsize : (Char.ofUInt8 byte).utf8Size = 1 := by
        rw [Char.utf8Size_eq_one_iff]
        exact UInt32.le_iff_toNat_le.mpr (Nat.le_of_lt hbyte)
      have hpush := ByteArray.IsValidUTF8.push hfront hsize
      rw [hchar] at hpush
      rw [IsText, ← List.push_toArray]
      exact hpush

/-! ## Printing -/

/-- `Display` of a number, and `{:x}`. -/
def numeral (base n : ℕ) : List UInt8 := (Nat.toDigits base n).map Char.toUInt8

/-- The four octets of an IPv4 address. -/
def ipv4Octets (ip : UInt32) : List UInt8 :=
  [(ip >>> 24).toUInt8, (ip >>> 16).toUInt8, (ip >>> 8).toUInt8, ip.toUInt8]

/-- `Display` of an `Ipv4Addr`. -/
def ipv4Text (octets : List UInt8) : List UInt8 :=
  List.intercalate [Char.toUInt8 '.'] (octets.map fun octet => numeral 10 octet.toNat)

/-- `u16::from_be_bytes`. -/
def fromBeBytes (high low : UInt8) : UInt16 := .ofNat (256 * high.toNat + low.toNat)

/-- `Ipv6Addr::segments`. -/
def segments (ip : Vector UInt8 16) : List UInt16 :=
  (List.range 8).map fun i => fromBeBytes (ip.toList.getD (2 * i) 0) (ip.toList.getD (2 * i + 1) 0)

/-- `Span`: some segments in a row. -/
structure Span where
  start : ℕ
  len : ℕ

/-- The longest row of zero segments, the first of them if there are several. -/
def zeroes (segments : List UInt16) : Span :=
  (segments.zipIdx.foldl (fun (longest, current) (segment, i) =>
    if segment = 0 then
      let current : Span := ⟨if current.len = 0 then i else current.start, current.len + 1⟩
      (if longest.len < current.len then current else longest, current)
    else (longest, ⟨0, 0⟩)) ((⟨0, 0⟩, ⟨0, 0⟩) : Span × Span)).1

/-- `fmt_subslice`. -/
def fmtSubslice (chunk : List UInt16) : List UInt8 :=
  List.intercalate [Char.toUInt8 ':'] (chunk.map fun segment => numeral 16 segment.toNat)

/-- `Display` of an `Ipv6Addr`. -/
def ipv6Text (ip : Vector UInt8 16) : List UInt8 :=
  if ip.toList.take 12 = List.replicate 10 0 ++ [0xff, 0xff] then
    "::ffff:".toUTF8.toList ++ ipv4Text (ip.toList.drop 12)
  else
    let zeroes := zeroes (segments ip)
    if 1 < zeroes.len then
      fmtSubslice ((segments ip).take zeroes.start) ++ "::".toUTF8.toList ++
        fmtSubslice ((segments ip).drop (zeroes.start + zeroes.len))
    else fmtSubslice (segments ip)

/-- `to_string().as_bytes()`; the flow label is not printed. -/
def SocketAddr.toText : SocketAddr → List UInt8
  | .v4 ip port => ipv4Text (ipv4Octets ip) ++ Char.toUInt8 ':' :: numeral 10 port.toNat
  | .v6 ip port _ scopeId =>
      let scope := if scopeId = 0 then [] else Char.toUInt8 '%' :: numeral 10 scopeId.toNat
      Char.toUInt8 '[' :: ipv6Text ip ++ scope ++ "]:".toUTF8.toList ++ numeral 10 port.toNat

/-! ## Parsing -/

/-- `char::to_digit`, of the character with this byte. -/
def toDigit (radix : ℕ) (byte : UInt8) : Option ℕ :=
  let digit :=
    if Char.toUInt8 '0' ≤ byte ∧ byte ≤ Char.toUInt8 '9' then byte.toNat - '0'.toNat
    else if Char.toUInt8 'a' ≤ byte ∧ byte ≤ Char.toUInt8 'z' then byte.toNat - 'a'.toNat + 10
    else if Char.toUInt8 'A' ≤ byte ∧ byte ≤ Char.toUInt8 'Z' then byte.toNat - 'A'.toNat + 10
    else radix
  if digit < radix then some digit else none

/-- `read_given_char`. -/
def readGivenChar (target : Char) : Reader UInt8 Unit := Reader.token target.toUInt8

/-- `read_separator`: from the second part on, each part has a separator before it. -/
def readSeparator {α : Type} (sep : Char) (index : ℕ) (inner : Reader UInt8 α) : Reader UInt8 α := do
  if 0 < index then readGivenChar sep
  inner

/-- `read_number`; the limit is that of the number's type. -/
def readNumber (radix : ℕ) (maxDigits : Option ℕ) (allowZeroPrefix : Bool) (limit : ℕ) :
    Reader UInt8 ℕ := do
  let digits ← Reader.many (toDigit radix)
  let result := digits.foldl (fun result digit => radix * result + digit) 0
  if digits = [] ∨ maxDigits.any (· < digits.length) then failure
  else if !allowZeroPrefix ∧ digits.head? = some 0 ∧ 1 < digits.length then failure
  else if limit ≤ result then failure
  else pure result

/-- `read_ipv4_addr`, as the octets. -/
def readIpv4Addr : Reader UInt8 (List UInt8) :=
  (List.range 4).mapM fun i =>
    readSeparator '.' i (UInt8.ofNat <$> readNumber 10 (some 3) false (2 ^ 8))

/-- `read_groups`: the groups, and whether an IPv4 address stands at their end. -/
def readGroups : ℕ → ℕ → Reader UInt8 (List UInt16 × Bool)
  | 0, _ => pure ([], false)
  | left + 1, i =>
      -- there must be at least two groups left
      (if left = 0 then failure
      else do
        let octets ← readSeparator ':' i readIpv4Addr
        let byte j := octets.getD j 0
        pure ([fromBeBytes (byte 0) (byte 1), fromBeBytes (byte 2) (byte 3)], true)) <|>
      (do
        let group ← readSeparator ':' i (readNumber 16 (some 4) true (2 ^ 16))
        let (groups, ipv4) ← readGroups left (i + 1)
        pure (.ofNat group :: groups, ipv4)) <|>
      pure ([], false)

/-- The bytes of eight groups. -/
def ofGroups (groups : List UInt16) : Vector UInt8 16 :=
  .ofFn fun i =>
    let group := groups.getD (i.val / 2) 0
    if i.val % 2 = 0 then (group >>> 8).toUInt8 else group.toUInt8

/-- `read_ipv6_addr`. -/
def readIpv6Addr : Reader UInt8 (Vector UInt8 16) := do
  let (head, headIpv4) ← readGroups 8 0
  if head.length = 8 then pure (ofGroups head)
  else if headIpv4 then failure
  else do
    readGivenChar ':'
    readGivenChar ':'
    -- at least one group of zeroes stands between the two parts
    let (tail, _) ← readGroups (8 - (head.length + 1)) 0
    pure (ofGroups (head ++ List.replicate (8 - head.length - tail.length) 0 ++ tail))

/-- `read_port`. -/
def readPort : Reader UInt8 UInt16 := do
  readGivenChar ':'
  UInt16.ofNat <$> readNumber 10 none true (2 ^ 16)

/-- `read_scope_id`. -/
def readScopeId : Reader UInt8 UInt32 := do
  readGivenChar '%'
  UInt32.ofNat <$> readNumber 10 none true (2 ^ 32)

/-- The address with these octets. -/
def ipv4OfOctets (octets : List UInt8) : UInt32 :=
  .ofNat (octets.foldl (fun n octet => 256 * n + octet.toNat) 0)

/-- `read_socket_addr_v4`. -/
def readSocketAddrV4 : Reader UInt8 SocketAddr := do
  let octets ← readIpv4Addr
  let port ← readPort
  pure (.v4 (ipv4OfOctets octets) port)

/-- `read_socket_addr_v6`. -/
def readSocketAddrV6 : Reader UInt8 SocketAddr := do
  readGivenChar '['
  let ip ← readIpv6Addr
  let scopeId ← readScopeId <|> pure 0
  readGivenChar ']'
  let port ← readPort
  pure (.v6 ip port 0 scopeId)

/-- `SocketAddr::from_str`, `none` for `AddrParseError`. -/
def SocketAddr.fromStr (text : List UInt8) : Option SocketAddr :=
  (readSocketAddrV4 <|> readSocketAddrV6).run text

/-! ## The text of an IPv4 address is read back -/

theorem length_numeral_le {n k : ℕ} (hk : 0 < k) (h : n < 10 ^ k) :
    (numeral 10 n).length ≤ k := by
  rw [numeral, List.length_map]
  exact (Nat.length_toDigits_le_iff (by omega) hk).mpr h

/-- The value of a decimal digit. -/
def digitValue (c : Char) : ℕ := c.toNat - '0'.toNat

theorem toDigit_of_isDigit {c : Char} (hc : c.isDigit = true) :
    toDigit 10 c.toUInt8 = some (digitValue c) := by
  obtain ⟨hlow, hhigh⟩ := Char.isDigit_iff_toNat.mp hc
  have hnat : c.toUInt8.toNat = c.toNat := by
    rw [← Char.toUInt8_val, UInt32.toNat_toUInt8]
    exact Nat.mod_eq_of_lt (Nat.lt_of_le_of_lt hhigh (by decide))
  have hbyte : Char.toUInt8 '0' ≤ c.toUInt8 ∧ c.toUInt8 ≤ Char.toUInt8 '9' := by
    rw [UInt8.le_iff_toNat_le, UInt8.le_iff_toNat_le, hnat]
    exact ⟨hlow, hhigh⟩
  have hlt : c.toNat - '0'.toNat < 10 := by
    have : '0'.toNat = 48 := rfl
    have : '9'.toNat = 57 := rfl
    omega
  simp only [toDigit, if_pos hbyte, hnat, if_pos hlt]
  rfl

theorem toDigit_numeral (n : ℕ) :
    (numeral 10 n).map (toDigit 10) = ((Nat.toDigits 10 n).map digitValue).map some := by
  rw [numeral, List.map_map, List.map_map]
  apply List.map_congr_left
  intro c hc
  exact toDigit_of_isDigit (Nat.isDigit_of_mem_toDigits (by omega) (by omega) hc)

theorem foldl_digitValue (n : ℕ) :
    ((Nat.toDigits 10 n).map digitValue).foldl (fun result digit => 10 * result + digit) 0 = n := by
  rw [List.foldl_map]
  exact Nat.ofDigitChars_ten_toDigits

theorem eq_zero_of_head (n : ℕ) (h : (Nat.toDigits 10 n).head? = some '0') : n = 0 := by
  induction n using Nat.strongRecOn with
  | ind n ih =>
      by_cases hlt : n < 10
      · rw [Nat.toDigits_of_lt_base hlt] at h
        simpa using h
      · have hle : 10 ≤ n := by omega
        rw [Nat.toDigits_of_base_le (by omega) hle, List.head?_append_of_ne_nil _ Nat.toDigits_ne_nil] at h
        have := ih (n / 10) (by omega) h
        omega

theorem head_digitValue {n : ℕ} (hhead : ((Nat.toDigits 10 n).map digitValue).head? = some 0) :
    ((Nat.toDigits 10 n).map digitValue).length = 1 := by
  obtain ⟨c, hc, hzero⟩ := Option.map_eq_some_iff.mp (List.head?_map.symm.trans hhead)
  have hdigit := Nat.isDigit_of_mem_toDigits (by omega) (by omega) (List.mem_of_head? hc)
  obtain ⟨hlow, -⟩ := Char.isDigit_iff_toNat.mp hdigit
  have : c = '0' := Char.toNat_inj.mp (Nat.le_antisymm (Nat.sub_eq_zero_iff_le.mp hzero) hlow)
  obtain rfl : n = 0 := eq_zero_of_head n (this ▸ hc)
  rfl

/-- A number is read back from its numeral, if what follows is not a digit. -/
theorem readNumber_numeral {n limit : ℕ} (hn : n < limit) {maxDigits : Option ℕ}
    (hdigits : maxDigits.any (· < (numeral 10 n).length) = false) (allowZeroPrefix : Bool)
    {rest : List UInt8} (hrest : ∀ byte ∈ rest.head?, toDigit 10 byte = none) :
    readNumber 10 maxDigits allowZeroPrefix limit (numeral 10 n ++ rest) = some (n, rest) := by
  have hmany := Reader.many_append (toDigit_numeral n) hrest
  have hnil : (Nat.toDigits 10 n).map digitValue ≠ [] := by simp [Nat.toDigits_ne_nil]
  have hlength : ((Nat.toDigits 10 n).map digitValue).length = (numeral 10 n).length := by
    simp [numeral]
  rw [readNumber, Reader.bind_apply, hmany, Option.bind_some]
  dsimp only
  rw [foldl_digitValue, if_neg, if_neg, if_neg (by omega)]
  · rfl
  · rintro ⟨-, hhead, hlong⟩
    rw [head_digitValue hhead] at hlong
    omega
  · rw [hlength, hdigits]
    simp [hnil]

theorem readSeparator_zero {α : Type} (sep : Char) (inner : Reader UInt8 α) :
    readSeparator sep 0 inner = inner := rfl

theorem readSeparator_succ {α : Type} (sep : Char) (index : ℕ) (inner : Reader UInt8 α)
    (text : List UInt8) :
    readSeparator sep (index + 1) inner (sep.toUInt8 :: text) = inner text := by
  simp [readSeparator, readGivenChar, Reader.bind_apply, Reader.token_cons_self]

/-- No digit comes next. -/
def NoDigit (rest : List UInt8) : Prop := ∀ byte ∈ rest.head?, toDigit 10 byte = none

theorem noDigit_nil : NoDigit [] := by simp [NoDigit]

theorem noDigit_dot (rest : List UInt8) : NoDigit (Char.toUInt8 '.' :: rest) := by
  rintro byte ⟨⟩
  rfl

theorem noDigit_colon (rest : List UInt8) : NoDigit (Char.toUInt8 ':' :: rest) := by
  rintro byte ⟨⟩
  rfl

theorem readOctet_numeral (octet : UInt8) {rest : List UInt8} (hrest : NoDigit rest) :
    (UInt8.ofNat <$> readNumber 10 (some 3) false (2 ^ 8)) (numeral 10 octet.toNat ++ rest) =
      some (octet, rest) := by
  have hlt : octet.toNat < 2 ^ 8 := octet.toNat_lt
  have hlength : (numeral 10 octet.toNat).length ≤ 3 := length_numeral_le (by omega) (by omega)
  rw [Reader.map_apply, readNumber_numeral hlt (by simpa using hlength) false hrest]
  simp

theorem readIpv4Addr_text (a b c d : UInt8) {rest : List UInt8} (hrest : NoDigit rest) :
    readIpv4Addr (ipv4Text [a, b, c, d] ++ rest) = some ([a, b, c, d], rest) := by
  have htext : ipv4Text [a, b, c, d] ++ rest = numeral 10 a.toNat ++ Char.toUInt8 '.' ::
      (numeral 10 b.toNat ++ Char.toUInt8 '.' :: (numeral 10 c.toNat ++ Char.toUInt8 '.' ::
        (numeral 10 d.toNat ++ rest))) := by
    simp [ipv4Text, List.intercalate, List.intersperse]
  have hrange : List.range 4 = [0, 1, 2, 3] := rfl
  simp only [htext, readIpv4Addr, hrange, List.mapM_cons, List.mapM_nil, Reader.bind_apply,
    readSeparator_zero, readSeparator_succ, readOctet_numeral _ (noDigit_dot _),
    readOctet_numeral _ hrest, Option.bind_some]
  rfl

theorem readPort_text (port : UInt16) :
    readPort (Char.toUInt8 ':' :: numeral 10 port.toNat) = some (port, []) := by
  have hread : readNumber 10 none true (2 ^ 16) (numeral 10 port.toNat ++ []) =
      some (port.toNat, []) := readNumber_numeral port.toNat_lt rfl true noDigit_nil
  rw [List.append_nil] at hread
  have hcolon : readGivenChar ':' (Char.toUInt8 ':' :: numeral 10 port.toNat) =
      some ((), numeral 10 port.toNat) := Reader.token_cons_self _ _
  rw [readPort, Reader.bind_apply, hcolon, Option.bind_some, Reader.map_apply, hread]
  simp

theorem ipv4OfOctets_ipv4Octets (ip : UInt32) : ipv4OfOctets (ipv4Octets ip) = ip := by
  apply UInt32.toNat_inj.mp
  have hlt := ip.toNat_lt
  simp only [ipv4OfOctets, ipv4Octets, List.foldl_cons, List.foldl_nil, UInt32.toNat_ofNat',
    UInt32.toNat_toUInt8, UInt32.toNat_shiftRight, Nat.shiftRight_eq_div_pow]
  simp
  omega

/-- An IPv4 address comes back from its text. -/
theorem fromStr_toText_v4 (ip : UInt32) (port : UInt16) :
    SocketAddr.fromStr (SocketAddr.toText (.v4 ip port)) = some (.v4 ip port) := by
  have hip := readIpv4Addr_text (ip >>> 24).toUInt8 (ip >>> 16).toUInt8 (ip >>> 8).toUInt8
    ip.toUInt8 (noDigit_colon (numeral 10 port.toNat))
  have hread : readSocketAddrV4 (SocketAddr.toText (.v4 ip port)) = some (.v4 ip port, []) := by
    rw [readSocketAddrV4, Reader.bind_apply, SocketAddr.toText, ipv4Octets, hip, Option.bind_some,
      Reader.bind_apply, readPort_text, Option.bind_some]
    exact congrArg (fun ip => some (SocketAddr.v4 ip port, [])) (ipv4OfOctets_ipv4Octets ip)
  rw [SocketAddr.fromStr, Reader.run_eq_some, Reader.orElse_apply, hread]
  rfl

/-! ## Only printable characters are read -/

theorem printable_of_toDigit {radix : ℕ} {byte : UInt8} {digit : ℕ}
    (h : toDigit radix byte = some digit) : Printable byte := by
  have hbounds : ∀ first last : Char, 32 ≤ first.toUInt8.toNat → last.toUInt8.toNat < 127 →
      first.toUInt8 ≤ byte ∧ byte ≤ last.toUInt8 → Printable byte := by
    intro first last hfirst hlast hbyte
    rw [UInt8.le_iff_toNat_le, UInt8.le_iff_toNat_le] at hbyte
    exact ⟨by omega, by omega⟩
  unfold toDigit at h
  split_ifs at h with hnumber hlower hupper
  · exact hbounds '0' '9' (by decide) (by decide) hnumber
  · exact hbounds 'a' 'z' (by decide) (by decide) hlower
  · exact hbounds 'A' 'Z' (by decide) (by decide) hupper
  · exact absurd h (by simp)

open Reader

theorem takes_readGivenChar {target : Char} (htarget : Printable target.toUInt8) :
    Takes Printable (readGivenChar target) := .token htarget

theorem takes_readSeparator {α : Type} {sep : Char} (hsep : Printable sep.toUInt8) (index : ℕ)
    {inner : Reader UInt8 α} (hinner : Takes Printable inner) :
    Takes Printable (readSeparator sep index inner) := by
  unfold readSeparator
  split
  · exact .bind (takes_readGivenChar hsep) fun _ => hinner
  · exact hinner

theorem takes_readNumber {radix : ℕ} {maxDigits : Option ℕ} {allowZeroPrefix : Bool}
    {limit : ℕ} : Takes Printable (readNumber radix maxDigits allowZeroPrefix limit) := by
  refine .bind (.many fun _ _ => printable_of_toDigit) fun digits => ?_
  dsimp only
  split_ifs
  · exact .failure
  · exact .failure
  · exact .failure
  · exact .pure _

theorem takes_readIpv4Addr : Takes Printable readIpv4Addr :=
  .mapM (fun i => takes_readSeparator (by decide) i (.map takes_readNumber _)) _

theorem takes_readGroups (left i : ℕ) : Takes Printable (readGroups left i) := by
  induction left generalizing i with
  | zero => exact .pure _
  | succ left ih =>
      have hgroup : Takes Printable (readSeparator ':' i (readNumber 16 (some 4) true (2 ^ 16))) :=
        takes_readSeparator (by decide) i takes_readNumber
      refine .orElse ?_ (.orElse (.bind hgroup fun _ => .bind (ih (i + 1)) fun _ => .pure _)
        (.pure _))
      split
      · exact .failure
      · exact .bind (takes_readSeparator (by decide) i takes_readIpv4Addr) fun _ => .pure _

theorem takes_readIpv6Addr : Takes Printable readIpv6Addr := by
  have hcolon : Takes Printable (readGivenChar ':') := takes_readGivenChar (by decide)
  refine .bind (takes_readGroups 8 0) fun head => ?_
  dsimp only
  split
  · exact .pure _
  · split
    · exact .failure
    · exact .bind hcolon fun _ => .bind hcolon fun _ =>
        .bind (takes_readGroups _ 0) fun _ => .pure _

theorem takes_readPort : Takes Printable readPort :=
  .bind (takes_readGivenChar (by decide)) fun _ => .map takes_readNumber _

theorem takes_readScopeId : Takes Printable readScopeId :=
  .bind (takes_readGivenChar (by decide)) fun _ => .map takes_readNumber _

theorem takes_readSocketAddrV4 : Takes Printable readSocketAddrV4 :=
  .bind takes_readIpv4Addr fun _ => .bind takes_readPort fun _ => .pure _

theorem takes_readSocketAddrV6 : Takes Printable readSocketAddrV6 :=
  .bind (takes_readGivenChar (by decide)) fun _ => .bind takes_readIpv6Addr fun _ =>
    .bind (.orElse takes_readScopeId (.pure _)) fun _ =>
      .bind (takes_readGivenChar (by decide)) fun _ => .bind takes_readPort fun _ => .pure _

/-- What parses consists of printable characters, -/
theorem printable_of_fromStr {text : List UInt8} {addr : SocketAddr}
    (h : SocketAddr.fromStr text = some addr) : ∀ byte ∈ text, Printable byte :=
  (Takes.orElse takes_readSocketAddrV4 takes_readSocketAddrV6).run h

/-- so it is text, -/
theorem isText_of_fromStr {text : List UInt8} {addr : SocketAddr}
    (h : SocketAddr.fromStr text = some addr) : IsText text :=
  isText_of_printable (printable_of_fromStr h)

/-- there is something in it, and it does not start with a zero byte. -/
theorem head_of_fromStr {text : List UInt8} {addr : SocketAddr}
    (h : SocketAddr.fromStr text = some addr) : ∃ byte ∈ text.head?, byte ≠ 0 := by
  cases text with
  | nil => cases h
  | cons byte text =>
      refine ⟨byte, rfl, ?_⟩
      rintro rfl
      exact absurd (printable_of_fromStr h 0 (by simp)) (by decide)

/-- There is no flow label in it. -/
theorem flowinfo_of_fromStr {text : List UInt8} {ip : Vector UInt8 16} {port : UInt16}
    {flowinfo scopeId : UInt32}
    (h : SocketAddr.fromStr text = some (.v6 ip port flowinfo scopeId)) : flowinfo = 0 := by
  rw [SocketAddr.fromStr, run_eq_some, orElse_apply] at h
  cases hv4 : readSocketAddrV4 text with
  | some found =>
      rw [hv4] at h
      cases h
      simp only [readSocketAddrV4, bind_apply, Option.bind_eq_some_iff] at hv4
      obtain ⟨_, -, _, -, hsame⟩ := hv4
      cases (Prod.mk.inj (Option.some.inj hsame)).1
  | none =>
      have hv6 : readSocketAddrV6 text = some (.v6 ip port flowinfo scopeId, []) := by
        rwa [hv4] at h
      simp only [readSocketAddrV6, bind_apply, Option.bind_eq_some_iff] at hv6
      obtain ⟨_, -, _, -, _, -, _, -, _, -, hsame⟩ := hv6
      cases (Prod.mk.inj (Option.some.inj hsame)).1
      rfl

theorem length_ipv4Text_le (ip : UInt32) : (ipv4Text (ipv4Octets ip)).length ≤ 15 := by
  have hnumeral : ∀ octet : UInt8, (numeral 10 octet.toNat).length ≤ 3 := fun octet =>
    length_numeral_le (by omega) (Nat.lt_trans octet.toNat_lt (by omega))
  have h1 := hnumeral (ip >>> 24).toUInt8
  have h2 := hnumeral (ip >>> 16).toUInt8
  have h3 := hnumeral (ip >>> 8).toUInt8
  have h4 := hnumeral ip.toUInt8
  simp only [ipv4Text, ipv4Octets, List.map_cons, List.map_nil, List.intercalate,
    List.intersperse, List.flatten_cons, List.flatten_nil, List.length_append, List.length_cons,
    List.length_nil]
  omega

theorem length_toText_v4_le (ip : UInt32) (port : UInt16) :
    (SocketAddr.toText (.v4 ip port)).length ≤ 21 := by
  have hip := length_ipv4Text_le ip
  have hport : (numeral 10 port.toNat).length ≤ 5 :=
    length_numeral_le (by omega) (Nat.lt_trans port.toNat_lt (by omega))
  rw [SocketAddr.toText, List.length_append, List.length_cons]
  omega

end P2PNetworking.Net
