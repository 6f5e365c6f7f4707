import IrcdHybrid.Numeral
import Mathlib.Logic.Function.Basic

/-!
Netmasks and addresses. `parse_netmask` reads a text with a dot as IPv4, one
with a colon as IPv6, and everything it cannot read as a host mask. The two
match functions compare the leading bits of an address with a mask.
-/

namespace IrcdHybrid.Netmask

open CString Numeral

/-- `sin6_addr.s6_addr`. -/
abbrev In6Addr := Fin 16 → BitVec 8

/-- `s6_addr[n]`; the code never reads past the last byte. -/
def byteAt (addr : In6Addr) (n : ℕ) : BitVec 8 := if h : n < 16 then addr ⟨n, h⟩ else 0

/-- `HM_HOST`, or `HM_IPV4` and `HM_IPV6` with the address and the number of bits. -/
inductive Mask where
  | host
  | ipv4 (addr : BitVec 32) (bits : ℕ)
  | ipv6 (addr : In6Addr) (bits : ℕ)

/-- `~((1 << (w - bits)) - 1)`: the leading bits. -/
def leading (w bits : ℕ) : BitVec w := ~~~(((1 : BitVec w) <<< (w - bits)) - 1)

/-- The scan of the text: the pointers in `digits`, in order, and `bits`. -/
def scanV4 : CStr → Option Char → List CStr → Option (List CStr × ℕ)
  | [], _, digits => some (digits, 0)
  | c :: p, prev, digits =>
    if isDigit c then scanV4 p (some c) digits
    else if c = '.' then
      if 4 ≤ digits.length then none else scanV4 p (some c) (digits ++ [p])
    else if c = '*' then
      if p ≠ [] ∨ prev ≠ some '.' then none else some (digits, (digits.length - 1) * 8)
    else if c = '/' then
      let (value, after) := strtoul p
      let bits := toInt value
      if bits < 0 ∨ after ≠ [] then none
      else if bits > digits.length * 8 then none
      else some (digits, bits.toNat)
    else none

/-- `addb[i]` after the unused bits are cleared. -/
def usedByte (addb : ℕ → BitVec 8) (bits i : ℕ) : BitVec 8 :=
  if i < bits / 8 then addb i
  else if i = bits / 8 ∧ bits % 8 ≠ 0 then addb i &&& leading 8 (bits % 8)
  else 0

def tryParseV4Netmask (text : CStr) : Mask :=
  match scanV4 text none [text] with
  | none => .host
  | some (digits, scanned) =>
    let bits := if digits.length < 4 ∧ scanned = 0 then digits.length * 8 else scanned
    -- missing numbers are "0"; with bits = 0 there are none missing
    let addb := fun i => BitVec.ofNat 8 (strtoul (digits.getD i ['0'])).1
    let bits := if bits = 0 then 32 else bits
    let byte := usedByte addb bits
    .ipv4 (byte 0 ++ byte 1 ++ byte 2 ++ byte 3) bits

/-- The local variables of the scan; `d` is the array of words. -/
structure V6Scan where
  d : ℕ → ℕ
  dp : ℕ
  nyble : ℕ
  finsert : Option ℕ
  bits : ℕ

def isXDigit (c : Char) : Bool := isDigit c || ('a' ≤ c && c ≤ 'f') || ('A' ≤ c && c ≤ 'F')

/-- `DigitParse`. -/
def digitParse (c : Char) : ℕ :=
  if isDigit c then c.toNat - '0'.toNat
  else if 'A' ≤ c ∧ c ≤ 'F' then c.toNat - 'A'.toNat + 10
  else if 'a' ≤ c ∧ c ≤ 'f' then c.toNat - 'a'.toNat + 10
  else c.toNat

/-- `d[dp] = d[dp] >> 4 * nyble`. -/
def V6Scan.shift (s : V6Scan) : ℕ → ℕ := Function.update s.d s.dp (s.d s.dp >>> (4 * s.nyble))

def scanV6 : CStr → Option Char → V6Scan → Option V6Scan
  | [], _, s => some { s with d := s.shift, dp := s.dp + 1 }
  | c :: p, prev, s =>
    if isXDigit c then
      if s.nyble = 0 then none
      else
        let word := s.d s.dp ||| (digitParse c <<< (4 * (s.nyble - 1)))
        scanV6 p (some c) { s with d := Function.update s.d s.dp word, nyble := s.nyble - 1 }
    else if c = ':' then
      if prev = some ':' then
        if s.finsert.isSome then none else scanV6 p (some c) { s with finsert := some s.dp }
      else if 8 ≤ s.dp + 1 then none
      else scanV6 p (some c) { s with d := s.shift, nyble := 4, dp := s.dp + 1 }
    else if c = '*' then
      if s.finsert.isSome ∨ p ≠ [] ∨ s.dp = 0 ∨ prev ≠ some ':' then none
      else scanV6 p (some c) { s with bits := s.dp * 16 }
    else if c = '/' then
      let dp := s.dp + 1
      let (value, after) := strtoul p
      let bits := toInt value
      if bits < 0 ∨ after ≠ [] then none
      else if bits > dp * 4 ∧ ¬ (s.finsert.isSome ∧ bits ≤ 128) then none
      -- the shift after the loop then meets the empty word d[dp]
      else some { s with d := s.shift, dp := dp, bits := bits.toNat }
    else none

/-- The words of the address, with the gap of `::` filled by zeros. -/
def fillV6 (d : ℕ → ℕ) (finsert : Option ℕ) : ℕ → ℕ → ℤ → List (BitVec 16)
  | 0, _, _ => []
  | count + 1, nyble, deficit =>
    if some nyble = finsert ∧ deficit ≠ 0 then 0 :: fillV6 d finsert count nyble (deficit - 1)
    else BitVec.ofNat 16 (d nyble) :: fillV6 d finsert count (nyble + 1) deficit

/-- `dc[i]` after the unused bits are cleared; the code shifts by `15 - bits % 16`
here, so one bit more than `bits` survives. -/
def usedWord (dc : List (BitVec 16)) (bits i : ℕ) : BitVec 16 :=
  if i < bits / 16 then dc.getD i 0
  else if i = bits / 16 ∧ bits % 16 ≠ 0 then
    dc.getD i 0 &&& ~~~(((1 : BitVec 16) <<< (15 - bits % 16)) - 1)
  else 0

def tryParseV6Netmask (text : CStr) : Mask :=
  match scanV6 text none ⟨fun _ => 0, 0, 4, none, 128⟩ with
  | none => .host
  | some s =>
    let bits := if s.finsert = none ∧ s.bits = 0 then s.dp * 16 else s.bits
    let deficit : ℤ := bits / 16 + (if bits % 16 ≠ 0 then 1 else 0) - s.dp
    let word := usedWord (fillV6 s.d s.finsert 8 0 deficit) bits
    let addr : In6Addr := fun i =>
      if i.val % 2 = 0 then (word (i.val / 2)).extractLsb' 8 8
      else (word (i.val / 2)).extractLsb' 0 8
    .ipv6 addr bits

def parseNetmask (text : CStr) : Mask :=
  if '.' ∈ text then tryParseV4Netmask text
  else if ':' ∈ text then tryParseV6Netmask text
  else .host

def matchIpv6 (addr mask : In6Addr) (bits : ℕ) : Bool :=
  (List.range (bits / 8)).all (fun i => byteAt addr i == byteAt mask i) &&
    (bits % 8 == 0 || (byteAt addr (bits / 8) &&& leading 8 (bits % 8)) == byteAt mask (bits / 8))

def matchIpv4 (addr mask : BitVec 32) (bits : ℕ) : Bool := (addr &&& leading 32 bits) == mask

/-- The number of bits fits the address. -/
def BitsFit : Mask → Prop
  | .host => True
  | .ipv4 _ bits => bits ≤ 32
  | .ipv6 _ bits => bits ≤ 128

theorem scanV4_bits (text : CStr) (prev : Option Char) (digits found : List CStr) (bits : ℕ)
    (hd : digits.length ≤ 4) (h : scanV4 text prev digits = some (found, bits)) :
    found.length ≤ 4 ∧ bits ≤ found.length * 8 := by
  induction text generalizing prev digits with
  | nil =>
    obtain ⟨rfl, rfl⟩ := Prod.mk.inj (Option.some.inj h)
    exact ⟨hd, by omega⟩
  | cons c p ih =>
    unfold scanV4 at h
    split_ifs at h with h1 h2 h3 h4 h5 h6
    · exact ih _ _ hd h
    · exact ih _ _ (by simp only [List.length_append, List.length_singleton]; omega) h
    · obtain ⟨rfl, rfl⟩ := Prod.mk.inj (Option.some.inj h)
      exact ⟨hd, by omega⟩
    · dsimp only at h
      split_ifs at h with h7 h8
      obtain ⟨rfl, rfl⟩ := Prod.mk.inj (Option.some.inj h)
      exact ⟨hd, by omega⟩

theorem tryParseV4Netmask_bitsFit (text : CStr) : BitsFit (tryParseV4Netmask text) := by
  unfold tryParseV4Netmask
  split
  · trivial
  · next digits bits h =>
    have hb := scanV4_bits text none [text] digits bits (by simp) h
    show _ ≤ 32
    split_ifs <;> omega

theorem scanV6_bits (text : CStr) (prev : Option Char) (s found : V6Scan)
    (hdp : s.dp ≤ 7) (hbits : s.bits ≤ 128) (h : scanV6 text prev s = some found) :
    found.dp ≤ 8 ∧ found.bits ≤ 128 := by
  induction text generalizing prev s with
  | nil =>
    obtain rfl := Option.some.inj h
    exact ⟨show s.dp + 1 ≤ 8 by omega, hbits⟩
  | cons c p ih =>
    unfold scanV6 at h
    split_ifs at h with h1 h2 h3 h4 h5 h6 h7 h8 h9
    · apply ih _ _ _ _ h
      · exact hdp
      · exact hbits
    · apply ih _ _ _ _ h
      · exact hdp
      · exact hbits
    · apply ih _ _ _ _ h
      · show s.dp + 1 ≤ 7
        omega
      · exact hbits
    · apply ih _ _ _ _ h
      · exact hdp
      · show s.dp * 16 ≤ 128
        omega
    · dsimp only at h
      generalize toInt (strtoul p).1 = bits at h
      split_ifs at h with h10 h11
      obtain rfl := Option.some.inj h
      constructor
      · show s.dp + 1 ≤ 8
        omega
      · show bits.toNat ≤ 128
        by_contra hlarge
        exact h11 ⟨by omega, fun hc => by omega⟩

theorem tryParseV6Netmask_bitsFit (text : CStr) : BitsFit (tryParseV6Netmask text) := by
  unfold tryParseV6Netmask
  split
  · trivial
  · next s h =>
    have hs := scanV6_bits text none _ s (by simp) (by simp) h
    show _ ≤ 128
    split_ifs <;> omega

theorem parseNetmask_bitsFit (text : CStr) : BitsFit (parseNetmask text) := by
  unfold parseNetmask
  split_ifs
  · exact tryParseV4Netmask_bitsFit text
  · exact tryParseV6Netmask_bitsFit text
  · trivial

/-- Clearing more of the trailing bits subsumes clearing fewer of them. -/
theorem leading_and_leading (bits fewer : ℕ) (hb : bits ≤ 32) (hf : fewer ≤ bits) :
    leading 32 bits &&& leading 32 fewer = leading 32 fewer := by
  have hall : ∀ b : Fin 33, ∀ f : Fin 33, f ≤ b →
      leading 32 b &&& leading 32 f = leading 32 f := by decide +kernel
  exact hall ⟨bits, by omega⟩ ⟨fewer, by omega⟩ hf

theorem matchIpv4_leading (addr mask : BitVec 32) (bits fewer : ℕ) (hb : bits ≤ 32)
    (hf : fewer ≤ bits) (h : matchIpv4 addr mask bits = true) :
    mask &&& leading 32 fewer = addr &&& leading 32 fewer := by
  obtain rfl : addr &&& leading 32 bits = mask := by simpa [matchIpv4] using h
  rw [BitVec.and_assoc, leading_and_leading bits fewer hb hf]

theorem matchIpv6_byteAt (addr mask : In6Addr) (bits i : ℕ) (hi : i < bits / 8)
    (h : matchIpv6 addr mask bits = true) : byteAt mask i = byteAt addr i := by
  rw [matchIpv6, Bool.and_eq_true, List.all_eq_true] at h
  have heq := h.1 i (List.mem_range.mpr hi)
  exact (beq_iff_eq.mp heq).symm

end IrcdHybrid.Netmask
