import IrcdHybrid.CString
import Mathlib.Algebra.Ring.Int.Defs
import Mathlib.Algebra.Ring.Nat
import Mathlib.Data.List.TakeWhile

/-!
Numbers as text. `decimal` is what `%u` and `%lu` print and `signedDecimal`
what `%d` prints; `strtoul` and `strtol` read base ten the way the C library does
on a 64-bit host: blanks, a sign, digits, and saturation at the ends of the type.
-/

namespace IrcdHybrid.Numeral

open CString

def isSpace (c : Char) : Bool := c = ' ' || ('\t' ≤ c && c ≤ '\r')

/-- The text behind the blanks and the sign, with the sign. -/
def afterSign (s : CStr) : Bool × CStr :=
  match s.dropWhile isSpace with
  | '-' :: t => (true, t)
  | '+' :: t => (false, t)
  | t => (false, t)

def digitsValue (ds : CStr) : ℕ := Nat.ofDigitChars 10 ds 0

/-- The value, as an `unsigned long`, and what `endptr` is set to. -/
def strtoul (nptr : CStr) : ℕ × CStr :=
  let (negative, t) := afterSign nptr
  let ds := t.takeWhile isDigit
  if ds = [] then (0, nptr)
  else
    let v := digitsValue ds
    (if 2 ^ 64 ≤ v then 2 ^ 64 - 1 else if negative then (2 ^ 64 - v) % 2 ^ 64 else v,
      t.dropWhile isDigit)

/-- The value as a `long`. -/
def strtol (nptr : CStr) : ℤ :=
  let (negative, t) := afterSign nptr
  let v : ℤ := digitsValue (t.takeWhile isDigit)
  if negative then max (-v) (-2 ^ 63) else min v (2 ^ 63 - 1)

/-- Conversion to a 32-bit `int`. -/
def toInt (v : ℤ) : ℤ := v.bmod (2 ^ 32)

theorem toInt_bounds (v : ℤ) : -2 ^ 31 ≤ toInt v ∧ toInt v < 2 ^ 31 := by
  unfold toInt
  have hlow := Int.le_bmod (x := v) (m := 2 ^ 32) (by omega)
  have hhigh := Int.bmod_lt (x := v) (m := 2 ^ 32) (by omega)
  omega

theorem toInt_eq (v : ℤ) (hlow : -2 ^ 31 ≤ v) (hhigh : v < 2 ^ 31) : toInt v = v := by
  unfold toInt
  apply Int.bmod_eq_of_le <;> omega

def atoi (nptr : CStr) : ℤ := toInt (strtol nptr)

def decimal (n : ℕ) : CStr := Nat.toDigits 10 n

def signedDecimal (n : ℤ) : CStr :=
  if n < 0 then '-' :: decimal n.natAbs else decimal n.natAbs

theorem isDigit_decimal (n : ℕ) (c : Char) (hc : c ∈ decimal n) : isDigit c = true :=
  Nat.isDigit_of_mem_toDigits (by omega) (by omega) hc

theorem decimal_ne_nil (n : ℕ) : decimal n ≠ [] := Nat.toDigits_ne_nil

theorem digitsValue_decimal (n : ℕ) : digitsValue (decimal n) = n :=
  Nat.ofDigitChars_toDigits (by omega) (by omega)

theorem takeWhile_decimal (n : ℕ) : (decimal n).takeWhile isDigit = decimal n :=
  List.takeWhile_eq_self_iff.mpr (fun c hc => isDigit_decimal n c hc)

theorem isSpace_of_isDigit (c : Char) (h : isDigit c = true) : isSpace c = false := by
  simp only [isDigit, Bool.and_eq_true, decide_eq_true_eq, char_le_iff, Char.reduceToNat] at h
  have hspace : c ≠ ' ' := fun hc => by rw [hc] at h; exact absurd h (by decide)
  have hhigh : ¬ c ≤ '\r' := by
    rw [char_le_iff]
    simp only [Char.reduceToNat]
    omega
  simp [isSpace, hspace, hhigh]

theorem afterSign_decimal (n : ℕ) : afterSign (decimal n) = (false, decimal n) := by
  obtain ⟨c, s, heq⟩ := List.exists_cons_of_ne_nil (decimal_ne_nil n)
  have hdigit : isDigit c = true := isDigit_decimal n c (by rw [heq]; exact List.mem_cons_self)
  have hspace := isSpace_of_isDigit c hdigit
  have hminus : c ≠ '-' := fun hc => by rw [hc] at hdigit; exact absurd hdigit (by decide)
  have hplus : c ≠ '+' := fun hc => by rw [hc] at hdigit; exact absurd hdigit (by decide)
  rw [heq]
  unfold afterSign
  rw [List.dropWhile_cons_of_neg (by simp [hspace])]
  split
  · next t h => exact absurd (List.cons.inj h).1 hminus
  · next t h => exact absurd (List.cons.inj h).1 hplus
  · rfl

theorem strtol_decimal_min (n : ℕ) : strtol (decimal n) = min (n : ℤ) (2 ^ 63 - 1) := by
  unfold strtol
  rw [afterSign_decimal]
  dsimp only
  rw [takeWhile_decimal, digitsValue_decimal]
  simp

theorem strtol_decimal (n : ℕ) (h : n < 2 ^ 63) : strtol (decimal n) = n := by
  rw [strtol_decimal_min]
  omega

theorem strtol_minus (n : ℕ) (h : n ≤ 2 ^ 63) : strtol ('-' :: decimal n) = -n := by
  have hsign : afterSign ('-' :: decimal n) = (true, decimal n) := by
    have hspace : isSpace '-' = false := by decide
    unfold afterSign
    rw [List.dropWhile_cons_of_neg (by simp [hspace])]
    rfl
  unfold strtol
  rw [hsign]
  dsimp only
  rw [takeWhile_decimal, digitsValue_decimal]
  simp only [if_true]
  omega

theorem strtol_signedDecimal (n : ℤ) (hlow : -2 ^ 63 ≤ n) (hhigh : n < 2 ^ 63) :
    strtol (signedDecimal n) = n := by
  unfold signedDecimal
  split
  · rw [strtol_minus _ (by omega)]
    omega
  · rw [strtol_decimal _ (by omega)]
    omega

theorem ofInt_atoi_signedDecimal (v : BitVec 32) :
    BitVec.ofInt 32 (atoi (signedDecimal v.toInt)) = v := by
  have hlt := BitVec.toInt_lt (x := v)
  have hge := BitVec.le_toInt (x := v)
  unfold atoi toInt
  rw [strtol_signedDecimal _ (by omega) (by omega), ← BitVec.toInt_ofInt, BitVec.ofInt_toInt,
    BitVec.ofInt_toInt]

theorem strtol_lt (nptr : CStr) : strtol nptr < 2 ^ 63 := by
  unfold strtol
  dsimp only
  split_ifs <;> omega

example : strtoul "24/".toList = (24, ['/']) := by decide

end IrcdHybrid.Numeral
