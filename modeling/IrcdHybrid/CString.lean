import Mathlib.Data.List.Basic
import Mathlib.Data.Nat.Basic
import Mathlib.Order.Basic

/-!
C strings and the RFC1459 case tables. A string is the list of its bytes up
to, and without, the terminator; a pointer into it is a suffix of the list.
`ToLowerTab` moves 'A'..'^' up by 32 and `ToUpperTab` moves 'a'..'~' down by 32,
so both identify the same letters.
-/

namespace IrcdHybrid.CString

abbrev CStr := List Char

instance : LawfulBEq CStr := inferInstance

def toLower (c : Char) : Char :=
  if 'A' ≤ c ∧ c ≤ '^' then Char.ofNat (c.toNat + 32) else c

def toUpper (c : Char) : Char :=
  if 'a' ≤ c ∧ c ≤ '~' then Char.ofNat (c.toNat - 32) else c

/-- Neither table moves the letter, so it folds with nothing but itself. -/
def Unfolded (c : Char) : Prop := ¬ ('A' ≤ c ∧ c ≤ '^') ∧ ¬ ('a' ≤ c ∧ c ≤ '~')

instance (c : Char) : Decidable (Unfolded c) := inferInstanceAs (Decidable (_ ∧ _))

theorem char_le_iff (c d : Char) : c ≤ d ↔ c.toNat ≤ d.toNat := Iff.rfl

theorem char_eq_of_toNat (c d : Char) (h : c.toNat = d.toNat) : c = d := Char.toNat_inj.mp h

theorem toNat_ofNat_small (n : ℕ) (h : n < 55296) : (Char.ofNat n).toNat = n := by
  have hv : n.isValidChar := Or.inl h
  unfold Char.ofNat
  rw [dif_pos hv]
  rfl

theorem toNat_toLower (c : Char) :
    (toLower c).toNat = if 65 ≤ c.toNat ∧ c.toNat ≤ 94 then c.toNat + 32 else c.toNat := by
  have hA : ('A' ≤ c ∧ c ≤ '^') ↔ (65 ≤ c.toNat ∧ c.toNat ≤ 94) := Iff.rfl
  by_cases h : 65 ≤ c.toNat ∧ c.toNat ≤ 94
  · rw [toLower, if_pos (hA.mpr h), if_pos h, toNat_ofNat_small _ (by omega)]
  · rw [toLower, if_neg (fun hc => h (hA.mp hc)), if_neg h]

theorem toNat_toUpper (c : Char) :
    (toUpper c).toNat = if 97 ≤ c.toNat ∧ c.toNat ≤ 126 then c.toNat - 32 else c.toNat := by
  have ha : ('a' ≤ c ∧ c ≤ '~') ↔ (97 ≤ c.toNat ∧ c.toNat ≤ 126) := Iff.rfl
  by_cases h : 97 ≤ c.toNat ∧ c.toNat ≤ 126
  · rw [toUpper, if_pos (ha.mpr h), if_pos h, toNat_ofNat_small _ (by omega)]
  · rw [toUpper, if_neg (fun hc => h (ha.mp hc)), if_neg h]

/-- The two tables induce the same equivalence of letters. -/
theorem toUpper_eq_iff (c d : Char) : toUpper c = toUpper d ↔ toLower c = toLower d := by
  have hu : toUpper c = toUpper d ↔ (toUpper c).toNat = (toUpper d).toNat :=
    ⟨congrArg _, char_eq_of_toNat _ _⟩
  have hl : toLower c = toLower d ↔ (toLower c).toNat = (toLower d).toNat :=
    ⟨congrArg _, char_eq_of_toNat _ _⟩
  rw [hu, hl, toNat_toUpper, toNat_toUpper, toNat_toLower, toNat_toLower]
  split_ifs <;> omega

theorem toLower_eq_iff_of_unfolded (c d : Char) (hc : Unfolded c) :
    toLower d = toLower c ↔ d = c := by
  refine ⟨fun h => ?_, congrArg toLower⟩
  have hl := congrArg Char.toNat h
  rw [toNat_toLower, toNat_toLower] at hl
  obtain ⟨h1, h2⟩ := hc
  simp only [char_le_iff, Char.reduceToNat] at h1 h2
  apply char_eq_of_toNat
  split_ifs at hl <;> omega

/-- Case-insensitive comparison: 0 when equal, 1 otherwise. -/
def irccmp : CStr → CStr → ℕ
  | [], [] => 0
  | c :: s, d :: t => if toUpper c = toUpper d then irccmp s t else 1
  | _, _ => 1

theorem irccmp_eq_zero_iff (s t : CStr) : irccmp s t = 0 ↔ s.map toUpper = t.map toUpper := by
  induction s generalizing t with
  | nil => cases t <;> simp [irccmp]
  | cons c s ih =>
    cases t with
    | nil => simp [irccmp]
    | cons d t =>
      by_cases h : toUpper c = toUpper d
      · simp [irccmp, h, ih]
      · simp [irccmp, h]

@[simp] theorem irccmp_self (s : CStr) : irccmp s s = 0 := (irccmp_eq_zero_iff s s).mpr rfl

theorem irccmp_comm_zero (s t : CStr) : irccmp s t = 0 ↔ irccmp t s = 0 := by
  rw [irccmp_eq_zero_iff, irccmp_eq_zero_iff, eq_comm]

theorem irccmp_trans_zero (s t u : CStr) (hst : irccmp s t = 0) (htu : irccmp t u = 0) :
    irccmp s u = 0 := by
  rw [irccmp_eq_zero_iff] at hst htu ⊢
  exact hst.trans htu

/-- The characters without letter case: only the string of them is equal to it. -/
theorem irccmp_zero_of_unfolded (s t : CStr) (hs : ∀ c ∈ s, Unfolded c) :
    irccmp t s = 0 ↔ t = s := by
  induction s generalizing t with
  | nil => cases t <;> simp [irccmp]
  | cons c s ih =>
    cases t with
    | nil => simp [irccmp]
    | cons d t =>
      have hc : Unfolded c := hs c List.mem_cons_self
      have htail := ih t fun e he => hs e (List.mem_cons_of_mem c he)
      have hiff := (toUpper_eq_iff d c).trans (toLower_eq_iff_of_unfolded c d hc)
      by_cases h : d = c
      · subst h
        simp [irccmp, htail]
      · simp [irccmp, hiff, h]

/-- `strlcpy` into a buffer of the given size. -/
def strlcpy (src : CStr) (size : ℕ) : CStr := src.take (size - 1)

theorem strlcpy_of_le (src : CStr) (size : ℕ) (h : src.length ≤ size) :
    strlcpy src (size + 1) = src := List.take_of_length_le (by simpa using h)

def isDigit (c : Char) : Bool := '0' ≤ c && c ≤ '9'

def isLetter (c : Char) : Bool := ('A' ≤ c && c ≤ 'Z') || ('a' ≤ c && c ≤ 'z')

def isNickChar (c : Char) : Bool := c = '-' || isDigit c || ('A' ≤ c && c ≤ '}')

def isHostChar (c : Char) : Bool := c = '-' || c = '.' || c = ':' || isDigit c || isLetter c

def isEol (c : Char) : Bool := c = '\n' || c = '\r'

end IrcdHybrid.CString
