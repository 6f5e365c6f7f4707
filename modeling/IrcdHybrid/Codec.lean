import Mathlib.Algebra.Ring.Nat
import Mathlib.Data.List.Basic
import Mathlib.Data.List.TakeDrop

/-!
Formats that notice the end of the input. What is written is read back whatever follows
it, and a proper front of it is no value: the reader runs to the end of the input and
fails. So a reader that works its way through the first symbols of a long text reads
every value that lies in them completely, and nothing of the one that is cut.
-/

namespace IrcdHybrid.Codec

variable {β α : Type*}

structure Format (β α : Type*) where
  Valid : α → Prop
  write : α → List β
  read : List β → Option α × List β
  read_write : ∀ a rest, Valid a → read (write a ++ rest) = (some a, rest)
  read_cut : ∀ a front, Valid a → front <+: write a → front ≠ write a → read front = (none, [])
  read_nil : read [] = (none, [])

/-- How many symbols the value takes. -/
def Format.size (c : Format β α) (a : α) : ℕ := (c.write a).length

/-- Reading from the first `n` symbols of a text that starts with a value. -/
theorem Format.read_take (c : Format β α) (a : α) (rest : List β) (n : ℕ) (h : c.Valid a) :
    c.read ((c.write a ++ rest).take n) =
      if c.size a ≤ n then (some a, rest.take (n - c.size a)) else (none, []) := by
  unfold Format.size
  by_cases hn : (c.write a).length ≤ n
  · rw [if_pos hn, List.take_append, List.take_of_length_le hn]
    exact c.read_write a _ h
  · rw [if_neg hn, List.take_append_of_le_length (by omega)]
    apply c.read_cut a _ h (List.take_prefix n _)
    intro heq
    have hlen := congrArg List.length heq
    rw [List.length_take] at hlen
    omega

section Number

variable (base : ℕ) [NeZero base]

/-- The `k` lowest digits of a number. -/
def digits : ℕ → ℕ → List (Fin base)
  | 0, _ => []
  | k + 1, v => digits k (v / base) ++ [Fin.ofNat base v]

def value (ds : List (Fin base)) : ℕ := ds.foldl (fun v d => base * v + d.val) 0

theorem length_digits (k v : ℕ) : (digits base k v).length = k := by
  induction k generalizing v with
  | zero => rfl
  | succ k ih => simp [digits, ih]

theorem value_digits (k v : ℕ) (h : v < base ^ k) : value base (digits base k v) = v := by
  induction k generalizing v with
  | zero =>
    rw [Nat.pow_zero] at h
    show 0 = v
    omega
  | succ k ih =>
    have hdiv : v / base < base ^ k := by
      apply Nat.div_lt_of_lt_mul
      rwa [← Nat.pow_succ']
    have hrec := ih (v / base) hdiv
    unfold value at hrec ⊢
    unfold digits
    rw [List.foldl_append, hrec]
    exact Nat.div_add_mod v base

theorem digits_mod (k v : ℕ) : digits base k (v % base ^ k) = digits base k v := by
  induction k generalizing v with
  | zero => rfl
  | succ k ih =>
    have hdiv : v % base ^ (k + 1) / base = v / base % base ^ k := by
      rw [Nat.pow_succ', Nat.mod_mul_right_div_self]
    have hlow : Fin.ofNat base (v % base ^ (k + 1)) = Fin.ofNat base v := by
      apply Fin.ext
      show v % base ^ (k + 1) % base = v % base
      rw [Nat.pow_succ', Nat.mod_mul_right_mod]
    unfold digits
    rw [hdiv, ih, hlow]

/-- `k` digits at a time. -/
def number (k : ℕ) (hk : 0 < k) : Format (Fin base) ℕ where
  Valid v := v < base ^ k
  write := digits base k
  read f := if k ≤ f.length then (some (value base (f.take k)), f.drop k) else (none, [])
  read_write := by
    intro v rest hv
    have hlen := length_digits base k v
    rw [if_pos (by rw [List.length_append]; omega), List.take_left' hlen, List.drop_left' hlen,
      value_digits base k v hv]
  read_cut := by
    intro v front _ hfront hne
    have hlen := length_digits base k v
    have hlt := hfront.length_le
    have hneq : front.length ≠ (digits base k v).length := by
      intro heq
      exact hne (hfront.eq_of_length heq)
    rw [if_neg (by omega)]
  read_nil := by
    rw [if_neg (by simp; omega)]

end Number

/-- The values that lie completely in the first `n` symbols. -/
def contained (size : α → ℕ) : List α → ℕ → List α
  | [], _ => []
  | a :: as, n => if size a ≤ n then a :: contained size as (n - size a) else []

theorem contained_initial (size : α → ℕ) (as : List α) (n : ℕ) : contained size as n <+: as := by
  induction as generalizing n with
  | nil => exact List.prefix_refl _
  | cons a as ih =>
    unfold contained
    split
    · exact (List.prefix_cons_inj a).mpr (ih _)
    · exact List.nil_prefix

theorem contained_zero (size : α → ℕ) (as : List α) (h : ∀ a, 0 < size a) :
    contained size as 0 = [] := by
  cases as with
  | nil => rfl
  | cons a as =>
    have hpos := h a
    unfold contained
    rw [if_neg (by omega)]

theorem contained_eq_self_iff (size : α → ℕ) (as : List α) (n : ℕ) :
    contained size as n = as ↔ (as.map size).sum ≤ n := by
  induction as generalizing n with
  | nil => simp [contained]
  | cons a as ih =>
    unfold contained
    rw [List.map_cons, List.sum_cons]
    by_cases ha : size a ≤ n
    · rw [if_pos ha, List.cons_inj_right, ih]
      omega
    · rw [if_neg ha]
      constructor
      · intro h
        exact absurd h (by simp)
      · intro h
        exact absurd h (by omega)

end IrcdHybrid.Codec
