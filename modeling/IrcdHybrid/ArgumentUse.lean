import Mathlib.Order.Basic

/-!
What a procedure does with its argument vector: which arguments it reads, and which of them it
first asks about. Whatever else it asks is left open. It is safe on a vector when no course it
can take reads an argument that is not there; that is decided from the number of arguments alone.
-/

namespace IrcdHybrid.ArgumentUse

/-- A place of the vector: never written, written with no argument, or with one. -/
inductive Slot (τ : Type)
  | unset
  | null
  | value (v : τ)
  deriving DecidableEq

inductive Use (α : Type)
  | pure (a : α)
  | deref (i : ℕ) (next : Use α)
  | isEmpty (i : ℕ) (next : Bool → Use α)
  | isNull (i : ℕ) (next : Bool → Use α)
  | other (next : Bool → Use α)

namespace Use

variable {α β τ : Type}

def bind : Use α → (α → Use β) → Use β
  | .pure a, f => f a
  | .deref i next, f => .deref i (next.bind f)
  | .isEmpty i next, f => .isEmpty i fun b => (next b).bind f
  | .isNull i next, f => .isNull i fun b => (next b).bind f
  | .other next, f => .other fun b => (next b).bind f

instance : Monad Use where
  pure := .pure
  bind := .bind

/-- Nothing that is not there is read, and what comes out is as it should be. -/
def Safe (empty : τ → Bool) (args : ℕ → Slot τ) (post : α → Prop) : Use α → Prop
  | .pure a => post a
  | .deref i next => (∃ v, args i = .value v) ∧ next.Safe empty args post
  | .isEmpty i next =>
    match args i with
    | .unset => False
    | .null => (next true).Safe empty args post
    | .value v => (next (empty v)).Safe empty args post
  | .isNull i next =>
    match args i with
    | .unset => False
    | .null => (next true).Safe empty args post
    | .value _ => (next false).Safe empty args post
  | .other next => ∀ b, (next b).Safe empty args post

/-- The same procedure on the arguments from the `k`-th on. -/
def shift (k : ℕ) : Use α → Use α
  | .pure a => .pure a
  | .deref i next => .deref (i + k) (next.shift k)
  | .isEmpty i next => .isEmpty (i + k) fun b => (next b).shift k
  | .isNull i next => .isNull (i + k) fun b => (next b).shift k
  | .other next => .other fun b => (next b).shift k

/-- Whether it is safe wherever there are `n` arguments, whatever they are. -/
def check (n : ℕ) : Use α → Bool
  | .pure _ => true
  | .deref i next => decide (i < n) && next.check n
  | .isEmpty i next =>
    if i < n then (next true).check n && (next false).check n
    else decide (i = n) && (next true).check n
  | .isNull i next =>
    if i < n then (next false).check n else decide (i = n) && (next true).check n
  | .other next => (next true).check n && (next false).check n

end Use

/-- One argument is read, or asked about. -/
def deref (i : ℕ) : Use Unit := .deref i (.pure ())
def isEmpty (i : ℕ) : Use Bool := .isEmpty i .pure
def isNull (i : ℕ) : Use Bool := .isNull i .pure
def other : Use Bool := .other .pure

/-- Several arguments, one after the other. -/
def derefs : List ℕ → Use Unit
  | [] => pure ()
  | i :: l => .deref i (derefs l)

/-- There are `n` arguments, and nothing in the place behind them. -/
structure Filled {τ : Type} (args : ℕ → Slot τ) (n : ℕ) : Prop where
  value : ∀ i, i < n → ∃ v, args i = .value v
  null : args n = .null

namespace Use

variable {α β τ : Type} (empty : τ → Bool) (args : ℕ → Slot τ)

@[simp] theorem pure_eq (a : α) : (Pure.pure a : Use α) = .pure a := rfl

@[simp] theorem bind_eq (x : Use α) (f : α → Use β) : x >>= f = x.bind f := rfl

@[simp] theorem safe_pure (post : α → Prop) (a : α) :
    (Use.pure a).Safe empty args post ↔ post a := Iff.rfl

theorem safe_bind (x : Use α) (f : α → Use β) (post : β → Prop) :
    (x.bind f).Safe empty args post ↔
      x.Safe empty args fun a => (f a).Safe empty args post := by
  induction x with
  | pure a => exact Iff.rfl
  | deref i next ih => exact and_congr_right fun _ => ih
  | isEmpty i next ih =>
    unfold bind Safe
    cases args i with
    | unset => exact Iff.rfl
    | null => exact ih true
    | value v => exact ih (empty v)
  | isNull i next ih =>
    unfold bind Safe
    cases args i with
    | unset => exact Iff.rfl
    | null => exact ih true
    | value v => exact ih false
  | other next ih => exact forall_congr' fun b => ih b

theorem safe_shift (k : ℕ) (post : α → Prop) (x : Use α) :
    (x.shift k).Safe empty args post ↔ x.Safe empty (fun i => args (i + k)) post := by
  induction x with
  | pure a => exact Iff.rfl
  | deref i next ih => exact and_congr_right fun _ => ih
  | isEmpty i next ih =>
    unfold shift Safe
    cases args (i + k) with
    | unset => exact Iff.rfl
    | null => exact ih true
    | value v => exact ih (empty v)
  | isNull i next ih =>
    unfold shift Safe
    cases args (i + k) with
    | unset => exact Iff.rfl
    | null => exact ih true
    | value v => exact ih false
  | other next ih => exact forall_congr' fun b => ih b

theorem safe_derefs (l : List ℕ) (post : Unit → Prop) :
    (derefs l).Safe empty args post ↔ (∀ i ∈ l, ∃ v, args i = .value v) ∧ post () := by
  induction l with
  | nil => simp [derefs]
  | cons i l ih =>
    show (∃ v, args i = .value v) ∧ (derefs l).Safe empty args post ↔ _
    rw [ih, List.forall_mem_cons, and_assoc]

theorem safe_of_check (n : ℕ) (hargs : Filled args n) (x : Use α) (h : x.check n = true) :
    x.Safe empty args fun _ => True := by
  induction x with
  | pure a => trivial
  | deref i next ih =>
    obtain ⟨hi, hnext⟩ := Bool.and_eq_true_iff.mp h
    exact ⟨hargs.value i (of_decide_eq_true hi), ih hnext⟩
  | isEmpty i next ih =>
    unfold check at h
    unfold Safe
    by_cases hi : i < n
    · rw [if_pos hi] at h
      obtain ⟨htrue, hfalse⟩ := Bool.and_eq_true_iff.mp h
      obtain ⟨v, hv⟩ := hargs.value i hi
      rw [hv]
      show (next (empty v)).Safe empty args _
      cases empty v with
      | true => exact ih true htrue
      | false => exact ih false hfalse
    · rw [if_neg hi] at h
      obtain ⟨heq, htrue⟩ := Bool.and_eq_true_iff.mp h
      rw [of_decide_eq_true heq, hargs.null]
      exact ih true htrue
  | isNull i next ih =>
    unfold check at h
    unfold Safe
    by_cases hi : i < n
    · rw [if_pos hi] at h
      obtain ⟨v, hv⟩ := hargs.value i hi
      rw [hv]
      exact ih false h
    · rw [if_neg hi] at h
      obtain ⟨heq, htrue⟩ := Bool.and_eq_true_iff.mp h
      rw [of_decide_eq_true heq, hargs.null]
      exact ih true htrue
  | other next ih =>
    obtain ⟨htrue, hfalse⟩ := Bool.and_eq_true_iff.mp h
    intro b
    cases b with
    | true => exact ih true htrue
    | false => exact ih false hfalse

end Use

end IrcdHybrid.ArgumentUse
