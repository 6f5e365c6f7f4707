import Mathlib.Data.List.Basic

/-!
Assignments made one after the other. What a cell holds after them is what the last assignment
to it gave, and what it held before where there is none.
-/

namespace IrcdHybrid.LastWins

variable {σ κ ν α : Type*} [DecidableEq κ]

/-- The last value that is assigned to `k`. -/
def last (key : α → κ) (value : α → ν) (k : κ) (assignments : List α) : Option ν :=
  ((assignments.filter fun a => key a = k).getLast?).map value

@[simp] theorem last_nil (key : α → κ) (value : α → ν) (k : κ) : last key value k [] = none := rfl

theorem last_cons (key : α → κ) (value : α → ν) (k : κ) (a : α) (l : List α) :
    last key value k (a :: l) =
      match last key value k l with
      | some v => some v
      | none => if key a = k then some (value a) else none := by
  unfold last
  by_cases ha : key a = k
  · rw [List.filter_cons_of_pos (by simpa using ha), List.getLast?_cons]
    cases (l.filter fun a => key a = k).getLast? <;> simp [ha]
  · rw [List.filter_cons_of_neg (by simpa using ha)]
    cases (l.filter fun a => key a = k).getLast? <;> simp [ha]

theorem last_map {μ : Type*} (f : ν → μ) (key : α → κ) (value : α → ν) (k : κ) (l : List α) :
    last key (fun a => f (value a)) k l = (last key value k l).map f := by
  simp [last, Function.comp_def]

theorem last_isSome_iff (key : α → κ) (value : α → ν) (k : κ) (l : List α) :
    (last key value k l).isSome ↔ ∃ a ∈ l, key a = k := by
  induction l with
  | nil => simp
  | cons a l ih =>
    simp only [List.mem_cons, exists_eq_or_imp, last_cons, ← ih]
    cases last key value k l with
    | some v => simp
    | none => simp

/-- A step that assigns the one cell, run over a list. The keys in `dom` are the cells. -/
theorem foldl_last (step : σ → α → σ) (get : σ → κ → ν) (key : α → κ) (value : α → ν)
    (dom : Set κ) (l : List α)
    (hstep : ∀ s, ∀ a ∈ l, ∀ k ∈ dom, get (step s a) k = if key a = k then value a else get s k)
    (s : σ) (k : κ) (hk : k ∈ dom) :
    get (l.foldl step s) k = (last key value k l).getD (get s k) := by
  induction l generalizing s with
  | nil => rfl
  | cons a l ih =>
    rw [List.foldl_cons, ih (fun s b hb => hstep s b (List.mem_cons_of_mem a hb)), last_cons]
    cases last key value k l with
    | some v => rfl
    | none =>
      rw [hstep s a (by simp) k hk]
      split <;> rfl

end IrcdHybrid.LastWins
