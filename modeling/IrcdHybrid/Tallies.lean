import Mathlib.Data.Set.Card

/-!
Unsigned counters of 32 bits that follow a set. A counter that is right stays right when one
element may come or go and the counter is moved by as much.
-/

namespace IrcdHybrid.Tallies

variable {α : Type*}

def bit (b : Bool) : BitVec 32 := if b then 1#32 else 0#32

/-- The counter is the number of the elements, as far as an unsigned number can be. -/
def Tally (count : BitVec 32) (s : Set α) : Prop := s.Finite ∧ count = BitVec.ofNat 32 s.ncard

theorem tally_empty : Tally 0#32 (∅ : Set α) := ⟨Set.finite_empty, by simp⟩

theorem ofNat_succ (n : ℕ) : BitVec.ofNat 32 (n + 1) = BitVec.ofNat 32 n + 1#32 :=
  BitVec.ofNat_add n 1

/-- Only `p` may come or go; `was` and `is` say whether it is counted. -/
theorem tally_change (count count' : BitVec 32) (s s' : Set α) (p : α) (was now : Bool)
    (h : Tally count s) (hwas : was = true ↔ p ∈ s) (hnow : now = true ↔ p ∈ s')
    (hother : ∀ q, q ≠ p → (q ∈ s' ↔ q ∈ s)) (hcount : count' + bit was = count + bit now) :
    Tally count' s' := by
  obtain ⟨hfin, rfl⟩ := h
  cases was with
  | false =>
    have hp : p ∉ s := fun hp => by simpa using hwas.mpr hp
    cases now with
    | false =>
      have hp' : p ∉ s' := fun hp => by simpa using hnow.mpr hp
      have hsame : s' = s := by
        ext q
        by_cases hq : q = p
        · subst hq
          simp [hp, hp']
        · exact hother q hq
      rw [hsame]
      exact ⟨hfin, by simpa [bit] using hcount⟩
    | true =>
      have hins : s' = insert p s := by
        ext q
        by_cases hq : q = p
        · subst hq
          simp [hnow.mp rfl]
        · simp [hother q hq, hq]
      rw [hins]
      refine ⟨hfin.insert p, ?_⟩
      rw [Set.ncard_insert_of_notMem hp hfin, ofNat_succ]
      simpa [bit] using hcount
  | true =>
    have hp : p ∈ s := hwas.mp rfl
    cases now with
    | false =>
      have hp' : p ∉ s' := fun hp => by simpa using hnow.mpr hp
      have hdiff : s = insert p s' := by
        ext q
        by_cases hq : q = p
        · subst hq
          simp [hp]
        · simp [hother q hq, hq]
      have hfin' : s'.Finite := hfin.subset (hdiff ▸ Set.subset_insert p s')
      refine ⟨hfin', ?_⟩
      rw [hdiff, Set.ncard_insert_of_notMem hp' hfin', ofNat_succ] at hcount
      simpa [bit] using hcount
    | true =>
      have hsame : s' = s := by
        ext q
        by_cases hq : q = p
        · subst hq
          simp [hp, hnow.mp rfl]
        · exact hother q hq
      rw [hsame]
      exact ⟨hfin, by simpa [bit] using hcount⟩

theorem tally_same (count : BitVec 32) (s s' : Set α) (h : Tally count s)
    (hsame : ∀ q, q ∈ s' ↔ q ∈ s) : Tally count s' := by
  have heq : s' = s := Set.ext hsame
  exact heq ▸ h

end IrcdHybrid.Tallies
