import Mathlib.Logic.Function.Basic

/-!
Records under keys. No two records have the same key, and a record may have none; a search
by key that finds somebody with the key, whenever there is somebody, finds the only one.
-/

namespace IrcdHybrid.UniqueKeys

variable {ι κ : Type*}

def OneEach (key : ι → Option κ) : Prop := ∀ p q k, key p = some k → key q = some k → p = q

section Change

variable (key key' : ι → Option κ) (h : OneEach key)

include h

theorem oneEach_lose (hsub : ∀ p k, key' p = some k → key p = some k) : OneEach key' :=
  fun p q k hp hq => h p q k (hsub p k hp) (hsub q k hq)

theorem oneEach_take (p : ι) (hother : ∀ q, q ≠ p → key' q = key q)
    (hfree : ∀ k, key' p = some k → ∀ q, q ≠ p → key q ≠ some k) : OneEach key' := by
  intro a b k ha hb
  by_cases hap : a = p
  · by_cases hbp : b = p
    · rw [hap, hbp]
    · rw [hother b hbp] at hb
      rw [hap] at ha
      exact absurd hb (hfree k ha b hbp)
  · rw [hother a hap] at ha
    by_cases hbp : b = p
    · rw [hbp] at hb
      exact absurd ha (hfree k hb a hap)
    · rw [hother b hbp] at hb
      exact h a b k ha hb

end Change

/-- What a search by key comes to. -/
structure Search (key : ι → Option κ) (k : κ) (found : Option ι) : Prop where
  sound : ∀ p, found = some p → key p = some k
  complete : found = none → ∀ p, key p ≠ some k

theorem search_iff (key : ι → Option κ) (h : OneEach key) (k : κ) (found : Option ι)
    (hsearch : Search key k found) (p : ι) : found = some p ↔ key p = some k := by
  refine ⟨hsearch.sound p, fun hp => ?_⟩
  cases hfound : found with
  | none => exact absurd hp (hsearch.complete hfound p)
  | some q => rw [h q p k (hsearch.sound q hfound) hp]

end IrcdHybrid.UniqueKeys
