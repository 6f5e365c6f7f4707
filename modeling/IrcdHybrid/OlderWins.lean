import Mathlib.Data.Set.Image
import Mathlib.Algebra.Order.Ring.Int

/-!
Two holders of one thing meet. Each has a time, a value and a roster; the older
one's value stands and the other one's roster is kept in a reduced form. Where
the times are equal, or one of them is not known (zero), the values are joined.
-/

namespace IrcdHybrid.OlderWins

@[ext] structure Holding (α β : Type*) where
  time : ℤ
  value : α
  roster : Set β

variable {α β : Type*}

/-- Neither time is known to be the older one. -/
def Tied (h k : Holding α β) : Prop := h.time = 0 ∨ k.time = 0 ∨ h.time = k.time

instance (h k : Holding α β) : Decidable (Tied h k) := inferInstanceAs (Decidable (_ ∨ _ ∨ _))

theorem tied_comm (h k : Holding α β) : Tied h k ↔ Tied k h := by
  unfold Tied
  omega

variable (join : α → α → α) (strip : β → β)

/-- What two holders agree on. -/
def merge (h k : Holding α β) : Holding α β :=
  if Tied h k then
    ⟨if h.time = 0 ∨ k.time = 0 then 0 else h.time, join h.value k.value, h.roster ∪ k.roster⟩
  else if h.time < k.time then ⟨h.time, h.value, h.roster ∪ strip '' k.roster⟩
  else ⟨k.time, k.value, k.roster ∪ strip '' h.roster⟩

theorem merge_tied (h k : Holding α β) (htied : Tied h k) :
    merge join strip h k =
      ⟨if h.time = 0 ∨ k.time = 0 then 0 else h.time, join h.value k.value,
        h.roster ∪ k.roster⟩ := if_pos htied

theorem merge_older (h k : Holding α β) (htied : ¬ Tied h k) (hlt : h.time < k.time) :
    merge join strip h k = ⟨h.time, h.value, h.roster ∪ strip '' k.roster⟩ := by
  rw [merge, if_neg htied, if_pos hlt]

theorem merge_younger (h k : Holding α β) (htied : ¬ Tied h k) (hlt : k.time < h.time) :
    merge join strip h k = ⟨k.time, k.value, k.roster ∪ strip '' h.roster⟩ := by
  rw [merge, if_neg htied, if_neg (by omega)]

theorem merge_comm (hcomm : ∀ a b, join a b = join b a) (h k : Holding α β) :
    merge join strip h k = merge join strip k h := by
  by_cases htied : Tied h k
  · rw [merge_tied join strip h k htied, merge_tied join strip k h ((tied_comm h k).mp htied),
      hcomm, Set.union_comm]
    congr 1
    unfold Tied at htied
    split_ifs <;> omega
  · have htied' : ¬ Tied k h := fun hkh => htied ((tied_comm k h).mp hkh)
    rcases lt_or_ge h.time k.time with hlt | hge
    · rw [merge_older join strip h k htied hlt, merge_younger join strip k h htied' hlt]
    · have hlt : k.time < h.time := by
        unfold Tied at htied
        omega
      rw [merge_younger join strip h k htied hlt, merge_older join strip k h htied' hlt]

end IrcdHybrid.OlderWins
