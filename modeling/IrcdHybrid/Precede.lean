import Mathlib.Data.List.Induction

/-!
Lists in which everything that an item refers to stands in front of it.
-/

namespace IrcdHybrid.Precede

variable {α : Type*} (refs : α → α → Prop)

/-- What an item refers to comes earlier. -/
def Earlier (l : List α) : Prop :=
  ∀ before i after, l = before ++ i :: after → ∀ r, refs i r → r ∈ before

theorem earlier_nil : Earlier refs [] := by
  intro before i after h
  exact absurd h (by simp)

theorem earlier_concat (l : List α) (i : α) (h : Earlier refs l) (hi : ∀ r, refs i r → r ∈ l) :
    Earlier refs (l ++ [i]) := by
  intro before j after hsplit r hr
  rcases List.eq_nil_or_concat after with rfl | ⟨after', last, rfl⟩
  · obtain ⟨hl, hj⟩ := List.append_inj' hsplit rfl
    rw [← hl]
    rw [← (List.cons.inj hj).1] at hr
    exact hi r hr
  · have hl : l ++ [i] = (before ++ j :: after') ++ [last] := by
      rw [hsplit]
      simp
    exact h before j after' (List.append_inj' hl rfl).1 r hr

theorem earlier_append (l l' : List α) (h : Earlier refs l)
    (h' : ∀ i ∈ l', ∀ r, refs i r → r ∈ l) : Earlier refs (l ++ l') := by
  induction l' using List.reverseRecOn with
  | nil =>
    rw [List.append_nil]
    exact h
  | append_singleton l' i ih =>
    rw [← List.append_assoc]
    refine earlier_concat refs _ i (ih fun j hj => h' j (List.mem_append_left _ hj)) fun r hr => ?_
    exact List.mem_append_left _ (h' i (by simp) r hr)

/-- An item of a concatenation stands in one of the lists it is made of. -/
theorem flatMap_split {β : Type*} (f : α → List β) (l : List α) (before : List β) (b : β)
    (after : List β) (h : l.flatMap f = before ++ b :: after) :
    ∃ l₁ a l₂ front back, l = l₁ ++ a :: l₂ ∧ f a = front ++ b :: back ∧
      before = l₁.flatMap f ++ front := by
  induction l generalizing before with
  | nil => exact absurd h (by simp)
  | cons a l ih =>
    rw [List.flatMap_cons] at h
    rcases List.append_eq_append_iff.mp h with ⟨rest, hbefore, hrest⟩ | ⟨rest, hfa, hrest⟩
    · obtain ⟨l₁, a', l₂, front, back, hl, hfa, hfront⟩ := ih rest hrest
      refine ⟨a :: l₁, a', l₂, front, back, by rw [hl, List.cons_append], hfa, ?_⟩
      rw [hbefore, hfront, List.flatMap_cons, List.append_assoc]
    · rcases List.cons_eq_append_iff.mp hrest with ⟨rfl, hl⟩ | ⟨back, rfl, -⟩
      · obtain ⟨l₁, a', l₂, front, back, hl', hfa', hfront⟩ := ih [] hl
        refine ⟨a :: l₁, a', l₂, front, back, by rw [hl', List.cons_append], hfa', ?_⟩
        rw [List.append_nil] at hfa
        rw [List.flatMap_cons, List.append_assoc, ← hfront, List.append_nil, hfa]
      · exact ⟨[], a, l, before, back, rfl, hfa, rfl⟩

end IrcdHybrid.Precede
