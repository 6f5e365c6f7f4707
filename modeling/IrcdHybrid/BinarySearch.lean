import Mathlib.Data.List.Find
import Mathlib.Data.Int.Basic

/-!
`bsearch` of the C library: the middle of an array is compared with the key, and the search goes
on in the half that may hold a match. On an array that is in order for the key it finds the
match that there is.
-/

namespace IrcdHybrid.BinarySearch

variable {α : Type*} (compar : α → ℤ)

/-- `compar` is the order of the key and a member: negative where the key comes first. -/
def search : ℕ → List α → Option α
  | 0, _ => none
  | fuel + 1, l =>
    match l[l.length / 2]? with
    | none => none
    | some p =>
      if compar p < 0 then search fuel (l.take (l.length / 2))
      else if compar p > 0 then search fuel (l.drop (l.length / 2 + 1))
      else some p

def bsearch (l : List α) : Option α := search compar l.length l

/-- A member that the key does not come before comes behind only members that the key follows. -/
def InOrder (l : List α) : Prop := l.Pairwise fun a b => 0 ≤ compar b → 0 < compar a

theorem find?_eq_none_of_ne (l : List α) (h : ∀ a ∈ l, compar a ≠ 0) :
    l.find? (fun a => compar a = 0) = none := by
  apply List.find?_eq_none.mpr
  intro a ha
  simpa using h a ha

/-- `p` is the middle member, with `front` before it. -/
theorem find?_middle (front back : List α) (p : α) (h : InOrder compar (front ++ p :: back)) :
    (front ++ p :: back).find? (fun a => compar a = 0) =
      if compar p < 0 then front.find? fun a => compar a = 0
      else if compar p > 0 then back.find? fun a => compar a = 0
      else some p := by
  obtain ⟨-, hpback, hcross⟩ := List.pairwise_append.mp h
  have hp := (List.pairwise_cons.mp hpback).1
  rw [List.find?_append]
  by_cases hneg : compar p < 0
  · have hback : back.find? (fun a => compar a = 0) = none := by
      apply find?_eq_none_of_ne
      intro b hb hzero
      have hpos := hp b hb (by omega)
      omega
    have hne : ¬ compar p = 0 := by omega
    simp [hneg, hne, hback]
  · have hfront : front.find? (fun a => compar a = 0) = none := by
      apply find?_eq_none_of_ne
      intro a ha hzero
      have hpos := hcross a ha p (by simp) (by omega)
      omega
    rw [hfront, if_neg hneg]
    by_cases hpos : compar p > 0
    · have hne : ¬ compar p = 0 := by omega
      simp [hpos, hne]
    · have hzero : compar p = 0 := by omega
      simp [hzero]

theorem search_eq_find? (fuel : ℕ) (l : List α) (hfuel : l.length ≤ fuel)
    (h : InOrder compar l) : search compar fuel l = l.find? fun a => compar a = 0 := by
  induction fuel generalizing l with
  | zero =>
    obtain rfl := List.length_eq_zero_iff.mp (Nat.le_zero.mp hfuel)
    rfl
  | succ fuel ih =>
    rw [search]
    by_cases hl : l = []
    · subst hl
      rfl
    · have hpos : 0 < l.length := List.length_pos_iff.mpr hl
      have hmid : l.length / 2 < l.length := by omega
      have hsplit : l.take (l.length / 2) ++ l[l.length / 2] :: l.drop (l.length / 2 + 1) = l := by
        rw [← List.drop_eq_getElem_cons hmid, List.take_append_drop]
      have hfind := find?_middle compar (l.take (l.length / 2)) (l.drop (l.length / 2 + 1))
        l[l.length / 2] (hsplit.symm ▸ h)
      rw [hsplit] at hfind
      have hfront := ih (l.take (l.length / 2)) (by rw [List.length_take]; omega)
        (h.sublist (List.take_sublist _ _))
      have hback := ih (l.drop (l.length / 2 + 1)) (by rw [List.length_drop]; omega)
        (h.sublist (List.drop_sublist _ _))
      rw [List.getElem?_eq_getElem hmid, hfind]
      dsimp only
      rw [hfront, hback]

theorem bsearch_eq_find? (l : List α) (h : InOrder compar l) :
    bsearch compar l = l.find? fun a => compar a = 0 :=
  search_eq_find? compar l.length l (le_refl _) h

end IrcdHybrid.BinarySearch
