import Mathlib.Data.List.Nodup
import Mathlib.Logic.Function.Basic

/-!
A relation that is kept twice: each thing of one kind has a list of those of the other kind it
is related to. The two sides stay the same relation when a pair is put on both lists or taken
from both.
-/

namespace IrcdHybrid.PairedLists

open Function

variable {ι κ : Type*} [DecidableEq ι] [DecidableEq κ]

/-- The two sides say the same, and nothing is on a list twice. -/
structure Paired (left : ι → List κ) (right : κ → List ι) : Prop where
  mem_iff : ∀ i k, k ∈ left i ↔ i ∈ right k
  left_nodup : ∀ i, (left i).Nodup
  right_nodup : ∀ k, (right k).Nodup

/-- Take a pair from a list. -/
def unlinked (lists : ι → List κ) (i : ι) (k : κ) : ι → List κ :=
  update lists i ((lists i).erase k)

/-- Put a pair on a list. -/
def linked (lists : ι → List κ) (i : ι) (k : κ) : ι → List κ := update lists i (k :: lists i)

variable {left : ι → List κ} {right : κ → List ι}

theorem mem_unlinked (hnodup : ∀ i, (left i).Nodup) (i j : ι) (k m : κ) :
    m ∈ unlinked left i k j ↔ m ∈ left j ∧ ¬ (j = i ∧ m = k) := by
  unfold unlinked
  by_cases hj : j = i
  · subst hj
    rw [update_self, (hnodup j).mem_erase_iff]
    tauto
  · rw [update_of_ne hj]
    tauto

omit [DecidableEq κ] in
theorem mem_linked (i j : ι) (k m : κ) :
    m ∈ linked left i k j ↔ m ∈ left j ∨ (j = i ∧ m = k) := by
  unfold linked
  by_cases hj : j = i
  · subst hj
    rw [update_self, List.mem_cons]
    tauto
  · rw [update_of_ne hj]
    tauto

theorem unlinked_nodup (hnodup : ∀ i, (left i).Nodup) (i : ι) (k : κ) (j : ι) :
    (unlinked left i k j).Nodup := by
  unfold unlinked
  by_cases hj : j = i
  · subst hj
    rw [update_self]
    exact (hnodup j).erase k
  · rw [update_of_ne hj]
    exact hnodup j

omit [DecidableEq κ] in
theorem linked_nodup (hnodup : ∀ i, (left i).Nodup) (i : ι) (k : κ) (hk : k ∉ left i) (j : ι) :
    (linked left i k j).Nodup := by
  unfold linked
  by_cases hj : j = i
  · subst hj
    rw [update_self]
    exact List.nodup_cons.mpr ⟨hk, hnodup j⟩
  · rw [update_of_ne hj]
    exact hnodup j

omit [DecidableEq ι] [DecidableEq κ] in
theorem paired_empty : Paired (fun _ : ι => ([] : List κ)) (fun _ => []) :=
  ⟨fun _ _ => iff_of_false List.not_mem_nil List.not_mem_nil, fun _ => List.nodup_nil,
    fun _ => List.nodup_nil⟩

theorem Paired.unlink (h : Paired left right) (i : ι) (k : κ) :
    Paired (unlinked left i k) (unlinked right k i) := by
  refine ⟨fun j m => ?_, unlinked_nodup h.left_nodup i k, unlinked_nodup h.right_nodup k i⟩
  rw [mem_unlinked h.left_nodup, mem_unlinked h.right_nodup, h.mem_iff]
  tauto

theorem Paired.link (h : Paired left right) (i : ι) (k : κ) (hk : k ∉ left i) :
    Paired (linked left i k) (linked right k i) := by
  have hi : i ∉ right k := fun hmem => hk ((h.mem_iff i k).mpr hmem)
  refine ⟨fun j m => ?_, linked_nodup h.left_nodup i k hk, linked_nodup h.right_nodup k i hi⟩
  rw [mem_linked, mem_linked, h.mem_iff]
  tauto

end IrcdHybrid.PairedLists
