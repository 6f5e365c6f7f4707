import Mathlib.Data.List.Basic
import Mathlib.Data.List.Nodup
import Mathlib.Data.Nat.ModEq

/-!
A history that is kept in a ring of slots. Whatever is recorded has a number, and is put into the
slot of its number modulo the size; so the slots hold the last ones, and a new one takes the slot
of the oldest.
-/

namespace IrcdHybrid.SlotRing

variable {α : Type*}

/-- The records with their numbers, the newest first. -/
def numbered : List α → List (ℕ × α)
  | [] => []
  | a :: h => (h.length, a) :: numbered h

/-- Those that are still in their slots. -/
def held (size : ℕ) (h : List α) : List (ℕ × α) := (numbered h).take size

theorem numbered_getElem? (h : List α) (j : ℕ) :
    (numbered h)[j]? = h[j]?.map fun a => (h.length - 1 - j, a) := by
  induction h generalizing j with
  | nil => rfl
  | cons a h ih =>
    cases j with
    | zero => rfl
    | succ j =>
      rw [numbered, List.getElem?_cons_succ, List.getElem?_cons_succ, ih, List.length_cons]
      have hindex : h.length - 1 - j = h.length + 1 - 1 - (j + 1) := by omega
      rw [hindex]

theorem numbered_map {β : Type*} (f : α → β) (h : List α) :
    numbered (h.map f) = (numbered h).map fun e => (e.1, f e.2) := by
  induction h with
  | nil => rfl
  | cons a h ih => rw [List.map_cons, numbered, numbered, ih, List.length_map, List.map_cons]

theorem numbered_snd (h : List α) : (numbered h).map Prod.snd = h := by
  induction h with
  | nil => rfl
  | cons a h ih => rw [numbered, List.map_cons, ih]

theorem held_snd (size : ℕ) (h : List α) : (held size h).map Prod.snd = h.take size := by
  rw [held, List.map_take, numbered_snd]

theorem held_map {β : Type*} (size : ℕ) (f : α → β) (h : List α) :
    held size (h.map f) = (held size h).map fun e => (e.1, f e.2) := by
  rw [held, numbered_map, held, List.map_take]

theorem mem_take_numbered (n : ℕ) (h : List α) (e : ℕ × α) :
    e ∈ (numbered h).take n ↔ ∃ j < n, h[j]? = some e.2 ∧ e.1 = h.length - 1 - j := by
  rw [List.mem_iff_getElem?]
  constructor
  · rintro ⟨j, hj⟩
    rw [List.getElem?_take] at hj
    split at hj
    · next hlt =>
      rw [numbered_getElem?] at hj
      obtain ⟨a, ha, rfl⟩ := Option.map_eq_some_iff.mp hj
      exact ⟨j, hlt, ha, rfl⟩
    · simp at hj
  · rintro ⟨j, hlt, ha, hnum⟩
    refine ⟨j, ?_⟩
    rw [List.getElem?_take, if_pos hlt, numbered_getElem?, ha, Option.map_some, ← hnum]

/-- The numbers of what is held are less than `size` apart. -/
theorem mod_inj (size a b : ℕ) (hle : a ≤ b) (hlt : b < a + size) (h : a % size = b % size) :
    a = b := by
  have hmod : (b - a) % size = 0 := Nat.sub_mod_eq_zero_of_mod_eq h.symm
  rw [Nat.mod_eq_of_lt (by omega)] at hmod
  omega

section Held

variable (size : ℕ) (hsize : 0 < size) (h : List α)

include hsize

theorem held_cons (a : α) :
    held size (a :: h) = (h.length, a) :: (numbered h).take (size - 1) := by
  obtain ⟨n, rfl⟩ : ∃ n, size = n + 1 := ⟨size - 1, by omega⟩
  rfl

omit hsize in
/-- But for the oldest, nothing is in the slot that is next. -/
theorem take_ne (e : ℕ × α) (he : e ∈ (numbered h).take (size - 1)) :
    e.1 % size ≠ h.length % size := by
  obtain ⟨j, hj, ha, hnum⟩ := (mem_take_numbered (size - 1) h e).mp he
  have hlen : j < h.length := (List.getElem?_eq_some_iff.mp ha).1
  intro heq
  have hsame := mod_inj size e.1 h.length (by omega) (by omega) heq
  omega

theorem held_filter :
    (held size h).filter (fun e => decide (e.1 % size ≠ h.length % size)) =
      (numbered h).take (size - 1) := by
  have hkeep : ∀ e ∈ (numbered h).take (size - 1),
      decide (e.1 % size ≠ h.length % size) = true :=
    fun e he => decide_eq_true (take_ne size h e he)
  have hdrop : ∀ e ∈ (numbered h)[size - 1]?.toList,
      ¬ decide (e.1 % size ≠ h.length % size) = true := by
    intro e he
    rw [Option.mem_toList, numbered_getElem?] at he
    obtain ⟨a, ha, rfl⟩ := Option.map_eq_some_iff.mp he
    have hlen : size - 1 < h.length := (List.getElem?_eq_some_iff.mp ha).1
    have hmod : (h.length - 1 - (size - 1)) % size = h.length % size := by
      have hsum : h.length - 1 - (size - 1) + size = h.length := by omega
      rw [← Nat.add_mod_right, hsum]
    simp [hmod]
  have hsplit : held size h =
      (numbered h).take (size - 1) ++ (numbered h)[size - 1]?.toList := by
    rw [← List.take_add_one, Nat.sub_add_cancel hsize]
    rfl
  rw [hsplit, List.filter_append, List.filter_eq_self.mpr hkeep,
    List.filter_eq_nil_iff.mpr hdrop, List.append_nil]

theorem held_nodup : ((held size h).map fun e => e.1 % size).Nodup := by
  induction h with
  | nil =>
    rw [held, numbered, List.take_nil]
    exact List.nodup_nil
  | cons a h ih =>
    rw [held_cons size hsize, List.map_cons, List.nodup_cons]
    constructor
    · intro hmem
      obtain ⟨e, he, heq⟩ := List.mem_map.mp hmem
      exact take_ne size h e he heq
    · have hsub : List.Sublist ((numbered h).take (size - 1)) (held size h) :=
        List.take_sublist_take_left (Nat.sub_le size 1)
      exact ih.sublist (hsub.map _)

end Held

end IrcdHybrid.SlotRing
