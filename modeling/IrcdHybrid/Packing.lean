import Mathlib.Algebra.Ring.Nat
import Mathlib.Data.List.Basic

/-!
Filling lines with items. Every line starts with the same header and holds the
texts of some items with a separator between them; an item that no longer fits
starts a new line. The items keep their order, each is in exactly one line, and
no line is longer than the limit if the header and any single item are not.
-/

namespace IrcdHybrid.Packing

variable {α β : Type*}

/-- The texts, each followed by the separator. -/
def trailed (text : α → List β) (sep : β) (items : List α) : List β :=
  items.flatMap (fun x => text x ++ [sep])

/-- The texts with the separator between them. -/
def joined (text : α → List β) (sep : β) : List α → List β
  | [] => []
  | [x] => text x
  | x :: y :: items => text x ++ sep :: joined text sep (y :: items)

/-- Append the items to the buffer; a full buffer is sent without its last separator. -/
def fill (text : α → List β) (sep : β) (cap : ℕ) (header : List β) :
    List α → List β → List (List β)
  | [], buf => [buf.dropLast]
  | x :: items, buf =>
    if cap < buf.length + (text x).length then
      buf.dropLast :: fill text sep cap header items (header ++ text x ++ [sep])
    else fill text sep cap header items (buf ++ text x ++ [sep])

/-- The items of each line; `cur` are those of the line being filled. -/
def groups (text : α → List β) (sep : β) (cap base : ℕ) : List α → List α → List (List α)
  | [], cur => [cur]
  | x :: items, cur =>
    if cap < base + (trailed text sep cur).length + (text x).length then
      cur :: groups text sep cap base items [x]
    else groups text sep cap base items (cur ++ [x])

section Lines

variable (text : α → List β) (sep : β)

@[simp] theorem trailed_nil : trailed text sep [] = [] := rfl

@[simp] theorem trailed_singleton (x : α) : trailed text sep [x] = text x ++ [sep] := by
  simp [trailed]

theorem trailed_append (xs ys : List α) :
    trailed text sep (xs ++ ys) = trailed text sep xs ++ trailed text sep ys := by
  simp [trailed]

theorem trailed_eq_joined (items : List α) (h : items ≠ []) :
    trailed text sep items = joined text sep items ++ [sep] := by
  induction items with
  | nil => exact absurd rfl h
  | cons x items ih =>
    cases items with
    | nil => simp [joined]
    | cons y items =>
      have htail := ih (by simp)
      have hcons : trailed text sep (x :: y :: items) =
          text x ++ [sep] ++ trailed text sep (y :: items) := by simp [trailed]
      rw [hcons, htail]
      simp [joined]

theorem joined_concat (items : List α) (x : α) :
    joined text sep (items ++ [x]) =
      (if items = [] then [] else joined text sep items ++ [sep]) ++ text x := by
  induction items with
  | nil => simp [joined]
  | cons y items ih =>
    cases items with
    | nil => simp [joined]
    | cons z items => simpa [joined] using ih

theorem joined_congr (text' : α → List β) (items : List α) (h : ∀ x ∈ items, text x = text' x) :
    joined text sep items = joined text' sep items := by
  induction items with
  | nil => rfl
  | cons x items ih =>
    have hrest := ih fun y hy => h y (List.mem_cons_of_mem x hy)
    cases items with
    | nil => exact h x (by simp)
    | cons y items =>
      simp only [joined]
      rw [h x (by simp), hrest]

theorem joined_filter_length (p : α → Bool) (room : α → ℕ) (items : List α)
    (hroom : ∀ x, (text x).length + 1 ≤ room x) :
    (joined text sep (items.filter p)).length ≤ (items.map room).sum := by
  induction items with
  | nil => simp [joined]
  | cons x items ih =>
    rw [List.map_cons, List.sum_cons]
    by_cases hx : p x = true
    · have hxroom := hroom x
      rw [List.filter_cons_of_pos hx]
      cases hrest : items.filter p with
      | nil =>
        simp only [joined]
        omega
      | cons y rest =>
        rw [hrest] at ih
        simp only [joined, List.length_append, List.length_cons]
        omega
    · rw [List.filter_cons_of_neg hx]
      omega

theorem dropLast_trailed (header : List β) (items : List α) (h : items ≠ []) :
    (header ++ trailed text sep items).dropLast = header ++ joined text sep items := by
  rw [trailed_eq_joined text sep items h, ← List.append_assoc, List.dropLast_concat]

variable (cap : ℕ) (header : List β)

theorem fill_eq_groups (items cur : List α) (hcur : cur ≠ []) :
    fill text sep cap header items (header ++ trailed text sep cur) =
      (groups text sep cap header.length items cur).map
        (fun g => header ++ joined text sep g) := by
  induction items generalizing cur with
  | nil => simp [fill, groups, dropLast_trailed text sep header cur hcur]
  | cons x items ih =>
    have hone := ih [x] (by simp)
    have hmore := ih (cur ++ [x]) (by simp)
    rw [trailed_singleton, ← List.append_assoc] at hone
    rw [trailed_append, trailed_singleton, ← List.append_assoc, ← List.append_assoc] at hmore
    simp only [fill, groups, List.length_append]
    split
    · rw [dropLast_trailed text sep header cur hcur, hone, List.map_cons]
    · exact hmore

theorem flatten_groups (base : ℕ) (items cur : List α) :
    (groups text sep cap base items cur).flatten = cur ++ items := by
  induction items generalizing cur with
  | nil => simp [groups]
  | cons x items ih =>
    unfold groups
    split
    · rw [List.flatten_cons, ih]
      simp
    · rw [ih]
      simp

theorem groups_ne_nil (base : ℕ) (items cur : List α) (hcur : cur ≠ []) (g : List α)
    (hg : g ∈ groups text sep cap base items cur) : g ≠ [] := by
  induction items generalizing cur with
  | nil => rwa [List.mem_singleton.mp hg]
  | cons x items ih =>
    unfold groups at hg
    split at hg
    · rcases List.mem_cons.mp hg with rfl | hg
      · exact hcur
      · exact ih [x] (by simp) hg
    · exact ih (cur ++ [x]) (by simp) hg

/-- A line within the limit has room for its last separator and nothing more. -/
theorem groups_length (base : ℕ) (items cur : List α)
    (hcur : base + (trailed text sep cur).length ≤ cap + 1)
    (hitems : ∀ x ∈ items, base + (text x).length ≤ cap) (g : List α)
    (hg : g ∈ groups text sep cap base items cur) :
    base + (trailed text sep g).length ≤ cap + 1 := by
  induction items generalizing cur with
  | nil => rwa [List.mem_singleton.mp hg]
  | cons x items ih =>
    have hx := hitems x List.mem_cons_self
    have hrest := fun y hy => hitems y (List.mem_cons_of_mem x hy)
    unfold groups at hg
    split at hg
    · rcases List.mem_cons.mp hg with rfl | hg
      · exact hcur
      · apply ih [x] _ hrest hg
        rw [trailed_singleton, List.length_append, List.length_singleton]
        omega
    · next hfit =>
      apply ih (cur ++ [x]) _ hrest hg
      rw [trailed_append, trailed_singleton, List.length_append, List.length_append,
        List.length_singleton]
      omega

theorem joined_length (base : ℕ) (g : List α) (hne : g ≠ [])
    (h : base + (trailed text sep g).length ≤ cap + 1) :
    base + (joined text sep g).length ≤ cap := by
  rw [trailed_eq_joined text sep g hne, List.length_append, List.length_singleton] at h
  omega

end Lines

/-- An item of a list without repetition is in one group only. -/
theorem countP_groups [DecidableEq α] (gs : List (List α)) (x : α) (h : gs.flatten.Nodup)
    (hx : x ∈ gs.flatten) : gs.countP (fun g => decide (x ∈ g)) = 1 := by
  induction gs with
  | nil => simp at hx
  | cons g gs ih =>
    rw [List.flatten_cons, List.nodup_append] at h
    obtain ⟨_, hrest, hdisjoint⟩ := h
    rw [List.flatten_cons, List.mem_append] at hx
    rw [List.countP_cons]
    by_cases hg : x ∈ g
    · have hnone : gs.countP (fun g => decide (x ∈ g)) = 0 := by
        rw [List.countP_eq_zero]
        intro g' hg'
        simp only [decide_eq_true_eq]
        intro hmem
        exact hdisjoint x hg x (List.mem_flatten.mpr ⟨g', hg', hmem⟩) rfl
      simp [hnone, hg]
    · simp [ih hrest (hx.resolve_left hg), hg]

end IrcdHybrid.Packing
