import Mathlib.Data.List.Basic
import Mathlib.Data.List.TakeWhile

/-!
The words of a text: the stretches between its separators that are not empty. A scanner that
passes separators, takes a word and goes on behind it meets just these.
-/

namespace IrcdHybrid.BlankWords

variable {α : Type*} (sep : α → Bool)

def words (s : List α) : List (List α) := (s.splitOnP sep).filter fun w => !w.isEmpty

/-- Nothing stands behind a word, or a separator. -/
def Ends (s : List α) : Prop := ∀ c ∈ s.head?, sep c = true

@[simp] theorem words_nil : words sep [] = [] := by
  simp [words]

theorem words_sep (c : α) (s : List α) (hc : sep c = true) : words sep (c :: s) = words sep s := by
  unfold words
  rw [List.splitOnP_cons_eq_if_modifyHead, if_pos hc]
  simp

theorem words_dropWhile (s : List α) : words sep (s.dropWhile sep) = words sep s := by
  induction s with
  | nil => rfl
  | cons c s ih =>
    by_cases hc : sep c = true
    · rw [List.dropWhile_cons_of_pos hc, words_sep sep c s hc, ih]
    · rw [List.dropWhile_cons_of_neg hc]

theorem words_append (w rest : List α) (hw : w ≠ []) (hfree : ∀ c ∈ w, sep c = false)
    (hrest : Ends sep rest) : words sep (w ++ rest) = w :: words sep rest := by
  cases rest with
  | nil =>
    unfold words
    rw [List.append_nil, List.splitOnP_eq_singleton hfree]
    simp [hw]
  | cons c rest =>
    have hc : sep c = true := hrest c rfl
    rw [words_sep sep c rest hc]
    unfold words
    rw [List.splitOnP_append_cons_of_forall_mem hfree c hc rest]
    simp [hw]

theorem ends_dropWhile (s : List α) : Ends sep (s.dropWhile fun c => !sep c) := by
  intro c hc
  have hhead := List.head?_dropWhile_not (fun c => !sep c) s
  rw [Option.mem_def.mp hc] at hhead
  simpa using hhead

theorem free_takeWhile (s : List α) : ∀ c ∈ s.takeWhile fun c => !sep c, sep c = false := by
  intro c hc
  simpa using List.mem_takeWhile_imp hc

/-- A text that begins with no separator begins with a word. -/
theorem words_takeWhile (c : α) (s : List α) (hc : sep c = false) :
    words sep (c :: s) =
      ((c :: s).takeWhile fun c => !sep c) :: words sep ((c :: s).dropWhile fun c => !sep c) := by
  have hsplit := List.takeWhile_append_dropWhile (p := fun c => !sep c) (l := c :: s)
  have hne : (c :: s).takeWhile (fun c => !sep c) ≠ [] := by
    simp [hc]
  have happ := words_append sep _ _ hne (free_takeWhile sep (c :: s)) (ends_dropWhile sep (c :: s))
  rw [hsplit] at happ
  exact happ

theorem words_ne_nil (s : List α) (hs : s ≠ []) (hhead : ∀ c ∈ s.head?, sep c = false) :
    words sep s ≠ [] := by
  cases s with
  | nil => exact absurd rfl hs
  | cons c s =>
    rw [words_takeWhile sep c s (hhead c rfl)]
    simp

theorem head_dropWhile (s : List α) : ∀ c ∈ (s.dropWhile sep).head?, sep c = false := by
  intro c hc
  have hhead := List.head?_dropWhile_not sep s
  rw [Option.mem_def.mp hc] at hhead
  simpa using hhead

end IrcdHybrid.BlankWords
