import Mathlib.Data.List.Basic

/-!
A scan that keeps the best item so far. Every item has a rank; the scan takes
an item when it is accepted and its rank is above the mark, and the mark starts
at zero. So an item of rank zero is never taken, and otherwise the result is an
accepted item of the highest rank. A scan may be continued over further lists,
each with its own test.
-/

namespace IrcdHybrid.BestScan

variable {α : Type*}

structure Best (α : Type*) where
  mark : ℕ
  item : Option α

def start : Best α := ⟨0, none⟩

def improve (accepts : α → Bool) (rank : α → ℕ) (s : Best α) (x : α) : Best α :=
  if accepts x = true ∧ s.mark < rank x then ⟨rank x, some x⟩ else s

def scan (accepts : α → Bool) (rank : α → ℕ) (s : Best α) (xs : List α) : Best α :=
  xs.foldl (improve accepts rank) s

/-- The state holds the best of the accepted items seen. -/
structure IsBest (rank : α → ℕ) (seen : List α) (s : Best α) : Prop where
  le_mark : ∀ x ∈ seen, rank x ≤ s.mark
  mark_of_none : s.item = none → s.mark = 0
  item_mem : ∀ x, s.item = some x → x ∈ seen
  rank_item : ∀ x, s.item = some x → rank x = s.mark ∧ 0 < s.mark

theorem isBest_start (rank : α → ℕ) : IsBest rank [] (start : Best α) := by
  constructor <;> simp [start]

theorem isBest_improve (accepts : α → Bool) (rank : α → ℕ) (seen : List α) (s : Best α) (x : α)
    (h : IsBest rank seen s) :
    IsBest rank (seen ++ [x].filter accepts) (improve accepts rank s x) := by
  unfold improve
  by_cases ha : accepts x = true
  · rw [List.filter_cons_of_pos ha, List.filter_nil]
    by_cases hr : s.mark < rank x
    · rw [if_pos ⟨ha, hr⟩]
      refine ⟨?_, by simp, ?_, ?_⟩
      · intro y hy
        rcases List.mem_append.mp hy with hy | hy
        · have hy := h.le_mark y hy
          show rank y ≤ rank x
          omega
        · obtain rfl := List.mem_singleton.mp hy
          exact Nat.le_refl _
      · intro y hy
        obtain rfl := Option.some.inj hy
        simp
      · intro y hy
        obtain rfl := Option.some.inj hy
        exact ⟨rfl, show 0 < rank x by omega⟩
    · rw [if_neg (fun hc => hr hc.2)]
      refine ⟨?_, h.mark_of_none, ?_, h.rank_item⟩
      · intro y hy
        rcases List.mem_append.mp hy with hy | hy
        · exact h.le_mark y hy
        · rw [List.mem_singleton.mp hy]
          omega
      · intro y hy
        exact List.mem_append_left _ (h.item_mem y hy)
  · rw [if_neg (fun hc => ha hc.1), List.filter_cons_of_neg ha, List.filter_nil,
      List.append_nil]
    exact h

theorem isBest_scan (accepts : α → Bool) (rank : α → ℕ) (seen xs : List α) (s : Best α)
    (h : IsBest rank seen s) :
    IsBest rank (seen ++ xs.filter accepts) (scan accepts rank s xs) := by
  induction xs generalizing seen s with
  | nil => simpa [scan] using h
  | cons x xs ih =>
    have hx := ih _ _ (isBest_improve accepts rank seen s x h)
    rw [List.append_assoc, ← List.filter_append] at hx
    exact hx

/-- Some seen item of positive rank forces a result, and none beats it. -/
theorem IsBest.result (rank : α → ℕ) (seen : List α) (s : Best α) (x : α)
    (h : IsBest rank seen s) (hx : x ∈ seen) (hpos : rank x ≠ 0) :
    ∃ y, s.item = some y ∧ y ∈ seen ∧ rank x ≤ rank y := by
  have hle := h.le_mark x hx
  cases hitem : s.item with
  | none =>
    have := h.mark_of_none hitem
    omega
  | some y =>
    have hy := (h.rank_item y hitem).1
    exact ⟨y, rfl, h.item_mem y hitem, by omega⟩

theorem scan_filter (accepts : α → Bool) (rank : α → ℕ) (s : Best α) (xs : List α) :
    scan accepts rank s xs = scan (fun _ => true) rank s (xs.filter accepts) := by
  unfold scan
  induction xs generalizing s with
  | nil => rfl
  | cons x xs ih =>
    by_cases hx : accepts x = true
    · rw [List.filter_cons_of_pos hx, List.foldl_cons, List.foldl_cons, ih]
      unfold improve
      rw [hx]
    · rw [List.filter_cons_of_neg hx, List.foldl_cons, ih]
      unfold improve
      rw [if_neg (fun hc => hx hc.1)]

theorem scan_append (accepts : α → Bool) (rank : α → ℕ) (s : Best α) (xs ys : List α) :
    scan accepts rank s (xs ++ ys) = scan accepts rank (scan accepts rank s xs) ys :=
  List.foldl_append

/-- The first of those of the highest rank, if that is above the mark. -/
def Leads (rank : α → ℕ) (mark : ℕ) (xs : List α) (r : α) : Prop :=
  mark < rank r ∧ ∃ front rest, xs = front ++ r :: rest ∧
    (∀ x ∈ front, rank x < rank r) ∧ ∀ x ∈ rest, rank x ≤ rank r

theorem leads_cons (rank : α → ℕ) (mark : ℕ) (x : α) (xs : List α) (r : α) :
    Leads rank mark (x :: xs) r ↔
      (x = r ∧ mark < rank r ∧ ∀ y ∈ xs, rank y ≤ rank r) ∨
        (rank x < rank r ∧ Leads rank mark xs r) := by
  constructor
  · intro ⟨hmark, front, rest, heq, hfront, hrest⟩
    cases front with
    | nil =>
      obtain ⟨rfl, rfl⟩ := List.cons.inj heq
      exact Or.inl ⟨rfl, hmark, hrest⟩
    | cons y front =>
      obtain ⟨rfl, rfl⟩ := List.cons.inj heq
      refine Or.inr ⟨hfront x (by simp), hmark, front, rest, rfl, ?_, hrest⟩
      exact fun z hz => hfront z (List.mem_cons_of_mem x hz)
  · intro hor
    rcases hor with ⟨rfl, hmark, hrest⟩ | ⟨hx, hmark, front, rest, rfl, hfront, hrest⟩
    · exact ⟨hmark, [], xs, rfl, by simp, hrest⟩
    · refine ⟨hmark, x :: front, rest, rfl, ?_, hrest⟩
      intro z hz
      rcases List.mem_cons.mp hz with rfl | hz
      · exact hx
      · exact hfront z hz

theorem scan_item_iff (rank : α → ℕ) (s : Best α) (xs : List α) (r : α) :
    (scan (fun _ => true) rank s xs).item = some r ↔
      (s.item = some r ∧ ∀ x ∈ xs, rank x ≤ s.mark) ∨ Leads rank s.mark xs r := by
  induction xs generalizing s with
  | nil => simp [scan, Leads]
  | cons x xs ih =>
    have hstep : scan (fun _ => true) rank s (x :: xs) =
        scan (fun _ => true) rank (improve (fun _ => true) rank s x) xs := rfl
    rw [hstep, ih, leads_cons]
    unfold improve
    by_cases hx : s.mark < rank x
    · rw [if_pos ⟨rfl, hx⟩]
      constructor
      · intro hor
        rcases hor with ⟨hitem, hle⟩ | ⟨hlt, hsplit⟩
        · obtain rfl := Option.some.inj hitem
          exact Or.inr (Or.inl ⟨rfl, hx, hle⟩)
        · exact Or.inr (Or.inr ⟨hlt, Nat.lt_trans hx hlt, hsplit⟩)
      · intro hor
        rcases hor with ⟨_, hle⟩ | ⟨rfl, _, hle⟩ | ⟨hlt, _, hsplit⟩
        · exact absurd (hle x (by simp)) (by omega)
        · exact Or.inl ⟨rfl, hle⟩
        · exact Or.inr ⟨hlt, hsplit⟩
    · rw [if_neg (fun hc => hx hc.2)]
      constructor
      · intro hor
        rcases hor with ⟨hitem, hle⟩ | hleads
        · refine Or.inl ⟨hitem, ?_⟩
          intro y hy
          rcases List.mem_cons.mp hy with rfl | hy
          · omega
          · exact hle y hy
        · have hmark := hleads.1
          exact Or.inr (Or.inr ⟨by omega, hleads⟩)
      · intro hor
        rcases hor with ⟨hitem, hle⟩ | ⟨rfl, hmark, _⟩ | ⟨_, hleads⟩
        · exact Or.inl ⟨hitem, fun y hy => hle y (List.mem_cons_of_mem x hy)⟩
        · exact absurd hmark hx
        · exact Or.inr hleads

end IrcdHybrid.BestScan
