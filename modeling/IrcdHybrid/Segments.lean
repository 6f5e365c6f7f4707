import Mathlib.Data.List.Basic

/-!
Cutting a stream at separators. `cut` collects the nonempty complete segments
and the pending letters after the last separator; both can be computed piece by
piece, since what follows depends on the letters read so far only through the
pending ones.
-/

namespace IrcdHybrid.Segments

variable {α : Type*}

/-- No separator among the letters. -/
def Free (sep : α → Bool) (s : List α) : Prop := ∀ c ∈ s, sep c = false

/-- The nonempty complete segments of the input, the first one continuing `cur`,
and the pending letters. -/
def cut (sep : α → Bool) : List α → List α → List (List α) × List α
  | cur, [] => ([], cur)
  | cur, c :: s =>
    if sep c then
      ((if cur.isEmpty then [] else [cur]) ++ (cut sep [] s).1, (cut sep [] s).2)
    else cut sep (cur ++ [c]) s

def segments (sep : α → Bool) (s : List α) : List (List α) := (cut sep [] s).1

def pending (sep : α → Bool) (s : List α) : List α := (cut sep [] s).2

variable (sep : α → Bool)

theorem cut_append (cur a b : List α) :
    cut sep cur (a ++ b) =
      ((cut sep cur a).1 ++ (cut sep (cut sep cur a).2 b).1, (cut sep (cut sep cur a).2 b).2) := by
  induction a generalizing cur with
  | nil => simp [cut]
  | cons c a ih =>
    cases hc : sep c with
    | true => simp [cut, hc, ih]
    | false => simp [cut, hc, ih]

theorem cut_free (cur l s : List α) (hl : Free sep l) :
    cut sep cur (l ++ s) = cut sep (cur ++ l) s := by
  induction l generalizing cur with
  | nil => simp
  | cons c l ih =>
    have hc : sep c = false := hl c List.mem_cons_self
    have htail : Free sep l := fun d hd => hl d (List.mem_cons_of_mem c hd)
    simp [cut, hc, ih (cur ++ [c]) htail]

theorem pending_free (s : List α) : Free sep (pending sep s) := by
  have hcut : ∀ cur, Free sep cur → Free sep (cut sep cur s).2 := by
    induction s with
    | nil => exact fun cur hcur => hcur
    | cons c s ih =>
      intro cur hcur
      cases hc : sep c with
      | true =>
        simp only [cut, hc, ↓reduceIte]
        exact ih [] (by simp [Free])
      | false =>
        simp only [cut, hc, Bool.false_eq_true, ↓reduceIte]
        refine ih (cur ++ [c]) fun d hd => ?_
        rcases List.mem_append.mp hd with hd | hd
        · exact hcur d hd
        · rw [List.mem_singleton.mp hd, hc]
  exact hcut [] (by simp [Free])

theorem cut_of_free (s : List α) (hs : Free sep s) : cut sep [] s = ([], s) := by
  simpa [cut] using cut_free sep [] s [] hs

/-- The segments of a longer stream: those complete already, and those that the
new letters complete after the pending ones. -/
theorem segments_append (a b : List α) :
    segments sep (a ++ b) = segments sep a ++ segments sep (pending sep a ++ b) := by
  have hpending : Free sep (cut sep [] a).2 := pending_free sep a
  simp only [segments, pending, cut_append, cut_free sep [] _ b hpending, List.nil_append]

theorem pending_append (a b : List α) :
    pending sep (a ++ b) = pending sep (pending sep a ++ b) := by
  have hpending : Free sep (cut sep [] a).2 := pending_free sep a
  simp only [pending, cut_append, cut_free sep [] _ b hpending, List.nil_append]

theorem segments_of_free (s : List α) (hs : Free sep s) :
    segments sep s = [] := by
  rw [segments, cut_of_free sep s hs]

theorem pending_of_free (s : List α) (hs : Free sep s) : pending sep s = s := by
  rw [pending, cut_of_free sep s hs]

theorem segments_line (l s : List α) (e : α) (hl : Free sep l) (he : sep e = true) :
    segments sep (l ++ e :: s) = (if l.isEmpty then [] else [l]) ++ segments sep s := by
  rw [segments, cut_free sep [] l _ hl, List.nil_append, cut, if_pos he]
  rfl

theorem pending_line (l s : List α) (e : α) (hl : Free sep l)
    (he : sep e = true) : pending sep (l ++ e :: s) = pending sep s := by
  rw [pending, cut_free sep [] l _ hl, List.nil_append, cut, if_pos he]
  rfl

/-- Drop one separator from the front, where there is one. -/
def dropSep : List α → List α
  | [] => []
  | c :: s => if sep c then s else c :: s

theorem segments_dropSep (s : List α) :
    segments sep (dropSep sep s) = segments sep s := by
  cases s with
  | nil => rfl
  | cons c s =>
    cases hc : sep c with
    | true => simp [dropSep, segments, cut, hc]
    | false => simp [dropSep, hc]

theorem pending_dropSep (s : List α) :
    pending sep (dropSep sep s) = pending sep s := by
  cases s with
  | nil => rfl
  | cons c s =>
    cases hc : sep c with
    | true => simp [dropSep, pending, cut, hc]
    | false => simp [dropSep, hc]

theorem length_dropSep_le (s : List α) :
    (dropSep sep s).length ≤ s.length := by
  cases s with
  | nil => exact Nat.le_refl _
  | cons c s =>
    cases hc : sep c <;> simp [dropSep, hc]

theorem exists_line_of_not_free (s : List α) (h : ¬ Free sep s) :
    ∃ l e r, s = l ++ e :: r ∧ Free sep l ∧ sep e = true := by
  induction s with
  | nil => exact absurd (by simp [Free]) h
  | cons c s ih =>
    cases hc : sep c with
    | true => exact ⟨[], c, s, rfl, by simp [Free], hc⟩
    | false =>
      have htail : ¬ Free sep s := fun hs => h fun d hd =>
        (List.mem_cons.mp hd).elim (fun hdc => hdc ▸ hc) (hs d)
      obtain ⟨l, e, r, rfl, hl, he⟩ := ih htail
      exact ⟨c :: l, e, r, rfl,
        fun d hd => (List.mem_cons.mp hd).elim (fun hdc => hdc ▸ hc) (hl d), he⟩

/-- `k` separators stand directly before the input, a stream starting as after
two of them. Every separator that two others precede closes an empty line: at
most one separator follows it at once, and none later. -/
def EmptyLineLast : ℕ → List α → Prop
  | _, [] => True
  | k, c :: s =>
    if sep c then (2 ≤ k → Free sep (dropSep sep s)) ∧ EmptyLineLast (k + 1) s
    else EmptyLineLast 0 s

theorem free_dropSep (s : List α) (h : Free sep s) : Free sep (dropSep sep s) := by
  cases s with
  | nil => exact h
  | cons c s =>
    have hc : sep c = false := h c List.mem_cons_self
    simpa [dropSep, hc] using h

theorem emptyLineLast_free (k : ℕ) (s : List α) (h : Free sep s) :
    EmptyLineLast sep k s := by
  induction s generalizing k with
  | nil => exact trivial
  | cons c s ih =>
    have hc : sep c = false := h c List.mem_cons_self
    have htail : Free sep s := fun d hd => h d (List.mem_cons_of_mem c hd)
    simpa [EmptyLineLast, hc] using ih 0 htail

theorem emptyLineLast_append_free (k : ℕ) (l s : List α) (hl : Free sep l)
    (hne : l ≠ []) : EmptyLineLast sep k (l ++ s) ↔ EmptyLineLast sep 0 s := by
  induction l generalizing k with
  | nil => exact absurd rfl hne
  | cons c l ih =>
    have hc : sep c = false := hl c List.mem_cons_self
    have htail : Free sep l := fun d hd => hl d (List.mem_cons_of_mem c hd)
    cases l with
    | nil => simp [EmptyLineLast, hc]
    | cons d l => simpa [EmptyLineLast, hc] using ih 0 htail (by simp)

theorem emptyLineLast_line (l r : List α) (e : α) (hl : Free sep l)
    (hne : l ≠ []) (he : sep e = true) :
    EmptyLineLast sep 2 (l ++ e :: r) ↔ EmptyLineLast sep 2 (dropSep sep r) := by
  rw [emptyLineLast_append_free sep 2 l (e :: r) hl hne]
  cases r with
  | nil => simp [EmptyLineLast, he, dropSep]
  | cons c r =>
    cases hc : sep c with
    | true => simp [EmptyLineLast, he, hc, dropSep]
    | false => simp [EmptyLineLast, he, hc, dropSep]

/-- An empty line at the front: nothing complete may follow. -/
theorem emptyLineLast_empty (r : List α) (e : α) (he : sep e = true) :
    EmptyLineLast sep 2 (e :: r) ↔ Free sep (dropSep sep r) := by
  simp only [EmptyLineLast, he, ↓reduceIte, Nat.le_refl, forall_const]
  refine ⟨And.left, fun h => ⟨h, ?_⟩⟩
  cases r with
  | nil => exact trivial
  | cons c r =>
    cases hc : sep c with
    | true =>
      have hr : Free sep r := by simpa [dropSep, hc] using h
      simp only [EmptyLineLast, hc, ↓reduceIte]
      exact ⟨fun _ => free_dropSep sep r hr, emptyLineLast_free sep _ r hr⟩
    | false =>
      have hr : Free sep (c :: r) := by simpa [dropSep, hc] using h
      exact emptyLineLast_free sep _ (c :: r) hr

end IrcdHybrid.Segments
