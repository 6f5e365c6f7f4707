import Mathlib.Data.List.Basic

/-!
Wildcard patterns over an arbitrary alphabet. A pattern is a list of tokens: a
star takes any run of letters, a `one` takes a single letter satisfying its
test. The lemmas below are what a single-pass matcher with one saved restart
point relies on: a star absorbs letters on its left, and the leftmost place
where a star-free stretch fits is as good as any later one.
-/

namespace IrcdHybrid.Glob

inductive Tok (α : Type*) where
  | star
  | one (test : α → Bool)

variable {α : Type*}

/-- The word belongs to the language of the pattern. -/
def Matches : List (Tok α) → List α → Prop
  | [], s => s = []
  | .star :: p, s => ∃ u v, s = u ++ v ∧ Matches p v
  | .one test :: p, s => ∃ c t, s = c :: t ∧ test c = true ∧ Matches p t

/-- No token of the pattern is a star. -/
def StarFree (p : List (Tok α)) : Prop := Tok.star ∉ p

@[simp] theorem matches_nil (s : List α) : Matches [] s ↔ s = [] := Iff.rfl

@[simp] theorem matches_one_nil (test : α → Bool) (p : List (Tok α)) :
    ¬ Matches (.one test :: p) [] := by
  rintro ⟨c, t, h, _⟩
  simp at h

@[simp] theorem matches_one_cons (test : α → Bool) (p : List (Tok α)) (c : α) (s : List α) :
    Matches (.one test :: p) (c :: s) ↔ test c = true ∧ Matches p s := by
  constructor
  · rintro ⟨d, t, h, hd, ht⟩
    obtain ⟨rfl, rfl⟩ := List.cons.inj h
    exact ⟨hd, ht⟩
  · rintro ⟨hc, hs⟩
    exact ⟨c, s, rfl, hc, hs⟩

theorem matches_star_append (p : List (Tok α)) (u s : List α)
    (h : Matches (.star :: p) s) : Matches (.star :: p) (u ++ s) := by
  obtain ⟨a, b, rfl, hb⟩ := h
  exact ⟨u ++ a, b, by simp, hb⟩

theorem matches_star_of_matches (p : List (Tok α)) (s : List α) (h : Matches p s) :
    Matches (.star :: p) s := ⟨[], s, rfl, h⟩

/-- A star in front of a pattern: drop some letters, then match the rest. -/
theorem matches_star_iff_drop (p : List (Tok α)) (s : List α) :
    Matches (.star :: p) s ↔ ∃ k, Matches p (s.drop k) := by
  constructor
  · rintro ⟨u, v, rfl, hv⟩
    exact ⟨u.length, by simpa using hv⟩
  · rintro ⟨k, hk⟩
    exact ⟨s.take k, s.drop k, (List.take_append_drop k s).symm, hk⟩

theorem matches_star_nil (p : List (Tok α)) : Matches (.star :: p) [] ↔ Matches p [] := by
  rw [matches_star_iff_drop]
  simp

theorem matches_star_cons (p : List (Tok α)) (c : α) (s : List α) :
    Matches (.star :: p) (c :: s) ↔ Matches p (c :: s) ∨ Matches (.star :: p) s := by
  constructor
  · rintro ⟨u, v, h, hv⟩
    cases u with
    | nil => exact Or.inl (by simpa [h] using hv)
    | cons d u =>
      obtain ⟨rfl, rfl⟩ := List.cons.inj h
      exact Or.inr ⟨u, v, rfl, hv⟩
  · rintro (h | h)
    · exact matches_star_of_matches p _ h
    · exact matches_star_append p [c] s h

/-- A star at the end of the pattern takes whatever is left. -/
theorem matches_star_end (s : List α) : Matches [.star] s := ⟨s, [], by simp, rfl⟩

theorem matches_star_star (p : List (Tok α)) (s : List α) :
    Matches (.star :: .star :: p) s ↔ Matches (.star :: p) s := by
  constructor
  · rintro ⟨u, v, rfl, hv⟩
    exact matches_star_append p u v hv
  · exact matches_star_of_matches _ s

/-- A star and a following single letter commute, so the letter may be taken first. -/
theorem matches_star_any_cons (p : List (Tok α)) (test : α → Bool)
    (htest : ∀ c, test c = true) (c : α) (s : List α) :
    Matches (.star :: .one test :: p) (c :: s) ↔ Matches (.star :: p) s := by
  constructor
  · rintro ⟨u, v, h, d, t, rfl, _, ht⟩
    cases u with
    | nil =>
      obtain ⟨rfl, rfl⟩ := List.cons.inj h
      exact matches_star_of_matches p _ ht
    | cons e u =>
      obtain ⟨rfl, rfl⟩ := List.cons.inj h
      exact ⟨u ++ [d], t, by simp, ht⟩
  · rintro ⟨u, v, rfl, hv⟩
    rcases List.eq_nil_or_concat u with rfl | ⟨u', d, rfl⟩
    · exact ⟨[], c :: v, rfl, c, v, rfl, htest c, hv⟩
    · exact ⟨c :: u', d :: v, by simp, d, v, rfl, htest d, hv⟩

theorem matches_star_any_nil (p : List (Tok α)) (test : α → Bool) :
    ¬ Matches (.star :: .one test :: p) [] := by
  rw [matches_star_nil]
  exact matches_one_nil test p

theorem matches_append (p q : List (Tok α)) (s : List α) :
    Matches (p ++ q) s ↔ ∃ u v, s = u ++ v ∧ Matches p u ∧ Matches q v := by
  induction p generalizing s with
  | nil => simp
  | cons t p ih =>
    cases t with
    | star =>
      constructor
      · rintro ⟨a, b, rfl, hb⟩
        obtain ⟨u, v, rfl, hu, hv⟩ := (ih b).mp hb
        exact ⟨a ++ u, v, by simp, ⟨a, u, rfl, hu⟩, hv⟩
      · rintro ⟨_, v, rfl, ⟨a, u, rfl, hu⟩, hv⟩
        exact ⟨a, u ++ v, by simp, (ih _).mpr ⟨u, v, rfl, hu, hv⟩⟩
    | one test =>
      constructor
      · rintro ⟨c, t, rfl, hc, ht⟩
        obtain ⟨u, v, rfl, hu, hv⟩ := (ih t).mp ht
        exact ⟨c :: u, v, rfl, ⟨c, u, rfl, hc, hu⟩, hv⟩
      · rintro ⟨_, v, rfl, ⟨c, u, rfl, hc, hu⟩, hv⟩
        exact ⟨c, u ++ v, rfl, hc, (ih _).mpr ⟨u, v, rfl, hu, hv⟩⟩

theorem length_of_starFree (p : List (Tok α)) (s : List α) (hp : StarFree p)
    (h : Matches p s) : s.length = p.length := by
  induction p generalizing s with
  | nil => simp [(matches_nil s).mp h]
  | cons t p ih =>
    cases t with
    | star => exact absurd List.mem_cons_self hp
    | one test =>
      obtain ⟨c, t, rfl, _, ht⟩ := h
      have htail : StarFree p := fun hm => hp (List.mem_cons_of_mem _ hm)
      simp [ih t htail ht]

/-- Once a star-free stretch has been placed at `w`, the remaining pattern
decides the match there: no other split of `w ++ n` is possible. -/
theorem matches_append_iff_of_starFree (p q : List (Tok α)) (w n : List α)
    (hp : StarFree p) (hw : Matches p w) : Matches (p ++ q) (w ++ n) ↔ Matches q n := by
  rw [matches_append]
  constructor
  · rintro ⟨u, v, h, hu, hv⟩
    have hlen : w.length = u.length := by
      rw [length_of_starFree p w hp hw, length_of_starFree p u hp hu]
    obtain ⟨rfl, rfl⟩ := List.append_inj h hlen
    exact hv
  · intro hn
    exact ⟨w, n, rfl, hw, hn⟩

/-- Placing a star-free stretch at its leftmost position loses nothing when a
star follows it. -/
theorem matches_leftmost (p q : List (Tok α)) (w n : List α)
    (hp : StarFree p) (hw : Matches p w) :
    Matches (.star :: (p ++ .star :: q)) (w ++ n) ↔ Matches (.star :: q) n := by
  constructor
  · rintro ⟨u, v, h, hv⟩
    obtain ⟨w', v', rfl, hw', hv'⟩ := (matches_append p _ v).mp hv
    have hlen : w.length = w'.length := by
      rw [length_of_starFree p w hp hw, length_of_starFree p w' hp hw']
    have hle : w.length ≤ (u ++ w').length := by
      simp only [List.length_append]
      omega
    have hsplit : w ++ n = (u ++ w') ++ v' := by simpa using h
    obtain ⟨a, ha, hn⟩ : ∃ a, u ++ w' = w ++ a ∧ n = a ++ v' := by
      rcases List.append_eq_append_iff.mp hsplit with ⟨a, h1, h2⟩ | ⟨a, h1, h2⟩
      · exact ⟨a, h1, h2⟩
      · have ha : a = [] := by
          have hl := congrArg List.length h1
          simp only [List.length_append] at hl hle
          exact List.length_eq_zero_iff.mp (by omega)
        subst ha
        exact ⟨[], by simpa using h1.symm, by simpa using h2.symm⟩
    rw [hn]
    exact matches_star_append q a v' hv'
  · intro h
    refine matches_star_of_matches _ _ ?_
    exact (matches_append_iff_of_starFree p (.star :: q) w n hp hw).mpr h

/-- Letters failing the test of the first single letter after a star belong to
the star. -/
theorem matches_star_dropWhile (test : α → Bool) (p : List (Tok α)) (s : List α) :
    Matches (.star :: .one test :: p) s ↔
      Matches (.star :: .one test :: p) (s.dropWhile fun c => !test c) := by
  induction s with
  | nil => simp
  | cons c s ih =>
    cases hc : test c with
    | true => simp [hc]
    | false =>
      rw [matches_star_cons, matches_one_cons]
      simpa [List.dropWhile_cons, hc] using ih

theorem dropWhile_eq_or_not_matches (test : α → Bool) (p : List (Tok α)) (s : List α) :
    (s.dropWhile fun c => !test c) = s ∨ ¬ Matches (.one test :: p) s := by
  cases s with
  | nil => exact Or.inl rfl
  | cons c s =>
    cases hc : test c with
    | true => exact Or.inl (by simp [hc])
    | false => exact Or.inr (by simp [hc])

/-- A star-free stretch followed by one more letter needs that many letters. -/
theorem length_lt_of_matches (p q : List (Tok α)) (test : α → Bool) (s : List α)
    (hp : StarFree p) (h : Matches (p ++ .one test :: q) s) : p.length < s.length := by
  obtain ⟨u, v, rfl, hu, hv⟩ := (matches_append p _ s).mp h
  obtain ⟨c, t, rfl, _, _⟩ := hv
  have hlen := length_of_starFree p u hp hu
  simp only [List.length_append, List.length_cons]
  omega

end IrcdHybrid.Glob
