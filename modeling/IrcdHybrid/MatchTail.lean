import IrcdHybrid.Match

/-!
What an accepted name shares with the end of the mask. If the mask ends in a
stretch without wildcards and escapes, every name it accepts ends in the same
stretch, up to letter case. The cursor is either still before that stretch, or
inside it with what it has passed already read from the name; a saved restart
point is always before it, since a star is.
-/

namespace IrcdHybrid.Match

open CString

/-- A letter the mask compares as it stands. -/
def Plain (c : Char) : Prop := isWild c = false ∧ c ≠ '\\'

instance (c : Char) : Decidable (Plain c) := inferInstanceAs (Decidable (_ ∧ _))

/-- Equal up to letter case. -/
def SameFold (s t : CStr) : Prop := s.map toLower = t.map toLower

def EndsIn (tail name : CStr) : Prop := ∃ u t, name = u ++ t ∧ SameFold t tail

def Before (tail name m n : CStr) : Prop := (∃ p, m = p ++ tail) ∧ ∃ u, name = u ++ n

def Inside (tail name m n : CStr) : Prop :=
  ∃ u x t, tail = x ++ m ∧ name = u ++ t ++ n ∧ SameFold t x

def Reading (tail name m n : CStr) : Prop := Before tail name m n ∨ Inside tail name m n

structure TailKept (tail name : CStr) (s : Cursor) : Prop where
  reading : Reading tail name s.m s.n
  saved : ∀ mTmp nTmp, s.saved = some (mTmp, nTmp) → Before tail name mTmp nTmp

def TailTurn (tail name : CStr) : Turn → Prop
  | .done r => r = 0 → EndsIn tail name
  | .again s => TailKept tail name s

theorem sameFold_append (s t u v : CStr) (h : SameFold s t) (h' : SameFold u v) :
    SameFold (s ++ u) (t ++ v) := by
  unfold SameFold at *
  rw [List.map_append, List.map_append, h, h']

theorem before_suffix (tail name m n n' : CStr) (h : Before tail name m n) (hn : n' <:+ n) :
    Before tail name m n' := by
  obtain ⟨hm, u, rfl⟩ := h
  obtain ⟨v, rfl⟩ := hn
  exact ⟨hm, u ++ v, by simp⟩

theorem reading_cons (tail name m n : CStr) (c d : Char) (hcd : toLower c = toLower d)
    (h : Reading tail name (c :: m) (d :: n)) : Reading tail name m n := by
  have hone : SameFold [d] [c] := by simp [SameFold, hcd]
  rcases h with ⟨⟨p, hp⟩, u, rfl⟩ | ⟨u, x, t, rfl, rfl, ht⟩
  · cases p with
    | nil => exact Or.inr ⟨u, [c], [d], hp.symm, by simp, hone⟩
    | cons b p =>
      obtain ⟨rfl, rfl⟩ := List.cons.inj hp
      exact Or.inl ⟨⟨p, rfl⟩, u ++ [d], by simp⟩
  · exact Or.inr ⟨u, x ++ [c], t ++ [d], by simp, by simp, sameFold_append _ _ _ _ ht hone⟩

theorem endsIn_of_reading_nil (tail name : CStr) (hne : tail ≠ [])
    (h : Reading tail name [] []) : EndsIn tail name := by
  rcases h with ⟨⟨p, hp⟩, _⟩ | ⟨u, x, t, rfl, rfl, ht⟩
  · exact absurd (List.append_eq_nil_iff.mp hp.symm).2 hne
  · exact ⟨u, t, by simp, by simpa using ht⟩

section Tail

variable (tail name : CStr) (hne : tail ≠ []) (hplain : ∀ c ∈ tail, Plain c)

include hplain in
theorem before_of_not_plain (m n : CStr) (c : Char) (hc : ¬ Plain c)
    (h : Reading tail name (c :: m) n) : Before tail name m n := by
  rcases h with ⟨⟨p, hp⟩, hn⟩ | ⟨u, x, t, rfl, _, _⟩
  · cases p with
    | nil =>
      have hmem : c ∈ tail := by rw [show tail = c :: m from hp.symm]; simp
      exact absurd (hplain c hmem) hc
    | cons b p =>
      obtain ⟨rfl, rfl⟩ := List.cons.inj hp
      exact ⟨⟨p, rfl⟩, hn⟩
  · exact absurd (hplain c (by simp)) hc

theorem tailTurn_backtrack (s : Cursor) (h : TailKept tail name s) :
    TailTurn tail name (backtrack s.saved) := by
  rcases hs : s.saved with _ | ⟨mTmp, nTmp⟩
  · exact fun h0 => by simp at h0
  · have hb := h.saved mTmp nTmp hs
    match nTmp with
    | [] => exact fun h0 => by simp at h0
    | [_] => exact fun h0 => by simp at h0
    | c :: d :: t =>
      have hb' : Before tail name mTmp (d :: t) := before_suffix _ _ _ _ _ hb ⟨[c], rfl⟩
      refine ⟨Or.inl hb', ?_⟩
      intro m n hmn
      obtain ⟨rfl, rfl⟩ := Prod.mk.inj (Option.some.inj hmn)
      exact hb'

include hne in
theorem tailTurn_literal (s : Cursor) (h : TailKept tail name s) :
    TailTurn tail name (literal s) := by
  obtain ⟨m, n, saved⟩ := s
  cases n with
  | nil =>
    cases m with
    | nil => exact fun _ => endsIn_of_reading_nil tail name hne h.reading
    | cons c m => exact fun h0 => by simp at h0
  | cons d n =>
    cases m with
    | nil => exact tailTurn_backtrack tail name _ h
    | cons c m =>
      simp only [literal]
      split
      · next hcd => exact ⟨reading_cons tail name m n c d hcd h.reading, h.saved⟩
      · exact tailTurn_backtrack tail name _ h

include hplain in
theorem before_skipWild (m n : CStr) (star : Bool) (m' n' : CStr) (star' : Bool)
    (h : Before tail name m n) (hskip : skipWild m n star = some (m', n', star')) :
    Before tail name m' n' := by
  fun_induction skipWild m n star with
  | case1 m n star ih =>
    exact ih (before_of_not_plain tail name hplain m n '*' (by decide) (Or.inl h)) hskip
  | case2 => simp at hskip
  | case3 m c n star ih =>
    have hb := before_of_not_plain tail name hplain m (c :: n) '?' (by decide) (Or.inl h)
    exact ih (before_suffix _ _ _ _ _ hb ⟨[c], rfl⟩) hskip
  | case4 m n star =>
    simp only [Option.some.injEq, Prod.mk.injEq] at hskip
    obtain ⟨rfl, rfl, rfl⟩ := hskip
    exact h

include hne in
theorem tailTurn_restart (m n : CStr) (skip : Char → Bool) (h : Before tail name m n) :
    TailTurn tail name (literal ⟨m, n.dropWhile skip, some (m, n)⟩) := by
  apply tailTurn_literal tail name hne
  refine ⟨Or.inl (before_suffix _ _ _ _ _ h (List.dropWhile_suffix skip)), ?_⟩
  intro mTmp nTmp hmn
  obtain ⟨rfl, rfl⟩ := Prod.mk.inj (Option.some.inj hmn)
  exact h

include hne hplain in
theorem tailTurn_afterStar (m n : CStr) (h : Before tail name m n) :
    TailTurn tail name (afterStar m n) := by
  unfold afterStar
  split
  · obtain ⟨⟨p, hp⟩, _⟩ := h
    exact absurd (List.append_eq_nil_iff.mp hp.symm).2 hne
  · exact fun h0 => by simp at h0
  · next c m =>
    exact tailTurn_restart tail name hne _ _ _
      (before_of_not_plain tail name hplain _ n '\\' (by decide) (Or.inl h))
  · exact tailTurn_restart tail name hne _ _ _ h

include hne hplain in
theorem tailTurn_wild (s : Cursor) (h : TailKept tail name s) (c : Char) (m : CStr)
    (hs : s.m = c :: m) (hc : isWild c = true) : TailTurn tail name (wild s) := by
  have hnot : ¬ Plain c := fun hp => absurd hp.1 (by simp [hc])
  have hbefore : Before tail name s.m s.n := by
    have hread := h.reading
    rw [hs] at hread ⊢
    obtain ⟨⟨p, hp⟩, hn⟩ := before_of_not_plain tail name hplain m s.n c hnot hread
    exact ⟨⟨c :: p, by rw [hp]; rfl⟩, hn⟩
  unfold wild
  rcases hskip : skipWild s.m s.n false with _ | ⟨m', n', star⟩
  · exact tailTurn_backtrack tail name s h
  · have hb := before_skipWild tail name hplain _ _ _ _ _ _ hbefore hskip
    cases star with
    | false => exact tailTurn_literal tail name hne ⟨m', n', s.saved⟩ ⟨Or.inl hb, h.saved⟩
    | true => exact tailTurn_afterStar tail name hne hplain m' n' hb

include hne hplain in
theorem tailTurn_turn (s : Cursor) (h : TailKept tail name s) :
    TailTurn tail name (turn s) := by
  unfold turn
  split
  · next hm hn =>
    have hread := h.reading
    rw [hm, hn] at hread
    exact fun _ => endsIn_of_reading_nil tail name hne hread
  · exact tailTurn_backtrack tail name s h
  · exact fun h0 => by simp at h0
  · exact tailTurn_backtrack tail name s h
  · exact tailTurn_backtrack tail name s h
  · next c m d n hm hn =>
    split
    · next hcd =>
      have hread := h.reading
      rw [hm, hn] at hread
      have hb := before_of_not_plain tail name hplain (c :: m) (d :: n) '\\' (by decide) hread
      exact ⟨reading_cons tail name m n c d (by rw [hcd]) (Or.inl hb), h.saved⟩
    · exact tailTurn_backtrack tail name s h
  · next hm => exact tailTurn_wild tail name hne hplain s h _ _ hm rfl
  · next hm => exact tailTurn_wild tail name hne hplain s h _ _ hm rfl
  · exact tailTurn_literal tail name hne s h

include hne hplain in
theorem endsIn_of_run (fuel : ℕ) (s : Cursor) (h : TailKept tail name s)
    (hrun : run fuel s = some 0) : EndsIn tail name := by
  induction fuel generalizing s with
  | zero => simp [run] at hrun
  | succ fuel ih =>
    have hturn := tailTurn_turn tail name hne hplain s h
    unfold run at hrun
    cases ht : turn s with
    | done r =>
      rw [ht] at hturn hrun
      exact hturn (Option.some.inj hrun)
    | again s' =>
      rw [ht] at hturn hrun
      exact ih s' hturn hrun

include hne hplain in
theorem endsIn_of_matchMask (pre : CStr) (h : matchMask (pre ++ tail) name = 0) :
    EndsIn tail name := by
  have hrun := run_start (pre ++ tail) name
  rw [h] at hrun
  refine endsIn_of_run tail name hne hplain _ _ ⟨Or.inl ⟨⟨pre, rfl⟩, [], rfl⟩, ?_⟩ hrun
  intro mTmp nTmp hs
  simp at hs

end Tail

/-- Without wildcards and escapes there is no restart point to fall back on. -/
theorem sameFold_of_run (fuel : ℕ) (m n : CStr) (hplain : ∀ c ∈ m, Plain c)
    (hrun : run fuel ⟨m, n, none⟩ = some 0) : SameFold n m := by
  induction fuel generalizing m n with
  | zero => simp [run] at hrun
  | succ fuel ih =>
    cases m with
    | nil =>
      cases n with
      | nil => rfl
      | cons d n => simp [run, turn, backtrack] at hrun
    | cons c m =>
      obtain ⟨hwild, hesc⟩ := hplain c List.mem_cons_self
      simp only [isWild, Bool.or_eq_false_iff, decide_eq_false_iff_not] at hwild
      have hturn : turn ⟨c :: m, n, none⟩ = literal ⟨c :: m, n, none⟩ := by
        unfold turn
        split <;> simp_all
      rw [run, hturn] at hrun
      cases n with
      | nil => simp [literal] at hrun
      | cons d n =>
        by_cases hcd : toLower c = toLower d
        · simp only [literal, hcd, if_true] at hrun
          have htail := ih m n (fun e he => hplain e (List.mem_cons_of_mem c he)) hrun
          exact sameFold_append [d] [c] n m (by simp [SameFold, hcd]) htail
        · simp [literal, hcd, backtrack] at hrun

theorem sameFold_of_matchMask (mask name : CStr) (hplain : ∀ c ∈ mask, Plain c)
    (h : matchMask mask name = 0) : SameFold name mask := by
  have hrun := run_start mask name
  rw [h] at hrun
  exact sameFold_of_run _ _ _ hplain hrun

end IrcdHybrid.Match
