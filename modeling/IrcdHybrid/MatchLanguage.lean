import IrcdHybrid.Match
import IrcdHybrid.Glob

/-!
The language of a mask against the matcher. Two slips separate them: an escape
directly after a star is saved without its backslash, so that the matcher starts
again at a letter that it takes for what it looks like, and a run of '?' alone
falls through to the literal comparison with the backslash still in place. As
long as no letter of the name tells the two readings apart there, the matcher
decides the documented language.
-/

namespace IrcdHybrid.MatchLanguage

open CString Glob Match

/-- The documented reading of a mask. -/
def toks : CStr → List (Tok Char)
  | [] => []
  | '*' :: m => .star :: toks m
  | '?' :: m => .one (fun _ => true) :: toks m
  | '\\' :: c :: m => .one (fun d => decide (d = c)) :: toks m
  | c :: m => .one (fun d => decide (toLower d = toLower c)) :: toks m

/-- Behind a backslash the mask reads as without it. -/
def sameRead : CStr → Bool
  | [] => false
  | '\\' :: '\\' :: m => sameRead m
  | c :: _ => decide (c ≠ '*' ∧ c ≠ '?' ∧ c ≠ '\\' ∧ Unfolded c)

/-- The front of the mask, which is an escaped letter without its backslash, is read
wrongly at the letter `d`: a star, another letter taken for it, or a backslash taken for
that of an escape. -/
def misread : CStr → Char → Bool
  | '*' :: _, _ => true
  | '?' :: _, d => d ≠ '?'
  | '\\' :: e :: m, d => if d = '\\' then e ≠ '\\' || !sameRead m else d = e
  | c :: _, d => c ≠ d && toLower c = toLower d
  | [], _ => false

/-- The matcher starts again behind a star, at an escaped letter that it reads wrongly. -/
def resumesWrong (mask : CStr) (s : Cursor) : Bool :=
  decide (s.saved = some (s.m, s.n)) && ('\\' :: s.m).isSuffixOf mask &&
    s.n.head?.any (misread s.m)

/-- The matcher comes from a run of '?' alone to an escape, and to a letter that this or the
backslash stands for. -/
def comparesWrong (s : Cursor) : Bool :=
  s.m.head?.any isWild &&
    match skipWild s.m s.n false with
    | some ('\\' :: c :: _, d :: _, false) => d = c || toLower d = toLower '\\'
    | _ => false

def readsRight (mask : CStr) : ℕ → Cursor → Bool
  | 0, _ => true
  | fuel + 1, s =>
    !resumesWrong mask s && !comparesWrong s &&
      match turn s with
      | .done _ => true
      | .again s' => readsRight mask fuel s'

/-- Matching the name never takes a branch that goes wrong. -/
def ReadsRight (mask name : CStr) : Prop :=
  readsRight mask ((name.length + 2) * (mask.length + 1)) ⟨mask, name, none⟩ = true

instance (mask name : CStr) : Decidable (ReadsRight mask name) := inferInstanceAs (Decidable (_ = _))

theorem toks_lit (c : Char) (m : CStr) (h : c ≠ '*' ∧ c ≠ '?' ∧ c ≠ '\\') :
    toks (c :: m) = .one (fun d => decide (toLower d = toLower c)) :: toks m := by
  obtain ⟨h1, h2, h3⟩ := h
  rw [toks.eq_def]
  split <;> simp_all

theorem toks_sameRead (m : CStr) (h : sameRead m = true) : toks ('\\' :: m) = toks m := by
  fun_induction sameRead m with
  | case1 => simp at h
  | case2 m ih =>
    rw [toks, toks, ih h]
  | case3 c m hslash =>
    obtain ⟨h1, h2, h3, hfold⟩ := of_decide_eq_true h
    rw [toks_lit c m ⟨h1, h2, h3⟩, toks]
    congr 2
    funext d
    simp only [toLower_eq_iff_of_unfolded c d hfold]

/-- No wildcard stands at the front of the mask. -/
def Literal (m : CStr) : Prop := ∀ c m', m = c :: m' → c ≠ '*' ∧ c ≠ '?'

theorem skipWild_suffix (m n : CStr) (star : Bool) (m' n' : CStr) (star' : Bool)
    (h : skipWild m n star = some (m', n', star')) : m' <:+ m := by
  fun_induction skipWild m n star with
  | case1 n star m ih => exact (ih h).trans (List.suffix_cons _ _)
  | case2 => simp at h
  | case3 m c n star ih => exact (ih h).trans (List.suffix_cons _ _)
  | case4 m n star =>
    simp only [Option.some.injEq, Prod.mk.injEq] at h
    obtain ⟨rfl, -, -⟩ := h
    exact List.suffix_rfl

/-- A wildcard run with a star in it already: its '?' come off the name first. -/
theorem skipWild_starred (m n : CStr) :
    (skipWild m n true = none ∧ ¬ Matches (.star :: toks m) n) ∨
      ∃ m' n', skipWild m n true = some (m', n', true) ∧ Literal m' ∧
        (Matches (.star :: toks m) n ↔ Matches (.star :: toks m') n') := by
  induction m generalizing n with
  | nil => exact Or.inr ⟨[], n, rfl, by simp [Literal], Iff.rfl⟩
  | cons c m ih =>
    by_cases hstar : c = '*'
    · subst hstar
      have hstars : Matches (.star :: toks ('*' :: m)) n ↔ Matches (.star :: toks m) n := by
        rw [toks]
        exact matches_star_star (toks m) n
      rw [hstars]
      exact ih n
    · by_cases hmark : c = '?'
      · subst hmark
        cases n with
        | nil =>
          refine Or.inl ⟨rfl, ?_⟩
          rw [toks]
          exact matches_star_any_nil (toks m) _
        | cons d n =>
          have hany : Matches (.star :: toks ('?' :: m)) (d :: n) ↔
              Matches (.star :: toks m) n := by
            rw [toks]
            exact matches_star_any_cons (toks m) _ (fun _ => rfl) d n
          rw [hany]
          exact ih n
      · refine Or.inr ⟨c :: m, n, ?_, ?_, Iff.rfl⟩
        · rw [skipWild.eq_def]
          split <;> simp_all
        · rintro _ _ ⟨⟩
          exact ⟨hstar, hmark⟩

/-- A run of '?' without a star takes as many letters and stays star-free; at
the first star the rest of the mask starts afresh. -/
theorem skipWild_marks (m n : CStr) :
    (skipWild m n false = none ∧ ¬ Matches (toks m) n) ∨
      (∃ m' n' b u, skipWild m n false = some (m', n', false) ∧ Literal m' ∧
        toks m = b ++ toks m' ∧ StarFree b ∧ n = u ++ n' ∧ Matches b u) ∨
      (∃ b u q v, toks m = b ++ .star :: q ∧ StarFree b ∧ n = u ++ v ∧ Matches b u ∧
        ((skipWild m n false = none ∧ ¬ Matches (.star :: q) v) ∨
          ∃ m' n', skipWild m n false = some (m', n', true) ∧ Literal m' ∧
            (Matches (.star :: q) v ↔ Matches (.star :: toks m') n'))) := by
  induction m generalizing n with
  | nil =>
    exact Or.inr (Or.inl ⟨[], n, [], [], rfl, by simp [Literal], rfl, by simp [StarFree], rfl, rfl⟩)
  | cons c m ih =>
    by_cases hstar : c = '*'
    · subst hstar
      exact Or.inr (Or.inr ⟨[], [], toks m, n, rfl, by simp [StarFree], rfl, rfl,
        skipWild_starred m n⟩)
    · by_cases hmark : c = '?'
      · subst hmark
        cases n with
        | nil =>
          refine Or.inl ⟨rfl, ?_⟩
          rw [toks]
          exact matches_one_nil _ (toks m)
        | cons d n =>
          have htoks : toks ('?' :: m) = .one (fun _ => true) :: toks m := by rw [toks]
          have hfree : ∀ b : List (Tok Char), StarFree b →
              StarFree (.one (fun _ => true) :: b) := fun b hb => by simpa [StarFree] using hb
          rcases ih n with ⟨hnone, hno⟩ | ⟨m', n', b, u, h⟩ | ⟨b, u, q, v, h⟩
          · exact Or.inl ⟨hnone, by simpa [htoks] using hno⟩
          · obtain ⟨hskip, hlit, hsplit, hb, rfl, hu⟩ := h
            exact Or.inr (Or.inl ⟨m', n', .one (fun _ => true) :: b, d :: u, hskip, hlit,
              by simp [htoks, hsplit], hfree b hb, rfl, by simpa using hu⟩)
          · obtain ⟨hsplit, hb, rfl, hu, hrest⟩ := h
            exact Or.inr (Or.inr ⟨.one (fun _ => true) :: b, d :: u, q, v,
              by simp [htoks, hsplit], hfree b hb, rfl, by simpa using hu, hrest⟩)
      · refine Or.inr (Or.inl ⟨c :: m, n, [], [], ?_, ?_, rfl, by simp [StarFree], rfl, rfl⟩)
        · rw [skipWild.eq_def]
          split <;> simp_all
        · rintro _ _ ⟨⟩
          exact ⟨hstar, hmark⟩

section Masks

variable (mask : CStr)

/-- What a restart point stands for: what it reads as, or, behind a backslash of the mask, its
first letter alone. -/
def StandsFor (mTmp : CStr) (test : Char → Bool) (p : List (Tok Char)) : Prop :=
  mTmp <:+ mask ∧ (toks mTmp = .one test :: p ∨ ∃ c m, mTmp = c :: m ∧ '\\' :: c :: m <:+ mask ∧
    test = (fun d => decide (d = c)) ∧ p = toks m)

/-- What a cursor says about the verdict `ok`. With a restart point saved, some
star-free stretch `a` of the mask after the star has been laid on `w`, and no
earlier place on the name's rest `nTmp` fits. -/
def Decides (ok : Prop) (s : Cursor) : Prop :=
  match s.saved with
  | none => ok ↔ Matches (toks s.m) s.n
  | some (mTmp, nTmp) => ∃ (test : Char → Bool) (p a : List (Tok Char)) (w : CStr),
      .one test :: p = a ++ toks s.m ∧ StarFree a ∧ Matches a w ∧
      (ok ↔ Matches (.star :: .one test :: p) nTmp) ∧
      (ok ↔ Matches (.star :: .one test :: p) (w ++ s.n)) ∧
      (w ++ s.n = nTmp ∨ ¬ Matches (.one test :: p) nTmp) ∧ StandsFor mask mTmp test p

/-- The matcher has started again at an escaped letter. -/
def Resumed (ok : Prop) (s : Cursor) : Prop :=
  ∃ c m d n, s = ⟨c :: m, d :: n, some (c :: m, d :: n)⟩ ∧ '\\' :: c :: m <:+ mask ∧
    (ok ↔ Matches (.star :: .one (fun d => decide (d = c)) :: toks m) (d :: n))

/-- The turn returns the right verdict or leads to a cursor that decides it. -/
def Agrees (ok : Prop) : Turn → Prop
  | .done r => r = 0 ↔ ok
  | .again s => (Decides mask ok s ∨ Resumed mask ok s) ∧ s.m <:+ mask

variable {mask} {ok : Prop}

theorem restart_agrees {mTmp nTmp : CStr} {test : Char → Bool} {p : List (Tok Char)}
    (hstands : StandsFor mask mTmp test p) (hok : ok ↔ Matches (.star :: .one test :: p) nTmp)
    (hfail : ¬ Matches (.one test :: p) nTmp) :
    Agrees mask ok (backtrack (some (mTmp, nTmp))) := by
  have hempty : ¬ Matches (.star :: .one test :: p) [] := by simp [matches_star_nil]
  match nTmp with
  | [] =>
    rw [hok]
    simpa [backtrack, Agrees] using hempty
  | [c] =>
    rw [hok, matches_star_cons]
    simpa [backtrack, Agrees, hfail] using hempty
  | c :: d :: t =>
    have hnext : ok ↔ Matches (.star :: .one test :: p) (d :: t) := by
      rw [hok, matches_star_cons]
      simp [hfail]
    refine ⟨?_, hstands.1⟩
    rcases hstands.2 with hraw | ⟨e, m, rfl, hsuffix, rfl, rfl⟩
    · exact Or.inl ⟨test, p, [], [], by simpa using hraw.symm, by simp [StarFree], rfl, hnext,
        hnext, Or.inl rfl, hstands⟩
    · exact Or.inr ⟨e, m, d, t, rfl, hsuffix, hnext⟩

theorem backtrack_agrees (s : Cursor) (h : Decides mask ok s) (hno : ¬ Matches (toks s.m) s.n) :
    Agrees mask ok (backtrack s.saved) := by
  obtain ⟨m, n, saved⟩ := s
  rcases saved with _ | ⟨mTmp, nTmp⟩
  · have hok : ok ↔ Matches (toks m) n := h
    simpa [backtrack, Agrees, hok] using hno
  · obtain ⟨test, p, a, w, hp, ha, hw, hok, _, hplace, hstands⟩ := h
    apply restart_agrees hstands hok
    rcases hplace with hplace | hplace
    · rw [← hplace, hp, matches_append_iff_of_starFree a (toks m) w n ha hw]
      exact hno
    · exact hplace

/-- Laying a star-free stretch of the mask on the name keeps the cursor deciding. -/
theorem Decides.advance (m m' n' u : CStr) (b : List (Tok Char)) (saved : Option (CStr × CStr))
    (h : Decides mask ok ⟨m, u ++ n', saved⟩) (hm : toks m = b ++ toks m') (hb : StarFree b)
    (hu : Matches b u) : Decides mask ok ⟨m', n', saved⟩ := by
  rcases saved with _ | ⟨mTmp, nTmp⟩
  · have hok : ok ↔ Matches (toks m) (u ++ n') := h
    rwa [hm, matches_append_iff_of_starFree b (toks m') u n' hb hu] at hok
  · obtain ⟨test, p, a, w, hp, ha, hw, hok, hok', hplace, hstands⟩ := h
    refine ⟨test, p, a ++ b, w ++ u, by simp [hp, hm], ?_, ?_, hok, ?_, ?_, hstands⟩
    · exact fun hs => (List.mem_append.mp hs).elim ha hb
    · exact (matches_append a b _).mpr ⟨w, u, rfl, hw, hu⟩
    · simpa using hok'
    · simpa using hplace

/-- At a star the verdict depends on the rest of the mask and the name alone. -/
theorem Decides.star (m u v : CStr) (b q : List (Tok Char)) (saved : Option (CStr × CStr))
    (h : Decides mask ok ⟨m, u ++ v, saved⟩) (hm : toks m = b ++ .star :: q) (hb : StarFree b)
    (hu : Matches b u) : ok ↔ Matches (.star :: q) v := by
  rcases saved with _ | ⟨mTmp, nTmp⟩
  · have hok : ok ↔ Matches (toks m) (u ++ v) := h
    rwa [hm, matches_append_iff_of_starFree b (.star :: q) u v hb hu] at hok
  · obtain ⟨test, p, a, w, hp, ha, hw, _, hok, _, _⟩ := h
    have hab : StarFree (a ++ b) := fun hs => (List.mem_append.mp hs).elim ha hb
    have hwu : Matches (a ++ b) (w ++ u) := (matches_append a b _).mpr ⟨w, u, rfl, hw, hu⟩
    have hp' : .one test :: p = (a ++ b) ++ .star :: q := by simp [hp, hm]
    rw [hok, hp', ← List.append_assoc]
    exact matches_leftmost (a ++ b) q (w ++ u) v hab hwu

theorem Decides.not_of_nil (m : CStr) (saved : Option (CStr × CStr)) (test : Char → Bool)
    (q : List (Tok Char)) (h : Decides mask ok ⟨m, [], saved⟩) (hm : toks m = .one test :: q) :
    ¬ ok := by
  rcases saved with _ | ⟨mTmp, nTmp⟩
  · have hok : ok ↔ Matches (toks m) [] := h
    rw [hok, hm]
    exact matches_one_nil test q
  · obtain ⟨test', p, a, w, hp, ha, hw, _, hok, _, _⟩ := h
    rw [hok, hp, hm, matches_star_iff_drop]
    rintro ⟨k, hk⟩
    have hlt := length_lt_of_matches a q _ _ ha hk
    have hlen := length_of_starFree a w ha hw
    simp only [List.append_nil, List.length_drop] at hlt
    omega

theorem literal_agrees (s : Cursor) (h : Decides mask ok s) (hs : s.m <:+ mask)
    (hlit : ∀ c m, s.m = c :: m → c ≠ '*' ∧ c ≠ '?' ∧ c ≠ '\\') : Agrees mask ok (literal s) := by
  obtain ⟨m, n, saved⟩ := s
  cases m with
  | nil =>
    cases n with
    | nil =>
      have hok := Decides.advance [] [] [] [] [] saved h rfl (by simp [StarFree]) rfl
      rcases saved with _ | ⟨mTmp, nTmp⟩
      · have hok : ok ↔ Matches [] [] := hok
        simp [literal, Agrees, hok]
      · obtain ⟨test, p, a, w, hp, ha, hw, _, hok, _, _⟩ := h
        have hhold : ok := hok.mpr (by
          simpa [hp, toks] using matches_star_of_matches a w hw)
        simp [literal, Agrees, hhold]
    | cons d n => exact backtrack_agrees _ h (by simp [toks])
  | cons c m =>
    have htoks := toks_lit c m (hlit c m rfl)
    cases n with
    | nil =>
      have hfalse := h.not_of_nil _ _ _ _ htoks
      simpa [literal, Agrees] using hfalse
    | cons d n =>
      simp only [literal]
      split
      · next heq =>
        refine ⟨Or.inl (Decides.advance (c :: m) m n [d] [_] saved h htoks ?_ ?_),
          (List.suffix_cons c m).trans hs⟩
        · simp [StarFree]
        · simp [heq]
      · next hne =>
        apply backtrack_agrees _ h
        rw [htoks, matches_one_cons]
        simp [Ne.symm hne]

/-- The scan for the letter after the star, with the restart point it saves. -/
theorem scan_agrees (c : Char) (m n : CStr) (test : Char → Bool)
    (hok : ok ↔ Matches (.star :: .one test :: toks m) n)
    (htest : ∀ d, test d = true → toLower c = toLower d)
    (hstands : StandsFor mask (c :: m) test (toks m)) :
    Agrees mask ok (literal ⟨c :: m, n.dropWhile (fun d => !test d), some (c :: m, n)⟩) := by
  have hscan := hok.trans (matches_star_dropWhile test (toks m) n)
  have hplace := dropWhile_eq_or_not_matches test (toks m) n
  cases hn : n.dropWhile (fun d => !test d) with
  | nil =>
    rw [hn] at hscan
    have hfalse : ¬ ok := by
      rw [hscan, matches_star_nil]
      exact matches_one_nil test (toks m)
    simpa [literal, Agrees] using hfalse
  | cons d n' =>
    have hd : test d = true := by
      have hhead := List.head?_dropWhile_not (fun d => !test d) n
      rw [hn] at hhead
      simpa using hhead
    rw [hn] at hscan hplace
    simp only [literal, htest d hd, ↓reduceIte]
    refine ⟨Or.inl ⟨test, toks m, [.one test], [d], rfl, by simp [StarFree], by simpa using hd, hok,
      hscan, ?_, hstands⟩, (List.suffix_cons c m).trans hstands.1⟩
    simpa using hplace

/-- What is left of a mask that does not end in a backslash does not either. -/
theorem not_slash (hlast : mask.getLast? ≠ some '\\') {m : CStr} (hm : m <:+ mask) : m ≠ ['\\'] := by
  rintro rfl
  obtain ⟨front, rfl⟩ := hm
  exact hlast (by simp)

theorem afterStar_agrees (hlast : mask.getLast? ≠ some '\\') (m n : CStr)
    (hok : ok ↔ Matches (.star :: toks m) n) (hlit : Literal m) (hm : m <:+ mask) :
    Agrees mask ok (afterStar m n) := by
  unfold afterStar
  split
  · have hend : ok := hok.mpr (matches_star_end n)
    simp [Agrees, hend]
  · exact absurd rfl (not_slash hlast hm)
  · next c m =>
    have htoks : toks ('\\' :: c :: m) = .one (fun d => decide (d = c)) :: toks m := by rw [toks]
    rw [htoks] at hok
    apply scan_agrees c m n _ hok
    · intro d hd
      rw [of_decide_eq_true hd]
    · exact ⟨(List.suffix_cons _ _).trans hm, Or.inr ⟨c, m, rfl, hm, rfl, rfl⟩⟩
  · next c m hdangling hescape =>
    obtain ⟨h1, h2⟩ := hlit c m rfl
    have h3 : c ≠ '\\' := by
      rintro rfl
      cases m with
      | nil => exact hdangling rfl rfl
      | cons d m => exact hescape d m rfl rfl
    have htoks := toks_lit c m ⟨h1, h2, h3⟩
    rw [htoks] at hok
    apply scan_agrees c m n _ hok
    · intro d hd
      exact (of_decide_eq_true hd).symm
    · exact ⟨hm, Or.inl htoks⟩

/-- A run of wildcards, which may be empty, that does not end in front of an escape that is
compared wrongly. -/
theorem wild_agrees (hlast : mask.getLast? ≠ some '\\') (s : Cursor) (h : Decides mask ok s)
    (hs : s.m <:+ mask)
    (hright : ∀ c d m n, skipWild s.m s.n false = some ('\\' :: c :: m, d :: n, false) →
      d ≠ c ∧ toLower d ≠ toLower '\\') : Agrees mask ok (wild s) := by
  unfold wild
  rcases skipWild_marks s.m s.n with ⟨hskip, hno⟩ | ⟨m', n', b, u, hskip, hlit, hsplit, hb, hn, hu⟩ |
    ⟨b, u, q, v, hsplit, hb, hn, hu, hrest⟩
  · rw [hskip]
    exact backtrack_agrees s h hno
  · have hm' := (skipWild_suffix _ _ _ _ _ _ hskip).trans hs
    have hback : Decides mask ok ⟨s.m, u ++ n', s.saved⟩ := by
      rw [← hn]
      exact h
    have hadv := Decides.advance s.m m' n' u b s.saved hback hsplit hb hu
    rw [hskip]
    by_cases hescape : ∃ c m, m' = '\\' :: c :: m
    · obtain ⟨c, m, rfl⟩ := hescape
      have htoks : toks ('\\' :: c :: m) = .one (fun d => decide (d = c)) :: toks m := by rw [toks]
      cases n' with
      | nil =>
        have hfalse := hadv.not_of_nil _ _ _ _ htoks
        simpa [literal, Agrees] using hfalse
      | cons d n =>
        obtain ⟨hne, hfold⟩ := hright c d m n hskip
        dsimp only [literal]
        rw [if_neg (Ne.symm hfold)]
        apply backtrack_agrees _ hadv
        rw [htoks, matches_one_cons]
        simp [hne]
    · apply literal_agrees _ hadv hm'
      rintro c m rfl
      refine ⟨(hlit c m rfl).1, (hlit c m rfl).2, ?_⟩
      rintro rfl
      cases m with
      | nil => exact not_slash hlast hm' rfl
      | cons d m => exact hescape ⟨d, m, rfl⟩
  · have hback : Decides mask ok ⟨s.m, u ++ v, s.saved⟩ := by
      rw [← hn]
      exact h
    have hok := Decides.star s.m u v b q s.saved hback hsplit hb hu
    rcases hrest with ⟨hskip, hno⟩ | ⟨m', n', hskip, hlit, hiff⟩
    · rw [hskip]
      apply backtrack_agrees s h
      rw [hsplit, hn, matches_append_iff_of_starFree b (.star :: q) u v hb hu]
      exact hno
    · rw [hskip]
      exact afterStar_agrees hlast m' n' (hok.trans hiff) hlit
        ((skipWild_suffix _ _ _ _ _ _ hskip).trans hs)

theorem compares_right (s : Cursor) (hright : comparesWrong s = false) (c : Char) (m : CStr)
    (hm : s.m = c :: m) (hc : isWild c = true) (e d : Char) (m' n' : CStr)
    (hskip : skipWild s.m s.n false = some ('\\' :: e :: m', d :: n', false)) :
    d ≠ e ∧ toLower d ≠ toLower '\\' := by
  unfold comparesWrong at hright
  rw [hskip, hm] at hright
  simpa [hc] using hright

theorem turn_agrees (hlast : mask.getLast? ≠ some '\\') (s : Cursor) (h : Decides mask ok s)
    (hs : s.m <:+ mask) (hright : comparesWrong s = false) : Agrees mask ok (turn s) := by
  unfold turn
  split
  · next hm hn =>
    have hend := literal_agrees s h hs (by simp [hm])
    simpa [literal, hm, hn] using hend
  · next hm hn => exact backtrack_agrees s h (by simp [hm, hn, toks])
  · next hm _ => exact absurd hm (not_slash hlast hs)
  · next hm _ => exact absurd hm (not_slash hlast hs)
  · next c m hm hn =>
    apply backtrack_agrees s h
    rw [hm, hn, toks]
    exact matches_one_nil _ (toks m)
  · next c m d n hm hn =>
    have htoks : toks s.m = .one (fun d => decide (d = c)) :: toks m := by rw [hm, toks]
    split
    · next heq =>
      have hback : Decides mask ok ⟨s.m, [d] ++ n, s.saved⟩ := by
        rw [List.singleton_append, ← hn]
        exact h
      refine ⟨Or.inl (Decides.advance s.m m n [d] [_] s.saved hback htoks ?_ ?_), ?_⟩
      · simp [StarFree]
      · simp [heq]
      · rw [hm] at hs
        exact ((List.suffix_cons _ _).trans (List.suffix_cons _ _)).trans hs
    · next hne =>
      apply backtrack_agrees s h
      rw [htoks, hn, matches_one_cons]
      simp [Ne.symm hne]
  · next hm => exact wild_agrees hlast s h hs (compares_right s hright _ _ hm rfl · · · ·)
  · next hm => exact wild_agrees hlast s h hs (compares_right s hright _ _ hm rfl · · · ·)
  · next c m hstar hmark heq hend hend' hnil hcons =>
    apply literal_agrees s h hs
    intro c' m' hm
    obtain ⟨rfl, rfl⟩ : c = c' ∧ m = m' := by simpa using heq.symm.trans hm
    refine ⟨hstar, hmark, fun hc => ?_⟩
    cases m with
    | nil =>
      cases hn : s.n with
      | nil => exact hend hn hc rfl
      | cons d n => exact hend' d n hn hc rfl
    | cons e m =>
      cases hn : s.n with
      | nil => exact hnil e m hn hc rfl
      | cons d n => exact hcons e m d n hn hc rfl

/-- From an escaped letter that is not read wrongly, the turn leads on as if it had been read with
its backslash. -/
theorem resumed_agrees (hlast : mask.getLast? ≠ some '\\') (s : Cursor) (h : Resumed mask ok s)
    (hright : resumesWrong mask s = false) (hright' : comparesWrong s = false) :
    Agrees mask ok (turn s) := by
  obtain ⟨c, m, d, n, rfl, hsuffix, hok⟩ := h
  have hread : misread (c :: m) d = false := by
    have hsuffix' : ('\\' :: c :: m).isSuffixOf mask = true := List.isSuffixOf_iff_suffix.mpr hsuffix
    simpa [resumesWrong, hsuffix'] using hright
  have hc : c :: m <:+ mask := (List.suffix_cons _ _).trans hsuffix
  have hm : m <:+ mask := (List.suffix_cons _ _).trans hc
  have hstands : StandsFor mask (c :: m) (fun d => decide (d = c)) (toks m) :=
    ⟨hc, Or.inr ⟨c, m, rfl, hsuffix, rfl, rfl⟩⟩
  have hrefused : d ≠ c → Agrees mask ok (backtrack (some (c :: m, d :: n))) :=
    fun hne => restart_agrees hstands hok (by simp [hne])
  have htaken : d = c → ∀ r, toks r = toks m →
      Decides mask ok ⟨r, n, some (c :: m, d :: n)⟩ := by
    intro heq r hr
    exact ⟨_, toks m, [.one (fun d => decide (d = c))], [d], by rw [hr]; rfl, by simp [StarFree],
      by simpa using heq, hok, hok, Or.inl rfl, hstands⟩
  by_cases hstar : c = '*'
  · subst hstar
    simp [misread] at hread
  by_cases hmark : c = '?'
  · subst hmark
    have heq : d = '?' := by simpa [misread] using hread
    -- the '?' takes the letter, and the run goes on as from behind it
    have hwild : turn ⟨'?' :: m, d :: n, some ('?' :: m, d :: n)⟩ =
        wild ⟨m, n, some ('?' :: m, d :: n)⟩ := rfl
    rw [hwild]
    exact wild_agrees hlast _ (htaken heq m rfl) hm
      (compares_right ⟨'?' :: m, d :: n, some ('?' :: m, d :: n)⟩ hright' _ _ rfl rfl · · · ·)
  by_cases hslash : c = '\\'
  · subst hslash
    cases m with
    | nil => exact absurd rfl (not_slash hlast hc)
    | cons e m =>
      have hturn : turn ⟨'\\' :: e :: m, d :: n, some ('\\' :: e :: m, d :: n)⟩ =
          if e = d then .again ⟨m, n, some ('\\' :: e :: m, d :: n)⟩
          else backtrack (some ('\\' :: e :: m, d :: n)) := rfl
      rw [hturn]
      by_cases heq : d = '\\'
      · obtain ⟨rfl, hsame⟩ : e = '\\' ∧ sameRead m = true := by simpa [misread, heq] using hread
        rw [if_pos heq.symm]
        exact ⟨Or.inl (htaken heq m (toks_sameRead m hsame).symm), (List.suffix_cons _ _).trans hm⟩
      · have hne : ¬ e = d := by simpa [misread, heq, eq_comm] using hread
        rw [if_neg hne]
        exact hrefused heq
  · have hturn : turn ⟨c :: m, d :: n, some (c :: m, d :: n)⟩ =
        literal ⟨c :: m, d :: n, some (c :: m, d :: n)⟩ := by
      unfold turn
      split <;> simp_all
    have hfold : c ≠ d → toLower c ≠ toLower d := by
      unfold misread at hread
      split at hread <;> simp_all
    rw [hturn]
    dsimp only [literal]
    by_cases heq : d = c
    · rw [if_pos (by rw [heq])]
      exact ⟨Or.inl (htaken heq m rfl), hm⟩
    · rw [if_neg (hfold (Ne.symm heq))]
      exact hrefused heq

theorem run_agrees (hlast : mask.getLast? ≠ some '\\') (fuel : ℕ) (s : Cursor) (r : ℕ)
    (h : Decides mask ok s ∨ Resumed mask ok s) (hs : s.m <:+ mask)
    (hright : readsRight mask fuel s = true) (hrun : run fuel s = some r) : r = 0 ↔ ok := by
  induction fuel generalizing s with
  | zero => simp [run] at hrun
  | succ fuel ih =>
    unfold readsRight at hright
    simp only [Bool.and_eq_true, Bool.not_eq_true'] at hright
    obtain ⟨⟨hresumes, hcompares⟩, hrest⟩ := hright
    have hturn : Agrees mask ok (turn s) := by
      rcases h with h | h
      · exact turn_agrees hlast s h hs hcompares
      · exact resumed_agrees hlast s h hresumes hcompares
    unfold run at hrun
    cases ht : turn s with
    | done r' =>
      rw [ht] at hturn hrun
      rwa [← Option.some.inj hrun]
    | again s' =>
      rw [ht] at hturn hrun hrest
      exact ih s' hturn.1 hturn.2 hrest hrun

end Masks

end IrcdHybrid.MatchLanguage
