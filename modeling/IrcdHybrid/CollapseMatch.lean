import IrcdHybrid.Collapse
import IrcdHybrid.MatchArrays
import Mathlib.Logic.Relation

/-!
A collapsed mask matches what the mask matches. Collapsing moves stars behind a '?' and
drops one of two, but not right behind a backslash, be that escaped itself or not. The
matcher reads a run of wildcards as a whole, so that it takes the same turns on two masks
that differ by such a move, also when it starts again behind the backslash of an escape.
-/

namespace IrcdHybrid.CollapseMatch

open CString Match MatchArrays Collapse

/-- One star moves or goes. -/
inductive Move : CStr → CStr → Prop where
  | swap (m : CStr) : Move ('*' :: '?' :: m) ('?' :: '*' :: m)
  | drop (m : CStr) : Move ('*' :: '*' :: m) ('*' :: m)
  | letter (c : Char) (m m' : CStr) (hc : c ≠ '\\') (h : Move m m') : Move (c :: m) (c :: m')
  | escape (d : Char) (m m' : CStr) (hd : d ≠ '\\') (h : Move m m') :
    Move ('\\' :: d :: m) ('\\' :: d :: m')
  | slash (m m' : CStr) (h : Move ('\\' :: m) ('\\' :: m')) :
    Move ('\\' :: '\\' :: m) ('\\' :: '\\' :: m')

def Near (m m' : CStr) : Prop := m = m' ∨ Move m m'

/-- Behind a backslash the letter stays, and what is behind that letter moves. -/
theorem move_slash (m m' : CStr) (h : Move ('\\' :: m) ('\\' :: m')) :
    ∃ d r r', m = d :: r ∧ m' = d :: r' ∧ Move r r' ∧ Move m m' := by
  generalize hm : '\\' :: m = l at h
  generalize hm' : '\\' :: m' = l' at h
  induction h generalizing m m' with
  | swap => simp at hm
  | drop => simp at hm
  | letter c r r' hc =>
    exact absurd (List.cons.inj hm).1.symm hc
  | escape d r r' hd h =>
    rw [(List.cons.inj hm).2, (List.cons.inj hm').2]
    exact ⟨d, r, r', rfl, rfl, h, .letter d r r' hd h⟩
  | slash r r' h ih =>
    obtain ⟨d, q, q', rfl, rfl, -, hr⟩ := ih r r' rfl rfl
    rw [(List.cons.inj hm).2, (List.cons.inj hm').2]
    exact ⟨'\\', d :: q, d :: q', rfl, rfl, hr, h⟩

theorem near_cases (m m' : CStr) (h : Near m m') :
    m = m' ∨ (∃ c r c' r', m = c :: r ∧ m' = c' :: r' ∧ isWild c = true ∧ isWild c' = true) ∨
      (∃ c r r', m = '\\' :: c :: r ∧ m' = '\\' :: c :: r' ∧ Near r r' ∧ Near (c :: r) (c :: r')) ∨
      ∃ c r r', m = c :: r ∧ m' = c :: r' ∧ isWild c = false ∧ c ≠ '\\' ∧ Near r r' := by
  rcases h with rfl | h
  · exact Or.inl rfl
  · right
    cases h with
    | swap r => exact Or.inl ⟨'*', _, '?', _, rfl, rfl, by decide, by decide⟩
    | drop r => exact Or.inl ⟨'*', _, '*', _, rfl, rfl, by decide, by decide⟩
    | letter c r r' hc h =>
      by_cases hwild : isWild c = true
      · exact Or.inl ⟨c, r, c, r', rfl, rfl, hwild, hwild⟩
      · exact Or.inr (Or.inr ⟨c, r, r', rfl, rfl, by simpa using hwild, hc, Or.inr h⟩)
    | escape d r r' hd h =>
      exact Or.inr (Or.inl ⟨d, r, r', rfl, rfl, Or.inr h, Or.inr (.letter d r r' hd h)⟩)
    | slash r r' h =>
      obtain ⟨d, q, q', rfl, rfl, -, hr⟩ := move_slash r r' h
      exact Or.inr (Or.inl ⟨'\\', _, _, rfl, rfl, Or.inr hr, Or.inr h⟩)

/-- Two restart points. -/
inductive NearSaved : Option (CStr × CStr) → Option (CStr × CStr) → Prop where
  | none : NearSaved none none
  | some (m m' n : CStr) (h : Near m m') : NearSaved (some (m, n)) (some (m', n))

structure NearCursor (s s' : Cursor) : Prop where
  m : Near s.m s'.m
  n : s.n = s'.n
  saved : NearSaved s.saved s'.saved

inductive NearTurn : Turn → Turn → Prop where
  | done (result : ℕ) : NearTurn (.done result) (.done result)
  | again (s s' : Cursor) (h : NearCursor s s') : NearTurn (.again s) (.again s')

theorem backtrack_near (saved saved' : Option (CStr × CStr)) (h : NearSaved saved saved') :
    NearTurn (backtrack saved) (backtrack saved') := by
  cases h with
  | none => exact .done 1
  | some m m' n h =>
    unfold backtrack
    dsimp only
    cases n.tail with
    | nil => exact .done 1
    | cons c t => exact .again _ _ ⟨h, rfl, .some m m' _ h⟩

theorem literal_near (c : Char) (r r' n : CStr) (saved saved' : Option (CStr × CStr)) (hr : Near r r')
    (hsaved : NearSaved saved saved') :
    NearTurn (literal ⟨c :: r, n, saved⟩) (literal ⟨c :: r', n, saved'⟩) := by
  unfold literal
  cases n with
  | nil => exact .done 1
  | cons d n =>
    dsimp only
    by_cases hsame : toLower c = toLower d
    · rw [if_pos hsame, if_pos hsame]
      exact .again _ _ ⟨hr, rfl, hsaved⟩
    · rw [if_neg hsame, if_neg hsame]
      exact backtrack_near saved saved' hsaved

theorem literal_same (m n : CStr) (saved saved' : Option (CStr × CStr)) (hsaved : NearSaved saved saved') :
    NearTurn (literal ⟨m, n, saved⟩) (literal ⟨m, n, saved'⟩) := by
  cases m with
  | cons c r => exact literal_near c r r n saved saved' (Or.inl rfl) hsaved
  | nil =>
    unfold literal
    cases n with
    | nil => exact .done 0
    | cons d n => exact backtrack_near saved saved' hsaved

theorem skipWild_front (m n : CStr) (star : Bool) (r n' : CStr) (star' : Bool)
    (h : skipWild m n star = some (r, n', star')) : isWild (letter r 0) = false := by
  fun_induction skipWild m n star with
  | case1 n star m ih => exact ih h
  | case2 => simp at h
  | case3 m c n star ih => exact ih h
  | case4 m n star hstar hnil hcons =>
    simp only [Option.some.injEq, Prod.mk.injEq] at h
    obtain ⟨rfl, -, -⟩ := h
    cases m with
    | nil => decide
    | cons c m =>
      by_contra hwild
      rcases (isWild_iff c).mp (by simpa [letter] using hwild) with rfl | rfl
      · exact hstar m rfl
      · cases n with
        | nil => exact hnil m rfl rfl
        | cons d n => exact hcons m d n rfl rfl

theorem skipWild_plain (c : Char) (m n : CStr) (star : Bool) (hc : isWild c = false) :
    skipWild (c :: m) n star = some (c :: m, n, star) := by
  have hne : ¬ (c = '*' ∨ c = '?') := fun h => by simp [(isWild_iff c).mpr h] at hc
  rw [skipWild.eq_def]
  split <;> simp_all

/-- The same is read of the name, whatever the order of the wildcards. -/
theorem skipWild_near (m m' n : CStr) (star : Bool) (h : Near m m') :
    (skipWild m n star = none ∧ skipWild m' n star = none) ∨
      ∃ r r' n' star', skipWild m n star = some (r, n', star') ∧
        skipWild m' n star = some (r', n', star') ∧ Near r r' := by
  have hrefl : ∀ m n star, (skipWild m n star = none ∧ skipWild m n star = none) ∨
      ∃ r r' n' star', skipWild m n star = some (r, n', star') ∧
        skipWild m n star = some (r', n', star') ∧ Near r r' := by
    intro m n star
    cases hskip : skipWild m n star with
    | none => exact Or.inl ⟨rfl, rfl⟩
    | some x => exact Or.inr ⟨x.1, x.1, x.2.1, x.2.2, rfl, rfl, Or.inl rfl⟩
  rcases h with rfl | h
  · exact hrefl m n star
  · induction h generalizing n star with
    | swap m =>
      cases n with
      | nil => exact Or.inl ⟨rfl, rfl⟩
      | cons d n => exact hrefl m n true
    | drop m => exact hrefl m n true
    | letter c m m' hc h ih =>
      by_cases hwild : isWild c = true
      · rcases (isWild_iff c).mp hwild with rfl | rfl
        · exact ih n true
        · cases n with
          | nil => exact Or.inl ⟨rfl, rfl⟩
          | cons d n => exact ih n star
      · rw [skipWild_plain c m n star (by simpa using hwild),
          skipWild_plain c m' n star (by simpa using hwild)]
        exact Or.inr ⟨_, _, _, _, rfl, rfl, Or.inr (.letter c m m' hc h)⟩
    | escape d m m' hd h =>
      rw [skipWild_plain '\\' _ n star (by decide), skipWild_plain '\\' _ n star (by decide)]
      exact Or.inr ⟨_, _, _, _, rfl, rfl, Or.inr (.escape d m m' hd h)⟩
    | slash m m' h =>
      rw [skipWild_plain '\\' _ n star (by decide), skipWild_plain '\\' _ n star (by decide)]
      exact Or.inr ⟨_, _, _, _, rfl, rfl, Or.inr (.slash m m' h)⟩

theorem nearSaved_refl (saved : Option (CStr × CStr)) : NearSaved saved saved := by
  rcases saved with _ | ⟨m, n⟩
  · exact .none
  · exact .some m m n (Or.inl rfl)

theorem nearTurn_refl (t : Turn) : NearTurn t t := by
  cases t with
  | done result => exact .done result
  | again s => exact .again s s ⟨Or.inl rfl, rfl, nearSaved_refl s.saved⟩

theorem afterStar_plain (c : Char) (m n : CStr) (hc : c ≠ '\\') : afterStar (c :: m) n =
    literal ⟨c :: m, n.dropWhile (fun d => !decide (toLower d = toLower c)), some (c :: m, n)⟩ := by
  unfold afterStar
  split <;> simp_all

theorem afterStar_near (m m' n : CStr) (h : Near m m') (hfront : isWild (letter m 0) = false) :
    NearTurn (afterStar m n) (afterStar m' n) := by
  rcases near_cases m m' h with rfl | ⟨c, r, c', r', rfl, rfl, hwild, -⟩ |
    ⟨c, r, r', rfl, rfl, hr, hcr⟩ | ⟨c, r, r', rfl, rfl, -, hc, hr⟩
  · exact nearTurn_refl _
  · exact absurd hfront (by simp [letter, hwild])
  · exact literal_near c r r' _ _ _ hr (.some _ _ n hcr)
  · rw [afterStar_plain c r n hc, afterStar_plain c r' n hc]
    exact literal_near c r r' _ _ _ hr (.some _ _ n h)

theorem wild_near (s s' : Cursor) (h : NearCursor s s') : NearTurn (wild s) (wild s') := by
  unfold wild
  rw [← h.n]
  rcases skipWild_near s.m s'.m s.n false h.m with ⟨hnone, hnone'⟩ |
    ⟨r, r', n, star, hsome, hsome', hr⟩
  · rw [hnone, hnone']
    exact backtrack_near _ _ h.saved
  · have hfront := skipWild_front _ _ _ _ _ _ hsome
    rw [hsome, hsome']
    cases star with
    | true => exact afterStar_near r r' n hr hfront
    | false =>
      dsimp only
      rcases near_cases r r' hr with rfl | ⟨c, q, c', q', rfl, rfl, hwild, -⟩ |
        ⟨c, q, q', rfl, rfl, hq, hcq⟩ | ⟨c, q, q', rfl, rfl, -, hc, hq⟩
      · exact literal_same r n _ _ h.saved
      · exact absurd hfront (by simp [letter, hwild])
      · exact literal_near '\\' _ _ n _ _ hcq h.saved
      · exact literal_near c q q' n _ _ hq h.saved

theorem turn_wild (c : Char) (m n : CStr) (saved : Option (CStr × CStr)) (hc : isWild c = true) :
    turn ⟨c :: m, n, saved⟩ = wild ⟨c :: m, n, saved⟩ := by
  rcases (isWild_iff c).mp hc with rfl | rfl <;> rfl

theorem turn_escaped (c d : Char) (m n : CStr) (saved : Option (CStr × CStr)) :
    turn ⟨'\\' :: c :: m, d :: n, saved⟩ =
      if c = d then .again ⟨m, n, saved⟩ else backtrack saved := rfl

theorem turn_plain (c : Char) (m n : CStr) (saved : Option (CStr × CStr)) (hc : isWild c = false)
    (hslash : c ≠ '\\') : turn ⟨c :: m, n, saved⟩ = literal ⟨c :: m, n, saved⟩ := by
  have hne : ¬ (c = '*' ∨ c = '?') := fun h => by simp [(isWild_iff c).mpr h] at hc
  unfold turn
  split <;> simp_all

theorem escaped_near (c : Char) (r r' n : CStr) (saved saved' : Option (CStr × CStr)) (hr : Near r r')
    (h : NearSaved saved saved') :
    NearTurn (turn ⟨'\\' :: c :: r, n, saved⟩) (turn ⟨'\\' :: c :: r', n, saved'⟩) := by
  cases n with
  | nil => exact backtrack_near saved saved' h
  | cons d n =>
    rw [turn_escaped, turn_escaped]
    by_cases hsame : c = d
    · rw [if_pos hsame, if_pos hsame]
      exact .again _ _ ⟨hr, rfl, h⟩
    · rw [if_neg hsame, if_neg hsame]
      exact backtrack_near saved saved' h

/-- With the same mask and name, only the restart points matter. -/
theorem turn_same (m n : CStr) (saved saved' : Option (CStr × CStr)) (h : NearSaved saved saved') :
    NearTurn (turn ⟨m, n, saved⟩) (turn ⟨m, n, saved'⟩) := by
  cases m with
  | nil =>
    cases n with
    | nil => exact .done 0
    | cons d n => exact backtrack_near saved saved' h
  | cons c m =>
    by_cases hc : isWild c = true
    · rw [turn_wild c m n saved hc, turn_wild c m n saved' hc]
      exact wild_near _ _ ⟨Or.inl rfl, rfl, h⟩
    · by_cases hslash : c = '\\'
      · subst hslash
        cases m with
        | nil =>
          cases n with
          | nil => exact .done 1
          | cons d n => exact backtrack_near saved saved' h
        | cons c m => exact escaped_near c m m n saved saved' (Or.inl rfl) h
      · rw [turn_plain c m n saved (by simpa using hc) hslash,
          turn_plain c m n saved' (by simpa using hc) hslash]
        exact literal_same _ n saved saved' h

theorem turn_near (s s' : Cursor) (h : NearCursor s s') : NearTurn (turn s) (turn s') := by
  obtain ⟨m, n, saved⟩ := s
  obtain ⟨m', n', saved'⟩ := s'
  obtain ⟨hm, hn, hsaved⟩ := h
  obtain rfl : n = n' := hn
  rcases near_cases m m' hm with rfl | ⟨c, r, c', r', rfl, rfl, hwild, hwild'⟩ |
    ⟨c, r, r', rfl, rfl, hr, -⟩ | ⟨c, r, r', rfl, rfl, hwild, hc, hr⟩
  · exact turn_same m n saved saved' hsaved
  · rw [turn_wild c r n saved hwild, turn_wild c' r' n saved' hwild']
    exact wild_near _ _ ⟨hm, rfl, hsaved⟩
  · exact escaped_near c r r' n saved saved' hr hsaved
  · rw [turn_plain c r n saved hwild hc, turn_plain c r' n saved' hwild hc]
    exact literal_near c r r' n saved saved' hr hsaved

theorem run_near (fuel : ℕ) (s s' : Cursor) (h : NearCursor s s') : run fuel s = run fuel s' := by
  induction fuel generalizing s s' with
  | zero => rfl
  | succ fuel ih =>
    have hturn := turn_near s s' h
    unfold run
    generalize turn s = t at hturn
    generalize turn s' = t' at hturn
    cases hturn with
    | done result => rfl
    | again s s' h => exact ih s s' h

theorem matchMask_near (m m' name : CStr) (h : Near m m') : matchMask m name = matchMask m' name := by
  have hrun := run_start m name
  have hrun' := run_start m' name
  generalize (name.length + 2) * (m.length + 1) = fuel at hrun
  generalize (name.length + 2) * (m'.length + 1) = fuel' at hrun'
  have hmore := run_more fuel fuel' _ _ hrun
  have hmore' := run_more fuel' fuel _ _ hrun'
  rw [run_near _ ⟨m, name, none⟩ ⟨m', name, none⟩ ⟨h, rfl, .none⟩, Nat.add_comm, hmore'] at hmore
  exact (Option.some.inj hmore).symm

def Moves : CStr → CStr → Prop := Relation.ReflTransGen Move

theorem matchMask_moves (m m' name : CStr) (h : Moves m m') : matchMask m name = matchMask m' name := by
  induction h with
  | refl => rfl
  | tail _ hmove ih => exact ih.trans (matchMask_near _ _ name (Or.inr hmove))

theorem moves_lift (f : CStr → CStr) (hf : ∀ m m', Move m m' → Move (f m) (f m')) (m m' : CStr)
    (h : Moves m m') : Moves (f m) (f m') := by
  induction h with
  | refl => exact .refl
  | tail _ hmove ih => exact ih.tail (hf _ _ hmove)

theorem moves_letter (c : Char) (m m' : CStr) (hc : c ≠ '\\') (h : Moves m m') :
    Moves (c :: m) (c :: m') :=
  moves_lift (fun m => c :: m) (fun m m' => .letter c m m' hc) m m' h

theorem moves_escape (d : Char) (m m' : CStr) (hd : d ≠ '\\') (h : Moves m m') :
    Moves ('\\' :: d :: m) ('\\' :: d :: m') :=
  moves_lift (fun m => '\\' :: d :: m) (fun m m' => .escape d m m' hd) m m' h

theorem moves_slash (m m' : CStr) (h : Moves ('\\' :: m) ('\\' :: m')) :
    Moves ('\\' :: '\\' :: m) ('\\' :: '\\' :: m') := by
  have hhead : ∀ l l', Moves l l' → ∀ m, l = '\\' :: m → ∃ m', l' = '\\' :: m' ∧
      Moves ('\\' :: '\\' :: m) ('\\' :: '\\' :: m') := by
    intro l l' hl m hm
    induction hl with
    | refl => exact ⟨m, hm, .refl⟩
    | tail _ hmove ih =>
      obtain ⟨m', rfl, hmoves⟩ := ih
      cases hmove with
      | letter c r r' hc h => exact absurd rfl hc
      | escape d r r' hd h => exact ⟨_, rfl, hmoves.tail (.slash _ _ (.escape d r r' hd h))⟩
      | slash r r' h => exact ⟨_, rfl, hmoves.tail (.slash _ _ (.slash r r' h))⟩
  obtain ⟨r, hr, hmoves⟩ := hhead _ _ h m rfl
  rw [(List.cons.inj hr).2]
  exact hmoves

theorem moves_stars (star : Bool) (m m' : CStr) (h : Moves m m') :
    Moves (stars star ++ m) (stars star ++ m') := by
  cases star with
  | false => exact h
  | true => exact moves_letter '*' m m' (by decide) h

/-- Collapsing is a number of moves, behind a backslash too if no wildcard comes next. -/
theorem rewrite_moves (unread : CStr) (star : Bool) :
    Moves (stars star ++ unread) (rewrite unread star) ∧
      (isWild (letter unread 0) = false → star = false →
        Moves ('\\' :: unread) ('\\' :: rewrite unread star)) := by
  fun_induction rewrite unread star with
  | case1 star =>
    refine ⟨by rw [List.append_nil]; exact .refl, fun _ hstar => ?_⟩
    rw [hstar]
    exact .refl
  | case2 m star ih =>
    refine ⟨?_, fun h => absurd h (by simp [letter, isWild])⟩
    cases star with
    | false => exact ih.1
    | true => exact Relation.ReflTransGen.head (.drop m) ih.1
  | case3 m star ih =>
    refine ⟨?_, fun h => absurd h (by simp [letter, isWild])⟩
    have hmoves := moves_letter '?' _ _ (by decide) ih.1
    cases star with
    | false => exact hmoves
    | true => exact Relation.ReflTransGen.head (.swap m) hmoves
  | case4 d m star hd ih =>
    have hne : d ≠ '\\' := by
      rintro rfl
      exact absurd hd (by decide)
    have hmoves := moves_escape d _ _ hne ih.1
    refine ⟨moves_stars star _ _ hmoves, fun _ hstar => ?_⟩
    rw [hstar]
    exact moves_slash _ _ hmoves
  | case5 d m star hd ih =>
    have hmoves := ih.2 (by simpa [letter] using hd) rfl
    refine ⟨moves_stars star _ _ hmoves, fun _ hstar => ?_⟩
    rw [hstar]
    exact moves_slash _ _ hmoves
  | case6 c m star hstar hmark hescape ih =>
    by_cases hslash : c = '\\'
    · have hm : m = [] := by
        cases m with
        | nil => rfl
        | cons d m => exact absurd rfl (hescape d m hslash)
      subst hm
      refine ⟨.refl, fun _ hstar' => ?_⟩
      rw [hstar']
      exact .refl
    · refine ⟨moves_stars star _ _ (moves_letter c _ _ hslash ih.1), fun _ hstar' => ?_⟩
      rw [hstar']
      exact moves_escape c _ _ hslash ih.1

theorem collapseText_moves (mask : CStr) : Moves mask (collapseText mask) ∧
    (isWild (letter mask 0) = false → Moves ('\\' :: mask) ('\\' :: collapseText mask)) := by
  fun_induction collapseText mask with
  | case1 => exact ⟨.refl, fun _ => .refl⟩
  | case2 d m hd =>
    exact ⟨(rewrite_moves (d :: m) true).1, fun h => absurd h (by simp [letter, isWild])⟩
  | case3 d m hd ih =>
    exact ⟨moves_letter '*' _ _ (by decide) ih.1, fun h => absurd h (by simp [letter, isWild])⟩
  | case4 d m hd ih =>
    have hne : d ≠ '\\' := by
      rintro rfl
      exact absurd hd (by decide)
    have hmoves := moves_escape d _ _ hne ih.1
    exact ⟨hmoves, fun _ => moves_slash _ _ hmoves⟩
  | case5 d m hd ih =>
    have hmoves := ih.2 (by simpa [letter] using hd)
    exact ⟨hmoves, fun _ => moves_slash _ _ hmoves⟩
  | case6 c m hstar hescape ih =>
    by_cases hslash : c = '\\'
    · have hm : m = [] := by
        cases m with
        | nil => rfl
        | cons d m => exact absurd rfl (hescape d m hslash)
      subst hm
      exact ⟨.refl, fun _ => .refl⟩
    · exact ⟨moves_letter c _ _ hslash ih.1, fun _ => moves_escape c _ _ hslash ih.1⟩

theorem Move.last {m m' : CStr} (h : Move m m') (hlast : m.getLast? ≠ some '\\') :
    m'.getLast? ≠ some '\\' := by
  have hcons : ∀ (c : Char) {m m' : CStr}, m ≠ [] → m' ≠ [] →
      (m.getLast? ≠ some '\\' → m'.getLast? ≠ some '\\') →
      (c :: m).getLast? ≠ some '\\' → (c :: m').getLast? ≠ some '\\' := by
    intro c m m' hm hm' hkeep hc
    rw [List.getLast?_cons_of_ne_nil hm] at hc
    rw [List.getLast?_cons_of_ne_nil hm']
    exact hkeep hc
  have hne : ∀ {m m' : CStr}, Move m m' → m ≠ [] ∧ m' ≠ [] := by
    intro m m' h
    cases h <;> exact ⟨List.cons_ne_nil _ _, List.cons_ne_nil _ _⟩
  induction h with
  | swap m =>
    cases m with
    | nil => decide
    | cons c m => simpa using hlast
  | drop m => simpa using hlast
  | letter c m m' hc h ih => exact hcons c (hne h).1 (hne h).2 ih hlast
  | escape d m m' hd h ih =>
    have hmm := hne h
    exact hcons '\\' (List.cons_ne_nil _ _) (List.cons_ne_nil _ _) (hcons d hmm.1 hmm.2 ih) hlast
  | slash m m' h ih => exact hcons '\\' (hne h).1 (hne h).2 ih hlast

theorem moves_last {m m' : CStr} (h : Moves m m') (hlast : m.getLast? ≠ some '\\') :
    m'.getLast? ≠ some '\\' := by
  induction h with
  | refl => exact hlast
  | tail _ hmove ih => exact hmove.last ih

/-- Collapsing a mask makes it no longer and changes nothing the second time. If the mask does not
end in a backslash, it matches what it matched, whatever is behind the texts in memory. -/
theorem collapse_preserves (mask : CStr) (hnul : '\x00' ∉ mask) :
    (collapse mask).length ≤ mask.length ∧ collapse (collapse mask) = collapse mask ∧
      (mask.getLast? ≠ some '\\' → ∀ name z z' y, '\x00' ∉ name →
        matchArray (collapse mask ++ '\x00' :: z') (name ++ '\x00' :: y) =
          matchArray (mask ++ '\x00' :: z) (name ++ '\x00' :: y)) := by
  have htext := collapse_eq mask hnul
  have hnul' := collapseText_nul mask hnul
  rw [htext]
  refine ⟨collapseText_length mask, ?_, fun hlast name z z' y hname => ?_⟩
  · rw [collapse_eq _ hnul']
    exact collapseText_settled _ (settled_collapseText mask)
  · have hmoves := (collapseText_moves mask).1
    rw [matchArray_eq mask name z y ⟨hnul, hlast⟩ hname,
      matchArray_eq _ name z' y ⟨hnul', moves_last hmoves hlast⟩ hname,
      matchMask_moves mask _ name hmoves]

theorem collapse_preserves_runs : collapse "a*?*b\\**?".toList = "a?*b\\*?*".toList ∧
    matchArray "a?*b\\*?*\x00".toList "acb*dd\x00".toList =
      matchArray "a*?*b\\**?\x00".toList "acb*dd\x00".toList :=
  ⟨by decide, (collapse_preserves "a*?*b\\**?".toList (by decide)).2.2 (by decide) "acb*dd".toList
    [] [] [] (by decide)⟩

/-- Behind the backslash that ends `**a\` and behind the name `a` the matcher reads on, and
collapsing moves what it finds there. -/
theorem collapse_slash_changes : ¬ ∀ mask name : CStr, '\x00' ∈ mask → '\x00' ∈ name →
    matchArray (collapseLoop mask.length mask 0) name = matchArray mask name := by
  intro hall
  have h := hall "**a\\\x00Z\x00".toList "a\x00\x00".toList (by decide) (by decide)
  have hbefore : matchArray "**a\\\x00Z\x00".toList "a\x00\x00".toList = some 1 := by decide
  have hafter : matchArray (collapseLoop 7 "**a\\\x00Z\x00".toList 0) "a\x00\x00".toList = some 0 := by
    decide
  exact absurd ((hafter.symm.trans h).trans hbefore) (by decide)

end IrcdHybrid.CollapseMatch
