import IrcdHybrid.Match

/-!
The matcher in memory. A pointer is what can be read from it on: the text, its terminator, and
whatever is behind that. On a backslash right in front of the mask's terminator both pointers
can step over their terminators; on a mask that does not end in a backslash nothing behind the
texts is read, and the matcher is that of `Match`.
-/

namespace IrcdHybrid.MatchArrays

open CString Match

def front (p : CStr) : Char := p.headD '\x00'

def backtrackAt : Option (CStr × CStr) → Turn
  | none => .done 1
  | some (mTmp, nTmp) =>
    if front nTmp.tail = '\x00' then .done 1
    else .again ⟨mTmp, nTmp.tail, some (mTmp, nTmp.tail)⟩

/-- The `default` branch. -/
def literalAt (s : Cursor) : Turn :=
  if front s.n = '\x00' then .done (if front s.m = '\x00' then 0 else 1)
  else if toLower (front s.m) = toLower (front s.n) then .again ⟨s.m.tail, s.n.tail, s.saved⟩
  else backtrackAt s.saved

def skipWildAt : CStr → CStr → Bool → Option (CStr × CStr × Bool)
  | '*' :: m, n, _ => skipWildAt m n true
  | '?' :: m, n, star => if front n = '\x00' then none else skipWildAt m n.tail star
  | m, n, star => some (m, n, star)

/-- The scan for a letter that passes the test. -/
def scanAt (test : Char → Bool) (n : CStr) : CStr := n.dropWhile (fun d => d ≠ '\x00' && !test d)

def afterStarAt (m n : CStr) : Turn :=
  if front m = '\x00' then .done 0
  else if front m = '\\' then
    if front m.tail = '\x00' then .done 1
    else literalAt ⟨m.tail, scanAt (fun d => decide (d = front m.tail)) n, some (m.tail, n)⟩
  else literalAt ⟨m, scanAt (fun d => decide (toLower d = toLower (front m))) n, some (m, n)⟩

def turnAt (s : Cursor) : Turn :=
  if front s.m = '\x00' then if front s.n = '\x00' then .done 0 else backtrackAt s.saved
  else if front s.m = '\\' then
    if front s.m.tail = front s.n then .again ⟨s.m.tail.tail, s.n.tail, s.saved⟩
    else backtrackAt s.saved
  else if isWild (front s.m) then
    match skipWildAt s.m s.n false with
    | none => backtrackAt s.saved
    | some (m, n, false) => literalAt ⟨m, n, s.saved⟩
    | some (m, n, true) => afterStarAt m n
  else literalAt s

def runAt : ℕ → Cursor → Option ℕ
  | 0, _ => none
  | fuel + 1, s =>
    match turnAt s with
    | .done result => some result
    | .again s' => runAt fuel s'

/-- `match(mask, name)` with the arrays that the texts are in. -/
def matchArray (mask name : CStr) : Option ℕ :=
  runAt ((name.length + 2) * (mask.length + 1)) ⟨mask, name, none⟩

/-- What is left of a mask that does not end in a backslash. -/
def Unslashed (m : CStr) : Prop := '\x00' ∉ m ∧ m.getLast? ≠ some '\\'

theorem Unslashed.tail {c : Char} {m : CStr} (h : Unslashed (c :: m)) : Unslashed m := by
  refine ⟨fun hmem => h.1 (List.mem_cons_of_mem c hmem), fun hlast => h.2 ?_⟩
  rw [List.getLast?_cons, hlast]
  rfl

theorem Unslashed.front_ne {c : Char} {m : CStr} (h : Unslashed (c :: m)) : c ≠ '\x00' :=
  fun hc => h.1 (hc ▸ List.mem_cons_self ..)

/-- What the texts are between the turns; a restart point is in front of a letter. -/
structure Clean (s : Cursor) : Prop where
  m : Unslashed s.m
  n : '\x00' ∉ s.n
  saved : ∀ x ∈ s.saved, Unslashed x.1 ∧ '\x00' ∉ x.2 ∧ x.2 ≠ []

@[simp] theorem front_cons (c : Char) (p : CStr) : front (c :: p) = c := rfl

theorem head_ne {d : Char} {n : CStr} (h : '\x00' ∉ d :: n) : d ≠ '\x00' ∧ '\x00' ∉ n := by
  simp only [List.mem_cons, not_or] at h
  exact ⟨Ne.symm h.1, h.2⟩

section Arrays

variable (z y : CStr)

/-- A restart point in memory, with something behind the terminators. -/
def savedIn (saved : Option (CStr × CStr)) : Option (CStr × CStr) :=
  saved.map (fun x => (x.1 ++ '\x00' :: z, x.2 ++ '\x00' :: y))

def inArrays (s : Cursor) : Cursor := ⟨s.m ++ '\x00' :: z, s.n ++ '\x00' :: y, savedIn z y s.saved⟩

/-- The turns are the same, and nothing behind the texts was read. -/
inductive Same : Turn → Turn → Prop where
  | done (result : ℕ) : Same (.done result) (.done result)
  | again (s : Cursor) (h : Clean s) : Same (.again s) (.again (inArrays z y s))

theorem backtrack_same (saved : Option (CStr × CStr))
    (h : ∀ x ∈ saved, Unslashed x.1 ∧ '\x00' ∉ x.2 ∧ x.2 ≠ []) :
    Same z y (backtrack saved) (backtrackAt (savedIn z y saved)) := by
  rcases saved with _ | ⟨mTmp, nTmp⟩
  · exact .done 1
  · obtain ⟨hm, hn, hne⟩ := h _ rfl
    match nTmp with
    | [] => exact absurd rfl hne
    | [c] => exact .done 1
    | c :: d :: t =>
      obtain ⟨-, htail⟩ := head_ne hn
      have hback : backtrackAt (savedIn z y (some (mTmp, c :: d :: t))) =
          .again (inArrays z y ⟨mTmp, d :: t, some (mTmp, d :: t)⟩) :=
        if_neg (head_ne htail).1
      rw [hback]
      refine .again ⟨mTmp, d :: t, some (mTmp, d :: t)⟩ ⟨hm, htail, fun x hx => ?_⟩
      obtain rfl := Option.some.inj hx
      exact ⟨hm, htail, List.cons_ne_nil d t⟩

theorem literal_same (s : Cursor) (h : Clean s) : Same z y (literal s) (literalAt (inArrays z y s)) := by
  obtain ⟨m, n, saved⟩ := s
  cases n with
  | nil =>
    cases m with
    | nil => exact .done 0
    | cons c m =>
      have hturn : literalAt (inArrays z y ⟨c :: m, [], saved⟩) = .done 1 :=
        congrArg Turn.done (if_neg h.m.front_ne)
      rw [hturn]
      exact .done 1
  | cons d n =>
    obtain ⟨hd, hn⟩ := head_ne h.n
    have hturn : literalAt (inArrays z y ⟨m, d :: n, saved⟩) =
        if toLower (front (m ++ '\x00' :: z)) = toLower d then
          .again ⟨(m ++ '\x00' :: z).tail, n ++ '\x00' :: y, savedIn z y saved⟩
        else backtrackAt (savedIn z y saved) := if_neg hd
    rw [hturn]
    cases m with
    | nil =>
      have hzero : ¬ toLower (front ([] ++ '\x00' :: z)) = toLower d := by
        show ¬ toLower '\x00' = toLower d
        rw [eq_comm, toLower_eq_iff_of_unfolded '\x00' d (by decide)]
        exact hd
      rw [if_neg hzero]
      exact backtrack_same z y saved h.saved
    | cons c m =>
      show Same z y (if toLower c = toLower d then _ else _) (if toLower c = toLower d then _ else _)
      split
      · exact .again ⟨m, n, saved⟩ ⟨h.m.tail, hn, h.saved⟩
      · exact backtrack_same z y saved h.saved

theorem skipWild_same (m n : CStr) (star : Bool) (hm : Unslashed m) (hn : '\x00' ∉ n) :
    skipWildAt (m ++ '\x00' :: z) (n ++ '\x00' :: y) star = (skipWild m n star).map
      (fun x => (x.1 ++ '\x00' :: z, x.2.1 ++ '\x00' :: y, x.2.2)) ∧
    ∀ x ∈ skipWild m n star, Unslashed x.1 ∧ '\x00' ∉ x.2.1 := by
  fun_induction skipWild m n star with
  | case1 n star m ih => exact ih hm.tail hn
  | case2 m star => exact ⟨rfl, by simp⟩
  | case3 m d n star ih =>
    obtain ⟨hd, hn⟩ := head_ne hn
    obtain ⟨hskip, hclean⟩ := ih hm.tail hn
    exact ⟨(if_neg hd).trans hskip, hclean⟩
  | case4 m n star hstar hnil hcons =>
    refine ⟨?_, fun x hx => by obtain rfl := Option.some.inj hx; exact ⟨hm, hn⟩⟩
    rw [skipWildAt.eq_def]
    cases m with
    | nil => rfl
    | cons c m =>
      have hc : c ≠ '?' := by
        rintro rfl
        cases n with
        | nil => exact hnil m rfl rfl
        | cons d n => exact hcons m d n rfl rfl
      have hc' : c ≠ '*' := fun hc' => hstar m (hc' ▸ rfl)
      split <;> simp_all

theorem scan_same (test : Char → Bool) (n : CStr) (hn : '\x00' ∉ n) :
    scanAt test (n ++ '\x00' :: y) = n.dropWhile (fun d => !test d) ++ '\x00' :: y := by
  induction n with
  | nil => rfl
  | cons d n ih =>
    obtain ⟨hd, hn⟩ := head_ne hn
    show List.dropWhile _ (d :: (n ++ '\x00' :: y)) = _
    rw [List.dropWhile_cons, List.dropWhile_cons]
    by_cases htest : test d = true
    · simp [htest]
    · simpa [htest, hd, scanAt] using ih hn

/-- The scan ends the matching, or at a letter that the restart point is in front of. -/
theorem scanned_same (test : Char → Bool) (m n : CStr) (hm : Unslashed m) (hn : '\x00' ∉ n) :
    Same z y (literal ⟨m, n.dropWhile (fun d => !test d), some (m, n)⟩)
      (literalAt ⟨m ++ '\x00' :: z, scanAt test (n ++ '\x00' :: y),
        some (m ++ '\x00' :: z, n ++ '\x00' :: y)⟩) := by
  rw [scan_same y test n hn]
  have hsuffix := List.dropWhile_suffix (l := n) (fun d => !test d)
  cases hdrop : n.dropWhile (fun d => !test d) with
  | nil =>
    cases m with
    | nil => exact .done 0
    | cons c m =>
      have hturn : literalAt ⟨c :: m ++ '\x00' :: z, [] ++ '\x00' :: y,
          some (c :: m ++ '\x00' :: z, n ++ '\x00' :: y)⟩ = .done 1 :=
        congrArg Turn.done (if_neg hm.front_ne)
      rw [hturn]
      exact .done 1
  | cons d t =>
    rw [hdrop] at hsuffix
    refine literal_same z y ⟨m, d :: t, some (m, n)⟩ ⟨hm, fun hmem => hn (hsuffix.subset hmem), ?_⟩
    rintro x hx
    obtain rfl := Option.some.inj hx
    refine ⟨hm, hn, ?_⟩
    rintro rfl
    exact absurd (List.suffix_nil.mp hsuffix) (List.cons_ne_nil d t)

theorem afterStar_same (m n : CStr) (hm : Unslashed m) (hn : '\x00' ∉ n) :
    Same z y (afterStar m n) (afterStarAt (m ++ '\x00' :: z) (n ++ '\x00' :: y)) := by
  unfold afterStar
  split
  · exact .done 0
  · exact absurd rfl hm.2
  · next c m =>
    have hturn : afterStarAt ('\\' :: c :: m ++ '\x00' :: z) (n ++ '\x00' :: y) =
        literalAt ⟨c :: m ++ '\x00' :: z, scanAt (fun d => decide (d = c)) (n ++ '\x00' :: y),
          some (c :: m ++ '\x00' :: z, n ++ '\x00' :: y)⟩ := if_neg hm.tail.front_ne
    rw [hturn]
    exact scanned_same z y _ (c :: m) n hm.tail hn
  · next c m hslash hescape =>
    have hc : c ≠ '\\' := by
      rintro rfl
      cases m with
      | nil => exact hslash rfl rfl
      | cons d m => exact hescape d m rfl rfl
    have hturn : afterStarAt (c :: m ++ '\x00' :: z) (n ++ '\x00' :: y) =
        literalAt ⟨c :: m ++ '\x00' :: z,
          scanAt (fun d => decide (toLower d = toLower c)) (n ++ '\x00' :: y),
          some (c :: m ++ '\x00' :: z, n ++ '\x00' :: y)⟩ :=
      (if_neg hm.front_ne).trans (if_neg hc)
    rw [hturn]
    exact scanned_same z y _ (c :: m) n hm hn

theorem wild_same (s : Cursor) (h : Clean s) :
    Same z y (wild s) (match skipWildAt (s.m ++ '\x00' :: z) (s.n ++ '\x00' :: y) false with
      | none => backtrackAt (savedIn z y s.saved)
      | some (m, n, false) => literalAt ⟨m, n, savedIn z y s.saved⟩
      | some (m, n, true) => afterStarAt m n) := by
  obtain ⟨hskip, hclean⟩ := skipWild_same z y s.m s.n false h.m h.n
  unfold wild
  rw [hskip]
  rcases hrun : skipWild s.m s.n false with _ | ⟨m, n, star⟩
  · exact backtrack_same z y s.saved h.saved
  · obtain ⟨hm, hn⟩ := hclean _ hrun
    cases star with
    | false => exact literal_same z y ⟨m, n, s.saved⟩ ⟨hm, hn, h.saved⟩
    | true => exact afterStar_same z y m n hm hn

theorem turn_same (s : Cursor) (h : Clean s) : Same z y (turn s) (turnAt (inArrays z y s)) := by
  obtain ⟨m, n, saved⟩ := s
  cases m with
  | nil =>
    cases n with
    | nil => exact .done 0
    | cons d n =>
      have hturn : turnAt (inArrays z y ⟨[], d :: n, saved⟩) = backtrackAt (savedIn z y saved) :=
        if_neg (head_ne h.n).1
      rw [hturn]
      exact backtrack_same z y saved h.saved
  | cons c m =>
    have hzero := h.m.front_ne
    by_cases hslash : c = '\\'
    · subst hslash
      cases m with
      | nil => exact absurd rfl h.m.2
      | cons c m =>
        have hturn : turnAt (inArrays z y ⟨'\\' :: c :: m, n, saved⟩) =
            if c = front (n ++ '\x00' :: y) then
              .again ⟨m ++ '\x00' :: z, (n ++ '\x00' :: y).tail, savedIn z y saved⟩
            else backtrackAt (savedIn z y saved) := rfl
        rw [hturn]
        cases n with
        | nil =>
          rw [if_neg (show ¬ c = front ([] ++ '\x00' :: y) from h.m.tail.front_ne)]
          exact backtrack_same z y saved h.saved
        | cons d n =>
          show Same z y (if c = d then _ else _) (if c = d then _ else _)
          split
          · exact .again ⟨m, n, saved⟩ ⟨h.m.tail.tail, (head_ne h.n).2, h.saved⟩
          · exact backtrack_same z y saved h.saved
    · have hat : turnAt (inArrays z y ⟨c :: m, n, saved⟩) = if isWild c then
            match skipWildAt (c :: m ++ '\x00' :: z) (n ++ '\x00' :: y) false with
            | none => backtrackAt (savedIn z y saved)
            | some (m, n, false) => literalAt ⟨m, n, savedIn z y saved⟩
            | some (m, n, true) => afterStarAt m n
          else literalAt (inArrays z y ⟨c :: m, n, saved⟩) :=
        (if_neg hzero).trans (if_neg hslash)
      rw [hat]
      by_cases hwild : isWild c = true
      · rw [if_pos hwild]
        have hturn : turn ⟨c :: m, n, saved⟩ = wild ⟨c :: m, n, saved⟩ := by
          have hc : c = '*' ∨ c = '?' := by simpa [isWild] using hwild
          rcases hc with rfl | rfl <;> rfl
        rw [hturn]
        exact wild_same z y ⟨c :: m, n, saved⟩ h
      · rw [if_neg hwild]
        have hturn : turn ⟨c :: m, n, saved⟩ = literal ⟨c :: m, n, saved⟩ := by
          have hc : ¬ (c = '*' ∨ c = '?') := by simpa [isWild] using hwild
          unfold turn
          split <;> simp_all
        rw [hturn]
        exact literal_same z y _ h

theorem run_same (fuel : ℕ) (s : Cursor) (h : Clean s) : runAt fuel (inArrays z y s) = run fuel s := by
  induction fuel generalizing s with
  | zero => rfl
  | succ fuel ih =>
    have hturn := turn_same z y s h
    unfold runAt run
    generalize turn s = t at hturn
    generalize turnAt (inArrays z y s) = t' at hturn
    cases hturn with
    | done result => rfl
    | again s' h' => exact ih s' h'

end Arrays

/-- On a mask that does not end in a backslash `match` is the matcher of the texts, whatever is
behind them in memory. -/
theorem matchArray_eq (mask name z y : CStr) (hmask : Unslashed mask) (hname : '\x00' ∉ name) :
    matchArray (mask ++ '\x00' :: z) (name ++ '\x00' :: y) = some (matchMask mask name) := by
  have hrun := run_start mask name
  have hle : (name.length + 2) * (mask.length + 1) ≤
      ((name ++ '\x00' :: y).length + 2) * ((mask ++ '\x00' :: z).length + 1) := by
    apply Nat.mul_le_mul <;> simp only [List.length_append] <;> omega
  obtain ⟨k, hk⟩ := Nat.exists_eq_add_of_le hle
  have hmore := run_more _ k _ _ hrun
  rw [← hk] at hmore
  exact (run_same z y _ ⟨mask, name, none⟩ ⟨hmask, hname, by simp⟩).trans hmore

end IrcdHybrid.MatchArrays
