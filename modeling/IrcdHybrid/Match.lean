import IrcdHybrid.CString
import Mathlib.Tactic.Ring

/-!
The mask matcher. `match` walks mask and name together and keeps one saved
restart point, the text after the last star; on a mismatch it resumes there
one letter further into the name. The loop returns on every mask and name: the
restart point only moves right, and between two restarts the mask pointer does.
-/

namespace IrcdHybrid.Match

open CString

/-- The local variables of the loop: `m`, `n`, and `m_tmp` with `n_tmp` once
`m_tmp` has left the start of the mask. -/
structure Cursor where
  m : CStr
  n : CStr
  saved : Option (CStr × CStr)
  deriving DecidableEq, Repr

/-- One turn of the loop either returns or goes round again. -/
inductive Turn where
  | done (result : ℕ)
  | again (cursor : Cursor)
  deriving DecidableEq, Repr

def backtrack : Option (CStr × CStr) → Turn
  | none => .done 1
  | some (mTmp, nTmp) =>
    match nTmp.tail with
    | [] => .done 1
    | c :: n => .again ⟨mTmp, c :: n, some (mTmp, c :: n)⟩

/-- The `default` branch. -/
def literal (s : Cursor) : Turn :=
  match s.n, s.m with
  | [], [] => .done 0
  | [], _ :: _ => .done 1
  | _ :: _, [] => backtrack s.saved
  | d :: n, c :: m => if toLower c = toLower d then .again ⟨m, n, s.saved⟩ else backtrack s.saved

def isWild (c : Char) : Bool := c = '*' || c = '?'

/-- The run of wildcards at the front of the mask; `none` when a '?' finds the
end of the name. The flag tells whether a star was seen. -/
def skipWild : CStr → CStr → Bool → Option (CStr × CStr × Bool)
  | '*' :: m, n, _ => skipWild m n true
  | '?' :: _, [], _ => none
  | '?' :: m, _ :: n, star => skipWild m n star
  | m, n, star => some (m, n, star)

/-- After a run with a star: save the restart point, scan the name for the next
letter of the mask and fall through to the `default` branch. -/
def afterStar : CStr → CStr → Turn
  | [], _ => .done 0
  | ['\\'], _ => .done 1
  | '\\' :: c :: m, n =>
    literal ⟨c :: m, n.dropWhile (fun d => !decide (d = c)), some (c :: m, n)⟩
  | c :: m, n =>
    literal ⟨c :: m, n.dropWhile (fun d => !decide (toLower d = toLower c)), some (c :: m, n)⟩

def wild (s : Cursor) : Turn :=
  match skipWild s.m s.n false with
  | none => backtrack s.saved
  | some (m, n, false) => literal ⟨m, n, s.saved⟩
  | some (m, n, true) => afterStar m n

def turn (s : Cursor) : Turn :=
  match s.m, s.n with
  | [], [] => .done 0
  | [], _ :: _ => backtrack s.saved
  -- what match() does here depends on the memory behind both texts (see MatchArrays); a stand-in
  | ['\\'], [] => .done 1
  | ['\\'], _ :: _ => backtrack s.saved
  | '\\' :: _ :: _, [] => backtrack s.saved
  | '\\' :: c :: m, d :: n => if c = d then .again ⟨m, n, s.saved⟩ else backtrack s.saved
  | '*' :: _, _ => wild s
  | '?' :: _, _ => wild s
  | _ :: _, _ => literal s

def run : ℕ → Cursor → Option ℕ
  | 0, _ => none
  | fuel + 1, s =>
    match turn s with
    | .done result => some result
    | .again s' => run fuel s'

/-- `match(mask, name)`: zero when the mask accepts the name. The fuel is one
turn for every pair of a restart point and a mask position. -/
def matchMask (mask name : CStr) : ℕ :=
  (run ((name.length + 2) * (mask.length + 1)) ⟨mask, name, none⟩).getD 1

example : matchMask "*b?d".toList "abcbcd".toList = 0 := by decide

/-- The pointers lie where the code can have put them. -/
structure InRange (mask name : CStr) (s : Cursor) : Prop where
  m_le : s.m.length ≤ mask.length
  n_le : s.n.length ≤ name.length
  saved_le : ∀ mTmp nTmp, s.saved = some (mTmp, nTmp) →
    mTmp.length ≤ mask.length ∧ s.n.length ≤ nTmp.length ∧ nTmp.length ≤ name.length

def restarts (name : CStr) : Option (CStr × CStr) → ℕ
  | none => name.length + 1
  | some (_, nTmp) => nTmp.length

def rank (mask name : CStr) (s : Cursor) : ℕ :=
  restarts name s.saved * (mask.length + 1) + s.m.length

/-- The turn returns, or leads to a state in range of smaller rank. -/
def Descends (mask name : CStr) (bound : ℕ) : Turn → Prop
  | .done _ => True
  | .again s => InRange mask name s ∧ rank mask name s < bound

theorem backtrack_descends (mask name : CStr) (s : Cursor) (h : InRange mask name s) :
    Descends mask name (rank mask name s) (backtrack s.saved) := by
  obtain ⟨m, n, saved⟩ := s
  rcases saved with _ | ⟨mTmp, nTmp⟩
  · exact trivial
  · obtain ⟨hm, hn, hname⟩ := h.saved_le mTmp nTmp rfl
    match nTmp with
    | [] => exact trivial
    | [_] => exact trivial
    | c :: d :: t =>
      simp only [List.length_cons] at hname
      refine ⟨⟨hm, by simpa using by omega, ?_⟩, ?_⟩
      · rintro _ _ ⟨⟩
        exact ⟨hm, le_rfl, by simp only [List.length_cons]; omega⟩
      · simp only [rank, restarts, List.length_cons]
        rw [Nat.add_one_mul (t.length + 1)]
        omega

theorem literal_descends (mask name : CStr) (s : Cursor) (h : InRange mask name s) :
    Descends mask name (rank mask name s) (literal s) := by
  obtain ⟨m, n, saved⟩ := s
  obtain ⟨hm, hn, hsaved⟩ := h
  cases n with
  | nil => cases m <;> exact trivial
  | cons d n =>
    cases m with
    | nil => exact backtrack_descends mask name ⟨[], d :: n, saved⟩ ⟨hm, hn, hsaved⟩
    | cons c m =>
      simp only [literal]
      split
      · simp only [List.length_cons] at hm hn hsaved
        refine ⟨⟨by simp only; omega, by simp only; omega, ?_⟩, ?_⟩
        · intro mTmp nTmp hs
          obtain ⟨h1, h2, h3⟩ := hsaved mTmp nTmp hs
          exact ⟨h1, by simp only; omega, h3⟩
        · simp only [rank, List.length_cons]
          omega
      · exact backtrack_descends mask name ⟨c :: m, d :: n, saved⟩ ⟨hm, hn, hsaved⟩

theorem skipWild_length (m n : CStr) (star : Bool) (m' n' : CStr) (star' : Bool)
    (h : skipWild m n star = some (m', n', star')) :
    m'.length ≤ m.length ∧ n'.length ≤ n.length := by
  fun_induction skipWild m n star with
  | case1 n star m ih =>
    obtain ⟨h1, h2⟩ := ih h
    exact ⟨by simp only [List.length_cons]; omega, h2⟩
  | case2 => simp at h
  | case3 m c n star ih =>
    obtain ⟨h1, h2⟩ := ih h
    exact ⟨by simp only [List.length_cons]; omega, by simp only [List.length_cons]; omega⟩
  | case4 m n star =>
    simp only [Option.some.injEq, Prod.mk.injEq] at h
    obtain ⟨rfl, rfl, rfl⟩ := h
    exact ⟨le_rfl, le_rfl⟩

theorem skipWild_length_lt (c : Char) (m n : CStr) (star : Bool) (m' n' : CStr) (star' : Bool)
    (hc : isWild c = true) (h : skipWild (c :: m) n star = some (m', n', star')) :
    m'.length ≤ m.length ∧ n'.length ≤ n.length := by
  simp only [isWild, Bool.or_eq_true, decide_eq_true_eq] at hc
  rcases hc with rfl | rfl
  · exact skipWild_length m n true m' n' star' h
  · cases n with
    | nil => simp [skipWild] at h
    | cons d n =>
      obtain ⟨h1, h2⟩ := skipWild_length m n star m' n' star' h
      exact ⟨h1, by simp only [List.length_cons]; omega⟩

theorem Descends.mono (mask name : CStr) (a b : ℕ) (t : Turn) (hab : a ≤ b)
    (h : Descends mask name a t) : Descends mask name b t := by
  cases t with
  | done => exact trivial
  | again s => exact ⟨h.1, h.2.trans_le hab⟩

/-- Making the text after a star the new restart point lowers the rank. -/
theorem star_descends (mask name : CStr) (s : Cursor) (m n mTmp : CStr) (skip : Char → Bool)
    (h : InRange mask name s) (hm : m.length < s.m.length) (hn : n.length ≤ s.n.length)
    (hTmp : mTmp.length ≤ m.length) :
    Descends mask name (rank mask name s) (literal ⟨mTmp, n.dropWhile skip, some (mTmp, n)⟩) := by
  have hdrop : (n.dropWhile skip).length ≤ n.length := (List.dropWhile_suffix skip).length_le
  obtain ⟨hm0, hn0, hsaved⟩ := h
  have hrestart : n.length ≤ restarts name s.saved := by
    rcases hs : s.saved with _ | ⟨mt, nt⟩
    · simp only [restarts]
      omega
    · obtain ⟨_, h2, _⟩ := hsaved mt nt hs
      simp only [restarts]
      omega
  refine Descends.mono mask name _ _ _ ?_ (literal_descends mask name _ ⟨?_, ?_, ?_⟩)
  · have hmul := Nat.mul_le_mul_right (mask.length + 1) hrestart
    simp only [rank]
    change n.length * (mask.length + 1) + mTmp.length ≤ _
    omega
  · simp only
    omega
  · simp only
    omega
  · rintro _ _ ⟨⟩
    exact ⟨by omega, hdrop, by omega⟩

theorem wild_descends (mask name : CStr) (s : Cursor) (c : Char) (m : CStr)
    (hs : s.m = c :: m) (hc : isWild c = true) (h : InRange mask name s) :
    Descends mask name (rank mask name s) (wild s) := by
  unfold wild
  rcases hskip : skipWild s.m s.n false with _ | ⟨m', n', star'⟩
  · exact backtrack_descends mask name s h
  · obtain ⟨h1, h2⟩ := skipWild_length_lt c m s.n false m' n' star' hc (hs ▸ hskip)
    have hlen : m'.length < s.m.length := by
      rw [hs, List.length_cons]
      omega
    cases star' with
    | false =>
      refine Descends.mono mask name _ _ _ ?_
        (literal_descends mask name ⟨m', n', s.saved⟩ ⟨?_, ?_, ?_⟩)
      · simp only [rank]
        omega
      · exact hlen.le.trans h.m_le
      · exact h2.trans h.n_le
      · intro mt nt hsaved
        obtain ⟨h3, h4, h5⟩ := h.saved_le mt nt hsaved
        exact ⟨h3, h2.trans h4, h5⟩
    | true =>
      change Descends mask name _ (afterStar m' n')
      unfold afterStar
      split
      · exact trivial
      · exact trivial
      · exact star_descends mask name s _ _ _ _ h hlen h2 (by simp)
      · exact star_descends mask name s _ _ _ _ h hlen h2 le_rfl

theorem turn_descends (mask name : CStr) (s : Cursor) (h : InRange mask name s) :
    Descends mask name (rank mask name s) (turn s) := by
  unfold turn
  split
  · exact trivial
  · exact backtrack_descends mask name s h
  · exact trivial
  · exact backtrack_descends mask name s h
  · exact backtrack_descends mask name s h
  · rename_i c m d n hm hn
    split
    · refine ⟨⟨?_, ?_, ?_⟩, ?_⟩
      · have := h.m_le
        simp only [hm, List.length_cons] at this ⊢
        omega
      · have := h.n_le
        simp only [hn, List.length_cons] at this ⊢
        omega
      · intro mt nt hs
        obtain ⟨h1, h2, h3⟩ := h.saved_le mt nt hs
        simp only [hn, List.length_cons] at h2
        exact ⟨h1, by simp only; omega, h3⟩
      · simp only [rank, hm, List.length_cons]
        omega
    · exact backtrack_descends mask name s h
  · exact wild_descends mask name s _ _ ‹_› rfl h
  · exact wild_descends mask name s _ _ ‹_› rfl h
  · exact literal_descends mask name s h

theorem run_returns (mask name : CStr) (fuel : ℕ) (s : Cursor) (h : InRange mask name s)
    (hfuel : rank mask name s < fuel) : ∃ r, run fuel s = some r := by
  induction fuel generalizing s with
  | zero => omega
  | succ fuel ih =>
    have hturn := turn_descends mask name s h
    unfold run
    cases ht : turn s with
    | done r => exact ⟨r, rfl⟩
    | again s' =>
      rw [ht] at hturn
      exact ih s' hturn.1 (by have := hturn.2; omega)

theorem inRange_start (mask name : CStr) : InRange mask name ⟨mask, name, none⟩ :=
  ⟨le_rfl, le_rfl, by rintro _ _ ⟨⟩⟩

theorem run_start (mask name : CStr) :
    run ((name.length + 2) * (mask.length + 1)) ⟨mask, name, none⟩ =
      some (matchMask mask name) := by
  obtain ⟨r, hr⟩ := run_returns mask name ((name.length + 2) * (mask.length + 1))
    ⟨mask, name, none⟩ (inRange_start mask name) (by
      have h : (name.length + 2) * (mask.length + 1) =
          (name.length + 1) * (mask.length + 1) + (mask.length + 1) := by ring
      rw [h]
      simp only [rank, restarts]
      omega)
  simp [matchMask, hr]

theorem run_more (fuel k : ℕ) (s : Cursor) (r : ℕ) (h : run fuel s = some r) :
    run (fuel + k) s = some r := by
  induction fuel generalizing s with
  | zero => simp [run] at h
  | succ fuel ih =>
    rw [Nat.add_right_comm]
    unfold run at h ⊢
    cases hturn : turn s with
    | done result =>
      rw [hturn] at h
      exact h
    | again s' =>
      rw [hturn] at h
      exact ih s' h

end IrcdHybrid.Match
