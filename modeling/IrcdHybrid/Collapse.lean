import IrcdHybrid.Match

/-!
How a mask is collapsed. The letters are moved within the array: behind the first star
that a wildcard follows, stars are left out and one is written in front of the next
letter that is no '?'. What is written never catches up with what is read, so that the
result is that of a walk over the text.
-/

namespace IrcdHybrid.Collapse

open CString Match

def letter (buf : CStr) (i : ℕ) : Char := buf.getD i '\x00'

/-- The array, with the places that are read and written. -/
structure Rewrite where
  buf : CStr
  m : ℕ
  b : ℕ
  star : Bool

def put (s : Rewrite) (c : Char) : Rewrite := { s with buf := s.buf.set s.b c, b := s.b + 1 }

/-- An escape, as `collapse` sees it. -/
def escapes (buf : CStr) (m : ℕ) : Bool := letter buf m == '\\' && isWild (letter buf (m + 1))

def advance (s : Rewrite) : Rewrite := { s with m := s.m + 1 }

/-- The body of the inner loop. -/
def rewriteTurn (s : Rewrite) : Rewrite :=
  if letter s.buf s.m = '*' then { s with star := true }
  else
    let s := if s.star && letter s.buf s.m != '?' then { put s '*' with star := false } else s
    let s := put s (letter s.buf s.m)
    if escapes s.buf s.m then
      let s := advance s
      put s (letter s.buf s.m)
    else s

def rewriteLoop : ℕ → Rewrite → Rewrite
  | 0, s => s
  | fuel + 1, s =>
    let s := rewriteTurn s
    if letter s.buf s.m = '\x00' then s else rewriteLoop fuel (advance s)

/-- The outer loop, which looks for a star in front of a wildcard. -/
def collapseLoop : ℕ → CStr → ℕ → CStr
  | 0, buf, _ => buf
  | fuel + 1, buf, m =>
    if letter buf m = '*' ∧ isWild (letter buf (m + 1)) then
      (rewriteLoop (fuel + 1) ⟨buf, m, m, false⟩).buf
    else
      let m := if escapes buf m then m + 1 else m
      if letter buf m = '\x00' then buf else collapseLoop fuel buf (m + 1)

/-- `collapse`, in the array that the mask and its terminator are in. -/
def collapse (mask : CStr) : CStr :=
  (collapseLoop (mask.length + 1) (mask ++ ['\x00']) 0).takeWhile (fun c => decide (c ≠ '\x00'))

def stars (star : Bool) : CStr := if star then ['*'] else []

/-- What the inner loop writes. -/
def rewrite : CStr → Bool → CStr
  | [], star => stars star
  | '*' :: m, _ => rewrite m true
  | '?' :: m, star => '?' :: rewrite m star
  | '\\' :: d :: m, star =>
    if isWild d then stars star ++ '\\' :: d :: rewrite m false
    else stars star ++ '\\' :: rewrite (d :: m) false
  | c :: m, star => stars star ++ c :: rewrite m false

def collapseText : CStr → CStr
  | [] => []
  | '*' :: d :: m => if isWild d then rewrite (d :: m) true else '*' :: collapseText (d :: m)
  | '\\' :: d :: m =>
    if isWild d then '\\' :: d :: collapseText m else '\\' :: collapseText (d :: m)
  | c :: m => c :: collapseText m

def state (written gap unread : CStr) (star : Bool) : Rewrite :=
  ⟨written ++ (gap ++ unread), written.length + gap.length, written.length, star⟩

section Turns

variable (written gap unread : CStr) (star : Bool) (c : Char)

theorem letter_state : letter (state written gap (c :: unread) star).buf
    (state written gap (c :: unread) star).m = c := by
  unfold letter state
  dsimp only
  rw [List.getD_eq_getElem?_getD, List.getElem?_append_right (by omega), Nat.add_sub_cancel_left,
    List.getElem?_append_right (Nat.le_refl _), Nat.sub_self]
  rfl

theorem letter_next : letter (state written gap (c :: unread) star).buf
    ((state written gap (c :: unread) star).m + 1) = letter unread 0 := by
  unfold letter state
  dsimp only
  rw [List.getD_eq_getElem?_getD, List.getElem?_append_right (by omega),
    show written.length + gap.length + 1 - written.length = gap.length + 1 by omega,
    List.getElem?_append_right (by omega), Nat.add_sub_cancel_left, List.getElem?_cons_succ,
    ← List.getD_eq_getElem?_getD]

theorem put_star (g : Char) : put (state written (g :: gap) unread star) c =
    state (written ++ [c]) gap unread star := by
  unfold put state
  dsimp only
  rw [List.set_append_right _ _ (Nat.le_refl _), Nat.sub_self, List.cons_append, List.set_cons_zero,
    List.append_assoc, List.length_append, List.length_singleton, List.length_cons, List.singleton_append,
    Nat.add_assoc, Nat.add_comm 1]

/-- The letter that is read is written, over the first letter of the gap or over itself. -/
theorem put_letter : advance (put (state written gap (c :: unread) star) c) =
    state (written ++ [c]) (gap ++ [c]).tail unread star := by
  cases gap with
  | nil =>
    unfold advance put state
    simp
  | cons g gap =>
    rw [put_star]
    unfold advance state
    simp [Nat.add_assoc]

theorem letter_put : (put (state written gap (c :: unread) star) c).m =
      written.length + gap.length ∧
    letter (put (state written gap (c :: unread) star) c).buf (written.length + gap.length) = c ∧
    letter (put (state written gap (c :: unread) star) c).buf (written.length + gap.length + 1) =
      letter unread 0 := by
  cases gap with
  | nil =>
    have hput : put (state written [] (c :: unread) star) c =
        { state written [] (c :: unread) star with b := written.length + 1 } := by
      unfold put state
      simp
    rw [hput]
    exact ⟨rfl, letter_state written [] unread star c, letter_next written [] unread star c⟩
  | cons g gap =>
    rw [put_star, List.length_cons]
    have hm : written.length + (gap.length + 1) = (state (written ++ [c]) gap (c :: unread) star).m := by
      unfold state
      simp only [List.length_append, List.length_singleton]
      omega
    rw [hm]
    exact ⟨rfl, letter_state _ gap unread star c, letter_next _ gap unread star c⟩

theorem putTurn_letter (hesc : ¬ (c = '\\' ∧ isWild (letter unread 0) = true)) :
    (let s := put (state written gap (c :: unread) star) c
      if escapes s.buf s.m then put (advance s) (letter (advance s).buf (advance s).m) else s) =
      put (state written gap (c :: unread) star) c := by
  obtain ⟨hm, hc, hnext⟩ := letter_put written gap unread star c
  dsimp only
  refine if_neg fun h => hesc ?_
  unfold escapes at h
  rw [hm, hc, hnext, Bool.and_eq_true, beq_iff_eq] at h
  exact h

theorem putTurn_escape (d : Char) (hd : isWild d = true) :
    (let s := put (state written gap ('\\' :: d :: unread) star) '\\'
      if escapes s.buf s.m then put (advance s) (letter (advance s).buf (advance s).m) else s) =
      put (state (written ++ ['\\']) (gap ++ ['\\']).tail (d :: unread) star) d := by
  obtain ⟨hm, hc, hnext⟩ := letter_put written gap (d :: unread) star '\\'
  dsimp only
  have hesc : escapes (put (state written gap ('\\' :: d :: unread) star) '\\').buf
      (put (state written gap ('\\' :: d :: unread) star) '\\').m = true := by
    unfold escapes
    rw [hm, hc, hnext]
    exact hd
  rw [if_pos hesc, put_letter, letter_state]

theorem turn_star : advance (rewriteTurn (state written gap ('*' :: unread) star)) =
      state written (gap ++ ['*']) unread true ∧
    letter (rewriteTurn (state written gap ('*' :: unread) star)).buf
      (rewriteTurn (state written gap ('*' :: unread) star)).m = '*' := by
  have hletter := letter_state written gap unread star '*'
  have hturn : rewriteTurn (state written gap ('*' :: unread) star) =
      state written gap ('*' :: unread) true := by
    unfold rewriteTurn
    rw [if_pos hletter]
    rfl
  rw [hturn]
  refine ⟨?_, letter_state written gap unread true '*'⟩
  unfold advance state
  simp [Nat.add_assoc]

/-- A star that was put off is written in front of a letter that is no '?'. -/
theorem flush_eq (hgap : star = true → gap ≠ []) : ∃ gap',
    (if (state written gap (c :: unread) star).star && c != '?' then
        { put (state written gap (c :: unread) star) '*' with star := false }
      else state written gap (c :: unread) star) =
      state (written ++ stars (star && c != '?')) gap' (c :: unread) (star && c == '?') ∧
    ((star && c == '?') = true → gap' ≠ []) := by
  cases star with
  | false => exact ⟨gap, by simp [stars, state], by simp⟩
  | true =>
    by_cases hc : c = '?'
    · exact ⟨gap, by simp [stars, state, hc], fun _ => hgap rfl⟩
    · obtain ⟨g, gap, rfl⟩ := List.exists_cons_of_ne_nil (hgap rfl)
      refine ⟨gap, ?_, by simp [hc]⟩
      rw [put_star]
      simp [stars, state, hc]

theorem turn_letter (hc : c ≠ '*') (hesc : ¬ (c = '\\' ∧ isWild (letter unread 0) = true))
    (hgap : star = true → gap ≠ []) : ∃ gap',
    advance (rewriteTurn (state written gap (c :: unread) star)) =
        state (written ++ (stars (star && c != '?') ++ [c])) gap' unread (star && c == '?') ∧
      letter (rewriteTurn (state written gap (c :: unread) star)).buf
        (rewriteTurn (state written gap (c :: unread) star)).m = c ∧
      ((star && c == '?') = true → gap' ≠ []) := by
  have hletter := letter_state written gap unread star c
  obtain ⟨gap', hflush, hgap'⟩ := flush_eq written gap unread star c hgap
  have hturn : rewriteTurn (state written gap (c :: unread) star) =
      put (state (written ++ stars (star && c != '?')) gap' (c :: unread) (star && c == '?')) c := by
    unfold rewriteTurn
    rw [hletter, if_neg hc]
    dsimp only
    rw [hflush, letter_state]
    exact putTurn_letter _ gap' unread _ c hesc
  rw [hturn]
  refine ⟨(gap' ++ [c]).tail, ?_, ?_, fun h => ?_⟩
  · rw [put_letter, List.append_assoc]
  · obtain ⟨hm, hput, -⟩ := letter_put (written ++ stars (star && c != '?')) gap' unread
      (star && c == '?') c
    rw [hm, hput]
  · obtain ⟨g, gap', rfl⟩ := List.exists_cons_of_ne_nil (hgap' h)
    simp

theorem turn_escape (d : Char) (hd : isWild d = true) (hgap : star = true → gap ≠ []) : ∃ gap',
    advance (rewriteTurn (state written gap ('\\' :: d :: unread) star)) =
        state (written ++ (stars star ++ ['\\', d])) gap' unread false ∧
      letter (rewriteTurn (state written gap ('\\' :: d :: unread) star)).buf
        (rewriteTurn (state written gap ('\\' :: d :: unread) star)).m = d := by
  have hletter := letter_state written gap (d :: unread) star '\\'
  obtain ⟨gap', hflush, -⟩ := flush_eq written gap (d :: unread) star '\\' hgap
  have hkind : (star && '\\' != '?') = star ∧ (star && '\\' == '?') = false := by
    cases star <;> decide
  rw [hkind.1, hkind.2] at hflush
  have hturn : rewriteTurn (state written gap ('\\' :: d :: unread) star) =
      put (state (written ++ stars star ++ ['\\']) (gap' ++ ['\\']).tail (d :: unread) false) d := by
    unfold rewriteTurn
    rw [hletter, if_neg (by decide)]
    dsimp only
    have hstar : ((state written gap ('\\' :: d :: unread) star).star && '\\' != '?') = star := hkind.1
    rw [hstar] at hflush ⊢
    rw [hflush, letter_state]
    exact putTurn_escape _ gap' unread false d hd
  rw [hturn]
  refine ⟨((gap' ++ ['\\']).tail ++ [d]).tail, ?_, ?_⟩
  · rw [put_letter]
    simp
  · obtain ⟨hm, hput, -⟩ := letter_put (written ++ stars star ++ ['\\']) (gap' ++ ['\\']).tail unread
      false d
    rw [hm, hput]

end Turns

theorem rewriteLoop_next (fuel : ℕ) (s : Rewrite)
    (h : letter (rewriteTurn s).buf (rewriteTurn s).m ≠ '\x00') :
    rewriteLoop (fuel + 1) s = rewriteLoop fuel (advance (rewriteTurn s)) := if_neg h

theorem rewriteLoop_end (written gap : CStr) (star : Bool) (hgap : star = true → gap ≠ []) (fuel : ℕ) :
    ∃ rest, (rewriteLoop (fuel + 1) (state written gap ['\x00'] star)).buf =
      written ++ stars star ++ '\x00' :: rest := by
  have hplain : ∀ c : Bool, (c && '\x00' != '?') = c := by decide
  obtain ⟨gap', hturn, hletter, -⟩ := turn_letter written gap [] star '\x00' (by decide) (by simp) hgap
  have hloop : rewriteLoop (fuel + 1) (state written gap ['\x00'] star) =
      rewriteTurn (state written gap ['\x00'] star) := if_pos hletter
  have hbuf := congrArg Rewrite.buf hturn
  rw [hplain] at hbuf
  refine ⟨gap', ?_⟩
  rw [hloop]
  have hsame : (advance (rewriteTurn (state written gap ['\x00'] star))).buf =
      (rewriteTurn (state written gap ['\x00'] star)).buf := rfl
  rw [← hsame, hbuf]
  simp [state]

/-- The inner loop writes what the walk over the rest of the text does. -/
theorem rewriteLoop_eq (unread : CStr) (star : Bool) (hnul : '\x00' ∉ unread) (written gap : CStr)
    (hgap : star = true → gap ≠ []) (fuel : ℕ) (hfuel : unread.length < fuel) :
    ∃ rest, (rewriteLoop fuel (state written gap (unread ++ ['\x00']) star)).buf =
      written ++ rewrite unread star ++ '\x00' :: rest := by
  obtain ⟨fuel, rfl⟩ : ∃ f, fuel = f + 1 := ⟨fuel - 1, by omega⟩
  fun_induction rewrite unread star generalizing written gap fuel with
  | case1 star => exact rewriteLoop_end written gap star hgap fuel
  | case2 m star ih =>
    simp only [List.length_cons] at hfuel
    obtain ⟨hturn, hletter⟩ := turn_star written gap (m ++ ['\x00']) star
    obtain ⟨fuel, rfl⟩ : ∃ f, fuel = f + 1 := ⟨fuel - 1, by omega⟩
    rw [List.cons_append, rewriteLoop_next _ _ (by rw [hletter]; decide), hturn]
    exact ih (fun h => hnul (List.mem_cons_of_mem _ h)) written _ (by simp) fuel (by omega)
  | case3 m star ih =>
    simp only [List.length_cons] at hfuel
    obtain ⟨gap', hturn, hletter, hgap'⟩ :=
      turn_letter written gap (m ++ ['\x00']) star '?' (by decide) (by simp) hgap
    have hkind : (star && '?' != '?') = false ∧ (star && '?' == '?') = star := by
      cases star <;> decide
    rw [hkind.1, hkind.2] at hturn
    rw [hkind.2] at hgap'
    obtain ⟨fuel, rfl⟩ : ∃ f, fuel = f + 1 := ⟨fuel - 1, by omega⟩
    rw [List.cons_append, rewriteLoop_next _ _ (by rw [hletter]; decide), hturn]
    obtain ⟨rest, hrest⟩ := ih (fun h => hnul (List.mem_cons_of_mem _ h)) _ gap' hgap' fuel (by omega)
    exact ⟨rest, by rw [hrest]; simp [stars]⟩
  | case4 d m star hd ih =>
    simp only [List.length_cons] at hfuel
    obtain ⟨gap', hturn, hletter⟩ := turn_escape written gap (m ++ ['\x00']) star d hd hgap
    obtain ⟨fuel, rfl⟩ : ∃ f, fuel = f + 1 := ⟨fuel - 1, by omega⟩
    have hne : d ≠ '\x00' := fun h => hnul (by simp [h])
    rw [List.cons_append, List.cons_append, rewriteLoop_next _ _ (by rw [hletter]; exact hne), hturn]
    obtain ⟨rest, hrest⟩ := ih (fun h => hnul (by simp [h])) _ gap' (by simp) fuel (by omega)
    exact ⟨rest, by rw [hrest]; simp⟩
  | case5 d m star hd ih =>
    simp only [List.length_cons] at hfuel
    obtain ⟨gap', hturn, hletter, -⟩ := turn_letter written gap (d :: m ++ ['\x00']) star '\\' (by decide)
      (fun h => hd h.2) hgap
    have hkind : (star && '\\' != '?') = star ∧ (star && '\\' == '?') = false := by
      cases star <;> decide
    rw [hkind.1, hkind.2] at hturn
    obtain ⟨fuel, rfl⟩ : ∃ f, fuel = f + 1 := ⟨fuel - 1, by omega⟩
    rw [List.cons_append, rewriteLoop_next _ _ (by rw [hletter]; decide), hturn]
    obtain ⟨rest, hrest⟩ := ih (fun h => hnul (List.mem_cons_of_mem _ h)) _ gap' (by simp) fuel
      (by simp only [List.length_cons]; omega)
    exact ⟨rest, by rw [hrest]; simp⟩
  | case6 c m star hstar hmark hescape ih =>
    simp only [List.length_cons] at hfuel
    have hesc : ¬ (c = '\\' ∧ isWild (letter (m ++ ['\x00']) 0) = true) := by
      rintro ⟨rfl, hwild⟩
      cases m with
      | nil => exact absurd hwild (by decide)
      | cons d m => exact hescape d m rfl rfl
    obtain ⟨gap', hturn, hletter, -⟩ := turn_letter written gap (m ++ ['\x00']) star c hstar hesc hgap
    have hmark' : c ≠ '?' := hmark
    have hkind : (star && c != '?') = star ∧ (star && c == '?') = false := by
      simp [hmark']
    rw [hkind.1, hkind.2] at hturn
    obtain ⟨fuel, rfl⟩ : ∃ f, fuel = f + 1 := ⟨fuel - 1, by omega⟩
    have hne : c ≠ '\x00' := fun h => hnul (by simp [h])
    rw [List.cons_append, rewriteLoop_next _ _ (by rw [hletter]; exact hne), hturn]
    obtain ⟨rest, hrest⟩ := ih (fun h => hnul (List.mem_cons_of_mem _ h)) _ gap' (by simp) fuel (by omega)
    exact ⟨rest, by rw [hrest]; simp⟩

theorem letter_at (before after : CStr) (c : Char) : letter (before ++ c :: after) before.length = c ∧
    letter (before ++ c :: after) (before.length + 1) = letter after 0 :=
  ⟨letter_state before [] after false c, letter_next before [] after false c⟩

theorem collapseLoop_next (fuel : ℕ) (buf : CStr) (m : ℕ)
    (hrun : ¬ (letter buf m = '*' ∧ isWild (letter buf (m + 1)) = true))
    (hnul : letter buf (if escapes buf m then m + 1 else m) ≠ '\x00') :
    collapseLoop (fuel + 1) buf m =
      collapseLoop fuel buf ((if escapes buf m then m + 1 else m) + 1) := by
  have hloop : collapseLoop (fuel + 1) buf m =
      if letter buf m = '*' ∧ isWild (letter buf (m + 1)) then
        (rewriteLoop (fuel + 1) ⟨buf, m, m, false⟩).buf
      else if letter buf (if escapes buf m then m + 1 else m) = '\x00' then buf
      else collapseLoop fuel buf ((if escapes buf m then m + 1 else m) + 1) := rfl
  rw [hloop, if_neg hrun, if_neg hnul]

theorem collapseLoop_end (fuel : ℕ) (before : CStr) :
    collapseLoop (fuel + 1) (before ++ ['\x00']) before.length = before ++ ['\x00'] := by
  obtain ⟨hat, -⟩ := letter_at before [] '\x00'
  have hesc : escapes (before ++ ['\x00']) before.length = false := by
    unfold escapes
    rw [hat]
    rfl
  have hrun : ¬ (letter (before ++ ['\x00']) before.length = '*' ∧
      isWild (letter (before ++ ['\x00']) (before.length + 1)) = true) := by
    rw [hat]
    exact fun h => absurd h.1 (by decide)
  have hend : letter (before ++ ['\x00'])
      (if escapes (before ++ ['\x00']) before.length then before.length + 1 else before.length) =
        '\x00' := by
    rw [hesc]
    exact hat
  unfold collapseLoop
  exact (if_neg hrun).trans (if_pos hend)

theorem collapseLoop_eq (unread : CStr) (hnul : '\x00' ∉ unread) (before : CStr) (fuel : ℕ)
    (hfuel : unread.length < fuel) :
    ∃ rest, collapseLoop fuel (before ++ (unread ++ ['\x00'])) before.length =
      before ++ collapseText unread ++ '\x00' :: rest := by
  obtain ⟨fuel, rfl⟩ : ∃ f, fuel = f + 1 := ⟨fuel - 1, by omega⟩
  -- one letter that starts no run and escapes nothing
  have hplain : ∀ (c : Char) (m : CStr) (fuel : ℕ) (before : CStr), c ≠ '\x00' →
      ¬ ((c = '*' ∨ c = '\\') ∧ isWild (letter (m ++ ['\x00']) 0) = true) →
      collapseLoop (fuel + 1) (before ++ (c :: m ++ ['\x00'])) before.length =
        collapseLoop fuel ((before ++ [c]) ++ (m ++ ['\x00'])) (before ++ [c]).length := by
    intro c m fuel before hc hrun
    obtain ⟨hat, hnext⟩ := letter_at before (m ++ ['\x00']) c
    have hesc : escapes (before ++ c :: (m ++ ['\x00'])) before.length = false := by
      unfold escapes
      rw [hat, hnext, Bool.and_eq_false_iff]
      by_contra h
      simp only [not_or, Bool.not_eq_false, beq_iff_eq] at h
      exact hrun ⟨Or.inr h.1, h.2⟩
    rw [List.cons_append, collapseLoop_next _ _ _ (by rw [hat, hnext]; exact fun h => hrun ⟨Or.inl h.1, h.2⟩)
      (by rw [hesc]; simpa using hat.trans_ne hc), hesc]
    simp
  fun_induction collapseText unread generalizing before fuel with
  | case1 =>
    exact ⟨[], by rw [List.nil_append, collapseLoop_end, List.append_nil]⟩
  | case2 d m hd =>
    obtain ⟨hat, hnext⟩ := letter_at before (d :: m ++ ['\x00']) '*'
    have hwild : isWild (letter (d :: m ++ ['\x00']) 0) = true := hd
    obtain ⟨rest, hrest⟩ := rewriteLoop_eq ('*' :: d :: m) false hnul before [] (by simp) (fuel + 1) hfuel
    refine ⟨rest, ?_⟩
    unfold collapseLoop
    rw [List.cons_append, hat, hnext, if_pos ⟨rfl, hwild⟩]
    exact hrest
  | case3 d m hd ih =>
    simp only [List.length_cons] at hfuel
    obtain ⟨fuel, rfl⟩ : ∃ f, fuel = f + 1 := ⟨fuel - 1, by omega⟩
    rw [hplain '*' (d :: m) _ before (by decide) (fun h => hd h.2)]
    obtain ⟨rest, hrest⟩ := ih (fun h => hnul (List.mem_cons_of_mem _ h)) (before ++ ['*']) fuel
      (by simp only [List.length_cons]; omega)
    exact ⟨rest, by rw [hrest]; simp⟩
  | case4 d m hd ih =>
    simp only [List.length_cons] at hfuel
    obtain ⟨fuel, rfl⟩ : ∃ f, fuel = f + 1 := ⟨fuel - 1, by omega⟩
    obtain ⟨hat, hnext⟩ := letter_at before (d :: m ++ ['\x00']) '\\'
    have hesc : escapes (before ++ '\\' :: (d :: m ++ ['\x00'])) before.length = true := by
      unfold escapes
      rw [hat, hnext]
      exact hd
    have hne : letter (before ++ '\\' :: (d :: m ++ ['\x00'])) (before.length + 1) ≠ '\x00' := by
      rw [hnext]
      rintro rfl
      exact hnul (by simp)
    rw [List.cons_append, collapseLoop_next _ _ _ (by rw [hat]; exact fun h => absurd h.1 (by decide))
      (by rw [hesc]; exact hne), hesc, if_pos rfl]
    have hmoved : before ++ '\\' :: (d :: m ++ ['\x00']) = (before ++ ['\\', d]) ++ (m ++ ['\x00']) := by
      simp
    have hlen : before.length + 1 + 1 = (before ++ ['\\', d]).length := by simp
    rw [hmoved, hlen]
    obtain ⟨rest, hrest⟩ := ih (fun h => hnul (by simp [h])) (before ++ ['\\', d]) fuel (by omega)
    exact ⟨rest, by rw [hrest]; simp⟩
  | case5 d m hd ih =>
    simp only [List.length_cons] at hfuel
    obtain ⟨fuel, rfl⟩ : ∃ f, fuel = f + 1 := ⟨fuel - 1, by omega⟩
    rw [hplain '\\' (d :: m) _ before (by decide) (fun h => hd h.2)]
    obtain ⟨rest, hrest⟩ := ih (fun h => hnul (List.mem_cons_of_mem _ h)) (before ++ ['\\']) fuel
      (by simp only [List.length_cons]; omega)
    exact ⟨rest, by rw [hrest]; simp⟩
  | case6 c m hstar hescape ih =>
    simp only [List.length_cons] at hfuel
    obtain ⟨fuel, rfl⟩ : ∃ f, fuel = f + 1 := ⟨fuel - 1, by omega⟩
    have hrun : ¬ ((c = '*' ∨ c = '\\') ∧ isWild (letter (m ++ ['\x00']) 0) = true) := by
      rintro ⟨hc, hwild⟩
      cases m with
      | nil => exact absurd hwild (by decide)
      | cons d m =>
        rcases hc with rfl | rfl
        · exact hstar d m rfl rfl
        · exact hescape d m rfl rfl
    rw [hplain c m _ before (fun h => hnul (by simp [h])) hrun]
    obtain ⟨rest, hrest⟩ := ih (fun h => hnul (List.mem_cons_of_mem _ h)) (before ++ [c]) fuel (by omega)
    exact ⟨rest, by rw [hrest]; simp⟩

theorem rewrite_nul (unread : CStr) (star : Bool) (hnul : '\x00' ∉ unread) :
    '\x00' ∉ rewrite unread star := by
  have hstars : ∀ star, '\x00' ∉ stars star := by decide
  fun_induction rewrite unread star with
  | case1 star => exact hstars star
  | case2 m star ih => exact ih fun h => hnul (List.mem_cons_of_mem _ h)
  | case3 m star ih =>
    rw [List.mem_cons, not_or]
    exact ⟨by decide, ih fun h => hnul (List.mem_cons_of_mem _ h)⟩
  | case4 d m star hd ih =>
    simp only [List.mem_append, List.mem_cons, not_or]
    exact ⟨hstars star, by decide, fun h => hnul (h ▸ by simp), ih fun h => hnul (by simp [h])⟩
  | case5 d m star hd ih =>
    simp only [List.mem_append, List.mem_cons, not_or]
    exact ⟨hstars star, by decide, ih fun h => hnul (List.mem_cons_of_mem _ h)⟩
  | case6 c m star hstar hmark hescape ih =>
    simp only [List.mem_append, List.mem_cons, not_or]
    exact ⟨hstars star, fun h => hnul (h ▸ by simp), ih fun h => hnul (List.mem_cons_of_mem _ h)⟩

theorem collapseText_nul (mask : CStr) (hnul : '\x00' ∉ mask) : '\x00' ∉ collapseText mask := by
  fun_induction collapseText mask with
  | case1 => exact List.not_mem_nil
  | case2 d m hd => exact rewrite_nul _ true fun h => hnul (List.mem_cons_of_mem _ h)
  | case3 d m hd ih =>
    rw [List.mem_cons, not_or]
    exact ⟨by decide, ih fun h => hnul (List.mem_cons_of_mem _ h)⟩
  | case4 d m hd ih =>
    simp only [List.mem_cons, not_or]
    exact ⟨by decide, fun h => hnul (h ▸ by simp), ih fun h => hnul (by simp [h])⟩
  | case5 d m hd ih =>
    rw [List.mem_cons, not_or]
    exact ⟨by decide, ih fun h => hnul (List.mem_cons_of_mem _ h)⟩
  | case6 c m hstar hescape ih =>
    rw [List.mem_cons, not_or]
    exact ⟨fun h => hnul (h ▸ by simp), ih fun h => hnul (List.mem_cons_of_mem _ h)⟩

/-- In the array, too, the mask becomes what the walk over its text gives. -/
theorem collapse_eq (mask : CStr) (hnul : '\x00' ∉ mask) : collapse mask = collapseText mask := by
  obtain ⟨rest, hrest⟩ := collapseLoop_eq mask hnul [] (mask.length + 1) (Nat.lt_succ_self _)
  have hall : ∀ c ∈ collapseText mask, decide (c ≠ '\x00') = true := by
    intro c hc
    refine decide_eq_true ?_
    rintro rfl
    exact collapseText_nul mask hnul hc
  unfold collapse
  rw [List.nil_append, List.nil_append] at hrest
  rw [show (0 : ℕ) = ([] : CStr).length from rfl, hrest, List.takeWhile_append_of_pos hall]
  simp

theorem rewrite_length (unread : CStr) (star : Bool) :
    (rewrite unread star).length ≤ (stars star).length + unread.length := by
  have hone : (stars true).length = 1 ∧ (stars false).length = 0 := ⟨rfl, rfl⟩
  fun_induction rewrite unread star with
  | case1 star => omega
  | case2 m star ih =>
    simp only [List.length_cons]
    omega
  | case3 m star ih =>
    simp only [List.length_cons]
    omega
  | case4 d m star hd ih =>
    simp only [List.length_append, List.length_cons]
    omega
  | case5 d m star hd ih =>
    simp only [List.length_append, List.length_cons] at ih ⊢
    omega
  | case6 c m star hstar hmark hescape ih =>
    simp only [List.length_append, List.length_cons]
    omega

theorem collapseText_length (mask : CStr) : (collapseText mask).length ≤ mask.length := by
  fun_induction collapseText mask with
  | case1 => exact Nat.le_refl _
  | case2 d m hd =>
    have hlen := rewrite_length (d :: m) true
    have hone : (stars true).length = 1 := rfl
    simp only [List.length_cons] at hlen ⊢
    omega
  | case3 d m hd ih =>
    simp only [List.length_cons] at ih ⊢
    omega
  | case4 d m hd ih =>
    simp only [List.length_cons]
    omega
  | case5 d m hd ih =>
    simp only [List.length_cons] at ih ⊢
    omega
  | case6 c m hstar hescape ih =>
    simp only [List.length_cons]
    omega

/-- No star in front of a wildcard. -/
inductive Settled : CStr → Prop where
  | nil : Settled []
  | escape (d : Char) (m : CStr) (hd : isWild d = true) (h : Settled m) : Settled ('\\' :: d :: m)
  | plain (c : Char) (m : CStr) (hc : ¬ ((c = '*' ∨ c = '\\') ∧ isWild (letter m 0) = true))
      (h : Settled m) : Settled (c :: m)

theorem collapseText_settled (mask : CStr) (h : Settled mask) : collapseText mask = mask := by
  induction h with
  | nil => rfl
  | escape d m hd _ ih => rw [collapseText, if_pos hd, ih]
  | plain c m hc _ ih =>
    cases m with
    | nil =>
      unfold collapseText
      split <;> simp_all
    | cons d m =>
      have hletter : letter (d :: m) 0 = d := rfl
      rw [hletter] at hc
      by_cases hstar : c = '*'
      · rw [hstar, collapseText, if_neg (fun hd => hc ⟨Or.inl hstar, hd⟩), ih]
      · by_cases hescape : c = '\\'
        · rw [hescape, collapseText, if_neg (fun hd => hc ⟨Or.inr hescape, hd⟩), ih]
        · have hother : collapseText (c :: d :: m) = c :: collapseText (d :: m) := by
            rw [collapseText.eq_def]
            split <;> simp_all
          rw [hother, ih]

theorem isWild_iff (c : Char) : isWild c = true ↔ c = '*' ∨ c = '?' := by
  unfold isWild
  simp

theorem rewrite_head (d : Char) (m : CStr) (hd : isWild d = false) :
    letter (rewrite (d :: m) false) 0 = d := by
  have hne : ¬ (d = '*' ∨ d = '?') := fun h => by simp [(isWild_iff d).mpr h] at hd
  by_cases hescape : d = '\\'
  · rw [hescape]
    cases m with
    | nil => rfl
    | cons e m =>
      rw [rewrite]
      split <;> rfl
  · have hother : rewrite (d :: m) false = stars false ++ d :: rewrite m false := by
      rw [rewrite.eq_def]
      split <;> simp_all
    rw [hother]
    rfl

theorem collapseText_head (d : Char) (m : CStr) (hd : isWild d = false) :
    letter (collapseText (d :: m)) 0 = d := by
  have hne : ¬ (d = '*' ∨ d = '?') := fun h => by simp [(isWild_iff d).mpr h] at hd
  by_cases hescape : d = '\\'
  · rw [hescape]
    cases m with
    | nil => rfl
    | cons e m =>
      rw [collapseText]
      split <;> rfl
  · have hother : collapseText (d :: m) = d :: collapseText m := by
      rw [collapseText.eq_def]
      split <;> simp_all
    rw [hother]
    rfl

theorem rewrite_settled (unread : CStr) (star : Bool) : Settled (rewrite unread star) := by
  -- a star is written in front of a letter that is no wildcard
  have hfront : ∀ (star : Bool) (m : CStr), isWild (letter m 0) = false → Settled m →
      Settled (stars star ++ m) := by
    intro star m hm h
    cases star with
    | false => exact h
    | true => exact .plain '*' m (by simp [hm]) h
  have hslash : isWild '\\' = false := by decide
  fun_induction rewrite unread star with
  | case1 star =>
    cases star with
    | false => exact .nil
    | true => exact .plain '*' [] (by decide) .nil
  | case2 m star ih => exact ih
  | case3 m star ih => exact .plain '?' _ (by simp) ih
  | case4 d m star hd ih => exact hfront star _ hslash (.escape d _ hd ih)
  | case5 d m star hd ih =>
    have hhead := rewrite_head d m (by simpa using hd)
    refine hfront star _ hslash (.plain '\\' _ ?_ ih)
    rw [hhead]
    exact fun h => hd h.2
  | case6 c m star hstar hmark hescape ih =>
    have hwild : isWild c = false := by
      by_contra h
      exact ((isWild_iff c).mp (by simpa using h)).elim hstar hmark
    refine hfront star _ hwild (.plain c _ ?_ ih)
    rintro ⟨rfl | rfl, hnext⟩
    · exact hstar rfl
    · cases m with
      | nil => exact absurd hnext (by decide)
      | cons d m => exact hescape d m rfl rfl

theorem settled_collapseText (mask : CStr) : Settled (collapseText mask) := by
  fun_induction collapseText mask with
  | case1 => exact .nil
  | case2 d m hd => exact rewrite_settled _ true
  | case3 d m hd ih =>
    refine .plain '*' _ ?_ ih
    rw [collapseText_head d m (by simpa using hd)]
    exact fun h => hd h.2
  | case4 d m hd ih => exact .escape d _ hd ih
  | case5 d m hd ih =>
    refine .plain '\\' _ ?_ ih
    rw [collapseText_head d m (by simpa using hd)]
    exact fun h => hd h.2
  | case6 c m hstar hescape ih =>
    refine .plain c _ ?_ ih
    rintro ⟨hc, hnext⟩
    cases m with
    | nil => exact absurd hnext (by decide)
    | cons d m =>
      rcases hc with rfl | rfl
      · exact hstar d m rfl rfl
      · exact hescape d m rfl rfl

end IrcdHybrid.Collapse
