import IrcdHybrid.Collapse

/-!
What `collapse` leaves of the front of a text. Where a mask is cut to a field, only that part
counts, and it is as it was when no star in it has a wildcard behind.
-/

namespace IrcdHybrid.KeptWildcards

open CString Match Collapse

/-- Whatever is no wildcard is behind a star that was put off. -/
theorem rewrite_flush (m : CStr) (hm : isWild (letter m 0) = false) :
    rewrite m true = '*' :: rewrite m false := by
  cases m with
  | nil => rfl
  | cons c m =>
    have hc : isWild c = false := hm
    have hstar : c ≠ '*' := by
      rintro rfl
      cases hc
    have hmark : c ≠ '?' := by
      rintro rfl
      cases hc
    by_cases hescape : c = '\\'
    · rw [hescape]
      cases m with
      | nil => rfl
      | cons d m =>
        by_cases hd : isWild d = true
        · rw [rewrite, if_pos hd, rewrite, if_pos hd]
          rfl
        · rw [rewrite, if_neg hd, rewrite, if_neg hd]
          rfl
    · have hother : ∀ star, rewrite (c :: m) star = stars star ++ c :: rewrite m false := by
        intro star
        rw [rewrite.eq_def]
        split <;> simp_all
      rw [hother, hother]
      rfl

/-- A letter that is part of no wildcard. -/
def Plain (c : Char) : Prop := isWild c = false ∧ c ≠ '\\'

instance (c : Char) : Decidable (Plain c) := inferInstanceAs (Decidable (_ ∧ _))

theorem rewrite_plain (c : Char) (m : CStr) (star : Bool) (hc : Plain c) :
    rewrite (c :: m) star = stars star ++ c :: rewrite m false := by
  have hstar : c ≠ '*' := by
    rintro rfl
    cases hc.1
  have hmark : c ≠ '?' := by
    rintro rfl
    cases hc.1
  rw [rewrite.eq_def]
  split <;> simp_all [Plain]

theorem rewrite_letter (c : Char) (m : CStr) (hstar : c ≠ '*')
    (hescape : ∀ d t, c = '\\' → m = d :: t → False) :
    rewrite (c :: m) false = c :: rewrite m false := by
  by_cases hmark : c = '?'
  · rw [hmark]
    rfl
  · by_cases hslash : c = '\\'
    · cases m with
      | nil =>
        rw [hslash]
        rfl
      | cons d t => exact (hescape d t hslash rfl).elim
    · exact rewrite_plain c m false ⟨by simp [isWild, hstar, hmark], hslash⟩

/-- Until the first run of wildcards the walk writes what it reads. -/
theorem collapseText_eq_rewrite (m : CStr) : collapseText m = rewrite m false := by
  fun_induction collapseText m with
  | case1 => rfl
  | case2 d m hd => rfl
  | case3 d m hd ih =>
    rw [ih]
    exact (rewrite_flush (d :: m) (by simpa [letter] using hd)).symm
  | case4 d m hd ih =>
    rw [ih, rewrite, if_pos hd]
    rfl
  | case5 d m hd ih =>
    rw [ih, rewrite, if_neg hd]
    rfl
  | case6 c m hstar hescape ih =>
    rw [ih]
    by_cases hc : c = '*'
    · cases m with
      | nil =>
        rw [hc]
        rfl
      | cons d m => exact absurd rfl (hstar d m hc)
    · exact (rewrite_letter c m hc hescape).symm

/-- The two sides of a delimiter are collapsed each on its own. -/
theorem rewrite_append (s t : CStr) (c : Char) (star : Bool) (hc : Plain c) :
    rewrite (s ++ c :: t) star = rewrite s star ++ c :: rewrite t false := by
  fun_induction rewrite s star with
  | case1 star => exact rewrite_plain c t star hc
  | case2 m star ih => exact ih
  | case3 m star ih => exact congrArg (List.cons '?') ih
  | case4 d m star hd ih =>
    rw [List.cons_append, List.cons_append, rewrite, if_pos hd, ih]
    simp
  | case5 d m star hd ih =>
    rw [List.cons_append, List.cons_append, rewrite, if_neg hd, ← List.cons_append, ih]
    simp
  | case6 d m star hstar hmark hescape ih =>
    by_cases hslash : d = '\\'
    · cases m with
      | nil =>
        have hleft : rewrite ('\\' :: c :: t) star = stars star ++ '\\' :: rewrite (c :: t) false := by
          rw [rewrite, if_neg (by simp [hc.1])]
        rw [hslash, List.cons_append, List.nil_append, hleft, rewrite_plain c t false hc]
        simp [stars, rewrite]
      | cons e m => exact absurd rfl (hescape e m hslash)
    · have hplain : Plain d := by
        refine ⟨?_, hslash⟩
        by_contra h
        rcases (isWild_iff d).mp (by simpa using h) with rfl | rfl
        · exact hstar rfl
        · exact hmark rfl
      rw [List.cons_append, rewrite_plain d _ star hplain, ih]
      simp

theorem mem_stars (c : Char) (star : Bool) (hc : Plain c) : c ∉ stars star := by
  cases star with
  | false => exact List.not_mem_nil
  | true =>
    intro h
    obtain rfl := List.mem_singleton.mp h
    cases hc.1

theorem mem_rewrite (s : CStr) (c : Char) (hc : Plain c) : c ∈ rewrite s false ↔ c ∈ s := by
  by_cases hmem : c ∈ s
  · refine iff_of_true ?_ hmem
    obtain ⟨before, after, rfl⟩ := List.append_of_mem hmem
    rw [rewrite_append before after c false hc]
    simp
  · refine iff_of_false ?_ hmem
    have hall : ∀ star, c ∉ rewrite s star := by
      intro star
      fun_induction rewrite s star with
      | case1 star => exact mem_stars c star hc
      | case2 m star ih => exact ih fun h => hmem (List.mem_cons_of_mem _ h)
      | case3 m star ih =>
        rw [List.mem_cons, not_or]
        exact ⟨fun h => hmem (h ▸ List.mem_cons_self), ih fun h => hmem (List.mem_cons_of_mem _ h)⟩
      | case4 d m star hd ih =>
        simp only [List.mem_append, List.mem_cons, not_or] at hmem ⊢
        exact ⟨mem_stars c star hc, hmem.1, hmem.2.1, ih hmem.2.2⟩
      | case5 d m star hd ih =>
        simp only [List.mem_append, List.mem_cons, not_or] at hmem ih ⊢
        exact ⟨mem_stars c star hc, hmem.1, ih hmem.2⟩
      | case6 d m star hstar hmark hescape ih =>
        simp only [List.mem_append, List.mem_cons, not_or] at hmem ⊢
        exact ⟨mem_stars c star hc, hmem.1, ih hmem.2⟩
    exact hall false

theorem rewrite_eq_nil (s : CStr) : rewrite s false = [] ↔ s = [] := by
  have hne : ∀ star, s ≠ [] → rewrite s star ≠ [] := by
    intro star
    fun_induction rewrite s star with
    | case1 star => exact fun h => absurd rfl h
    | case2 m star ih =>
      intro _
      cases m with
      | nil => simp [rewrite, stars]
      | cons c m => exact ih (by simp)
    | case3 m star ih => simp
    | case4 d m star hd ih => simp
    | case5 d m star hd ih => simp
    | case6 d m star hstar hmark hescape ih => simp
  constructor
  · intro h
    by_contra hs
    exact hne false hs h
  · rintro rfl
    rfl

/-- Whether the first letters of a text stay, so many of them: behind a star among them there is
no wildcard, or, where it is the last of them, none but stars. -/
def keeps : ℕ → CStr → Bool
  | 0, _ => true
  | _ + 1, [] => true
  | len + 1, '*' :: m =>
    if isWild (letter m 0) then decide (len = 0) && !(m.takeWhile isWild).contains '?'
    else keeps len m
  | len + 1, '\\' :: d :: m => if isWild d then keeps (len - 1) m else keeps len (d :: m)
  | len + 1, _ :: m => keeps len m

/-- A run of wildcards, behind a star: the marks come first. -/
theorem rewrite_run (m : CStr) :
    rewrite m true = (m.takeWhile isWild).filter (fun c => c == '?') ++
      '*' :: rewrite (m.dropWhile isWild) false := by
  induction m with
  | nil => rfl
  | cons c m ih =>
    by_cases hc : isWild c = true
    · rw [List.takeWhile_cons_of_pos hc, List.dropWhile_cons_of_pos hc]
      rcases (isWild_iff c).mp hc with rfl | rfl
      · exact ih
      · exact congrArg (List.cons '?') ih
    · rw [List.takeWhile_cons_of_neg hc, List.dropWhile_cons_of_neg hc]
      exact rewrite_flush (c :: m) (by simpa [letter] using hc)

theorem toUpper_star (c : Char) (h : toUpper c = '*') : c = '*' := by
  have hnat := congrArg Char.toNat h
  rw [toNat_toUpper] at hnat
  have hstar : '*'.toNat = 42 := rfl
  apply char_eq_of_toNat
  rw [hstar] at hnat ⊢
  split_ifs at hnat with hcase
  · omega
  · exact hnat

theorem rewrite_behind (m : CStr) (h : toUpper (letter (rewrite (m.dropWhile isWild) false) 0) = '*') :
    False := by
  have hletter := toUpper_star _ h
  have hhead := List.head?_dropWhile_not isWild m
  cases hdrop : m.dropWhile isWild with
  | nil =>
    rw [hdrop] at hletter
    cases hletter
  | cons d t =>
    rw [hdrop] at hletter hhead
    have hd : isWild d = false := by simpa using hhead
    rw [rewrite_head d t hd] at hletter
    rw [hletter] at hd
    cases hd

/-- A run that is shortened, or has a mark, shows within the first letters. -/
theorem run_upper (m : CStr) (len : ℕ) (hm : isWild (letter m 0) = true)
    (h : ((rewrite m true).take (len + 1)).map toUpper = (('*' :: m).take (len + 1)).map toUpper) :
    len = 0 ∧ '?' ∉ m.takeWhile isWild := by
  rw [rewrite_run] at h
  cases hmarks : (m.takeWhile isWild).filter (fun c => c == '?') with
  | cons d marks =>
    have hd := (List.mem_filter.mp (hmarks ▸ List.mem_cons_self : d ∈ _)).2
    rw [hmarks, eq_of_beq hd] at h
    simp only [List.cons_append, List.take_succ_cons, List.map_cons, List.cons.injEq] at h
    exact absurd h.1 (by decide)
  | nil =>
    have hnone : '?' ∉ m.takeWhile isWild := by
      intro hmem
      have hfilter : '?' ∈ (m.takeWhile isWild).filter (fun c => c == '?') :=
        List.mem_filter.mpr ⟨hmem, beq_self_eq_true '?'⟩
      rw [hmarks] at hfilter
      cases hfilter
    refine ⟨?_, hnone⟩
    cases m with
    | nil => cases hm
    | cons c m =>
      have hc : c = '*' := by
        rcases (isWild_iff c).mp hm with hstar | hmark
        · exact hstar
        · subst hmark
          exact absurd List.mem_cons_self hnone
      cases len with
      | zero => rfl
      | succ len =>
        rw [hmarks, hc] at h
        simp only [List.nil_append, List.take_succ_cons, List.map_cons, List.cons.injEq,
          true_and] at h
        exfalso
        apply rewrite_behind ('*' :: m)
        cases hrest : rewrite (('*' :: m).dropWhile isWild) false with
        | nil =>
          rw [hrest] at h
          cases h
        | cons d t =>
          rw [hrest] at h
          simp only [List.take_succ_cons, List.map_cons, List.cons.injEq] at h
          exact h.1

/-- What is kept is there behind the walk, letter by letter. -/
theorem take_of_keeps (len : ℕ) (s : CStr) (h : keeps len s = true) :
    (rewrite s false).take len = s.take len := by
  fun_induction keeps len s with
  | case1 => rfl
  | case2 => rfl
  | case3 len m hm =>
    rw [Bool.and_eq_true] at h
    obtain ⟨hlen, hmarks⟩ := h
    have hnone : (m.takeWhile isWild).filter (fun c => c == '?') = [] := by
      apply List.filter_eq_nil_iff.mpr
      intro c hc heq
      rw [eq_of_beq heq] at hc
      simp [hc] at hmarks
    obtain rfl := of_decide_eq_true hlen
    show (rewrite m true).take 1 = _
    rw [rewrite_run, hnone]
    rfl
  | case4 len m hm ih =>
    show (rewrite m true).take (len + 1) = _
    rw [rewrite_flush m (by simpa using hm), List.take_succ_cons, List.take_succ_cons, ih h]
  | case5 len d m hd ih =>
    rw [rewrite, if_pos hd]
    cases len with
    | zero => rfl
    | succ len => exact congrArg (fun t => '\\' :: d :: t) (ih h)
  | case6 len d m hd ih =>
    rw [rewrite, if_neg hd]
    exact congrArg (List.cons '\\') (ih h)
  | case7 len c m hstar hescape ih =>
    rw [rewrite_letter c m hstar hescape]
    exact congrArg (List.cons c) (ih h)

theorem keeps_of_upper (len : ℕ) (s : CStr)
    (h : ((rewrite s false).take len).map toUpper = (s.take len).map toUpper) :
    keeps len s = true := by
  fun_induction keeps len s with
  | case1 => rfl
  | case2 => rfl
  | case3 len m hm =>
    obtain ⟨hlen, hnone⟩ := run_upper m len hm h
    rw [Bool.and_eq_true]
    exact ⟨decide_eq_true hlen, by simpa using hnone⟩
  | case4 len m hm ih =>
    apply ih
    have hrun : rewrite ('*' :: m) false = '*' :: rewrite m false :=
      rewrite_flush m (by simpa using hm)
    rw [hrun] at h
    exact (List.cons.inj h).2
  | case5 len d m hd ih =>
    rw [rewrite, if_pos hd] at h
    cases len with
    | zero => exact ih rfl
    | succ len => exact ih (List.cons.inj (List.cons.inj h).2).2
  | case6 len d m hd ih =>
    rw [rewrite, if_neg hd] at h
    exact ih (List.cons.inj h).2
  | case7 len c m hstar hescape ih =>
    rw [rewrite_letter c m hstar hescape] at h
    exact ih (List.cons.inj h).2

end IrcdHybrid.KeptWildcards
