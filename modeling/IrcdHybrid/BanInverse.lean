import IrcdHybrid.KeptWildcards
import IrcdHybrid.Channels

/-!
`add_id` and `del_id` with one text. The mask of a client of this server is collapsed by the
first and not by the second, so that the entry is found again just when collapsing leaves alone
what the three fields take of the text.
-/

namespace IrcdHybrid.BanInverse

open CString Match BanMask Channels KeptWildcards
open Collapse (rewrite stars collapseText)

theorem collapseStars_eq (m : CStr) (star : Bool) : collapseStars m star = rewrite m star := by
  fun_induction rewrite m star with
  | case1 star => rfl
  | case2 m star ih => exact ih
  | case3 m star ih => exact congrArg (List.cons '?') ih
  | case4 d m star hd ih =>
    rw [collapseStars, if_pos ((Collapse.isWild_iff d).mp hd), ih]
    rfl
  | case5 d m star hd ih =>
    rw [collapseStars, if_neg fun h => hd ((Collapse.isWild_iff d).mpr h), ih]
    rfl
  | case6 c m star hstar hmark hescape ih =>
    rw [collapseStars.eq_def]
    split <;> simp_all [stars]

theorem collapse_eq (m : CStr) : collapse m = rewrite m false := by
  rw [← collapseText_eq_rewrite]
  fun_induction collapseText m with
  | case1 => rfl
  | case2 d m hd =>
    rw [collapse, if_pos ((Collapse.isWild_iff d).mp hd), collapseStars_eq]
    rfl
  | case3 d m hd ih =>
    rw [collapse, if_neg fun h => hd ((Collapse.isWild_iff d).mpr h), ih]
  | case4 d m hd ih =>
    rw [collapse, if_pos ((Collapse.isWild_iff d).mp hd), ih]
  | case5 d m hd ih =>
    rw [collapse, if_neg fun h => hd ((Collapse.isWild_iff d).mpr h), ih]
  | case6 c m hstar hescape ih =>
    rw [collapse.eq_def]
    split <;> simp_all

theorem plain_of_isSpace (c : Char) (h : isSpace c = true) : Plain c := by
  constructor
  · by_contra hwild
    rcases (Collapse.isWild_iff c).mp (by simpa using hwild) with rfl | rfl <;> cases h
  · rintro rfl
    cases h

theorem rewrite_no_space (u : CStr) (hu : ∀ c ∈ u, isSpace c = false) :
    ∀ c ∈ rewrite u false, (!isSpace c) = true := by
  intro c hc
  by_contra h
  have hspace : isSpace c = true := by simpa using h
  rw [mem_rewrite u c (plain_of_isSpace c hspace)] at hc
  rw [hu c hc] at hspace
  cases hspace

theorem takeWhile_rewrite (s : CStr) : (rewrite s false).takeWhile (fun c => !isSpace c) =
    rewrite (s.takeWhile fun c => !isSpace c) false := by
  have hsplit := List.takeWhile_append_dropWhile (p := fun c => !isSpace c) (l := s)
  have hall := rewrite_no_space (s.takeWhile fun c => !isSpace c) fun c hc => by
    simpa using List.mem_takeWhile_imp hc
  cases hrest : s.dropWhile (fun c => !isSpace c) with
  | nil =>
    rw [hrest, List.append_nil] at hsplit
    rw [hsplit] at hall ⊢
    exact List.takeWhile_eq_self_iff.mpr hall
  | cons d t =>
    have hd : isSpace d = true := by
      have hhead := List.head?_dropWhile_not (fun c => !isSpace c) s
      rw [hrest] at hhead
      simpa using hhead
    have hwalk : rewrite s false =
        rewrite (s.takeWhile fun c => !isSpace c) false ++ d :: rewrite t false := by
      rw [← rewrite_append _ _ _ _ (plain_of_isSpace d hd), ← hrest, hsplit]
    rw [hwalk, List.takeWhile_append_of_pos hall, List.takeWhile_cons_of_neg (by simp [hd]),
      List.append_nil]

theorem checkString_rewrite (s : CStr) :
    checkString (rewrite s false) = rewrite (checkString s) false := by
  unfold checkString
  dsimp only
  rw [takeWhile_rewrite]
  by_cases hnil : s.takeWhile (fun c => !isSpace c) = []
  · rw [hnil]
    rfl
  · rw [if_neg hnil, if_neg fun h => hnil ((rewrite_eq_nil _).mp h)]

theorem strchr_of_not_mem (c : Char) (s : CStr) (h : c ∉ s) : strchr c s = none := by
  cases hfound : strchr c s with
  | none => rfl
  | some r =>
    obtain ⟨rfl, _⟩ := strchr_some c s r.1 r.2 hfound
    exact absurd (by simp) h

theorem strchr_rewrite (c : Char) (s : CStr) (hc : Plain c) : strchr c (rewrite s false) =
    (strchr c s).map fun r => (rewrite r.1 false, rewrite r.2 false) := by
  cases hfound : strchr c s with
  | none =>
    apply strchr_of_not_mem
    rw [mem_rewrite s c hc]
    exact strchr_none c s hfound
  | some r =>
    obtain ⟨hsplit, hbefore⟩ := strchr_some c s r.1 r.2 hfound
    rw [hsplit, rewrite_append _ _ _ _ hc]
    apply strchr_append
    rw [mem_rewrite _ c hc]
    exact hbefore

/-- The texts of the fields are collapsed each on its own. -/
theorem parts_rewrite (s : CStr) : parts (rewrite s false) =
    ⟨rewrite (parts s).name false, rewrite (parts s).user false,
      rewrite (parts s).host false⟩ := by
  have hdot : ('.' ∈ rewrite s false ∨ ':' ∈ rewrite s false) ↔ ('.' ∈ s ∨ ':' ∈ s) :=
    or_congr (mem_rewrite s '.' (by decide)) (mem_rewrite s ':' (by decide))
  unfold parts
  rw [strchr_rewrite '!' s (by decide), strchr_rewrite '@' s (by decide)]
  rcases strchr '!' s with _ | ⟨nick, p⟩
  · rcases strchr '@' s with _ | ⟨user, q⟩
    · dsimp only [Option.map_none]
      by_cases h : '.' ∈ s ∨ ':' ∈ s
      · rw [if_pos h, if_pos (hdot.mpr h)]
        rfl
      · rw [if_neg h, if_neg fun h' => h (hdot.mp h')]
        rfl
    · rfl
  · dsimp only [Option.map_some]
    rw [strchr_rewrite '@' p (by decide)]
    rcases strchr '@' p with _ | ⟨user, q⟩
    · rfl
    · rfl

theorem field_rewrite (s : CStr) (len : ℕ) :
    irccmp (field s len) (field (rewrite s false) len) = 0 ↔ keeps len s = true := by
  rw [irccmp_eq_zero_iff]
  unfold field
  by_cases hnil : s = []
  · rw [hnil]
    refine iff_of_true rfl ?_
    cases len <;> rfl
  · rw [if_neg hnil, if_neg fun h => hnil ((rewrite_eq_nil s).mp h)]
    refine ⟨fun h => keeps_of_upper len s h.symm, fun h => ?_⟩
    exact congrArg (List.map toUpper) (take_of_keeps len s h).symm

/-- Collapsing leaves alone what the three fields take of the texts. -/
def Keeps (banid : CStr) : Prop :=
  keeps NICKLEN (parts (checkString banid)).name = true ∧
  keeps USERLEN (parts (checkString banid)).user = true ∧
  keeps HOSTLEN (parts (checkString banid)).host = true

instance (banid : CStr) : Decidable (Keeps banid) := inferInstanceAs (Decidable (_ ∧ _ ∧ _))

theorem sameMask_collapse (banid : CStr) :
    sameMask (maskOf banid) (maskOf (collapse banid)) = true ↔ Keeps banid := by
  have hne := checkString_ne_nil banid
  unfold maskOf
  rw [collapse_eq, checkString_rewrite, splitNuh_parts _ hne,
    splitNuh_parts _ fun h => hne ((rewrite_eq_nil _).mp h), parts_rewrite]
  simp only [sameMask, Bool.and_eq_true, beq_iff_eq, field_rewrite, and_assoc]
  rfl

example : Keeps "a*b!us*er@ho?*st".toList := by decide

section Lists

variable (chptr : Channel) (type : ListType) (n d : Nuh)

theorem addMask_new (h : ∀ ban ∈ chptr.list type, sameMask ban n = false) :
    addMask chptr type n = (chptr.setList (n :: chptr.list type) type, true) :=
  if_neg fun hany => by
    obtain ⟨ban, hmem, hban⟩ := List.any_eq_true.mp hany
    rw [h ban hmem] at hban
    cases hban

theorem addMask_old (ban : Nuh) (hmem : ban ∈ chptr.list type) (hban : sameMask ban n = true) :
    addMask chptr type n = (chptr, false) :=
  if_pos (List.any_eq_true.mpr ⟨ban, hmem, hban⟩)

theorem delMask_first (before after : List Nuh) (ban : Nuh)
    (hlist : chptr.list type = before ++ ban :: after)
    (hbefore : ∀ b ∈ before, sameMask d b = false) (hban : sameMask d ban = true) :
    delMask chptr type d = (chptr.setList (before ++ after) type, true) := by
  have hany : (chptr.list type).any (fun b => sameMask d b) = true := by
    rw [hlist]
    exact List.any_eq_true.mpr ⟨ban, by simp, hban⟩
  unfold delMask
  rw [if_pos hany, hlist, List.eraseP_append_right _ fun b hb => by simp [hbefore b hb],
    List.eraseP_cons_of_pos hban]

/-- What is removed is the same as the mask, so that there is one of these less. -/
theorem delMask_count (chptr' : Channel) (h : delMask chptr type d = (chptr', true)) :
    (chptr'.list type).countP (fun b => sameMask d b) + 1 =
      (chptr.list type).countP fun b => sameMask d b := by
  unfold delMask at h
  split at h
  · next hany =>
    cases h
    obtain ⟨ban, hmem, hban⟩ := List.any_eq_true.mp hany
    obtain ⟨a, before, after, _, ha, hlist, herase⟩ :=
      List.exists_of_eraseP (p := fun b => sameMask d b) hmem hban
    rw [list_setList, herase, hlist, List.countP_append, List.countP_append,
      List.countP_cons_of_pos (p := fun b => sameMask d b) ha]
    omega
  · cases h

theorem exists_first (l : List Nuh) (ban : Nuh) (hmem : ban ∈ l) (hban : sameMask ban n = true) :
    ∃ before first after, l = before ++ first :: after ∧
      (∀ b ∈ before, sameMask b n = false) ∧ sameMask first n = true := by
  obtain ⟨first, before, after, hbefore, hfirst, hlist, _⟩ :=
    List.exists_of_eraseP (p := fun b => sameMask b n) hmem hban
  exact ⟨before, first, after, hlist, fun b hb => by simpa using hbefore b hb, hfirst⟩

end Lists

/-- `del_id` with the text undoes `add_id` with it. What a client adds is read back from the line
that says so and goes again; a mask that is refused for an entry takes that entry away. -/
structure Inverse (maxBans : ℕ) (chptr : Channel) (type : ListType) (banid : CStr) : Prop where
  resplit : maskOf (nuhText (maskOf (collapse banid))) = maskOf (collapse banid)
  added : ∀ chptr', addId (some maxBans) chptr banid type = (chptr', true) →
    delId chptr' banid type = (chptr, true)
  refused : ∀ before ban after, numMask chptr < maxBans →
    chptr.list type = before ++ ban :: after →
    (∀ b ∈ before, sameMask b (maskOf (collapse banid)) = false) →
    sameMask ban (maskOf (collapse banid)) = true →
    addId (some maxBans) chptr banid type = (chptr, false) →
    delId chptr banid type = (chptr.setList (before ++ after) type, true)

section Inverse

variable (maxBans : ℕ) (chptr : Channel) (type : ListType) (banid : CStr)

theorem addId_room (hroom : ¬ maxBans ≤ numMask chptr) :
    addId (some maxBans) chptr banid type = addMask chptr type (maskOf (collapse banid)) :=
  if_neg hroom

theorem addId_full (hfull : maxBans ≤ numMask chptr) :
    addId (some maxBans) chptr banid type = (chptr, false) :=
  if_pos hfull

theorem inverse_of_full (hfull : maxBans ≤ numMask chptr) : Inverse maxBans chptr type banid where
  resplit := maskOf_text (maskOf_parted _)
  added := by
    intro chptr' hadd
    rw [addId_full maxBans chptr type banid hfull] at hadd
    cases hadd
  refused := by
    intro before ban after hroom
    omega

/-- With the same fields from the text as it is, the entry is found. -/
theorem inverse_of_keeps (hkeeps : Keeps banid) : Inverse maxBans chptr type banid where
  resplit := maskOf_text (maskOf_parted _)
  added := by
    intro chptr' hadd
    have hsame := (sameMask_collapse banid).mpr hkeeps
    by_cases hfull : maxBans ≤ numMask chptr
    · rw [addId_full maxBans chptr type banid hfull] at hadd
      cases hadd
    · rw [addId_room maxBans chptr type banid hfull] at hadd
      unfold addMask at hadd
      split at hadd
      · cases hadd
      · cases hadd
        have hdel := delMask_first (chptr.setList (maskOf (collapse banid) :: chptr.list type) type)
          type (maskOf banid) [] (chptr.list type) _ (list_setList _ _ _) (by simp) hsame
        rw [setList_setList, List.nil_append, setList_list] at hdel
        exact hdel
  refused := by
    intro before ban after _ hlist hbefore hban _
    have hsame := (sameMask_collapse banid).mpr hkeeps
    refine delMask_first chptr type (maskOf banid) before after ban hlist ?_ ?_
    · intro b hb
      rw [← Bool.not_eq_true]
      intro hd
      have hb' := sameMask_trans _ _ _ (sameMask_comm (maskOf banid) b ▸ hd) hsame
      rw [hbefore b hb] at hb'
      cases hb'
    · exact sameMask_trans _ _ _ hsame (sameMask_comm ban _ ▸ hban)

/-- Otherwise what `del_id` removes is another entry, if there is one. -/
theorem keeps_of_inverse (hroom : ¬ maxBans ≤ numMask chptr)
    (h : Inverse maxBans chptr type banid) : Keeps banid := by
  rw [← sameMask_collapse]
  by_contra hnot
  have hadd := addId_room maxBans chptr type banid hroom
  by_cases hdup : ∃ ban ∈ chptr.list type, sameMask ban (maskOf (collapse banid)) = true
  · obtain ⟨ban, hmem, hban⟩ := hdup
    obtain ⟨before, first, after, hlist, hbefore, hfirst⟩ := exists_first _ _ ban hmem hban
    rw [addMask_old chptr type _ ban hmem hban] at hadd
    have hcount := delMask_count chptr type (maskOf banid) _
      (h.refused before first after (by omega) hlist hbefore hfirst hadd)
    have hother : ¬ sameMask (maskOf banid) first = true :=
      fun hd => hnot (sameMask_trans _ _ _ hd hfirst)
    rw [list_setList, hlist, List.countP_append, List.countP_append,
      List.countP_cons_of_neg (p := fun b => sameMask (maskOf banid) b) hother] at hcount
    omega
  · have hnew : ∀ ban ∈ chptr.list type, sameMask ban (maskOf (collapse banid)) = false := by
      intro ban hmem
      rw [← Bool.not_eq_true]
      exact fun hban => hdup ⟨ban, hmem, hban⟩
    rw [addMask_new chptr type _ hnew] at hadd
    have hcount := delMask_count _ type (maskOf banid) _ (h.added _ hadd)
    rw [list_setList, List.countP_cons_of_neg (p := fun b => sameMask (maskOf banid) b) hnot] at hcount
    omega

/-- Adding and removing undo each other when the list is full, where nothing is added, and
otherwise just for the masks whose fields collapsing leaves alone. -/
theorem inverse_iff :
    Inverse maxBans chptr type banid ↔ maxBans ≤ numMask chptr ∨ Keeps banid := by
  constructor
  · intro h
    by_cases hfull : maxBans ≤ numMask chptr
    · exact .inl hfull
    · exact .inr (keeps_of_inverse maxBans chptr type banid hfull h)
  · rintro (hfull | hkeeps)
    · exact inverse_of_full maxBans chptr type banid hfull
    · exact inverse_of_keeps maxBans chptr type banid hkeeps

end Inverse

/-- The ban on a**!*@* is kept as a*!*@*, and a**!*@* does not name it. -/
theorem not_inverse : ¬ ∀ (maxBans : ℕ) (chptr : Channel) (type : ListType) (banid : CStr),
    Inverse maxBans chptr type banid := by
  intro hall
  have hdel := (hall 100 (makeChannel 0 "#c".toList) .ban "a**!*@*".toList).added
    ((makeChannel 0 "#c".toList).setList [⟨"a*".toList, ['*'], ['*']⟩] .ban) (by decide)
  revert hdel
  decide

end IrcdHybrid.BanInverse
