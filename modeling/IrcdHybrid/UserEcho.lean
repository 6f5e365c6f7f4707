import IrcdHybrid.UserLines

/-!
Every other server comes to what the user's own server decided: the line it is told makes it do the
same and say the same. For a nick this needs that nobody else has it.
-/

namespace IrcdHybrid.UserEcho

open CString UserLines
open UserModes hiding Conf Client
open BanMask (NICKLEN)
open ChannelMode (Dir)
open NickHistory (validNickname)

section Modes

variable (conf : UserModes.Conf) (old new : Modes)

/-- The sign that stands before the letters is the one that counts. -/
def Signed (what : Option Dir) (s : Setting) : Prop := ∀ dir, what = some dir → s.what = dir

/-- A mode is right already, or some letter is still to come for it. -/
def Pending (tab : List (Char × UMode)) (umodes : Modes) : Prop :=
  ∀ flag, (flag ∈ umodes ↔ flag ∈ new) ∨ ((flag ∈ tab.map Prod.snd) ∧ ¬ (flag ∈ old ↔ flag ∈ new))

/-- No sign, and no letter that a MODE passes over. -/
def plainLetter (tab : Char × UMode) : Prop :=
  tab.1 ≠ '+' ∧ tab.1 ≠ '-' ∧ umodeMap tab.1 = some tab.2 ∧ (tab.1 = 'o' ↔ tab.2 = .oper) ∧
    (tab.1 = 'S' ∨ tab.1 = 'W' ∨ tab.1 = 'r' ∨ tab.1 = 'x' → tab.2 ∈ fixedModes)

theorem umodeTable_plain : ∀ tab ∈ umodeTable, plainLetter tab := by
  unfold plainLetter
  decide

theorem umodeTable_all (flag : UMode) : flag ∈ umodeTable.map Prod.snd := by
  cases flag <;> decide

/-- One letter for a user of another server: its mode is as the sign says, and with `+o` goes `+a`. -/
theorem letter_remote (s : Setting) (hremote : s.c.myConnect = false) (tab : Char × UMode)
    (hplain : plainLetter tab) (hfree : tab.2 ∉ fixedModes) :
    let s' := userModeLetter conf s tab.1
    s'.what = s.what ∧ s'.c.myConnect = false ∧
      (s.what = .add → ∀ flag, flag ∈ s'.c.umodes ↔ flag = tab.2 ∨ flag ∈ s.c.umodes) ∧
      (s.what = .del → tab.2 ∉ s'.c.umodes ∧ ∀ flag, flag ≠ tab.2 →
        (tab.2 = .oper → flag ≠ .admin) → (flag ∈ s'.c.umodes ↔ flag ∈ s.c.umodes)) ∧
      (s.what = .del → ∀ flag, flag ∉ s.c.umodes → flag ∉ s'.c.umodes) := by
  obtain ⟨hplus, hminus, hmap, hoper, hfixed⟩ := hplain
  have hpass : ¬ (tab.1 = 'S' ∨ tab.1 = 'W' ∨ tab.1 = 'r' ∨ tab.1 = 'x') := fun h => hfree (hfixed h)
  intro s'
  have hs' : s' = userModeLetter conf s tab.1 := rfl
  unfold userModeLetter at hs'
  rw [if_neg hplus, if_neg hminus] at hs'
  by_cases ho : tab.1 = 'o'
  · have hflag := hoper.mp ho
    rw [if_pos ho] at hs'
    by_cases hwhat : s.what = .add
    · rw [if_pos hwhat] at hs'
      have hnot : ¬ s.what = .del := by simp [hwhat]
      by_cases hhas : .oper ∈ s.c.umodes
      · rw [if_neg (by simp [hhas])] at hs'
        rw [hs', hflag]
        refine ⟨rfl, hremote, fun _ flag => ⟨Or.inr, ?_⟩, fun h => absurd h hnot,
          fun h => absurd h hnot⟩
        rintro (rfl | h)
        · exact hhas
        · exact h
      · rw [if_pos (by simp [hremote, hhas])] at hs'
        rw [hs', hflag]
        exact ⟨rfl, hremote, fun _ flag => by simp [setOper], fun h => absurd h hnot,
          fun h => absurd h hnot⟩
    · rw [if_neg hwhat] at hs'
      by_cases hhas : .oper ∈ s.c.umodes
      · rw [if_neg (by simp [hhas])] at hs'
        have hdetach : detachOper conf s.c = clearOper s.c := by simp [detachOper, hremote]
        rw [hdetach] at hs'
        rw [hs', hflag]
        refine ⟨rfl, hremote, fun h => absurd h hwhat, fun _ => ⟨by simp [clearOper], ?_⟩, ?_⟩
        · intro flag hne hadmin
          simp [clearOper, hne, hadmin rfl]
        · intro _ flag hout
          simp [clearOper, hout]
      · rw [if_pos (by simp [hhas])] at hs'
        rw [hs', hflag]
        exact ⟨rfl, hremote, fun h => absurd h hwhat, fun _ => ⟨hhas, fun _ _ _ => Iff.rfl⟩,
          fun _ _ h => h⟩
  · have hflag : tab.2 ≠ .oper := fun h => ho (hoper.mpr h)
    rw [if_neg ho, if_neg hpass, hmap] at hs'
    simp only [hremote, Bool.false_eq_true, false_and, if_false] at hs'
    by_cases hwhat : s.what = .add
    · have hnot : ¬ s.what = .del := by simp [hwhat]
      rw [hs']
      exact ⟨rfl, by simpa [UserModes.Client.setMode, hwhat] using hremote,
        fun _ flag => by simp [UserModes.Client.setMode, hwhat], fun h => absurd h hnot,
        fun h => absurd h hnot⟩
    · rw [hs']
      refine ⟨rfl, by simpa [UserModes.Client.setMode, hwhat] using hremote, fun h => absurd h hwhat,
        fun _ => ⟨by simp [UserModes.Client.setMode, hwhat], fun flag hne _ => ?_⟩, fun _ flag hout => ?_⟩
      · simp [UserModes.Client.setMode, hwhat, hne]
      · simp [UserModes.Client.setMode, hwhat, hout]

theorem sign_remote (s : Setting) (dir : Dir) (hdir : dir = .add ∨ dir = .del) :
    userModeLetter conf s (if dir = .add then '+' else '-') = { s with what := dir } := by
  rcases hdir with rfl | rfl
  · simp [userModeLetter]
  · simp [userModeLetter]

theorem umodeChange_del (what : Option Dir) (c : Char) (flag : UMode) (tab : List (Char × UMode))
    (hold : flag ∈ old) (hnew : flag ∉ new) : umodeChange old new what ((c, flag) :: tab) =
      (if what = some .del then [] else ['-']) ++ c :: umodeChange old new (some .del) tab := by
  rw [umodeChange, if_pos ⟨hold, hnew⟩]
  split <;> rfl

theorem umodeChange_add (what : Option Dir) (c : Char) (flag : UMode) (tab : List (Char × UMode))
    (hold : flag ∉ old) (hnew : flag ∈ new) : umodeChange old new what ((c, flag) :: tab) =
      (if what = some .add then [] else ['+']) ++ c :: umodeChange old new (some .add) tab := by
  rw [umodeChange, if_neg (fun h => hold h.1), if_pos ⟨hold, hnew⟩]
  split <;> rfl

theorem umodeChange_same (what : Option Dir) (c : Char) (flag : UMode) (tab : List (Char × UMode))
    (h : flag ∈ old ↔ flag ∈ new) :
    umodeChange old new what ((c, flag) :: tab) = umodeChange old new what tab := by
  rw [umodeChange, if_neg (fun hd => hd.2 (h.mp hd.1)), if_neg (fun ha => ha.1 (h.mpr ha.2))]

/-- With the sign written where it has to be, the setting has it. -/
theorem signed_foldl (what : Option Dir) (dir : Dir) (hdir : dir = .add ∨ dir = .del) (s : Setting)
    (hsigned : Signed what s) :
    (if what = some dir then [] else [if dir = .add then '+' else '-']).foldl (userModeLetter conf) s =
      { s with what := dir } := by
  split
  · next h =>
    rw [← hsigned dir h]
    rfl
  · exact sign_remote conf s dir hdir

/-- The letters that tell two sets of modes apart turn the one into the other. -/
theorem change_remote (hfixed : ∀ flag ∈ fixedModes, flag ∈ old ↔ flag ∈ new)
    (hadmin : .oper ∈ old → .oper ∉ new → .admin ∉ new) (tab : List (Char × UMode)) :
    ∀ (what : Option Dir) (s : Setting), (∀ t ∈ tab, plainLetter t) → s.c.myConnect = false →
      Signed what s → Pending old new tab s.c.umodes →
      let s' := (umodeChange old new what tab).foldl (userModeLetter conf) s
      s'.c.umodes = new ∧ s'.c.myConnect = false := by
  induction tab with
  | nil =>
    intro what s _ hremote _ hpending
    refine ⟨Finset.ext fun flag => ?_, hremote⟩
    exact (hpending flag).resolve_right fun h => by simp at h
  | cons t tab ih =>
    obtain ⟨c, flag⟩ := t
    intro what s hplain hremote hsigned hpending
    have hrest : ∀ t ∈ tab, plainLetter t := fun t ht => hplain t (List.mem_cons_of_mem _ ht)
    have hhead := hplain (c, flag) List.mem_cons_self
    by_cases hsame : flag ∈ old ↔ flag ∈ new
    · rw [umodeChange_same old new what c flag tab hsame]
      refine ih what s hrest hremote hsigned fun other => ?_
      refine (hpending other).imp_right fun h => ⟨?_, h.2⟩
      have hmem := h.1
      rw [List.map_cons, List.mem_cons] at hmem
      refine hmem.resolve_left ?_
      rintro rfl
      exact h.2 hsame
    · have hfree : flag ∉ fixedModes := fun h => hsame (hfixed flag h)
      -- what is pending for another mode stays so
      have hlater : ∀ other, other ≠ flag → ((other ∈ ((c, flag) :: tab).map Prod.snd) ∧
          ¬ (other ∈ old ↔ other ∈ new)) → (other ∈ tab.map Prod.snd ∧
          ¬ (other ∈ old ↔ other ∈ new)) := by
        intro other hne h
        refine ⟨?_, h.2⟩
        have hmem := h.1
        rw [List.map_cons, List.mem_cons] at hmem
        exact hmem.resolve_left hne
      by_cases hnew : flag ∈ new
      · have hold : flag ∉ old := fun h => hsame (iff_of_true h hnew)
        rw [umodeChange_add old new what c flag tab hold hnew, List.foldl_append, List.foldl_cons]
        have hs : (if what = some .add then [] else ['+']).foldl (userModeLetter conf) s =
            { s with what := .add } := by
          simpa using signed_foldl conf what .add (Or.inl rfl) s hsigned
        rw [hs]
        obtain ⟨hwhat, hremote', hadd, -, -⟩ :=
          letter_remote conf { s with what := .add } hremote (c, flag) hhead hfree
        refine ih (some .add) _ hrest hremote' (fun dir hdir => ?_) fun other => ?_
        · rw [hwhat]
          exact Option.some.inj hdir
        · rw [hadd rfl other]
          by_cases hother : other = flag
          · exact Or.inl (iff_of_true (Or.inl hother) (hother ▸ hnew))
          · rcases hpending other with h | h
            · exact Or.inl (by simp [hother, h])
            · exact Or.inr (hlater other hother h)
      · have hold : flag ∈ old := by
          by_contra h
          exact hsame (iff_of_false h hnew)
        rw [umodeChange_del old new what c flag tab hold hnew, List.foldl_append, List.foldl_cons]
        have hs : (if what = some .del then [] else ['-']).foldl (userModeLetter conf) s =
            { s with what := .del } := by
          simpa using signed_foldl conf what .del (Or.inr rfl) s hsigned
        rw [hs]
        obtain ⟨hwhat, hremote', -, hdel, hless⟩ :=
          letter_remote conf { s with what := .del } hremote (c, flag) hhead hfree
        refine ih (some .del) _ hrest hremote' (fun dir hdir => ?_) fun other => ?_
        · rw [hwhat]
          exact Option.some.inj hdir
        · by_cases hother : other = flag
          · rw [hother]
            exact Or.inl (iff_of_false (hdel rfl).1 hnew)
          by_cases hboth : flag = .oper ∧ other = .admin
          · -- `-o` takes `+a` away, which is to go anyway
            obtain ⟨hoper, rfl⟩ := hboth
            have hgone : .admin ∉ new := hadmin (hoper ▸ hold) (hoper ▸ hnew)
            rcases hpending .admin with h | h
            · exact Or.inl (iff_of_false (hless rfl _ fun hin => hgone (h.mp hin)) hgone)
            · exact Or.inr (hlater _ hother h)
          · rw [(hdel rfl).2 other hother fun ho ha => hboth ⟨ho, ha⟩]
            exact (hpending other).imp_right (hlater other hother)

end Modes

section Commands

variable {S : Type*} (conf : Conf) (l : Local) (id : CStr) (c : Client)

/-- A MODE line for a user of another server, who has the modes the line was made from. -/
theorem setUserMode_theirs (new : Modes)
    (hfixed : ∀ flag ∈ fixedModes, flag ∈ c.umodes ↔ flag ∈ new)
    (hadmin : .oper ∈ c.umodes → .oper ∉ new → .admin ∉ new) :
    (setUserMode conf.user (theirs c) noCount (sendUmode c.umodes new)).1.umodes = new := by
  have hchange := change_remote conf.user c.umodes new hfixed hadmin umodeTable none
    ⟨theirs c, noCount, .add⟩ umodeTable_plain rfl (fun dir hdir => by simp at hdir)
    (fun flag => (em (flag ∈ c.umodes ↔ flag ∈ new)).imp_right fun h => ⟨umodeTable_all flag, h⟩)
  obtain ⟨hmodes, hremote⟩ := hchange
  show (if _ then _ else _ : UserModes.Client).umodes = new
  rw [if_neg fun h => Bool.false_ne_true (hremote.symm.trans h.1)]
  exact hmodes

theorem sendUmode_nil (old new : Modes) (h : sendUmode old new = []) : old = new := by
  have hall : ∀ what tab, umodeChange old new what tab = [] →
      ∀ flag ∈ tab.map Prod.snd, (flag ∈ old ↔ flag ∈ new) := by
    intro what tab hnil
    induction tab generalizing what with
    | nil => simp
    | cons t tab ih =>
      obtain ⟨c, flag⟩ := t
      by_cases hsame : flag ∈ old ↔ flag ∈ new
      · rw [umodeChange_same old new what c flag tab hsame] at hnil
        intro other hother
        rw [List.map_cons, List.mem_cons] at hother
        rcases hother with rfl | hother
        · exact hsame
        · exact ih what hnil other hother
      · by_cases hnew : flag ∈ new
        · rw [umodeChange_add old new what c flag tab (fun h => hsame (iff_of_true h hnew)) hnew]
            at hnil
          simp at hnil
        · have hold : flag ∈ old := by
            by_contra h
            exact hsame (iff_of_false h hnew)
          rw [umodeChange_del old new what c flag tab hold hnew] at hnil
          simp at hnil
  exact Finset.ext fun flag => hall none umodeTable h flag (umodeTable_all flag)

theorem umodeMap_fixed (m : Char) (flag : UMode) (h : umodeMap m = some flag)
    (hfixed : flag ∈ fixedModes) : m = 'S' ∨ m = 'W' ∨ m = 'r' ∨ m = 'x' := by
  have hall : ∀ tab ∈ umodeTab, tab.2 ∈ fixedModes →
      tab.1 = 'S' ∨ tab.1 = 'W' ∨ tab.1 = 'r' ∨ tab.1 = 'x' := by decide
  exact hall (m, flag) (umodeMap_mem m flag h) hfixed

theorem fixed_oper (flag : UMode) (h : flag ∈ fixedModes) : flag ≠ .oper ∧ flag ≠ .admin := by
  revert flag
  decide

theorem letter_fixed (s : Setting) (m : Char) (flag : UMode) (hflag : flag ∈ fixedModes) :
    flag ∈ (userModeLetter conf.user s m).c.umodes ↔ flag ∈ s.c.umodes := by
  obtain ⟨hoper, hadmin⟩ := fixed_oper flag hflag
  have honly := conf.operOnlyPlain flag hflag
  unfold userModeLetter
  split
  · rfl
  split
  · rfl
  split
  · split
    · split
      · simp [setOper, hoper]
      · rfl
    · split
      · rfl
      · unfold detachOper
        split
        · simp [clearOper, hoper, hadmin, honly]
        · simp [clearOper, hoper, hadmin]
  split
  · rfl
  · next hpass =>
    split
    · next other hmap =>
      have hne : flag ≠ other := by
        rintro rfl
        exact hpass (umodeMap_fixed m flag hmap hflag)
      split
      · rfl
      · exact (setMode_mem s.c s.what other flag hne)
    · rfl

theorem foldl_fixed (modes : CStr) (s : Setting) (flag : UMode) (hflag : flag ∈ fixedModes) :
    flag ∈ (modes.foldl (userModeLetter conf.user) s).c.umodes ↔ flag ∈ s.c.umodes := by
  induction modes generalizing s with
  | nil => rfl
  | cons m modes ih =>
    rw [List.foldl_cons, ih]
    exact letter_fixed conf s m flag hflag

/-- Who has lost `+o` has lost the flag of an admin with it. -/
def Stripped (s : Setting) : Prop := .oper ∉ s.c.umodes → s.c.adminFlag = false

theorem letter_stripped (s : Setting) (m : Char) (hlocal : s.c.myConnect = true) (h : Stripped s) :
    Stripped (userModeLetter conf.user s m) ∧ (userModeLetter conf.user s m).c.myConnect = true := by
  unfold userModeLetter
  split
  · exact ⟨h, hlocal⟩
  split
  · exact ⟨h, hlocal⟩
  split
  · split
    · rw [if_neg (by simp [hlocal])]
      exact ⟨h, hlocal⟩
    · split
      · exact ⟨h, hlocal⟩
      · unfold detachOper
        rw [if_pos hlocal]
        exact ⟨fun _ => rfl, hlocal⟩
  next hno =>
  split
  · exact ⟨h, hlocal⟩
  split
  · next flag hmap =>
    have hne : UMode.oper ≠ flag := by
      rintro rfl
      exact hno (umodeMap_oper m hmap)
    split
    · exact ⟨h, hlocal⟩
    · refine ⟨fun hout => ?_, ?_⟩
      · have hin := h fun ho => hout ((setMode_mem s.c s.what flag .oper hne).mpr ho)
        unfold UserModes.Client.setMode
        split <;> exact hin
      · unfold UserModes.Client.setMode
        split <;> exact hlocal
  · exact ⟨h, hlocal⟩

theorem foldl_stripped (modes : CStr) (s : Setting) (hlocal : s.c.myConnect = true)
    (h : Stripped s) : Stripped (modes.foldl (userModeLetter conf.user) s) ∧
      (modes.foldl (userModeLetter conf.user) s).c.myConnect = true := by
  induction modes generalizing s with
  | nil => exact ⟨h, hlocal⟩
  | cons m modes ih =>
    obtain ⟨h', hlocal'⟩ := letter_stripped conf s m hlocal h
    exact ih _ hlocal' h'

theorem setUserMode_mine (modes : CStr) :
    let new := (setUserMode conf.user (mine l c) noCount modes).1.umodes
    (∀ flag ∈ fixedModes, flag ∈ c.umodes ↔ flag ∈ new) ∧
      (.oper ∈ c.umodes → .oper ∉ new → .admin ∉ new) := by
  intro new
  have hnew : new = (if (modes.foldl (userModeLetter conf.user) ⟨mine l c, noCount, .add⟩).c.myConnect ∧
      .admin ∈ (modes.foldl (userModeLetter conf.user) ⟨mine l c, noCount, .add⟩).c.umodes ∧
        !(modes.foldl (userModeLetter conf.user) ⟨mine l c, noCount, .add⟩).c.adminFlag then
      { (modes.foldl (userModeLetter conf.user) ⟨mine l c, noCount, .add⟩).c with
        umodes := (modes.foldl (userModeLetter conf.user) ⟨mine l c, noCount, .add⟩).c.umodes.erase
          .admin }
      else (modes.foldl (userModeLetter conf.user) ⟨mine l c, noCount, .add⟩).c).umodes := rfl
  have hfixed := foldl_fixed conf modes ⟨mine l c, noCount, .add⟩
  have hstripped := foldl_stripped conf modes ⟨mine l c, noCount, .add⟩ rfl
  generalize modes.foldl (userModeLetter conf.user) ⟨mine l c, noCount, .add⟩ = s at *
  constructor
  · intro flag hflag
    rw [hnew]
    have hsame : flag ∈ s.c.umodes ↔ flag ∈ c.umodes := hfixed flag hflag
    split
    · simp [hsame, (fixed_oper flag hflag).2]
    · exact hsame.symm
  · intro hoper hnot
    obtain ⟨hflag, hlocal⟩ := hstripped fun h => absurd hoper h
    rw [hnew] at hnot ⊢
    by_cases hadmin : .admin ∈ s.c.umodes
    · by_cases hon : s.c.adminFlag
      · rw [if_neg (by simp [hon])] at hnot
        rw [hflag hnot] at hon
        simp at hon
      · rw [if_pos ⟨hlocal, hadmin, by simpa using hon⟩]
        simp
    · split
      · simp
      · exact hadmin

theorem operUp_umodes (block : OperBlock) (added : Modes)
    (hadded : added = if block.modes ≠ ∅ then block.modes else conf.user.operUmodes) :
    (operUp conf.user block.modes block.admin (mine l c) noCount).1.umodes =
      if (l.adminFlag || block.admin) = true then insert .admin (insert .oper c.umodes ∪ added)
      else insert .oper c.umodes ∪ added := by
  rw [hadded]
  unfold operUp
  by_cases hadmin : (l.adminFlag || block.admin) = true
  · rw [if_pos hadmin]
    simp only [setOper, mine, hadmin, if_true]
  · rw [if_neg hadmin]
    simp only [setOper, mine, hadmin, if_false, Bool.false_eq_true]

theorem operUp_mine (block : OperBlock) :
    let new := (operUp conf.user block.modes block.admin (mine l c) noCount).1.umodes
    (∀ flag ∈ fixedModes, flag ∈ c.umodes ↔ flag ∈ new) ∧
      (.oper ∈ c.umodes → .oper ∉ new → .admin ∉ new) := by
  intro new
  have hplain : ∀ flag ∈ fixedModes,
      flag ∉ (if block.modes ≠ ∅ then block.modes else conf.user.operUmodes) := by
    intro flag hflag
    split
    · exact block.plain flag hflag
    · exact conf.operPlain flag hflag
  have hnew := operUp_umodes conf l c block _ rfl
  generalize (if block.modes ≠ ∅ then block.modes else conf.user.operUmodes) = added at hplain hnew
  change new = _ at hnew
  rw [hnew]
  constructor
  · intro flag hflag
    obtain ⟨hoper, hadmin⟩ := fixed_oper flag hflag
    split <;> simp [hoper, hadmin, hplain flag hflag]
  · intro _ hnot
    split at hnot <;> simp at hnot

/-- Of what a line keeps nothing is lost by copying it. -/
structure Fit (c : Client) : Prop where
  name : validNickname c.name true = true
  info : c.info.length ≤ REALLEN

theorem validNickname_length (nick : CStr) (loc : Bool) (h : validNickname nick loc = true) :
    nick.length ≤ NICKLEN := (NickHistory.isNickChar_ne_nul nick loc h).1

/-- A nick on its own server starts with neither a hyphen nor a digit. -/
theorem validNickname_cons (c : Char) (rest : CStr) (loc : Bool) :
    validNickname (c :: rest) loc = true ↔ ¬ (c = '-' ∨ (isDigit c = true ∧ loc = true)) ∧
      ((c :: rest).all NickHistory.isNickChar && decide ((c :: rest).length ≤ NICKLEN)) = true := by
  show (if c = '-' ∨ (isDigit c = true ∧ loc = true) then false else _) = true ↔ _
  split
  · next h => simp [h]
  · next h => simp only [h, not_false_iff, true_and]

theorem validNickname_remote (nick : CStr) (h : validNickname nick true = true) :
    validNickname nick false = true := by
  cases nick with
  | nil => simp [validNickname] at h
  | cons c rest =>
    obtain ⟨hfirst, hall⟩ := (validNickname_cons c rest true).mp h
    exact (validNickname_cons c rest false).mpr
      ⟨fun hbad => hfirst (hbad.imp_right fun hd => ⟨hd.1, rfl⟩), hall⟩

theorem validNickname_digit (nick : CStr) (h : validNickname nick true = true) :
    MemberLists.startsWithDigit nick = false := by
  cases nick with
  | nil => rfl
  | cons c rest =>
    have hfirst := ((validNickname_cons c rest true).mp h).1
    show isDigit c = false
    by_contra hdigit
    exact hfirst (Or.inr ⟨by simpa using hdigit, rfl⟩)

theorem rchgLine_again (name realName : CStr) :
    (rchgLine name (realName.take (510 - (name.length + 8))) : Line S) = rchgLine name realName := by
  unfold rchgLine
  rw [List.take_take, Nat.min_self]

theorem clipped_info (name realName : CStr) (h : name.length ≤ NICKLEN) :
    strlcpy (realName.take (510 - (name.length + 8))) (REALLEN + 1) = strlcpy realName (REALLEN + 1) := by
  unfold strlcpy
  rw [List.take_take]
  congr 1
  have hlen : NICKLEN = 12 := rfl
  have hreal : REALLEN = 150 := rfl
  omega

theorem uidModes_sendUmode (m : Modes) :
    (uidModes (if sendUmode ∅ m = [] then ['+'] else sendUmode ∅ m) noCount).1 = m := by
  have hfold : ∀ (tab : List (Char × UMode)) (s : Modes × Counter),
      (∀ t ∈ tab, umodeMap t.1 = some t.2) →
      ∀ flag, flag ∈ ((umodeChange ∅ m (some .add) tab).foldl uidModeLetter s).1 ↔
        flag ∈ s.1 ∨ (flag ∈ tab.map Prod.snd ∧ flag ∈ m) := by
    intro tab
    induction tab with
    | nil => simp [umodeChange]
    | cons t tab ih =>
      obtain ⟨c, g⟩ := t
      intro s hmap flag
      have hrest : ∀ t ∈ tab, umodeMap t.1 = some t.2 := fun t ht => hmap t (List.mem_cons_of_mem _ ht)
      by_cases hg : g ∈ m
      · rw [umodeChange_add ∅ m _ c g tab (by simp) hg, if_pos rfl, List.nil_append, List.foldl_cons,
          ih _ hrest]
        have hletter : ∀ flag, flag ∈ (uidModeLetter s c).1 ↔ flag = g ∨ flag ∈ s.1 := by
          intro flag
          have hc : umodeMap c = some g := hmap (c, g) List.mem_cons_self
          simp [uidModeLetter, hc]
        rw [hletter, List.map_cons, List.mem_cons]
        constructor
        · rintro ((rfl | h) | h)
          · exact Or.inr ⟨Or.inl rfl, hg⟩
          · exact Or.inl h
          · exact Or.inr ⟨Or.inr h.1, h.2⟩
        · rintro (h | ⟨rfl | h, hm⟩)
          · exact Or.inl (Or.inr h)
          · exact Or.inl (Or.inl rfl)
          · exact Or.inr ⟨h, hm⟩
      · rw [umodeChange_same ∅ m _ c g tab (by simp [hg]), ih s hrest, List.map_cons, List.mem_cons]
        refine or_congr Iff.rfl (and_congr_left fun hm => ?_)
        refine ⟨Or.inr, fun h => h.resolve_left ?_⟩
        rintro rfl
        exact hg hm
  have htail : ∀ tab, (umodeChange ∅ m none tab = [] ∧ umodeChange ∅ m (some .add) tab = []) ∨
      umodeChange ∅ m none tab = '+' :: umodeChange ∅ m (some .add) tab := by
    intro tab
    induction tab with
    | nil => exact Or.inl ⟨rfl, rfl⟩
    | cons t tab ih =>
      obtain ⟨c, g⟩ := t
      by_cases hg : g ∈ m
      · rw [umodeChange_add ∅ m _ c g tab (by simp) hg, umodeChange_add ∅ m _ c g tab (by simp) hg]
        exact Or.inr (by simp)
      · rw [umodeChange_same ∅ m _ c g tab (by simp [hg]), umodeChange_same ∅ m _ c g tab (by simp [hg])]
        exact ih
  have hletters : (if sendUmode ∅ m = [] then ['+'] else sendUmode ∅ m).tail =
      umodeChange ∅ m (some .add) umodeTable := by
    unfold sendUmode
    rcases htail umodeTable with ⟨hnone, hadd⟩ | hadd
    · rw [if_pos hnone, hadd]
      rfl
    · rw [if_neg (by simp [hadd]), hadd]
      rfl
  unfold uidModes
  rw [hletters]
  ext flag
  rw [hfold umodeTable _ (fun t ht => (umodeTable_plain t ht).2.2.1)]
  simp only [Finset.notMem_empty, false_or]
  exact ⟨fun h => h.2, fun h => ⟨umodeTable_all flag, h⟩⟩

theorem introduced_introduction (h : Fit c) (haway : c.away = []) :
    introduced c.name c.tsinfo (if sendUmode ∅ c.umodes = [] then ['+'] else sendUmode ∅ c.umodes)
      c.info = c := by
  unfold introduced
  rw [uidModes_sendUmode, strlcpy_of_le c.name _ (validNickname_length _ _ h.name),
    strlcpy_of_le c.info _ h.info, ← haway]

/-- The text of a command fits into `hold`, and is one that the others let pass as well. -/
def Passed (l : Local) : Command → Prop
  | .rchg realName => (strlcpy realName (REALLEN + 1)).length < holdSize ∧
      (l.opme = true → blankName (strlcpy realName (REALLEN + 1)) = false)
  | _ => True

/-- What becomes of a command. Where nothing does, where the user leaves, and where nothing but the
modes change, it does not matter which command it was. -/
inductive Became (found : CStr → Option CStr) : Command → Outcome S → Prop where
  | stay (cmd : Command) : Became found cmd (stay c)
  | leave (cmd : Command) : Became found cmd (leave id)
  | modes (cmd : Command) (new : Modes)
      (hfixed : ∀ flag ∈ fixedModes, flag ∈ c.umodes ↔ flag ∈ new)
      (hadmin : .oper ∈ c.umodes → .oper ∉ new → .admin ∉ new) :
      Became found cmd (sendUmodeOut id c.umodes { c with umodes := new })
  | nick (nick : CStr) (now : ℤ) (exemptResv tooFast : Bool)
      (hvalid : validNickname (copied conf nick) true = true)
      (hfree : found (copied conf nick) = none ∨
        found (copied conf nick) = some id ∧ c.name ≠ copied conf nick) :
      Became found (.nick nick now exemptResv tooFast)
        ⟨some (renamed c (copied conf nick) now),
          some (.nick id (copied conf nick) (renamed c (copied conf nick) now).tsinfo)⟩
  | back (tooMany : Bool) (haway : c.away ≠ []) :
      Became found (.away [] tooMany) ⟨some { c with away := [] }, some (.away id [])⟩
  | away (message : CStr) (tooMany : Bool) (hne : message ≠ []) :
      Became found (.away message tooMany)
        ⟨some { c with away := strlcpy message (AWAYLEN + 1) },
          some (.away id (strlcpy message (AWAYLEN + 1)))⟩
  | rchg (realName : CStr)
      (hshown : l.opme = false → blankName (strlcpy realName (REALLEN + 1)) = false) :
      Became found (.rchg realName)
        ⟨some { c with info := strlcpy realName (REALLEN + 1) }, some (rchgLine c.name realName)⟩

theorem mNick_became (found : CStr → Option CStr) (nick : CStr) (now : ℤ)
    (exemptResv tooFast : Bool) :
    Became (S := S) conf l id c found (.nick nick now exemptResv tooFast)
      (mNick conf found l id c nick now exemptResv tooFast) := by
  have hchange (hvalid : validNickname (copied conf nick) true = true)
      (hfree : found (copied conf nick) = none ∨
        found (copied conf nick) = some id ∧ c.name ≠ copied conf nick) :
      Became (S := S) conf l id c found (.nick nick now exemptResv tooFast)
        (changeLocalNick l id c (copied conf nick) now tooFast) := by
    unfold changeLocalNick
    split
    · exact .leave _
    split
    · exact .stay _
    · exact .nick nick now exemptResv tooFast hvalid hfree
  unfold mNick
  simp only
  split
  · exact .stay _
  next hrefused =>
  have hvalid : validNickname (copied conf nick) true = true := by
    by_contra hbad
    exact hrefused (by simp [hbad])
  split
  · next hnone => exact hchange hvalid (Or.inl hnone)
  next target htarget =>
  split
  · next hself =>
    split
    · exact .stay _
    · next hne => exact hchange hvalid (Or.inr ⟨hself ▸ htarget, hne⟩)
  · exact .stay _

theorem mAway_became (found : CStr → Option CStr) (message : CStr) (tooMany : Bool) :
    Became (S := S) conf l id c found (.away message tooMany) (mAway id c message tooMany) := by
  unfold mAway
  split
  · next hnil =>
    subst hnil
    split
    · next haway => exact .back tooMany haway
    · exact .stay _
  · next hne =>
    split
    · exact .stay _
    · exact .away message tooMany hne

theorem own_became (found : CStr → Option CStr) (cmd : Command) :
    Became (S := S) conf l id c found cmd (own conf found l id c cmd).2 := by
  cases cmd with
  | mode modes =>
    obtain ⟨hfixed, hadmin⟩ := setUserMode_mine conf l c modes
    exact .modes _ _ hfixed hadmin
  | oper block =>
    obtain ⟨hfixed, hadmin⟩ := operUp_mine conf l c block
    exact .modes _ _ hfixed hadmin
  | nick nick now exemptResv tooFast => exact mNick_became conf l id c found nick now exemptResv tooFast
  | away message tooMany => exact mAway_became conf l id c found message tooMany
  | rchg realName =>
    show Became conf l id c found _ (mRchg l.opme id c realName)
    unfold mRchg
    split
    · exact .leave _
    · next hpass => exact .rchg realName fun hopme => by simpa [hopme] using hpass
  | quit => exact .leave _

/-- Another server comes to the same from the line, and where there is no line nothing happened. -/
def Echoed (found' : CStr → Option CStr) (o : Outcome S) : Prop :=
  (o.line = none → o.client = some c) ∧
    ∀ line, o.line = some line → relay conf found' id c line = some o

theorem echoed_line (found' : CStr → Option CStr) (left : Option Client) (line : Line S)
    (h : relay conf found' id c line = some ⟨left, some line⟩) :
    Echoed conf id c found' ⟨left, some line⟩ := by
  refine ⟨fun hnone => by simp at hnone, fun other hother => ?_⟩
  rw [← Option.some.inj hother]
  exact h

theorem sendUmodeOut_echo (found' : CStr → Option CStr) (new : Modes)
    (hfixed : ∀ flag ∈ fixedModes, flag ∈ c.umodes ↔ flag ∈ new)
    (hadmin : .oper ∈ c.umodes → .oper ∉ new → .admin ∉ new) :
    Echoed (S := S) conf id c found' (sendUmodeOut id c.umodes { c with umodes := new }) := by
  by_cases hnil : sendUmode c.umodes new = []
  · have hout : (sendUmodeOut id c.umodes { c with umodes := new } : Outcome S) =
        ⟨some { c with umodes := new }, none⟩ := by simp [sendUmodeOut, hnil]
    rw [hout, ← sendUmode_nil c.umodes new hnil]
    exact ⟨fun _ => rfl, fun line hline => by simp at hline⟩
  · have hout : (sendUmodeOut id c.umodes { c with umodes := new } : Outcome S) =
        ⟨some { c with umodes := new }, some (.mode id id (sendUmode c.umodes new))⟩ := by
      simp [sendUmodeOut, hnil]
    rw [hout]
    apply echoed_line
    rw [← hout, relay, if_pos rfl]
    simp only [setUserMode_theirs conf c new hfixed hadmin]

theorem msNick_echo (found' : CStr → Option CStr) (nick : CStr) (now : ℤ)
    (hvalid : validNickname nick true = true) (hother : c.name ≠ nick)
    (hclear : found' nick = none ∨ found' nick = some id) :
    (msNick found' id c nick (renamed c nick now).tsinfo : Option (Outcome S)) =
      some ⟨some (renamed c nick now), some (.nick id nick (renamed c nick now).tsinfo)⟩ := by
  -- told of the timestamp it has already, a server leaves it
  have hagain : renamed c nick (renamed c nick now).tsinfo = renamed c nick now := by
    unfold renamed
    split <;> rfl
  unfold msNick
  rw [if_neg (by simp [validNickname_remote nick hvalid])]
  rcases hclear with hnone | hown
  · rw [hnone]
    simp only [changeRemoteNick, hagain]
  · rw [hown]
    simp only [if_true, if_neg hother, changeRemoteNick, hagain]

theorem msAway_again (message : CStr) (h : message ≠ []) :
    (msAway id c (strlcpy message (AWAYLEN + 1)) : Outcome S) =
      ⟨some { c with away := strlcpy message (AWAYLEN + 1) },
        some (.away id (strlcpy message (AWAYLEN + 1)))⟩ := by
  have hne : strlcpy message (AWAYLEN + 1) ≠ [] := by
    cases message with
    | nil => exact absurd rfl h
    | cons m rest => simp [strlcpy, AWAYLEN]
  have htwice : strlcpy (strlcpy message (AWAYLEN + 1)) (AWAYLEN + 1) = strlcpy message (AWAYLEN + 1) := by
    unfold strlcpy
    rw [List.take_take, Nat.min_self]
  unfold msAway
  rw [if_neg hne, htwice]

/-- What a command has come to, every other server comes to from the line about it. -/
theorem relay_own (found found' : CStr → Option CStr) (cmd : Command) (h : Fit c)
    (hpassed : Passed l cmd) (hself : found c.name = some id)
    (hclear : ∀ nick ts, (own conf found l id c cmd : Local × Outcome S).2.line = some (.nick id nick ts) →
      found' nick = none ∨ found' nick = some id) :
    Echoed (S := S) conf id c found' (own conf found l id c cmd).2 := by
  have hbecame := own_became (S := S) conf l id c found cmd
  generalize (own conf found l id c cmd : Local × Outcome S).2 = o at hbecame hclear ⊢
  cases hbecame with
  | stay => exact ⟨fun _ => rfl, fun line hline => by simp [stay] at hline⟩
  | leave => exact echoed_line conf id c found' none _ rfl
  | modes _ new hfixed hadmin => exact sendUmodeOut_echo conf id c found' new hfixed hadmin
  | nick nick now exemptResv tooFast hvalid hfree =>
    have hother : c.name ≠ copied conf nick := by
      rcases hfree with hnone | ⟨-, hne⟩
      · intro heq
        rw [← heq, hself] at hnone
        simp at hnone
      · exact hne
    exact echoed_line conf id c found' _ _
      (msNick_echo id c found' _ now hvalid hother (hclear _ _ rfl))
  | back tooMany haway =>
    refine echoed_line conf id c found' _ _ ?_
    show some (msAway id c []) = _
    unfold msAway
    rw [if_pos rfl, if_pos haway]
  | away message tooMany hne =>
    exact echoed_line conf id c found' _ _ (congrArg some (msAway_again id c message hne))
  | rchg realName hshown =>
    have hblank : blankName (strlcpy realName (REALLEN + 1)) = false := by
      cases hopme : l.opme with
      | true => exact hpassed.2 hopme
      | false => exact hshown hopme
    refine echoed_line conf id c found' _ _ ?_
    show some (mRchg false id c (realName.take _)) = _
    unfold mRchg
    rw [clipped_info c.name realName (validNickname_length _ _ h.name), rchgLine_again, hblank]
    rfl

/-- What is left of a user is as fit as it was, and has another nick only by a line that says so. -/
def Settled (o : Outcome S) : Prop :=
  ∀ c', o.client = some c' → Fit c' ∧ (c'.name = c.name ∨ ∃ ts, o.line = some (.nick id c'.name ts))

theorem renamed_name (nick : CStr) (ts : ℤ) : (renamed c nick ts).name = nick := by
  unfold renamed
  split <;> rfl

theorem renamed_info (nick : CStr) (ts : ℤ) : (renamed c nick ts).info = c.info := by
  unfold renamed
  split <;> rfl

theorem own_settled (found : CStr → Option CStr) (cmd : Command) (h : Fit c) :
    Settled id c (own conf found l id c cmd : Local × Outcome S).2 := by
  have hbecame := own_became (S := S) conf l id c found cmd
  generalize (own conf found l id c cmd : Local × Outcome S).2 = o at hbecame ⊢
  intro c' hc'
  cases hbecame with
  | leave => simp [leave] at hc'
  | nick nick now exemptResv tooFast hvalid hfree =>
    obtain rfl : renamed c (copied conf nick) now = c' := Option.some.inj hc'
    refine ⟨⟨?_, ?_⟩, Or.inr ⟨(renamed c (copied conf nick) now).tsinfo, ?_⟩⟩
    · rw [renamed_name]
      exact hvalid
    · rw [renamed_info]
      exact h.info
    · rw [renamed_name]
  | rchg realName hshown =>
    rw [← Option.some.inj hc']
    refine ⟨⟨h.name, ?_⟩, Or.inl rfl⟩
    show (List.take _ _).length ≤ _
    rw [List.length_take]
    exact Nat.min_le_left _ _
  | _ =>
    rw [← Option.some.inj hc']
    exact ⟨⟨h.name, h.info⟩, Or.inl rfl⟩

/-- The prefix of the line, and for a nick that is taken, that nobody else had it. -/
def Signs (found : CStr → Option CStr) (cmd : Command) : Line S → Prop
  | .nick source nick _ => source = id ∧ (found nick = none ∨ found nick = some id) ∧
      ∃ asked now exemptResv tooFast, cmd = .nick asked now exemptResv tooFast ∧ nick = copied conf asked
  | .mode source _ _ => source = id
  | .away source _ => source = id
  | .rchg source _ => source = c.name
  | .quit source => source = id
  | _ => False

theorem own_signs (found : CStr → Option CStr) (cmd : Command) (line : Line S)
    (hline : (own conf found l id c cmd : Local × Outcome S).2.line = some line) :
    Signs conf id c found cmd line := by
  have hbecame := own_became (S := S) conf l id c found cmd
  generalize (own conf found l id c cmd : Local × Outcome S).2 = o at hbecame hline
  cases hbecame with
  | stay => simp [stay] at hline
  | modes _ new =>
    have hline : (if sendUmode c.umodes new = [] then none
      else some (.mode id id (sendUmode c.umodes new))) = some line := hline
    split at hline
    · simp at hline
    · rw [← Option.some.inj hline]
      rfl
  | nick nick now exemptResv tooFast hvalid hfree =>
    rw [← Option.some.inj hline]
    exact ⟨rfl, hfree.imp_right And.left, nick, now, exemptResv, tooFast, rfl, rfl⟩
  | _ =>
    rw [← Option.some.inj hline]
    rfl

end Commands

end IrcdHybrid.UserEcho
