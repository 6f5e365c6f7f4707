import IrcdHybrid.BanCache

/-!
A list that `is_banned` goes through does not change unless the caches of the channel
are cleared with it, whichever mode change or line from a server it is.
-/

namespace IrcdHybrid.BanLists

open CString Numeral BanMask Match Netmask Channels Wire Burst Sjoin ChannelMode BanCache
open ChannelTable hiding Step Reachable
open Function

/-- The lists that `is_banned` goes through are the same. -/
def SameLists (chptr chptr' : Channel) : Prop :=
  chptr'.banlist = chptr.banlist ∧ chptr'.exceptlist = chptr.exceptlist

theorem SameLists.trans {a b c : Channel} (h : SameLists a b) (h' : SameLists b c) :
    SameLists a c := ⟨h'.1.trans h.1, h'.2.trans h.2⟩

theorem SameLists.isBanned {chptr chptr' : Channel} (h : SameLists chptr chptr') (c : Client) :
    isBanned chptr' c = isBanned chptr c := by
  unfold BanCache.isBanned
  rw [h.1, h.2]

theorem setList_same (chptr : Channel) (l : List Nuh) : SameLists chptr (chptr.setList l .invex) :=
  ⟨rfl, rfl⟩

theorem addMask_same (chptr : Channel) (n : Nuh) : SameLists chptr (addMask chptr .invex n).1 := by
  unfold addMask
  split
  · exact ⟨rfl, rfl⟩
  · exact setList_same chptr _

theorem addId_same (maxBans : Option ℕ) (chptr : Channel) (banid : CStr) (type : ListType)
    (h : addIdClears maxBans chptr type = false) :
    SameLists chptr (addId maxBans chptr banid type).1 := by
  unfold addIdClears at h
  unfold addId
  by_cases htype : type = .invex
  · rw [htype]
    split
    · split
      · exact ⟨rfl, rfl⟩
      · exact addMask_same chptr _
    · exact addMask_same chptr _
  · -- the list is full, and stays as it is
    have hne : (type != .invex) = true := bne_iff_ne.mpr htype
    rw [hne, Bool.true_and] at h
    cases maxBans with
    | none => simp at h
    | some maxBans =>
      have hfull : maxBans ≤ numMask chptr := by simpa using h
      dsimp only
      rw [if_pos hfull]
      exact ⟨rfl, rfl⟩

theorem delId_same (chptr : Channel) (banid : CStr) (type : ListType)
    (h : delIdClears type = false) : SameLists chptr (delId chptr banid type).1 := by
  obtain rfl : type = .invex := by
    unfold delIdClears at h
    simpa using h
  unfold delId delMask
  split
  · exact setList_same chptr _
  · exact ⟨rfl, rfl⟩

theorem same_ite (chptr : Channel) (b : Bool) (s t : ModeState) (hs : SameLists chptr s.chptr)
    (ht : SameLists chptr t.chptr) : SameLists chptr (if b then s else t).chptr := by
  cases b with
  | true => exact hs
  | false => exact ht

theorem setMask_same (type : ListType) (source : Setter) (dir : Dir) (c : Char) (mask : CStr)
    (s : ModeState) (h : setMaskClears type source dir mask s = false) :
    SameLists s.chptr (setMask type source dir c mask s).chptr := by
  unfold setMaskClears at h
  unfold setMask
  split
  · exact ⟨rfl, rfl⟩
  next hmask =>
  rw [if_neg hmask] at h
  by_cases hdir : dir = .add
  · rw [if_pos hdir] at h
    have hadd := addId_same _ s.chptr mask type h
    rw [if_pos hdir]
    exact same_ite s.chptr _ _ s hadd ⟨rfl, rfl⟩
  · rw [if_neg hdir] at h
    have hdel := delId_same s.chptr mask type h
    rw [if_neg hdir]
    exact same_ite s.chptr _ _ s hdel ⟨rfl, rfl⟩

theorem chmMask_same (type : ListType) (source : Setter) (dir : Dir) (c : Char) (s : ModeState)
    (h : chmMaskClears type source dir s = false) :
    SameLists s.chptr (chmMask type source dir c s).chptr := by
  have hcount := countLimit_chptr source s
  unfold chmMaskClears at h
  unfold chmMask
  by_cases hquery : dir = .query
  · rw [if_pos hquery]
    exact ⟨rfl, rfl⟩
  rw [if_neg hquery] at h ⊢
  cases hparams : s.params with
  | nil => exact ⟨rfl, rfl⟩
  | cons p params =>
    rw [hparams] at h
    dsimp only at h ⊢
    split
    · exact ⟨rfl, rfl⟩
    next haccess =>
    rw [if_neg haccess] at h
    by_cases hfull : (countLimit source s).2 = true
    · rw [if_pos hfull, hcount]
      exact ⟨rfl, rfl⟩
    · rw [if_neg hfull] at h ⊢
      have hset := setMask_same type source dir c (strlcpy p IRCD_BUFSIZE)
        { (countLimit source s).1 with params := params } h
      rw [← hcount]
      exact hset

theorem setSimple_same (dir : Dir) (c : Char) (d : SimpleMode) (s : ModeState) :
    SameLists s.chptr (setSimple dir c d s).chptr := by
  unfold setSimple
  split
  · exact ⟨rfl, rfl⟩
  · cases dir <;> exact ⟨rfl, rfl⟩

theorem chmSimple_same (source : Setter) (dir : Dir) (c : Char) (d : SimpleMode) (s : ModeState) :
    SameLists s.chptr (chmSimple source dir c d s).chptr := by
  unfold chmSimple
  split
  · exact ⟨rfl, rfl⟩
  · exact setSimple_same dir c d s

theorem chmMember_same (need : Access) (status : Status) (redundant : Dir → Bool → Bool)
    (source : Setter) (dir : Dir) (c : Char) (s : ModeState) :
    SameLists s.chptr (chmMember need status redundant source dir c s).chptr := by
  unfold chmMember
  split
  · exact ⟨rfl, rfl⟩
  split
  · exact ⟨rfl, rfl⟩
  split
  · exact ⟨rfl, rfl⟩
  next p params _ =>
  dsimp only
  split
  · exact ⟨rfl, rfl⟩
  next id _ =>
  split
  · exact ⟨rfl, rfl⟩
  have hcount := countLimit_chptr source { s with params := params }
  have hsame : SameLists s.chptr (countLimit source { s with params := params }).1.chptr := by
    rw [hcount]
    exact ⟨rfl, rfl⟩
  split
  · exact hsame
  split
  · exact hsame
  · exact hsame

theorem chmLimit_same (source : Setter) (dir : Dir) (c : Char) (s : ModeState) :
    SameLists s.chptr (chmLimit source dir c s).chptr := by
  unfold chmLimit
  split
  · exact ⟨rfl, rfl⟩
  cases dir with
  | query => exact ⟨rfl, rfl⟩
  | add =>
    dsimp only
    split
    · exact ⟨rfl, rfl⟩
    · split <;> exact ⟨rfl, rfl⟩
  | del =>
    dsimp only
    split <;> exact ⟨rfl, rfl⟩

theorem chmKey_same (source : Setter) (dir : Dir) (c : Char) (s : ModeState) :
    SameLists s.chptr (chmKey source dir c s).chptr := by
  unfold chmKey
  split
  · exact ⟨rfl, rfl⟩
  cases dir with
  | query => exact ⟨rfl, rfl⟩
  | add =>
    dsimp only
    split
    · exact ⟨rfl, rfl⟩
    · split <;> exact ⟨rfl, rfl⟩
  | del =>
    dsimp only
    split <;> exact ⟨rfl, rfl⟩

theorem modeFunc_same (source : Setter) (dir : Dir) (c : Char) (s : ModeState)
    (h : modeFuncClears source dir c s = false) :
    SameLists s.chptr (modeFunc source dir c s).chptr := by
  unfold modeFuncClears at h
  unfold modeFunc
  split
  · exact chmMask_same .invex source dir 'I' s h
  · unfold chmOperonly
    split
    · exact ⟨rfl, rfl⟩
    · split
      · exact ⟨rfl, rfl⟩
      · exact setSimple_same dir 'O' _ s
  · exact chmMask_same .ban source dir 'b' s h
  · exact chmMask_same .exception source dir 'e' s h
  · exact chmMember_same _ _ _ source dir 'h' s
  · exact chmKey_same source dir 'k' s
  · exact chmLimit_same source dir 'l' s
  · exact chmMember_same _ _ _ source dir 'o' s
  · unfold chmRegistered
    split
    · exact ⟨rfl, rfl⟩
    · exact setSimple_same dir 'r' _ s
  · exact chmMember_same _ _ _ source dir 'v' s
  · split
    · exact chmSimple_same source dir _ _ s
    · exact ⟨rfl, rfl⟩

theorem modes_same (source : Setter) (modes : CStr) (st : Dir × ModeState)
    (h : modesClear source modes st = false) :
    SameLists st.2.chptr (modes.foldl (modeStep source) st).2.chptr := by
  induction modes generalizing st with
  | nil => exact ⟨rfl, rfl⟩
  | cons c modes ih =>
    unfold modesClear at h
    obtain ⟨hletter, hrest⟩ := Bool.or_eq_false_iff.mp h
    refine SameLists.trans ?_ (ih _ hrest)
    unfold modeStep
    split
    · exact ⟨rfl, rfl⟩
    split
    · exact ⟨rfl, rfl⟩
    split
    · exact ⟨rfl, rfl⟩
    · exact modeFunc_same source st.1 c st.2 hletter

theorem setChannelMode_same (source : Setter) (chptr : Channel) (modes : CStr)
    (params : List CStr) (h : setChannelModeClears source chptr modes params = false) :
    SameLists chptr (setChannelMode source chptr modes params).chptr :=
  modes_same source modes _ h

theorem tmodeChannel_same (link : Link) (source : Source) (ts modes : CStr) (args : List CStr)
    (chptr : Channel) (h : tmodeClears link source ts modes args chptr = false) :
    SameLists chptr (tmodeChannel link source ts modes args chptr) := by
  unfold tmodeClears at h
  unfold tmodeChannel
  split
  · exact ⟨rfl, rfl⟩
  · next hts =>
    rw [if_neg hts] at h
    exact setChannelMode_same _ chptr modes args h

theorem addMasks_same (type : ListType) (masks : List CStr) (chptr : Channel)
    (h : addMasksClear type masks = false) : SameLists chptr (addMasks type masks chptr) := by
  induction masks generalizing chptr with
  | nil => exact ⟨rfl, rfl⟩
  | cons s masks ih =>
    unfold addMasksClear at h
    unfold addMasks
    by_cases hlong : s.length > MODEBUFLEN
    · rw [if_pos hlong]
      exact ⟨rfl, rfl⟩
    rw [if_neg hlong] at h ⊢
    by_cases hcolon : s.head? = some ':'
    · rw [if_pos hcolon] at h ⊢
      exact ih chptr h
    · rw [if_neg hcolon] at h ⊢
      obtain ⟨htype, hrest⟩ := Bool.or_eq_false_iff.mp h
      refine SameLists.trans (addId_same none chptr s type ?_) (ih _ hrest)
      unfold addIdClears
      rw [htype, Bool.false_and]

theorem bmaskChannel_same (ts flag masks : CStr) (chptr : Channel)
    (h : bmaskClears ts flag masks chptr = false) :
    SameLists chptr (bmaskChannel ts flag masks chptr) := by
  unfold bmaskClears at h
  unfold bmaskChannel
  split
  · exact ⟨rfl, rfl⟩
  · next hts =>
    rw [if_neg hts] at h
    cases hflag : flag.head?.bind listType with
    | none => exact ⟨rfl, rfl⟩
    | some type =>
      rw [hflag] at h
      exact addMasks_same type _ chptr h

theorem joinMembers_same (link : Link) (keepNewModes : Bool) (members : List CStr)
    (chptr : Channel) :
    SameLists chptr (members.foldl (joinMember link keepNewModes) chptr) := by
  induction members generalizing chptr with
  | nil => exact ⟨rfl, rfl⟩
  | cons s members ih =>
    refine SameLists.trans ?_ (ih _)
    unfold joinMember
    dsimp only
    split
    · split <;> exact ⟨rfl, rfl⟩
    · exact ⟨rfl, rfl⟩

theorem sjoinChannel_same (link : Link) (ts name modes : CStr) (args : List CStr)
    (chptr chptr' : Channel)
    (hnew : sjoinChannel link ts name modes args (some chptr) = some chptr')
    (h : sjoinClears link ts name modes args (some chptr) = false) : SameLists chptr chptr' := by
  unfold sjoinClears at h
  unfold sjoinChannel at hnew
  by_cases hcheck : (!checkChannelName name) = true
  · rw [if_pos hcheck] at hnew
    rw [← Option.some.inj hnew]
    exact ⟨rfl, rfl⟩
  rw [if_neg hcheck] at h hnew
  cases hmodes : sjoinModes modes args noModes with
  | none =>
    rw [hmodes] at hnew
    rw [← Option.some.inj hnew]
    exact ⟨rfl, rfl⟩
  | some r =>
    rw [hmodes] at h hnew
    dsimp only [Option.getD_some, Option.isNone_some] at h hnew
    generalize decideTs false _ chptr.creationtime = d at h hnew
    have hkeep : d.keepOurModes = true := by simpa using h
    rw [if_neg (by simp)] at hnew
    rw [← Option.some.inj hnew]
    refine SameLists.trans ?_ (joinMembers_same link d.keepNewModes _ _)
    unfold applyTs
    rw [hkeep]
    exact ⟨rfl, rfl⟩

theorem added_same (chptr merged : Channel) (id : CStr) (h : SameLists chptr merged) :
    SameLists chptr (if merged.isMember id then merged else addUserToChannel merged id noFlags) := by
  split
  · exact h
  · exact h

theorem joinChannel_same (link : Link) (id ts name : CStr) (chptr chptr' : Channel)
    (hnew : joinChannel link id ts name (some chptr) = some chptr') : SameLists chptr chptr' := by
  unfold joinChannel at hnew
  split at hnew
  · rw [← Option.some.inj hnew]
    exact ⟨rfl, rfl⟩
  · dsimp only at hnew
    rw [← Option.some.inj hnew]
    exact added_same chptr _ id ⟨rfl, rfl⟩

theorem removeUser_same (chptr chptr' : Channel) (id : CStr)
    (hnew : removeUser chptr id = some chptr') : SameLists chptr chptr' := by
  unfold removeUser at hnew
  dsimp only at hnew
  split at hnew
  · simp at hnew
  · rw [← Option.some.inj hnew]
    exact ⟨rfl, rfl⟩

theorem leaveAll_same (t : Table) (id f : CStr) (chptr chptr' : Channel)
    (hold : t f = some chptr) (hnew : leaveAll t id f = some chptr') : SameLists chptr chptr' := by
  unfold leaveAll at hnew
  rw [hold, Option.bind_some] at hnew
  exact removeUser_same chptr chptr' id hnew

theorem setChannel_same (t : Table) (name : CStr) (new : Option Channel) (clears : Bool)
    (hone : ∀ chptr chptr', hashFindChannel t name = some chptr → new = some chptr' →
      clears = false → SameLists chptr chptr') (f : CStr) (chptr chptr' : Channel)
    (hold : t f = some chptr) (hnew : setChannel t name new f = some chptr')
    (h : (decide (f = fold name) && clears) = false) : SameLists chptr chptr' := by
  by_cases hf : f = fold name
  · rw [hf] at hold hnew h
    refine hone chptr chptr' hold ?_ (by simpa using h)
    unfold setChannel at hnew
    rwa [update_self] at hnew
  · rw [setChannel_other t name new f hf, hold] at hnew
    rw [← Option.some.inj hnew]
    exact ⟨rfl, rfl⟩

theorem same_of_eq (t : Table) (f : CStr) (chptr chptr' : Channel) (hold : t f = some chptr)
    (hnew : t f = some chptr') : SameLists chptr chptr' := by
  rw [hold] at hnew
  rw [← Option.some.inj hnew]
  exact ⟨rfl, rfl⟩

theorem map_same (t : Table) (name : CStr) (g : Channel → Channel) (clears : Channel → Bool)
    (hg : ∀ chptr, clears chptr = false → SameLists chptr (g chptr)) (f : CStr)
    (chptr chptr' : Channel) (hold : t f = some chptr)
    (hnew : setChannel t name ((hashFindChannel t name).map g) f = some chptr')
    (h : (decide (f = fold name) && (hashFindChannel t name).any clears) = false) :
    SameLists chptr chptr' := by
  refine setChannel_same t name _ _ (fun d d' hd hd' hclears => ?_) f chptr chptr' hold hnew h
  rw [hd, Option.map_some] at hd'
  rw [hd, Option.any_some] at hclears
  rw [← Option.some.inj hd']
  exact hg d hclears

section Lines

variable (link : Link) (source : Source) (t : Table) (params : List CStr) (f : CStr)
  (chptr chptr' : Channel) (hold : t f = some chptr)

include hold

theorem msSjoin_same (hnew : msSjoin link t params f = some chptr')
    (h : msSjoinClears link t params f = false) : SameLists chptr chptr' := by
  unfold msSjoinClears at h
  generalize hnext : msSjoin link t params = t' at hnew
  unfold msSjoin at hnext
  split at hnext
  · next ts name modes arg args =>
    rw [← hnext] at hnew
    refine setChannel_same t name _ _ (fun d d' hd hd' hclears => ?_) f chptr chptr' hold hnew h
    rw [hd] at hd' hclears
    exact sjoinChannel_same link ts name modes (arg :: args) d d' hd' hclears
  · rw [← hnext] at hnew
    exact same_of_eq t f chptr chptr' hold hnew

theorem msBmask_same (hnew : msBmask t params f = some chptr')
    (h : msBmaskClears t params f = false) : SameLists chptr chptr' := by
  unfold msBmaskClears at h
  generalize hnext : msBmask t params = t' at hnew
  unfold msBmask at hnext
  split at hnext
  · next ts name flag masks _ =>
    rw [← hnext] at hnew
    exact map_same t name _ _ (bmaskChannel_same ts flag masks) f chptr chptr' hold hnew h
  · rw [← hnext] at hnew
    exact same_of_eq t f chptr chptr' hold hnew

theorem msTmode_same (hnew : msTmode link source t params f = some chptr')
    (h : msTmodeClears link source t params f = false) : SameLists chptr chptr' := by
  unfold msTmodeClears at h
  generalize hnext : msTmode link source t params = t' at hnew
  unfold msTmode at hnext
  split at hnext
  · next ts name modes args =>
    rw [← hnext] at hnew
    exact map_same t name _ _ (tmodeChannel_same link source ts modes args) f chptr chptr' hold
      hnew h
  · rw [← hnext] at hnew
    exact same_of_eq t f chptr chptr' hold hnew

/-- `ms_join` has no masks to clear for. -/
theorem msJoin_same (hnew : msJoin link source t params f = some chptr') :
    SameLists chptr chptr' := by
  generalize hnext : msJoin link source t params = t' at hnew
  unfold msJoin at hnext
  split at hnext
  · split at hnext
    · rw [← hnext] at hnew
      exact leaveAll_same t _ f chptr chptr' hold hnew
    · rw [← hnext] at hnew
      exact same_of_eq t f chptr chptr' hold hnew
  · next id _ ts name _ _ =>
    rw [← hnext] at hnew
    refine setChannel_same t name _ false (fun d d' hd hd' _ => ?_) f chptr chptr' hold hnew
      (Bool.and_false _)
    rw [hd] at hd'
    exact joinChannel_same link id ts name d d' hd'
  · rw [← hnext] at hnew
    exact same_of_eq t f chptr chptr' hold hnew

theorem mBan_same (hnew : mBan t params f = some chptr') (h : mBanClears params f = false) :
    SameLists chptr chptr' := by
  unfold mBanClears at h
  generalize hnext : mBan t params = t' at hnew
  unfold mBan at hnext
  split at hnext
  · next name mask _ _ _ =>
    rw [← hnext] at hnew
    exact setChannel_same t name _ true (fun _ _ _ _ htrue => absurd htrue (by simp)) f chptr
      chptr' hold hnew ((Bool.and_true _).trans h)
  · rw [← hnext] at hnew
    exact same_of_eq t f chptr chptr' hold hnew

/-- A line that changes a list clears the caches of the channel. -/
theorem receive_same (line : CStr) (hnew : receive link t line f = some chptr')
    (h : lineClears link t line f = false) : SameLists chptr chptr' := by
  have hserver : ∀ (b : Bool) (t' : Table), (if b then t' else t) f = some chptr' →
      (b = true → t' f = some chptr' → SameLists chptr chptr') → SameLists chptr chptr' := by
    intro b t' hb himp
    cases b with
    | true => exact himp rfl hb
    | false => exact same_of_eq t f chptr chptr' hold hb
  unfold receive at hnew
  unfold lineClears at h
  cases hparse : parse line with
  | none =>
    rw [hparse] at hnew
    exact same_of_eq t f chptr chptr' hold hnew
  | some msg =>
    rw [hparse] at h hnew
    dsimp only at h hnew
    cases hsource : findSource link msg.sender with
    | none =>
      rw [hsource] at hnew
      exact same_of_eq t f chptr chptr' hold hnew
    | some source =>
      rw [hsource] at h hnew
      dsimp only at h hnew
      by_cases hsjoin : irccmp msg.command "SJOIN".toList = 0
      · rw [if_pos hsjoin] at h hnew
        refine hserver _ _ hnew fun hb hnew => ?_
        rw [hb, Bool.true_and] at h
        exact msSjoin_same link t msg.params f chptr chptr' hold hnew h
      rw [if_neg hsjoin] at h hnew
      by_cases hbmask : irccmp msg.command "BMASK".toList = 0
      · rw [if_pos hbmask] at h hnew
        exact msBmask_same t msg.params f chptr chptr' hold hnew h
      rw [if_neg hbmask] at h hnew
      by_cases htmode : irccmp msg.command "TMODE".toList = 0
      · rw [if_pos htmode] at h hnew
        exact msTmode_same link source t msg.params f chptr chptr' hold hnew h
      rw [if_neg htmode] at h hnew
      by_cases hjoin : irccmp msg.command "JOIN".toList = 0
      · rw [if_pos hjoin] at hnew
        exact msJoin_same link source t msg.params f chptr chptr' hold hnew
      rw [if_neg hjoin] at h hnew
      by_cases hban : irccmp msg.command "BAN".toList = 0
      · rw [if_pos hban] at h hnew
        refine hserver _ _ hnew fun hb hnew => ?_
        rw [hb, Bool.true_and] at h
        exact mBan_same t msg.params f chptr chptr' hold hnew h
      · rw [if_neg hban] at hnew
        exact same_of_eq t f chptr chptr' hold hnew

end Lines

end IrcdHybrid.BanLists
