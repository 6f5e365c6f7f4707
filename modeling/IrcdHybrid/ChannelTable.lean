import IrcdHybrid.ChannelMode
import Mathlib.Logic.Relation

/-!
The channels of a server over time. Its own clients create, join and leave
channels and set modes; everything else arrives on a server link as a line.
Whatever happens, a channel is well formed and has a member.
-/

namespace IrcdHybrid.ChannelTable

open CString Numeral BanMask Channels Wire Burst Sjoin ChannelMode Relation

/-- What `channel_do_join` makes of a name nobody is on. -/
def createChannel (currentTime : ℤ) (name id : CStr) : Channel :=
  let chptr := makeChannel currentTime name
  addUserToChannel { chptr with mode := { chptr.mode with mode := {.topiclimit, .noprivmsgs} } } id
    ⟨true, false, false⟩

/-- `remove_user_from_channel`: the last one to leave takes the channel with him. -/
def removeUser (chptr : Channel) (id : CStr) : Option Channel :=
  let members := chptr.members.filter (fun member => member.id != id)
  if members = [] then none else some { chptr with members := members }

/-- `channel_do_join_0`, and the end of a client. -/
def leaveAll (t : Table) (id : CStr) : Table := fun f => (t f).bind (fun chptr => removeUser chptr id)

/-- `mo_opme`. -/
def opme (chptr : Channel) (id : CStr) : Channel :=
  if chptr.members.any (fun member => member.flags.chanop) then chptr
  else setMember chptr id .chanop true

/-- `ms_join` on the channel of that name. -/
def joinChannel (link : Link) (id ts name : CStr) (old : Option Channel) : Option Channel :=
  if !checkChannelName name then old
  else
    let isnew := old.isNone
    let chptr := old.getD (makeChannel link.currentTime name)
    let d := decideTs isnew (bogusTs link (strtol ts) chptr.creationtime) chptr.creationtime
    let merged := { chptr with
      creationtime := d.creationtime
      mode := finalMode d noModes chptr.mode
      members := if d.keepOurModes then chptr.members else removeOurModes chptr.members }
    some (if merged.isMember id then merged else addUserToChannel merged id noFlags)

def msJoin (link : Link) (source : Source) (t : Table) (params : List CStr) : Table :=
  match source, params with
  | .client id _, [p] => if p = ['0'] then leaveAll t id else t
  | .client id _, ts :: name :: _ :: _ =>
    setChannel t name (joinChannel link id ts name (hashFindChannel t name))
  | _, _ => t

/-- `m_ban` for a server; its duration and the nick only matter to the notices. -/
def mBan (t : Table) (params : List CStr) : Table :=
  match params with
  | name :: mask :: _ :: _ :: _ =>
    setChannel t name ((hashFindChannel t name).map (fun chptr => (addId none chptr mask .ban).1))
  | _ => t

/-- A line on a server link, as far as channels go. -/
def receive (link : Link) (t : Table) (line : CStr) : Table :=
  match parse line with
  | none => t
  | some msg =>
    match findSource link msg.sender with
    | none => t
    | some source =>
      if irccmp msg.command "SJOIN".toList = 0 then
        if source.isServer then msSjoin link t msg.params else t
      else if irccmp msg.command "BMASK".toList = 0 then msBmask t msg.params
      else if irccmp msg.command "TMODE".toList = 0 then msTmode link source t msg.params
      else if irccmp msg.command "JOIN".toList = 0 then msJoin link source t msg.params
      else if irccmp msg.command "BAN".toList = 0 then
        if source.isServer then mBan t msg.params else t
      else t

inductive Step : Table → Table → Prop where
  | create (t : Table) (currentTime : ℤ) (name id : CStr) (hnow : currentTime < 2 ^ 63)
      (hname : checkChannelName name = true) (hid : ValidId id)
      (hnone : hashFindChannel t name = none) :
      Step t (setChannel t name (some (createChannel currentTime name id)))
  | join (t : Table) (chptr : Channel) (name id : CStr) (hid : ValidId id)
      (hsome : hashFindChannel t name = some chptr) (hnot : chptr.isMember id = false) :
      Step t (setChannel t name (some (addUserToChannel chptr id noFlags)))
  | leave (t : Table) (chptr : Channel) (name id : CStr)
      (hsome : hashFindChannel t name = some chptr) :
      Step t (setChannel t name (removeUser chptr id))
  | quit (t : Table) (id : CStr) : Step t (leaveAll t id)
  | opme (t : Table) (chptr : Channel) (name id : CStr)
      (hsome : hashFindChannel t name = some chptr) :
      Step t (setChannel t name (some (opme chptr id)))
  | mode (t : Table) (chptr : Channel) (name : CStr) (source : Setter) (modes : CStr)
      (params : List CStr) (hsome : hashFindChannel t name = some chptr) :
      Step t (setChannel t name (some (setChannelMode source chptr modes params).chptr))
  | line (t : Table) (link : Link) (line : CStr) (hlink : ValidLink link)
      (hnow : link.currentTime < 2 ^ 63) : Step t (receive link t line)

/-- The tables that a server can come to, from having no channels. -/
def Reachable (t : Table) : Prop := ReflTransGen Step (fun _ => none) t

theorem setMode_live (chptr : Channel) (mode : Mode) (h : Live chptr) (hkey : ValidKey mode.key) :
    Live { chptr with mode := mode } :=
  ⟨withModes_wellFormed chptr chptr.creationtime mode h.wellFormed h.wellFormed.time_lt hkey,
    h.members_ne⟩

theorem setMember_live (chptr : Channel) (id : CStr) (status : Status) (b : Bool)
    (h : Live chptr) : Live (setMember chptr id status b) := by
  have hids : (setMember chptr id status b).members.map Membership.id =
      chptr.members.map Membership.id := by
    simp only [setMember, List.map_map]
    apply List.map_congr_left
    intro member _
    dsimp only [Function.comp]
    split <;> rfl
  have hwf := h.wellFormed
  refine ⟨⟨hwf.name, hwf.time_lt, hwf.key, ?_, ?_, ?_, ?_⟩, ?_⟩
  · rw [hids]
    exact hwf.members_nodup
  · intro member hmember
    have hmem : member.id ∈ chptr.members.map Membership.id := by
      rw [← hids]
      exact List.mem_map_of_mem hmember
    obtain ⟨m, hm, heq⟩ := List.mem_map.mp hmem
    rw [← heq]
    exact hwf.members_id m hm
  · intro type
    have hlist := hwf.lists_valid type
    cases type <;> exact hlist
  · intro type
    have hlist := hwf.lists_distinct type
    cases type <;> exact hlist
  · intro hnil
    rw [hnil, List.map_nil] at hids
    exact h.members_ne (List.map_eq_nil_iff.mp hids.symm)

theorem addMask_live (chptr : Channel) (type : ListType) (n : Nuh) (h : Live chptr)
    (hn : Valid n) : Live (addMask chptr type n).1 :=
  ⟨addMask_wellFormed chptr type n h.wellFormed hn, by
    rw [addMask_list, members_setList]
    exact h.members_ne⟩

theorem addId_live (maxBans : Option ℕ) (chptr : Channel) (banid : CStr) (type : ListType)
    (h : Live chptr) (hcolon : banid.head? ≠ some ':') :
    Live (addId maxBans chptr banid type).1 := by
  unfold addId
  split
  · split
    · exact h
    · exact addMask_live chptr type _ h (maskOf_valid _ (collapse_head banid hcolon))
  · exact addMask_live chptr type _ h (maskOf_valid banid hcolon)

theorem delId_live (chptr : Channel) (banid : CStr) (type : ListType) (h : Live chptr) :
    Live (delId chptr banid type).1 := by
  refine ⟨delMask_wellFormed chptr type _ h.wellFormed, ?_⟩
  unfold delId delMask
  split
  · rw [members_setList]
    exact h.members_ne
  · exact h.members_ne

theorem countLimit_chptr (source : Setter) (s : ModeState) :
    (countLimit source s).1.chptr = s.chptr := by
  unfold countLimit
  split <;> rfl

theorem setSimple_live (dir : Dir) (c : Char) (d : SimpleMode) (s : ModeState)
    (h : Live s.chptr) : Live (setSimple dir c d s).chptr := by
  unfold setSimple
  split
  · exact h
  · cases dir with
    | query => exact h
    | add => exact setMode_live s.chptr _ h h.wellFormed.key
    | del => exact setMode_live s.chptr _ h h.wellFormed.key

theorem live_ite (b : Bool) (s t : ModeState) (hs : Live s.chptr) (ht : Live t.chptr) :
    Live (if b then s else t).chptr := by
  cases b with
  | true => exact hs
  | false => exact ht

theorem setMask_live (type : ListType) (source : Setter) (dir : Dir) (c : Char) (mask : CStr)
    (s : ModeState) (h : Live s.chptr) : Live (setMask type source dir c mask s).chptr := by
  unfold setMask
  split
  · exact h
  next hmask =>
  have hcolon : mask.head? ≠ some ':' := fun hc => hmask (Or.inl hc)
  by_cases hdir : dir = .add
  · have hadd := addId_live (if source.myClient then some source.maxBans else none) s.chptr mask
      type h hcolon
    rw [if_pos hdir]
    exact live_ite _ _ s hadd h
  · have hdel := delId_live s.chptr mask type h
    rw [if_neg hdir]
    exact live_ite _ _ s hdel h

theorem chmMask_live (type : ListType) (source : Setter) (dir : Dir) (c : Char) (s : ModeState)
    (h : Live s.chptr) : Live (chmMask type source dir c s).chptr := by
  have hcount := countLimit_chptr source s
  unfold chmMask
  split
  · exact h
  split
  · exact h
  split
  · exact h
  dsimp only
  rw [← hcount] at h
  split
  · exact h
  · exact setMask_live type source dir c _ _ h

theorem chmMember_live (need : Access) (status : Status) (redundant : Dir → Bool → Bool)
    (source : Setter) (dir : Dir) (c : Char) (s : ModeState) (h : Live s.chptr) :
    Live (chmMember need status redundant source dir c s).chptr := by
  unfold chmMember
  split
  · exact h
  split
  · exact h
  split
  · exact h
  next p params _ =>
  dsimp only
  split
  · exact h
  next id _ =>
  split
  · exact h
  have hcount := countLimit_chptr source { s with params := params }
  have hlive : Live (countLimit source { s with params := params }).1.chptr := by rwa [hcount]
  split
  · exact hlive
  split
  · exact hlive
  · exact setMember_live _ id status _ hlive

theorem chmLimit_live (source : Setter) (dir : Dir) (c : Char) (s : ModeState)
    (h : Live s.chptr) : Live (chmLimit source dir c s).chptr := by
  unfold chmLimit
  split
  · exact h
  cases dir with
  | query => exact h
  | add =>
    dsimp only
    split
    · exact h
    · split
      · exact h
      · exact setMode_live s.chptr _ h h.wellFormed.key
  | del =>
    dsimp only
    split
    · exact h
    · exact setMode_live s.chptr _ h h.wellFormed.key

theorem fixKey_clean (arg : CStr) (c : Char) (hc : c ∈ fixKey arg) :
    c ≠ ':' ∧ ' ' < c ∧ c ≠ ',' := by
  simpa using (List.mem_filter.mp hc).2

theorem validKey_fixKey (arg : CStr) : ValidKey (strlcpy (fixKey arg) (KEYLEN + 1)) := by
  have hmem : ∀ c ∈ strlcpy (fixKey arg) (KEYLEN + 1), c ≠ ':' ∧ ' ' < c ∧ c ≠ ',' :=
    fun c hc => fixKey_clean arg c (List.mem_of_mem_take hc)
  refine ⟨by simp [strlcpy], fun hspace => ?_, fun hcolon => ?_⟩
  · exact absurd (hmem ' ' hspace).2.1 (by decide)
  · exact (hmem ':' (List.mem_of_mem_head? hcolon)).1 rfl

theorem chmKey_live (source : Setter) (dir : Dir) (c : Char) (s : ModeState)
    (h : Live s.chptr) : Live (chmKey source dir c s).chptr := by
  unfold chmKey
  split
  · exact h
  cases dir with
  | query => exact h
  | add =>
    dsimp only
    split
    · exact h
    · split
      · exact h
      · exact setMode_live s.chptr _ h (validKey_fixKey _)
  | del =>
    dsimp only
    split
    · exact h
    · exact setMode_live s.chptr _ h validKey_nil

theorem modeFunc_live (source : Setter) (dir : Dir) (c : Char) (s : ModeState)
    (h : Live s.chptr) : Live (modeFunc source dir c s).chptr := by
  unfold modeFunc
  split
  · exact chmMask_live .invex source dir _ s h
  · unfold chmOperonly
    split_ifs
    · exact h
    · exact h
    · exact setSimple_live dir _ .operonly s h
  · exact chmMask_live .ban source dir _ s h
  · exact chmMask_live .exception source dir _ s h
  · exact chmMember_live _ _ _ source dir _ s h
  · exact chmKey_live source dir _ s h
  · exact chmLimit_live source dir _ s h
  · exact chmMember_live _ _ _ source dir _ s h
  · unfold chmRegistered
    split_ifs
    · exact h
    · exact setSimple_live dir _ .registered s h
  · exact chmMember_live _ _ _ source dir _ s h
  · split
    · next d _ =>
      unfold chmSimple
      split_ifs
      · exact h
      · exact setSimple_live dir _ d s h
    · exact h

theorem setChannelMode_live (source : Setter) (chptr : Channel) (modes : CStr)
    (params : List CStr) (h : Live chptr) : Live (setChannelMode source chptr modes params).chptr := by
  have hrun : ∀ (modes : CStr) (st : Dir × ModeState), Live st.2.chptr →
      Live (modes.foldl (modeStep source) st).2.chptr := by
    intro modes
    induction modes with
    | nil => exact fun st hst => hst
    | cons c modes ih =>
      intro st hst
      apply ih
      unfold modeStep
      split_ifs
      · exact hst
      · exact hst
      · exact hst
      · exact modeFunc_live source st.1 c st.2 hst
  exact hrun modes _ h

theorem removeUser_live (chptr : Channel) (id : CStr) (h : Live chptr) (c : Channel)
    (hc : removeUser chptr id = some c) : Live c := by
  unfold removeUser at hc
  dsimp only at hc
  split at hc
  · simp at hc
  next hne =>
  obtain rfl := Option.some.inj hc
  have hwf := h.wellFormed
  refine ⟨⟨hwf.name, hwf.time_lt, hwf.key, ?_, ?_, ?_, ?_⟩, hne⟩
  · exact (hwf.members_nodup).sublist (List.filter_sublist.map _)
  · exact fun member hmember => hwf.members_id member (List.mem_of_mem_filter hmember)
  · intro type
    have hlist := hwf.lists_valid type
    cases type <;> exact hlist
  · intro type
    have hlist := hwf.lists_distinct type
    cases type <;> exact hlist

theorem addUserToChannel_live (chptr : Channel) (id : CStr) (flags : Flags)
    (h : WellFormed chptr) (hid : ValidId id) (hnot : chptr.isMember id = false) :
    Live (addUserToChannel chptr id flags) :=
  ⟨addUserToChannel_wellFormed chptr id flags h hid hnot, by simp [addUserToChannel]⟩

theorem createChannel_live (currentTime : ℤ) (name id : CStr) (hnow : currentTime < 2 ^ 63)
    (hname : checkChannelName name = true) (hid : ValidId id) :
    Live (createChannel currentTime name id) := by
  have hwf := makeChannel_wellFormed currentTime name hnow hname
  refine addUserToChannel_live _ id _ ?_ hid rfl
  exact withModes_wellFormed (makeChannel currentTime name) currentTime _ hwf hnow validKey_nil

theorem join_live (chptr : Channel) (id : CStr) (flags : Flags) (h : WellFormed chptr)
    (hid : ValidId id) :
    Live (if chptr.isMember id then chptr else addUserToChannel chptr id flags) := by
  split
  · next hmember =>
    refine ⟨h, fun hnil => ?_⟩
    simp [Channel.isMember, hnil] at hmember
  · next hnot => exact addUserToChannel_live chptr id flags h hid (by simpa using hnot)

theorem joinChannel_live (link : Link) (hnow : link.currentTime < 2 ^ 63) (id ts name : CStr)
    (hid : ValidId id) (old : Option Channel) (hold : ∀ chptr, old = some chptr → Live chptr)
    (chptr : Channel) (h : joinChannel link id ts name old = some chptr) : Live chptr := by
  unfold joinChannel at h
  split at h
  · exact hold chptr h
  next hinvalid =>
  have hname : checkChannelName name = true := by simpa using hinvalid
  dsimp only at h
  have hwf : WellFormed (old.getD (makeChannel link.currentTime name)) := by
    cases hcase : old with
    | none => exact makeChannel_wellFormed _ _ hnow hname
    | some c => exact (hold c hcase).wellFormed
  generalize old.getD (makeChannel link.currentTime name) = c at h hwf
  have htime := decideTs_lt old.isNone _ c.creationtime
    (bogusTs_lt link _ c.creationtime (strtol_lt ts)) hwf.time_lt
  generalize decideTs old.isNone _ c.creationtime = d at h htime
  rw [← Option.some.inj h]
  apply join_live _ id noFlags _ hid
  apply withMembers_wellFormed { c with
    creationtime := d.creationtime
    mode := finalMode d noModes c.mode }
  · exact withModes_wellFormed c d.creationtime _ hwf htime
      (validKey_finalMode d noModes c.mode validKey_nil hwf.key)
  · split
    · rfl
    · exact removeOurModes_ids c.members

/-- The channels of a table all have members. -/
def TableLive (t : Table) : Prop := ∀ f chptr, t f = some chptr → Live chptr

theorem setChannel_live (t : Table) (name : CStr) (new : Option Channel) (h : TableLive t)
    (hnew : ∀ chptr, new = some chptr → Live chptr) : TableLive (setChannel t name new) := by
  intro f chptr hf
  by_cases heq : f = fold name
  · subst heq
    exact hnew chptr (by simpa [setChannel] using hf)
  · rw [setChannel_other t name new f heq] at hf
    exact h f chptr hf

theorem leaveAll_live (t : Table) (id : CStr) (h : TableLive t) : TableLive (leaveAll t id) := by
  intro f chptr hf
  obtain ⟨c, hc, hremove⟩ := Option.bind_eq_some_iff.mp hf
  exact removeUser_live c id (h f c hc) chptr hremove

theorem map_live (t : Table) (name : CStr) (g : Channel → Channel) (h : TableLive t)
    (hg : ∀ chptr, Live chptr → Live (g chptr)) :
    TableLive (setChannel t name ((hashFindChannel t name).map g)) := by
  apply setChannel_live t name _ h
  intro chptr hsome
  obtain ⟨c, hc, rfl⟩ := Option.map_eq_some_iff.mp hsome
  exact hg c (h _ c hc)

theorem msSjoin_live (link : Link) (t : Table) (params : List CStr) (hlink : ValidLink link)
    (hnow : link.currentTime < 2 ^ 63) (hparams : ∀ p ∈ params.dropLast, Word p)
    (h : TableLive t) : TableLive (msSjoin link t params) := by
  unfold msSjoin
  split
  · next ts name modes arg args =>
    apply setChannel_live t name _ h
    apply sjoinChannel_live link hlink hnow ts name modes (arg :: args) _ _ (fun c hc => h _ c hc)
    intro p hp
    apply hparams p
    simp only [List.dropLast_cons_cons]
    exact List.mem_cons_of_mem _ (List.mem_cons_of_mem _ (List.mem_cons_of_mem _ hp))
  · exact h

theorem msJoin_live (link : Link) (source : Source) (t : Table) (params : List CStr)
    (hnow : link.currentTime < 2 ^ 63)
    (hid : ∀ id service, source = .client id service → ValidId id)
    (h : TableLive t) : TableLive (msJoin link source t params) := by
  unfold msJoin
  split
  · split
    · exact leaveAll_live t _ h
    · exact h
  · next id service ts name _ _ =>
    apply setChannel_live t name _ h
    exact joinChannel_live link hnow id ts name (hid id service rfl) _ (fun c hc => h _ c hc)
  · exact h

theorem mBan_live (t : Table) (params : List CStr) (hparams : ∀ p ∈ params.dropLast, Word p)
    (h : TableLive t) : TableLive (mBan t params) := by
  unfold mBan
  split
  · next name mask _ _ _ =>
    apply map_live t name _ h
    intro chptr hchptr
    exact addId_live none chptr mask .ban hchptr (hparams mask (by simp)).no_colon
  · exact h

theorem findSource_validId (link : Link) (hlink : ValidLink link) (sender : Option CStr)
    (id : CStr) (service : Bool) (h : findSource link sender = some (.client id service)) :
    ValidId id := by
  unfold findSource at h
  split at h
  · simp at h
  next s =>
  split at h
  · simp at h
  · exact hlink.source s id service h

theorem receive_live (link : Link) (t : Table) (line : CStr) (hlink : ValidLink link)
    (hnow : link.currentTime < 2 ^ 63) (h : TableLive t) : TableLive (receive link t line) := by
  unfold receive
  split
  · exact h
  next msg hmsg =>
  split
  · exact h
  next source hsource =>
  have hparams := parse_params line msg hmsg
  split_ifs
  · exact msSjoin_live link t msg.params hlink hnow hparams h
  · exact h
  · unfold msBmask
    split
    · exact map_live t _ _ h (fun c hc => bmaskChannel_live _ _ _ c hc)
    · exact h
  · unfold msTmode
    split
    · apply map_live t _ _ h
      intro c hc
      unfold tmodeChannel
      split
      · exact hc
      · exact setChannelMode_live _ c _ _ hc
    · exact h
  · apply msJoin_live link source t msg.params hnow _ h
    intro id service heq
    rw [heq] at hsource
    exact findSource_validId link hlink msg.sender id service hsource
  · exact mBan_live t msg.params hparams h
  · exact h
  · exact h

theorem step_live (t t' : Table) (hstep : Step t t') (h : TableLive t) : TableLive t' := by
  cases hstep with
  | create currentTime name id hnow hname hid hnone =>
    apply setChannel_live t name _ h
    rintro chptr ⟨⟩
    exact createChannel_live currentTime name id hnow hname hid
  | join chptr name id hid hsome hnot =>
    apply setChannel_live t name _ h
    rintro c ⟨⟩
    exact addUserToChannel_live chptr id noFlags (h _ chptr hsome).wellFormed hid hnot
  | leave chptr name id hsome =>
    exact setChannel_live t name _ h (removeUser_live chptr id (h _ chptr hsome))
  | quit id => exact leaveAll_live t id h
  | opme chptr name id hsome =>
    apply setChannel_live t name _ h
    rintro c ⟨⟩
    unfold opme
    split
    · exact h _ chptr hsome
    · exact setMember_live chptr id .chanop true (h _ chptr hsome)
  | mode chptr name source modes params hsome =>
    apply setChannel_live t name _ h
    rintro c ⟨⟩
    exact setChannelMode_live source chptr modes params (h _ chptr hsome)
  | line link line hlink hnow => exact receive_live link t line hlink hnow h

/-- Every channel that a server comes to have is well formed and has a member. -/
theorem reachable_live (t : Table) (h : Reachable t) : TableLive t := by
  induction h with
  | refl =>
    intro f chptr hf
    simp at hf
  | tail _ hstep ih => exact step_live _ _ hstep ih

end IrcdHybrid.ChannelTable
