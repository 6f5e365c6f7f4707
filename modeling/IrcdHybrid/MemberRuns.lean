import IrcdHybrid.MemberInvariant

/-!
Joins, and whole runs. A join finds or makes a channel, and a line from a server may
settle its modes and name before anybody is added; the channel may be empty until then.
At the end of each step somebody is on every channel, and so in every state reached.
-/

namespace IrcdHybrid.MemberRuns

open CString SjoinHeader Index Function MemberLists MemberInvariant
open Channels hiding Channel Membership addUserToChannel makeChannel
open Sjoin hiding hashFindChannel msSjoin sjoinChannel removeOurModes

/-- The channel is there, and only it may be empty. -/
structure Opened (s : State) (chptr : ChannelPtr) : Prop where
  consistent : Consistent s
  but : LiveBut s chptr
  there : ∃ c, s.channels chptr = some c

theorem modifyChannel_live (s : State) (chptr p : ChannelPtr) (f : Channel → Channel)
    (hmembers : ∀ c, (f c).members = c.members) (c : Channel)
    (hc : (modifyChannel s chptr f).channels p = some c) :
    ∃ old, s.channels p = some old ∧ old.members = c.members := by
  unfold modifyChannel at hc
  by_cases hp : p = chptr
  · have hmap : (s.channels chptr).map f = some c := by
      rw [hp] at hc
      exact (update_self chptr _ s.channels).symm.trans hc
    obtain ⟨old, hold, rfl⟩ := Option.map_eq_some_iff.mp hmap
    exact ⟨old, by rw [hp, hold], (hmembers old).symm⟩
  · exact ⟨c, (update_of_ne hp _ s.channels).symm.trans hc, rfl⟩

/-- The one that is added is on the channel, so that it is not empty any more. -/
theorem addUserToChannel_good (s : State) (chptr : ChannelPtr) (h : Opened s chptr)
    (who : ClientPtr) (flags : Flags) (hclient : isClient s who = true)
    (hnot : isMember s who chptr = false) :
    Good (addUserToChannel s chptr who flags) ∧
      (∃ c, (addUserToChannel s chptr who flags).channels chptr = some c) ∧
      isClient (addUserToChannel s chptr who flags) = isClient s := by
  obtain ⟨c, hc⟩ := h.there
  obtain ⟨cl, hcl, _⟩ := (isClient_iff s who).mp hclient
  refine ⟨⟨addUserToChannel_consistent s h.consistent chptr who flags h.there hclient hnot,
    addUserToChannel_live s chptr who flags h.but h.there hclient⟩, ?_, ?_⟩
  · rw [addUserToChannel_eq s chptr who flags c cl hc hcl]
    exact ⟨_, update_self chptr _ s.channels⟩
  · rw [addUserToChannel_eq s chptr who flags c cl hc hcl]
    exact (clients_update s _ who cl { cl with channel := s.nextMember :: cl.channel } hcl rfl rfl
      rfl).1

/-- A channel that was made is a new one, and nobody is on it. -/
theorem makeChannel_opened (env : Env) (s : State) (h : Good s) (name : CStr)
    (hlen : name.length ≤ CHANNELLEN)
    (hnew : ∀ chptr c, s.channels chptr = some c → irccmp name c.name ≠ 0) :
    Opened (makeChannel env s name).2 (makeChannel env s name).1 ∧
      (∀ c, (makeChannel env s name).2.channels (makeChannel env s name).1 = some c →
        c.name = name ∧ c.members = []) ∧
      isClient (makeChannel env s name).2 = isClient s := by
  have hname : strlcpy name (CHANNELLEN + 1) = name := strlcpy_of_le name CHANNELLEN hlen
  have hself : (makeChannel env s name).2.channels (makeChannel env s name).1 =
      some ⟨name, env.currentTime, noModes, [], []⟩ := by
    unfold makeChannel
    rw [hname]
    exact update_self s.nextChannel _ s.channels
  refine ⟨⟨makeChannel_consistent s h.consistent env name hlen hnew, ?_, _, hself⟩, ?_, rfl⟩
  · intro p c hp hc
    exact h.live p c ((update_of_ne hp _ s.channels).symm.trans hc)
  · intro c hc
    rw [hself] at hc
    rw [← Option.some.inj hc]
    exact ⟨rfl, rfl⟩

theorem not_isMember_of_nil (s : State) (h : Linked s) (client : ClientPtr) (chptr : ChannelPtr)
    (hnil : membersOf s chptr = []) : isMember s client chptr = false := by
  unfold isMember
  cases hfind : findChannelLink s client chptr with
  | none => rfl
  | some member =>
    obtain ⟨hkey, _⟩ := findChannelLink_some s h client chptr member hfind
    have hmem := ((h.members chptr).2 member).mpr hkey
    rw [hnil] at hmem
    exact absurd hmem (by simp)

theorem startChannel_good (env : Env) (s : State) (h : Good s) (chptr : ChannelPtr) :
    Good (modifyChannel s chptr (startChannel env)) ∧
      isClient (modifyChannel s chptr (startChannel env)) = isClient s := by
  refine ⟨⟨modifyChannel_consistent s h.consistent chptr _ (fun _ => rfl) (fun _ => rfl) ?_, ?_⟩,
    rfl⟩
  · intro c hc
    exact ⟨irccmp_self _, h.consistent.hashed.buffers chptr c hc⟩
  · intro p c hc
    obtain ⟨old, hold, hsame⟩ := modifyChannel_live s chptr p (startChannel env) (fun _ => rfl) c hc
    rw [← hsame]
    exact h.live p old hold

theorem checkChannelNameLocal_length (policy : Policy) (name : CStr)
    (h : checkChannelNameLocal policy name = true) : name.length ≤ CHANNELLEN := by
  unfold checkChannelNameLocal at h
  split at h
  · split at h
    · simp only [Bool.and_eq_true, decide_eq_true_eq] at h
      exact h.2
    · simp at h
  · exact Burst.checkChannelName_length name h

theorem joinChannels_good (env : Env) (policy : Policy) (source : ClientPtr) (list : List CStr)
    (s : State) (h : Good s) (hclient : isClient s source = true) :
    Good (joinChannels env policy source list s) := by
  induction list generalizing s with
  | nil => exact h
  | cons chan list ih =>
    -- the client comes first to a channel that is empty, be it found or made
    have hfirst : ∀ t chptr, Opened t chptr → membersOf t chptr = [] → isClient t = isClient s →
        Good (joinChannels env policy source list (modifyChannel
          (addUserToChannel t chptr source ⟨true, false, false⟩) chptr (startChannel env))) := by
      intro t chptr ht hnil hisClient
      have hsource : isClient t source = true := by rw [hisClient, hclient]
      obtain ⟨hadd, _, hsame⟩ := addUserToChannel_good t chptr ht source ⟨true, false, false⟩
        hsource (not_isMember_of_nil t ht.consistent.linked source chptr hnil)
      obtain ⟨hstart, hsame'⟩ := startChannel_good env _ hadd chptr
      exact ih _ hstart (by rw [hsame', hsame, hsource])
    obtain ⟨table, htable, hconsistent, hsome, hnone⟩ :=
      hashFindChannel_spec s h.consistent chan
    have hgood : Good (hashFindChannel s chan).2 := by
      rw [htable]
      exact ⟨hconsistent, h.live⟩
    have hisClient : isClient (hashFindChannel s chan).2 = isClient s := by rw [htable]; rfl
    have hchannels : (hashFindChannel s chan).2.channels = s.channels := by rw [htable]
    unfold joinChannels
    split
    · exact ih s h hclient
    · next hcheck =>
      split
      · exact ih s h hclient
      · split
        · exact h
        · dsimp only
          generalize hashFindChannel s chan = found at hgood hisClient hchannels hsome hnone ⊢
          have hsource : isClient found.2 source = true := by rw [hisClient, hclient]
          cases hfound : found.1 with
          | some chptr =>
            obtain ⟨c, hc, _⟩ := hsome chptr hfound
            have hopened : Opened found.2 chptr :=
              ⟨hgood.consistent, fun p c' _ => hgood.live p c', c, by rw [hchannels, hc]⟩
            dsimp only
            split
            · exact ih _ hgood hsource
            · next hnot =>
              split
              · exact ih _ hgood hsource
              · split
                · next hnil => exact hfirst _ chptr hopened hnil hisClient
                · obtain ⟨hadd, _, hsame⟩ := addUserToChannel_good _ chptr hopened source noFlags
                    hsource (by simpa using hnot)
                  exact ih _ hadd (by rw [hsame, hsource])
          | none =>
            dsimp only
            split
            · exact ih _ hgood hsource
            · have hlen := checkChannelNameLocal_length policy chan (by simpa using hcheck)
              obtain ⟨hopened, hself, hsame⟩ := makeChannel_opened env _ hgood chan hlen (by
                rw [hchannels]
                exact hnone hfound)
              obtain ⟨c, hc⟩ := hopened.there
              refine hfirst _ _ hopened ?_ (hsame.trans hisClient)
              rw [membersOf_some _ _ c hc, (hself c hc).2]

theorem channelDoJoin_good (env : Env) (policy : Policy) (s : State) (h : Good s)
    (source : ClientPtr) (channel : CStr) (hclient : isClient s source = true) :
    Good (channelDoJoin env policy s source channel) := by
  unfold channelDoJoin
  dsimp only
  split
  · obtain ⟨hgood, _, hisClient, _⟩ := channelDoJoin0_good s h source
    exact joinChannels_good env policy source _ _ hgood (by rw [hisClient, hclient])
  · exact joinChannels_good env policy source _ s h hclient

theorem findOrMake_opened (env : Env) (s : State) (h : Good s) (name : CStr)
    (hcheck : checkChannelName name = true) :
    Opened (findOrMake env s name).2.2 (findOrMake env s name).2.1 ∧
      ((findOrMake env s name).1 = false → Live (findOrMake env s name).2.2) ∧
      (∀ c, (findOrMake env s name).2.2.channels (findOrMake env s name).2.1 = some c →
        irccmp name c.name = 0) ∧
      isClient (findOrMake env s name).2.2 = isClient s := by
  obtain ⟨table, htable, hconsistent, hsome, hnone⟩ := hashFindChannel_spec s h.consistent name
  have hgood : Good (hashFindChannel s name).2 := by
    rw [htable]
    exact ⟨hconsistent, h.live⟩
  have hisClient : isClient (hashFindChannel s name).2 = isClient s := by rw [htable]; rfl
  have hchannels : (hashFindChannel s name).2.channels = s.channels := by rw [htable]
  unfold findOrMake
  dsimp only
  generalize hashFindChannel s name = found at hgood hisClient hchannels hsome hnone ⊢
  cases hfound : found.1 with
  | some chptr =>
    obtain ⟨c, hc, hname⟩ := hsome chptr hfound
    have hc' : found.2.channels chptr = some c := by rw [hchannels, hc]
    refine ⟨⟨hgood.consistent, fun p c' _ => hgood.live p c', c, hc'⟩, fun _ => hgood.live, ?_,
      hisClient⟩
    intro c' heq
    have hcc : some c' = some c := heq.symm.trans hc'
    rw [Option.some.inj hcc]
    exact hname
  | none =>
    obtain ⟨hopened, hself, hsame⟩ := makeChannel_opened env _ hgood name
      (Burst.checkChannelName_length name hcheck) (by
        rw [hchannels]
        exact hnone hfound)
    refine ⟨hopened, fun hfalse => absurd hfalse (by simp), ?_, hsame.trans hisClient⟩
    intro c hc
    rw [(hself c hc).1]
    exact irccmp_self name

theorem finalMode_key (d : Decision) (mode oldmode : Mode) (h : mode.key.length ≤ KEYLEN)
    (hold : oldmode.key.length ≤ KEYLEN) : (finalMode d mode oldmode).key.length ≤ KEYLEN := by
  unfold finalMode
  split
  · exact hold
  · split
    · unfold mergeModes
      dsimp only
      split
      · exact hold
      · exact h
    · exact h

theorem sjoinModes_key (modes : CStr) (args : List CStr) (mode : Mode) (r : Mode × List CStr)
    (h : mode.key.length ≤ KEYLEN) (hr : sjoinModes modes args mode = some r) :
    r.1.key.length ≤ KEYLEN := by
  induction modes generalizing args mode with
  | nil =>
    rw [← Option.some.inj hr]
    exact h
  | cons c modes ih =>
    unfold sjoinModes at hr
    split at hr
    · split at hr
      · next arg next rest =>
        refine ih _ _ ?_ hr
        unfold readParam
        split
        · simp [strlcpy]
        · exact h
      · simp at hr
    · exact ih _ _ (by rw [key_addBit]; exact h) hr

theorem removeOurModes_consistent (s : State) (h : Consistent s) (chptr : ChannelPtr) :
    Consistent (removeOurModes s chptr) := by
  refine withMemberships_consistent s h _ (fun member => ?_) (fun member => ?_)
  · unfold chanKey
    split
    · rw [Option.map_map]
      rfl
    · rfl
  · unfold clientKey
    split
    · rw [Option.map_map]
      rfl
    · rfl

/-- The settling of modes, statuses and name leaves the lists as they are. -/
theorem settleChannel_opened (s : State) (chptr : ChannelPtr) (h : Opened s chptr) (d : Decision)
    (mode : Mode) (rename : CStr → CStr) (hmode : mode.key.length ≤ KEYLEN)
    (hrename : ∀ c, s.channels chptr = some c →
      irccmp (rename c.name) c.name = 0 ∧ (rename c.name).length ≤ CHANNELLEN) :
    Opened (settleChannel s chptr d mode rename) chptr ∧
      (Live s → Live (settleChannel s chptr d mode rename)) ∧
      isClient (settleChannel s chptr d mode rename) = isClient s := by
  generalize hf : (fun c : Channel => { c with
    name := if d.keepOurModes then c.name else rename c.name
    creationtime := d.creationtime
    mode := finalMode d mode c.mode }) = f
  have hmembers : ∀ c, (f c).members = c.members := by
    intro c
    rw [← hf]
  have hsettled : settleChannel s chptr d mode rename =
      if d.keepOurModes then modifyChannel s chptr f
      else removeOurModes (modifyChannel s chptr f) chptr := by
    unfold settleChannel
    rw [hf]
  have hmodified : Consistent (modifyChannel s chptr f) := by
    refine modifyChannel_consistent s h.consistent chptr f hmembers (fun c => by rw [← hf]) ?_
    intro c hc
    obtain ⟨hname, hlen⟩ := hrename c hc
    obtain ⟨holdlen, holdkey⟩ := h.consistent.hashed.buffers chptr c hc
    have hkey := finalMode_key d mode c.mode hmode holdkey
    rw [← hf]
    dsimp only
    cases d.keepOurModes with
    | true => exact ⟨irccmp_self _, holdlen, hkey⟩
    | false => exact ⟨hname, hlen, hkey⟩
  have hconsistent : Consistent (settleChannel s chptr d mode rename) := by
    rw [hsettled]
    split
    · exact hmodified
    · exact removeOurModes_consistent _ hmodified chptr
  have hchannels : (settleChannel s chptr d mode rename).channels =
      (modifyChannel s chptr f).channels := by
    rw [hsettled]
    split <;> rfl
  have hclients : (settleChannel s chptr d mode rename).clients = s.clients := by
    rw [hsettled]
    split <;> rfl
  refine ⟨⟨hconsistent, ?_, ?_⟩, ?_, ?_⟩
  · intro p c hp hc
    rw [hchannels] at hc
    obtain ⟨old, hold, hsame⟩ := modifyChannel_live s chptr p f hmembers c hc
    rw [← hsame]
    exact h.but p old hp hold
  · obtain ⟨c, hc⟩ := h.there
    refine ⟨f c, ?_⟩
    rw [hchannels]
    unfold modifyChannel
    rw [hc]
    exact update_self chptr _ s.channels
  · intro hlive p c hc
    rw [hchannels] at hc
    obtain ⟨old, hold, hsame⟩ := modifyChannel_live s chptr p f hmembers c hc
    rw [← hsame]
    exact hlive p old hold
  · unfold isClient
    rw [hclients]

theorem msJoin_good (env : Env) (s : State) (h : Good s) (source : ClientPtr)
    (params : List CStr) : Good (msJoin env s source params) := by
  unfold msJoin
  split
  · exact h
  · next hclient =>
    split
    · split
      · exact (channelDoJoin0_good s h source).1
      · exact h
    · next ts name _ _ =>
      split
      · exact h
      · next hcheck =>
        obtain ⟨hopened, hlive, hname, hisClient⟩ :=
          findOrMake_opened env s h name (by simpa using hcheck)
        dsimp only
        generalize findOrMake env s name = found at hopened hlive hname hisClient ⊢
        obtain ⟨c, hc⟩ := hopened.there
        rw [hc]
        dsimp only
        generalize decideTs found.1 _ c.creationtime = d
        obtain ⟨hsettled, _, hsame⟩ := settleChannel_opened found.2.2 found.2.1 hopened d noModes id
          (Nat.zero_le _) (fun c' hc' => ⟨irccmp_self _,
            (hopened.consistent.hashed.buffers found.2.1 c' hc').1⟩)
        have hsource : isClient (settleChannel found.2.2 found.2.1 d noModes id) source = true := by
          rw [hsame, hisClient]
          simpa using hclient
        generalize settleChannel found.2.2 found.2.1 d noModes id = t at hsettled hsource ⊢
        by_cases hmember : isMember t source found.2.1 = true
        · rw [if_pos hmember]
          refine ⟨hsettled.consistent, live_of_but t found.2.1 hsettled.but fun c' hc' hnil => ?_⟩
          rw [not_isMember_of_nil t hsettled.consistent.linked source found.2.1 (by
            rw [membersOf_some t found.2.1 c' hc', hnil])] at hmember
          exact absurd hmember (by simp)
        · rw [if_neg hmember]
          exact (addUserToChannel_good t found.2.1 hsettled source noFlags hsource
            (by simpa using hmember)).1
    · exact h

theorem sjoinMember_opened (env : Env) (fromPtr : ClientPtr) (chptr : ChannelPtr)
    (keepNewModes : Bool) (s : State) (h : Opened s chptr) (member : CStr) :
    Opened (sjoinMember env fromPtr chptr keepNewModes s member) chptr ∧
      (Live s → Live (sjoinMember env fromPtr chptr keepNewModes s member)) := by
  unfold sjoinMember
  dsimp only
  split
  · exact ⟨h, id⟩
  · next target hfind =>
    have hclient := findChasing_isClient env s h.consistent true _ target hfind
    split
    · exact ⟨h, id⟩
    · split
      · exact ⟨h, id⟩
      · split
        · exact ⟨h, id⟩
        · next hnot =>
          obtain ⟨hgood, hthere, _⟩ := addUserToChannel_good s chptr h target
            (if keepNewModes then (readStatus member noFlags).1 else noFlags) hclient
            (by simpa using hnot)
          exact ⟨⟨hgood.consistent, fun p c _ => hgood.live p c, hthere⟩, fun _ => hgood.live⟩

theorem sjoinMembers_opened (env : Env) (fromPtr : ClientPtr) (chptr : ChannelPtr)
    (keepNewModes : Bool) (members : List CStr) (s : State) (h : Opened s chptr) :
    Opened (members.foldl (sjoinMember env fromPtr chptr keepNewModes) s) chptr ∧
      (Live s → Live (members.foldl (sjoinMember env fromPtr chptr keepNewModes) s)) := by
  induction members generalizing s with
  | nil => exact ⟨h, id⟩
  | cons member members ih =>
    obtain ⟨hopened, hlive⟩ := sjoinMember_opened env fromPtr chptr keepNewModes s h member
    obtain ⟨hopened', hlive'⟩ := ih _ hopened
    exact ⟨hopened', fun hs => hlive' (hlive hs)⟩

theorem sjoinChannel_good (env : Env) (s : State) (h : Good s) (source : Client)
    (ts name modes members : CStr) (mode : Mode) (hcheck : checkChannelName name = true)
    (hmode : mode.key.length ≤ KEYLEN) :
    Good (sjoinChannel env s source ts name modes members mode) := by
  obtain ⟨hopened, hlive, hname, _⟩ := findOrMake_opened env s h name hcheck
  have hlen := Burst.checkChannelName_length name hcheck
  unfold sjoinChannel
  dsimp only
  generalize findOrMake env s name = found at hopened hlive hname ⊢
  obtain ⟨c, hc⟩ := hopened.there
  obtain ⟨holdlen, holdkey⟩ := hopened.consistent.hashed.buffers found.2.1 c hc
  rw [hc]
  dsimp only
  rw [strlcpy_of_le name CHANNELLEN hlen]
  generalize decideTs found.1 _ c.creationtime = d
  have hrename : ∀ c', found.2.2.channels found.2.1 = some c' →
      irccmp (if found.1 then c'.name else name) c'.name = 0 ∧
        (if found.1 then c'.name else name).length ≤ CHANNELLEN := by
    intro c' hc'
    split
    · exact ⟨irccmp_self _, (hopened.consistent.hashed.buffers found.2.1 c' hc').1⟩
    · exact ⟨hname c' hc', hlen⟩
  obtain ⟨hsettled, hsettledLive, _⟩ := settleChannel_opened found.2.2 found.2.1 hopened d mode
    (fun old => if found.1 then old else name) hmode hrename
  have hshort := tooLong_relayHeader source.id d.creationtime
    (if d.keepOurModes then c.name else if found.1 then c.name else name) modes d.keepNewModes
    (finalMode d mode c.mode) c.mode source.id_len (by
      split
      · exact holdlen
      · exact (hrename c hc).2)
    (finalMode_key d mode c.mode hmode holdkey) holdkey
  rw [hshort]
  obtain ⟨hjoined, hjoinedLive⟩ := sjoinMembers_opened env source.fromPtr found.2.1 d.keepNewModes
    (tokens members) _ hsettled
  rw [if_neg (by simp)]
  generalize (tokens members).foldl _ _ = t at hjoined hjoinedLive ⊢
  by_cases hempty : membersOf t found.2.1 = []
  · by_cases hisnew : found.1 = true
    · rw [if_pos ⟨hempty, hisnew⟩]
      exact ⟨destroyChannel_consistent t hjoined.consistent found.2.1 hempty,
        destroyChannel_live t found.2.1 hjoined.but⟩
    · rw [if_neg (fun hboth => hisnew hboth.2)]
      exact ⟨hjoined.consistent, hjoinedLive (hsettledLive (hlive (by simpa using hisnew)))⟩
  · rw [if_neg (fun hboth => hempty hboth.1)]
    refine ⟨hjoined.consistent, live_of_but t found.2.1 hjoined.but fun c' hc' => ?_⟩
    rwa [membersOf_some t found.2.1 c' hc'] at hempty

theorem msSjoin_good (env : Env) (s : State) (h : Good s) (source : ClientPtr)
    (params : List CStr) : Good (msSjoin env s source params) := by
  unfold msSjoin
  split
  · next c ts name modes arg args _ =>
    split
    · exact h
    · split
      · exact h
      · next hcheck =>
        split
        · exact h
        · next mode rest hmodes =>
          exact sjoinChannel_good env s h c ts name modes _ mode (by simpa using hcheck)
            (sjoinModes_key modes (arg :: args) noModes (mode, rest) (Nat.zero_le _) hmodes)
  · exact h

theorem setFlags_consistent (s : State) (h : Consistent s) (member : MemberPtr) (flags : Flags) :
    Consistent (setFlags s member flags) := by
  refine withMemberships_consistent s h _ (fun member' => ?_) (fun member' => ?_)
  · unfold chanKey
    by_cases hm : member' = member
    · rw [hm, update_self, Option.map_map]
      rfl
    · rw [update_of_ne hm]
  · unfold clientKey
    by_cases hm : member' = member
    · rw [hm, update_self, Option.map_map]
      rfl
    · rw [update_of_ne hm]

theorem step_good (s s' : State) (h : Good s) (hstep : Step s s') : Good s' := by
  cases hstep with
  | connect client c hfresh hnone =>
    obtain ⟨hnil, hwho⟩ := not_isClient s h.consistent client (by
      unfold isClient
      rw [hfresh])
    refine ⟨withClient_consistent s h.consistent client (some c) hnil (fun c' hc' => ?_) hwho,
      h.live⟩
    rw [← Option.some.inj hc', hnone]
  | register client c c' hc hunknown hsame =>
    obtain ⟨hnil, hwho⟩ := not_isClient s h.consistent client (by
      unfold isClient
      rw [hc]
      show (c.status == Status.client) = false
      rw [hunknown]
      rfl)
    refine ⟨withClient_consistent s h.consistent client (some c') hnil (fun d hd => ?_) hwho,
      h.live⟩
    rw [← Option.some.inj hd, hsame, ← channelsOf_some s client c hc, hnil]
  | nick env client name hclient =>
    have hadd := whowasAddHistory_consistent s h.consistent env client true hclient
    refine ⟨rename_consistent _ hadd client name, ?_⟩
    have hchannels : (whowasAddHistory env s client true).channels = s.channels := by
      unfold whowasAddHistory
      split <;> rfl
    intro p c hc
    refine h.live p c ?_
    rw [← hchannels]
    exact hc
  | mode member flags => exact ⟨setFlags_consistent s h.consistent member flags, h.live⟩
  | join env policy client channel hclient =>
    exact channelDoJoin_good env policy s h client channel hclient
  | msJoin env source params => exact msJoin_good env s h source params
  | msSjoin env source params => exact msSjoin_good env s h source params
  | part source channel => exact channelDoPart_good s h source channel
  | mKick env source name target => exact mKick_good env s h source name target
  | msKick env name target => exact msKick_good env s h name target
  | exit env client => exact exitOneClient_good env s h client
  | split env servers => exact recurseRemoveClients_good env servers s h

theorem start_good (hashfXorKey : BitVec 32) : Good (start hashfXorKey) := by
  refine ⟨⟨⟨?_, by simp [start], by simp [start], by simp [start]⟩,
    ⟨?_, ?_, ?_, ?_, by simp [start], by simp [start]⟩, by simp [start]⟩, ?_⟩
  · intro k
    exact ⟨List.nodup_nil, by simp [start, tableKey]⟩
  · intro k
    exact ⟨List.nodup_nil, by simp [start, chanKey, membersOf]⟩
  · intro k
    exact ⟨List.nodup_nil, by simp [start, localKey, locmembersOf]⟩
  · intro k
    exact ⟨List.nodup_nil, by simp [start, clientKey, channelsOf]⟩
  · intro a b k i ha
    simp [start, chanKey] at ha
  · intro p c hc
    simp [start] at hc

theorem reachable_good (s : State) (h : Reachable s) : Good s := by
  obtain ⟨hashfXorKey, hrun⟩ := h
  induction hrun with
  | refl => exact start_good hashfXorKey
  | tail _ hstep ih => exact step_good _ _ ih hstep

/-- Each membership is on its two lists once and on no other one, and they hold nothing else;
the local ones are on the third; no two have both ends in common. The channels in the hash have
members and names of their own. Either list leads to a client's membership of a channel. -/
structure ListsAgree (s : State) : Prop where
  listed : ∀ member m, s.memberships member = some m →
    (membersOf s m.chptr).count member = 1 ∧ (channelsOf s m.client).count member = 1 ∧
      (∀ p, p ≠ m.chptr → member ∉ membersOf s p) ∧ ∀ p, p ≠ m.client → member ∉ channelsOf s p
  members : ∀ chptr, ∀ member ∈ membersOf s chptr,
    ∃ m, s.memberships member = some m ∧ m.chptr = chptr
  channels : ∀ client, ∀ member ∈ channelsOf s client,
    ∃ m, s.memberships member = some m ∧ m.client = client
  locmembers : ∀ chptr, (locmembersOf s chptr).Nodup ∧
    ∀ member, member ∈ locmembersOf s chptr ↔ member ∈ membersOf s chptr ∧
      ∃ m, s.memberships member = some m ∧ isClient s m.client = true ∧
        myConnect s m.client = true
  once : ∀ member member' m m', s.memberships member = some m →
    s.memberships member' = some m' → m.client = m'.client → m.chptr = m'.chptr → member = member'
  occupied : ∀ hashv, ∀ chptr ∈ s.channelTable hashv,
    ∃ c, s.channels chptr = some c ∧ c.members ≠ []
  names : ∀ hashv hashv', ∀ chptr ∈ s.channelTable hashv, ∀ chptr' ∈ s.channelTable hashv',
    ∀ c c', s.channels chptr = some c → s.channels chptr' = some c' →
      irccmp c.name c'.name = 0 → chptr = chptr'
  link : ∀ client chptr, (membersOf s chptr).find? (clientIs s client) =
    (channelsOf s client).find? (chptrIs s chptr)

theorem locmembers_iff (s : State) (h : Linked s) (chptr : ChannelPtr) (member : MemberPtr) :
    member ∈ locmembersOf s chptr ↔ member ∈ membersOf s chptr ∧
      ∃ m, s.memberships member = some m ∧ isClient s m.client = true ∧
        myConnect s m.client = true := by
  rw [(h.locmembers chptr).2 member, (h.members chptr).2 member]
  constructor
  · intro hlocal
    refine ⟨chanKey_of_localKey s member chptr hlocal, ?_⟩
    unfold localKey at hlocal
    obtain ⟨m, hm, hif⟩ := Option.bind_eq_some_iff.mp hlocal
    refine ⟨m, hm, h.clients member m hm, ?_⟩
    by_contra hnot
    rw [if_neg hnot] at hif
    exact absurd hif (by simp)
  · rintro ⟨hkey, m, hm, _, hconnect⟩
    unfold chanKey at hkey
    unfold localKey
    rw [hm, Option.map_some] at hkey
    rw [hm, Option.bind_some, if_pos hconnect, hkey]

theorem listsAgree_of_good (s : State) (h : Good s) : ListsAgree s := by
  have hlinked := h.consistent.linked
  have hhashed := h.consistent.hashed
  constructor
  · intro member m hm
    have hchan : chanKey s member = some m.chptr := by
      unfold chanKey
      rw [hm, Option.map_some]
    have hclient : clientKey s member = some m.client := by
      unfold clientKey
      rw [hm, Option.map_some]
    exact ⟨count_eq_one _ _ _ _ hlinked.members hchan, count_eq_one _ _ _ _ hlinked.channels hclient,
      fun p hp => not_mem_other _ _ _ _ hlinked.members hchan p hp,
      fun p hp => not_mem_other _ _ _ _ hlinked.channels hclient p hp⟩
  · intro chptr member hmem
    exact Option.map_eq_some_iff.mp (((hlinked.members chptr).2 member).mp hmem)
  · intro client member hmem
    exact Option.map_eq_some_iff.mp (((hlinked.channels client).2 member).mp hmem)
  · intro chptr
    exact ⟨(hlinked.locmembers chptr).1, locmembers_iff s hlinked chptr⟩
  · intro member member' m m' hm hm' hclient hchptr
    refine hlinked.simple member member' m.chptr m.client ?_ ?_ ?_ ?_
    · unfold chanKey
      rw [hm, Option.map_some]
    · unfold clientKey
      rw [hm, Option.map_some]
    · unfold chanKey
      rw [hm', Option.map_some, hchptr]
    · unfold clientKey
      rw [hm', Option.map_some, hclient]
  · intro hashv chptr hmem
    obtain ⟨c, hc, _⟩ := Option.map_eq_some_iff.mp (((hhashed.table hashv).2 chptr).mp hmem)
    exact ⟨c, hc, h.live chptr c hc⟩
  · intro hashv hashv' chptr _ chptr' _ c c' hc hc' hname
    exact hhashed.distinct chptr chptr' c c' hc hc' hname
  · intro client chptr
    exact find_members_eq s hlinked client chptr

/-- After every run the lists agree. -/
theorem membership_lists_agree (s : State) (h : Reachable s) : ListsAgree s :=
  listsAgree_of_good s (reachable_good s h)

def sampleEnv : Env := ⟨1000000000, false, 90, fun _ => none, fun _ => none⟩

def samplePolicy : Policy := ⟨false, fun _ => false, 10, false, fun _ _ => false⟩

def sampleClient : Client :=
  ⟨"1AAAAAAAA".toList, "anna".toList, .client, true, 7, [], by decide⟩

/-- One client has come and joined a channel. -/
def sampleState : State :=
  let s := start 5
  channelDoJoin sampleEnv samplePolicy { s with clients := update s.clients 7 (some sampleClient) }
    7 "#a".toList

theorem membership_lists_agree_sample : ListsAgree sampleState ∧ membersOf sampleState 0 = [0] := by
  refine ⟨membership_lists_agree sampleState ⟨5, ?_⟩, by decide +kernel⟩
  have hconnect := Step.connect (start 5) 7 sampleClient rfl rfl
  exact (Relation.ReflTransGen.single hconnect).tail
    (Step.join _ sampleEnv samplePolicy 7 "#a".toList (by decide))

end IrcdHybrid.MemberRuns
