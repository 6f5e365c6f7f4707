import IrcdHybrid.MemberRuns

/-!
What happens on channels changes nothing about a client but the list of its channels.
-/

namespace IrcdHybrid.RoomHeads

open CString Index MemberLists MemberInvariant MemberRuns Function

/-- A client without its channels. -/
def head (c : Client) : CStr × CStr × Status × Bool × ClientPtr :=
  (c.id, c.name, c.status, c.myConnect, c.fromPtr)

structure SameHeads (s s' : State) : Prop where
  key : s'.hashfXorKey = s.hashfXorKey
  heads : ∀ p, (s'.clients p).map head = (s.clients p).map head

theorem same_refl (s : State) : SameHeads s s := ⟨rfl, fun _ => rfl⟩

theorem same_trans (s s' s'' : State) (h : SameHeads s s') (h' : SameHeads s' s'') :
    SameHeads s s'' :=
  ⟨h'.key.trans h.key, fun p => (h'.heads p).trans (h.heads p)⟩

theorem same_of_eq (s s' : State) (hkey : s'.hashfXorKey = s.hashfXorKey)
    (hclients : s'.clients = s.clients) : SameHeads s s' :=
  ⟨hkey, fun p => by rw [hclients]⟩

section Handlers

variable (s : State) (chptr : ChannelPtr)

theorem modifyClient_same (p : ClientPtr) (f : Client → Client) (hf : ∀ c, head (f c) = head c) :
    SameHeads s (modifyClient s p f) := by
  refine ⟨rfl, fun q => ?_⟩
  unfold modifyClient
  by_cases hq : q = p
  · rw [hq]
    dsimp only
    rw [update_self]
    cases s.clients p with
    | none => rfl
    | some c => exact congrArg some (hf c)
  · dsimp only
    rw [update_of_ne hq]

theorem modifyChannel_same (f : Channel → Channel) :
    SameHeads s (modifyChannel s chptr f) := same_of_eq _ _ rfl rfl

theorem destroyChannel_same : SameHeads s (destroyChannel s chptr) := by
  unfold destroyChannel
  split
  · exact same_refl s
  · exact same_of_eq _ _ rfl rfl

theorem makeChannel_same (env : Env) (name : CStr) : SameHeads s (makeChannel env s name).2 :=
  same_of_eq _ _ rfl rfl

theorem hashFindChannel_same (name : CStr) : SameHeads s (hashFindChannel s name).2 := by
  unfold hashFindChannel
  dsimp only
  split
  · exact same_refl s
  · exact same_of_eq _ _ rfl rfl

theorem addUserToChannel_same (who : ClientPtr) (flags : Channels.Flags) :
    SameHeads s (addUserToChannel s chptr who flags) := by
  unfold addUserToChannel
  refine same_trans _ _ _ ?_ (modifyClient_same _ who _ (fun _ => rfl))
  exact same_of_eq _ _ rfl rfl

theorem removeUserFromChannel_same (member : MemberPtr) :
    SameHeads s (removeUserFromChannel s member) := by
  unfold removeUserFromChannel
  split
  · exact same_refl s
  · next m _ =>
    have hclient := fun f => same_trans _ _ _ (modifyChannel_same s m.chptr f)
      (modifyClient_same _ m.client (fun c => { c with channel := c.channel.erase member })
        (fun _ => rfl))
    have hleft : ∀ t, SameHeads s t →
        SameHeads s (if membersOf t m.chptr = [] then destroyChannel t m.chptr else t) := by
      intro t ht
      split
      · exact same_trans _ _ _ ht (destroyChannel_same t m.chptr)
      · exact ht
    exact hleft _ (same_trans _ _ _ (hclient _) (same_of_eq _ _ rfl rfl))

theorem channelDoJoin0_same (source : ClientPtr) : SameHeads s (channelDoJoin0 s source) := by
  have hwalk : ∀ n s a, SameHeads s
      (walk (fun s => channelsOf s source) removeUserFromChannel n s a) := by
    intro n
    induction n with
    | zero => exact fun s _ => same_refl s
    | succ n ih =>
      intro s a
      cases a with
      | none => exact same_refl s
      | some a => exact same_trans _ _ _ (removeUserFromChannel_same s a) (ih _ _)
  exact hwalk _ s _

theorem removeOurModes_same : SameHeads s (removeOurModes s chptr) := same_of_eq _ _ rfl rfl

theorem setFlags_same (member : MemberPtr) (flags : Channels.Flags) : SameHeads s (setFlags s member flags) :=
  same_of_eq _ _ rfl rfl

theorem channelDoPart_same (source : ClientPtr) (channel : CStr) :
    SameHeads s (channelDoPart s source channel) := by
  have hone : ∀ s name, SameHeads s (channelPartOneClient s source name) := by
    intro s name
    have hfind := hashFindChannel_same s name
    unfold channelPartOneClient
    dsimp only
    split
    · exact hfind
    · split
      · exact hfind
      · exact same_trans _ _ _ hfind (removeUserFromChannel_same _ _)
  unfold channelDoPart
  induction names channel generalizing s with
  | nil => exact same_refl s
  | cons name list ih => exact same_trans _ _ _ (hone s name) (ih _)

theorem mKick_same (env : Env) (source : ClientPtr) (name target : CStr) :
    SameHeads s (mKick env s source name target) := by
  have hfind := hashFindChannel_same s name
  unfold mKick
  dsimp only
  split
  · exact hfind
  · split
    · exact hfind
    · split
      · exact hfind
      · split
        · exact hfind
        · split
          · exact hfind
          · split
            · exact hfind
            · exact same_trans _ _ _ hfind (removeUserFromChannel_same _ _)

theorem msKick_same (env : Env) (name target : CStr) : SameHeads s (msKick env s name target) := by
  have hfind := hashFindChannel_same s name
  unfold msKick
  dsimp only
  split
  · exact hfind
  · split
    · exact hfind
    · split
      · exact hfind
      · exact same_trans _ _ _ hfind (removeUserFromChannel_same _ _)

theorem joinChannels_same (env : Env) (policy : Policy) (source : ClientPtr) (list : List CStr) :
    SameHeads s (joinChannels env policy source list s) := by
  induction list generalizing s with
  | nil => exact same_refl s
  | cons chan list ih =>
    have hfind := hashFindChannel_same s chan
    unfold joinChannels
    dsimp only
    split
    · exact ih s
    · split
      · exact ih s
      · split
        · exact same_refl s
        · split
          · next chptr _ =>
            split
            · exact same_trans _ _ _ hfind (ih _)
            · split
              · exact same_trans _ _ _ hfind (ih _)
              · split
                · refine same_trans _ _ _ hfind (same_trans _ _ _ ?_ (ih _))
                  exact same_trans _ _ _ (addUserToChannel_same _ chptr source _)
                    (modifyChannel_same _ chptr _)
                · exact same_trans _ _ _ hfind
                    (same_trans _ _ _ (addUserToChannel_same _ chptr source _) (ih _))
          · split
            · exact same_trans _ _ _ hfind (ih _)
            · refine same_trans _ _ _ hfind (same_trans _ _ _ ?_ (ih _))
              refine same_trans _ _ _ (makeChannel_same _ env chan) ?_
              exact same_trans _ _ _ (addUserToChannel_same _ _ source _) (modifyChannel_same _ _ _)

theorem channelDoJoin_same (env : Env) (policy : Policy) (source : ClientPtr) (channel : CStr) :
    SameHeads s (channelDoJoin env policy s source channel) := by
  unfold channelDoJoin
  dsimp only
  split
  · exact same_trans _ _ _ (channelDoJoin0_same s source) (joinChannels_same _ env policy source _)
  · exact joinChannels_same s env policy source _

theorem findOrMake_same (env : Env) (name : CStr) : SameHeads s (findOrMake env s name).2.2 := by
  have hfind := hashFindChannel_same s name
  unfold findOrMake
  dsimp only
  split
  · exact hfind
  · exact same_trans _ _ _ hfind (makeChannel_same _ env name)

theorem settleChannel_same (d : Sjoin.Decision) (mode : Channels.Mode) (rename : CStr → CStr) :
    SameHeads s (settleChannel s chptr d mode rename) := by
  unfold settleChannel
  dsimp only
  split
  · exact modifyChannel_same s chptr _
  · exact same_trans _ _ _ (modifyChannel_same s chptr _) (removeOurModes_same _ chptr)

theorem msJoin_same (env : Env) (source : ClientPtr) (params : List CStr) :
    SameHeads s (msJoin env s source params) := by
  unfold msJoin
  split
  · exact same_refl s
  · split
    · split
      · exact channelDoJoin0_same s source
      · exact same_refl s
    · next ts name _ _ =>
      have hmake := findOrMake_same s env name
      split
      · exact same_refl s
      · dsimp only
        split
        · exact hmake
        · have hadd : ∀ t chptr, SameHeads s t → SameHeads s (if isMember t source chptr then t
              else addUserToChannel t chptr source Channels.noFlags) := by
            intro t chptr ht
            split
            · exact ht
            · exact same_trans _ _ _ ht (addUserToChannel_same t chptr source _)
          exact hadd _ _ (same_trans _ _ _ hmake (settleChannel_same _ _ _ _ _))
    · exact same_refl s

theorem sjoinMembers_same (env : Env) (fromPtr : ClientPtr) (keep : Bool) (members : List CStr) :
    SameHeads s (members.foldl (sjoinMember env fromPtr chptr keep) s) := by
  have hone : ∀ s member, SameHeads s (sjoinMember env fromPtr chptr keep s member) := by
    intro s member
    unfold sjoinMember
    dsimp only
    split
    · exact same_refl s
    · split
      · exact same_refl s
      · split
        · exact same_refl s
        · split
          · exact same_refl s
          · exact addUserToChannel_same s chptr _ _
  induction members generalizing s with
  | nil => exact same_refl s
  | cons member members ih => exact same_trans _ _ _ (hone s member) (ih _)

theorem msSjoin_same (env : Env) (source : ClientPtr) (params : List CStr) :
    SameHeads s (msSjoin env s source params) := by
  have hchannel : ∀ c ts name modes members mode,
      SameHeads s (sjoinChannel env s c ts name modes members mode) := by
    intro c ts name modes members mode
    have hmake := findOrMake_same s env name
    unfold sjoinChannel
    dsimp only
    split
    · exact hmake
    · have htail : ∀ (long isnew keep : Bool) (list : List CStr) t chptr, SameHeads s t →
          SameHeads s (if long = true then t
            else if membersOf (list.foldl (sjoinMember env c.fromPtr chptr keep) t) chptr = [] ∧
                isnew = true then
              destroyChannel (list.foldl (sjoinMember env c.fromPtr chptr keep) t) chptr
            else list.foldl (sjoinMember env c.fromPtr chptr keep) t) := by
        intro long isnew keep list t chptr ht
        have hmembers := same_trans _ _ _ ht (sjoinMembers_same t chptr env c.fromPtr keep list)
        split
        · exact ht
        · split
          · exact same_trans _ _ _ hmembers (destroyChannel_same _ chptr)
          · exact hmembers
      exact htail _ _ _ _ _ _ (same_trans _ _ _ hmake (settleChannel_same _ _ _ _ _))
  unfold msSjoin
  split
  · split
    · exact same_refl s
    · split
      · exact same_refl s
      · split
        · exact same_refl s
        · exact hchannel _ _ _ _ _ _
  · exact same_refl s

end Handlers

theorem modifyClient_good (s : State) (h : Good s) (p : ClientPtr)
    (f : Client → Client) (hp : isClient s p = false) (hf : ∀ c, (f c).channel = c.channel) :
    Good (modifyClient s p f) := by
  obtain ⟨hnil, hwho⟩ := not_isClient s h.consistent p hp
  refine ⟨withClient_consistent s h.consistent p _ hnil (fun d hd => ?_) hwho, h.live⟩
  obtain ⟨c, hc, rfl⟩ := Option.map_eq_some_iff.mp hd
  rw [hf, ← channelsOf_some s p c hc, hnil]

theorem newClient_good (s : State) (h : Good s) (p : ClientPtr) (c : Client)
    (hp : s.clients p = none) (hc : c.channel = []) :
    Good { s with clients := update s.clients p (some c) } :=
  step_good s _ h (Step.connect s p c hp hc)

end IrcdHybrid.RoomHeads
