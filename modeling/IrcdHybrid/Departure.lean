import IrcdHybrid.Forest
import IrcdHybrid.HashChains
import IrcdHybrid.MemberInvariant

/-!
What the membership lists are after clients have left. All memberships of those who
left are gone from all lists, a channel nobody is left on is gone from the hash, and
everything else is as it was, in the same order.
-/

namespace IrcdHybrid.Departure

open Index Forest MemberLists MemberInvariant Function

/-- The channel without some memberships, if anybody remains. -/
def thin (gone : MemberPtr → Bool) (c : Channel) : Option Channel :=
  if c.members.filter (fun m => !gone m) = [] then none
  else some { c with
    members := c.members.filter (fun m => !gone m)
    locmembers := c.locmembers.filter (fun m => !gone m) }

theorem thin_self (gone : MemberPtr → Bool) (c : Channel) (hlive : c.members ≠ [])
    (hmembers : ∀ m ∈ c.members, gone m = false) (hloc : ∀ m ∈ c.locmembers, gone m = false) :
    thin gone c = some c := by
  have hall : c.members.filter (fun m => !gone m) = c.members :=
    List.filter_eq_self.mpr fun m hm => by simp [hmembers m hm]
  have hlocal : c.locmembers.filter (fun m => !gone m) = c.locmembers :=
    List.filter_eq_self.mpr fun m hm => by simp [hloc m hm]
  unfold thin
  rw [hall, hlocal, if_neg hlive]

theorem thin_thin (gone gone' : MemberPtr → Bool) (c : Channel) :
    (thin gone c).bind (thin gone') = thin (fun m => gone m || gone' m) c := by
  have hfilter : ∀ l : List MemberPtr, (l.filter (fun m => !gone m)).filter (fun m => !gone' m) =
      l.filter (fun m => !(gone m || gone' m)) := by
    intro l
    rw [List.filter_filter]
    refine List.filter_congr fun m _ => ?_
    cases gone m <;> cases gone' m <;> rfl
  unfold thin
  rw [← hfilter, ← hfilter]
  by_cases hnil : c.members.filter (fun m => !gone m) = []
  · rw [if_pos hnil, Option.bind_none, hnil, List.filter_nil, if_pos rfl]
  · rw [if_neg hnil, Option.bind_some]

/-- Some memberships are gone from all lists. -/
structure Dropped (gone : List MemberPtr) (s s' : State) : Prop where
  memberships : ∀ m, s'.memberships m = if m ∈ gone then none else s.memberships m
  channels : ∀ chptr, s'.channels chptr = (s.channels chptr).bind (thin (fun m => decide (m ∈ gone)))
  clients : ∀ p, s'.clients p =
    (s.clients p).map (fun c => { c with channel := c.channel.filter (fun m => !decide (m ∈ gone)) })
  table : ∀ k, s'.channelTable k = (s.channelTable k).filter (fun ch => (s'.channels ch).isSome)
  hashfXorKey : s'.hashfXorKey = s.hashfXorKey
  nextMember : s'.nextMember = s.nextMember
  nextChannel : s'.nextChannel = s.nextChannel

theorem channelTable_isSome (s : State) (h : Hashed s) (k : ℕ) (chptr : ChannelPtr)
    (hmem : chptr ∈ s.channelTable k) : (s.channels chptr).isSome = true := by
  have hkey := ((h.table k).2 chptr).mp hmem
  unfold tableKey at hkey
  obtain ⟨c, hc, -⟩ := Option.map_eq_some_iff.mp hkey
  rw [hc]
  rfl

theorem dropped_refl (s : State) (h : Good s) : Dropped [] s s := by
  refine ⟨fun m => by simp, fun chptr => ?_, fun p => ?_, fun k => ?_, rfl, rfl, rfl⟩
  · cases hc : s.channels chptr with
    | none => rfl
    | some c =>
      rw [Option.bind_some]
      exact (thin_self _ c (h.live chptr c hc) (by simp) (by simp)).symm
  · cases s.clients p with
    | none => rfl
    | some c => simp
  · exact (List.filter_eq_self.mpr fun chptr hmem =>
      channelTable_isSome s h.consistent.hashed k chptr hmem).symm

theorem dropped_trans (s s' s'' : State) (gone gone' : List MemberPtr) (h : Dropped gone s s')
    (h' : Dropped gone' s' s'') : Dropped (gone ++ gone') s s'' := by
  have hgone : (fun m => decide (m ∈ gone ++ gone')) =
      fun m => decide (m ∈ gone) || decide (m ∈ gone') := by
    funext m
    simp
  have hchannels : ∀ chptr, s''.channels chptr =
      (s.channels chptr).bind (thin (fun m => decide (m ∈ gone ++ gone'))) := by
    intro chptr
    rw [h'.channels, h.channels, Option.bind_assoc, hgone]
    congr 1
    funext c
    exact thin_thin _ _ c
  refine ⟨fun m => ?_, hchannels, fun p => ?_, fun k => ?_, h'.hashfXorKey.trans h.hashfXorKey,
    h'.nextMember.trans h.nextMember, h'.nextChannel.trans h.nextChannel⟩
  · rw [h'.memberships, h.memberships]
    by_cases hm : m ∈ gone <;> by_cases hm' : m ∈ gone' <;> simp [hm, hm']
  · rw [h'.clients, h.clients, Option.map_map]
    congr 1
    funext c
    simp only [comp_apply, List.filter_filter]
    congr 2
    funext m
    by_cases hm : m ∈ gone <;> by_cases hm' : m ∈ gone' <;> simp [hm, hm']
  · rw [h'.table, h.table, List.filter_filter]
    refine List.filter_congr fun chptr _ => ?_
    rw [h'.channels]
    cases s'.channels chptr <;> simp

theorem removeUserFromChannel_dropped (s : State) (h : Good s) (member : MemberPtr)
    (m : Membership) (hm : s.memberships member = some m) :
    Dropped [member] s (removeUserFromChannel s member) := by
  have hlinked := h.consistent.linked
  obtain ⟨⟨c, hc⟩, cl, hcl⟩ := ends_of_member s hlinked member m hm
  obtain ⟨t, hremove, heq⟩ := removeUserFromChannel_eq s member m c cl hm hc hcl
  have hchan : chanKey s member = some m.chptr := by
    unfold chanKey
    rw [hm, Option.map_some]
  have hclient : clientKey s member = some m.client := by
    unfold clientKey
    rw [hm, Option.map_some]
  have hnot : ∀ chptr d, chptr ≠ m.chptr → s.channels chptr = some d →
      member ∉ d.members ∧ member ∉ d.locmembers := by
    intro chptr d hne hd
    constructor
    · rw [← membersOf_some s chptr d hd]
      exact not_mem_other _ _ member m.chptr hlinked.members hchan chptr hne
    · rw [← locmembersOf_some s chptr d hd]
      intro hmem
      have hkey := chanKey_of_localKey s member chptr ((hlinked.locmembers chptr).2 member |>.mp hmem)
      rw [hchan] at hkey
      exact hne (Option.some.inj hkey).symm
  have hfilter : ∀ l : List MemberPtr, l.Nodup →
      l.erase member = l.filter (fun m => !decide (m ∈ [member])) := by
    intro l hl
    rw [hl.erase_eq_filter]
    refine List.filter_congr fun a _ => ?_
    by_cases ha : a = member <;> simp [ha]
  have hmembers : c.members.erase member = c.members.filter (fun m => !decide (m ∈ [member])) := by
    refine hfilter _ ?_
    rw [← membersOf_some s m.chptr c hc]
    exact (hlinked.members m.chptr).1
  have hloc : (if cl.myConnect then c.locmembers.erase member else c.locmembers) =
      c.locmembers.filter (fun m => !decide (m ∈ [member])) := by
    split
    · refine hfilter _ ?_
      rw [← locmembersOf_some s m.chptr c hc]
      exact (hlinked.locmembers m.chptr).1
    · next hremote =>
      refine (List.filter_eq_self.mpr fun a ha => ?_).symm
      have hne : a ≠ member := by
        rintro rfl
        rw [← locmembersOf_some s m.chptr c hc] at ha
        have hkey := ((hlinked.locmembers m.chptr).2 a).mp ha
        unfold localKey myConnect at hkey
        rw [hm, Option.bind_some, hcl] at hkey
        simp [hremote] at hkey
      simpa using hne
  have hchannel : cl.channel.erase member = cl.channel.filter (fun m => !decide (m ∈ [member])) := by
    refine hfilter _ ?_
    rw [← channelsOf_some s m.client cl hcl]
    exact (hlinked.channels m.client).1
  rw [hmembers, hloc, hchannel] at heq
  have htmemberships : t.memberships = update s.memberships member none := by rw [heq]
  have htchannels : t.channels = update s.channels m.chptr (some { c with
      members := c.members.filter (fun m => !decide (m ∈ [member]))
      locmembers := c.locmembers.filter (fun m => !decide (m ∈ [member])) }) := by rw [heq]
  have htclients : t.clients = update s.clients m.client (some { cl with
      channel := cl.channel.filter (fun m => !decide (m ∈ [member])) }) := by rw [heq]
  have htmembers : membersOf t m.chptr = c.members.filter (fun m => !decide (m ∈ [member])) := by
    unfold membersOf
    rw [htchannels, update_self]
  have hothers : ∀ chptr, chptr ≠ m.chptr →
      s.channels chptr = (s.channels chptr).bind (thin (fun m => decide (m ∈ [member]))) := by
    intro chptr hne
    cases hd : s.channels chptr with
    | none => rfl
    | some d =>
      obtain ⟨hmem, hmem'⟩ := hnot chptr d hne hd
      rw [Option.bind_some, thin_self _ d (h.live chptr d hd)]
      · intro a ha
        have hane : a ≠ member := fun hfalse => hmem (hfalse ▸ ha)
        simpa using hane
      · intro a ha
        have hane : a ≠ member := fun hfalse => hmem' (hfalse ▸ ha)
        simpa using hane
  have hclients : ∀ p, t.clients p = (s.clients p).map
      (fun c => { c with channel := c.channel.filter (fun m => !decide (m ∈ [member])) }) := by
    intro p
    rw [htclients]
    by_cases hp : p = m.client
    · rw [hp, update_self, hcl, Option.map_some]
    · rw [update_of_ne hp]
      cases hd : s.clients p with
      | none => rfl
      | some d =>
        have hmem : member ∉ d.channel := by
          rw [← channelsOf_some s p d hd]
          exact not_mem_other _ _ member m.client hlinked.channels hclient p hp
        have hself : d.channel.filter (fun m => !decide (m ∈ [member])) = d.channel := by
          refine List.filter_eq_self.mpr fun a ha => ?_
          have hane : a ≠ member := fun hfalse => hmem (hfalse ▸ ha)
          simpa using hane
        rw [Option.map_some, hself]
  have hmemberships : ∀ a, t.memberships a = if a ∈ [member] then none else s.memberships a := by
    intro a
    rw [htmemberships]
    by_cases ha : a = member
    · rw [ha, update_self, if_pos (List.mem_singleton_self _)]
    · rw [update_of_ne ha, if_neg (by simpa using ha)]
  rw [hremove, htmembers]
  by_cases hempty : c.members.filter (fun m => !decide (m ∈ [member])) = []
  · rw [if_pos hempty]
    have htc : t.channels m.chptr = some { c with
        members := c.members.filter (fun m => !decide (m ∈ [member]))
        locmembers := c.locmembers.filter (fun m => !decide (m ∈ [member])) } := by
      rw [htchannels, update_self]
    have hdestroy : destroyChannel t m.chptr = { t with
        channels := update t.channels m.chptr none
        channelTable := update t.channelTable (strhash t.hashfXorKey c.name)
          ((t.channelTable (strhash t.hashfXorKey c.name)).erase m.chptr) } := by
      unfold destroyChannel
      rw [htc]
    have hchannels : ∀ chptr, (destroyChannel t m.chptr).channels chptr =
        (s.channels chptr).bind (thin (fun m => decide (m ∈ [member]))) := by
      intro chptr
      rw [hdestroy]
      by_cases hp : chptr = m.chptr
      · rw [hp, hc, Option.bind_some]
        unfold thin
        rw [if_pos hempty]
        exact update_self _ _ _
      · refine (update_of_ne hp _ _).trans ?_
        rw [htchannels, update_of_ne hp]
        exact hothers chptr hp
    refine ⟨?_, hchannels, ?_, fun k => ?_, ?_, ?_, ?_⟩
    · rw [hdestroy]
      exact hmemberships
    · rw [hdestroy]
      exact hclients
    · have hkey : tableKey s m.chptr = some (strhash s.hashfXorKey c.name) := by
        unfold tableKey
        rw [hc, Option.map_some]
      have htable : (destroyChannel t m.chptr).channelTable =
          update s.channelTable (strhash s.hashfXorKey c.name)
            ((s.channelTable (strhash s.hashfXorKey c.name)).erase m.chptr) := by
        rw [hdestroy, heq]
      rw [htable, HashChains.erase_eq_filter _ _ m.chptr _ h.consistent.hashed.table hkey]
      refine List.filter_congr fun chptr hmem => ?_
      rw [hchannels chptr]
      by_cases hp : chptr = m.chptr
      · rw [hp, hc, Option.bind_some]
        unfold thin
        rw [if_pos hempty]
        simp
      · rw [← hothers chptr hp, channelTable_isSome s h.consistent.hashed k chptr hmem]
        simpa using hp
    · rw [hdestroy, heq]
    · rw [hdestroy, heq]
    · rw [hdestroy, heq]
  · rw [if_neg hempty]
    have hchannels : ∀ chptr, t.channels chptr =
        (s.channels chptr).bind (thin (fun m => decide (m ∈ [member]))) := by
      intro chptr
      by_cases hp : chptr = m.chptr
      · rw [hp, hc, Option.bind_some, htchannels, update_self]
        unfold thin
        rw [if_neg hempty]
      · rw [htchannels, update_of_ne hp]
        exact hothers chptr hp
    refine ⟨hmemberships, hchannels, hclients, fun k => ?_, by rw [heq], by rw [heq], by rw [heq]⟩
    have htable : t.channelTable = s.channelTable := by rw [heq]
    rw [htable]
    refine (List.filter_eq_self.mpr fun chptr hmem => ?_).symm
    rw [hchannels chptr]
    by_cases hp : chptr = m.chptr
    · rw [hp, hc, Option.bind_some]
      unfold thin
      rw [if_neg hempty]
      rfl
    · rw [← hothers chptr hp]
      exact channelTable_isSome s h.consistent.hashed k chptr hmem

/-- All memberships of a client are taken off by a walk along its list. -/
theorem channelDoJoin0_dropped (s : State) (h : Good s) (source : ClientPtr) :
    ∃ gone, Dropped gone s (channelDoJoin0 s source) ∧
      ∀ m, m ∈ gone ↔ m ∈ channelsOf s source := by
  obtain ⟨gone, hdropped, -, -, hmem⟩ := walk_removes
    (fun _ : State => (fun _ => none : MemberPtr → Option MemberPtr)) (fun s s' gone => Dropped gone s s')
    Good (fun s => channelsOf s source) removeUserFromChannel dropped_refl
    (fun s s' s'' gone gone' => dropped_trans s s' s'' gone gone')
    (fun _ _ gone _ => by
      funext m
      unfold cut
      rw [ite_self])
    (by
      intro t ht m hm
      have hkey := ((ht.consistent.linked.channels source).2 m).mp hm
      unfold clientKey at hkey
      obtain ⟨x, hx, hclient⟩ := Option.map_eq_some_iff.mp hkey
      obtain ⟨hgood, hlist, -⟩ := removeUserFromChannel_good t ht m x hx
      refine ⟨[m], removeUserFromChannel_dropped t ht m x hx, hgood, ?_, fun c => ?_⟩
      · rw [hlist, hclient, update_self]
      · rw [List.mem_singleton]
        exact (or_iff_left (not_below _ c m (fun _ => by simp))).symm)
    s h
  refine ⟨gone, hdropped, fun m => ?_⟩
  rw [hmem m]
  constructor
  · rintro ⟨a, ha, rfl | hbelow⟩
    · exact ha
    · exact absurd hbelow (not_below _ m a (fun _ => by simp))
  · exact fun hm => ⟨m, hm, Or.inl rfl⟩

/-- The membership is one of theirs. -/
def theirs (s : State) (removed : List ClientPtr) (m : MemberPtr) : Bool :=
  match s.memberships m with
  | some x => decide (x.client ∈ removed)
  | none => false

theorem theirs_iff (s : State) (removed : List ClientPtr) (m : MemberPtr) :
    theirs s removed m = true ↔ ∃ p ∈ removed, clientKey s m = some p := by
  unfold theirs clientKey
  cases s.memberships m with
  | none => simp
  | some x => simp

structure Departed (removed : List ClientPtr) (s s' : State) : Prop where
  memberships : ∀ m, s'.memberships m = if theirs s removed m then none else s.memberships m
  channels : ∀ chptr, s'.channels chptr = (s.channels chptr).bind (thin (theirs s removed))
  clients : ∀ p, s'.clients p = if p ∈ removed then none else s.clients p
  table : ∀ k, s'.channelTable k = (s.channelTable k).filter (fun ch => (s'.channels ch).isSome)
  hashfXorKey : s'.hashfXorKey = s.hashfXorKey
  nextMember : s'.nextMember = s.nextMember
  nextChannel : s'.nextChannel = s.nextChannel

theorem theirs_nil (s : State) (m : MemberPtr) : theirs s [] m = false := by
  unfold theirs
  cases s.memberships m <;> simp

theorem departed_refl (s : State) (h : Good s) : Departed [] s s := by
  refine ⟨fun m => by rw [theirs_nil]; rfl, fun chptr => ?_, fun p => by simp, fun k => ?_, rfl, rfl,
    rfl⟩
  · cases hc : s.channels chptr with
    | none => rfl
    | some c =>
      rw [Option.bind_some]
      exact (thin_self _ c (h.live chptr c hc) (fun m _ => theirs_nil s m)
        (fun m _ => theirs_nil s m)).symm
  · exact (List.filter_eq_self.mpr fun chptr hmem =>
      channelTable_isSome s h.consistent.hashed k chptr hmem).symm

theorem theirs_append (s s' : State) (removed removed' : List ClientPtr)
    (h : Departed removed s s') (m : MemberPtr) :
    theirs s (removed ++ removed') m = (theirs s removed m || theirs s' removed' m) := by
  have hm := h.memberships m
  cases hleft : theirs s removed m with
  | true =>
    obtain ⟨p, hp, hkey⟩ := (theirs_iff s removed m).mp hleft
    rw [Bool.true_or]
    exact (theirs_iff s _ m).mpr ⟨p, List.mem_append_left _ hp, hkey⟩
  | false =>
    rw [hleft] at hm
    rw [Bool.false_or]
    unfold theirs at hleft ⊢
    rw [hm]
    cases hx : s.memberships m with
    | none => simp
    | some x =>
      rw [hx] at hleft
      have hnot : x.client ∉ removed := by simpa using hleft
      simp [hnot]

theorem departed_trans (s s' s'' : State) (removed removed' : List ClientPtr)
    (h : Departed removed s s') (h' : Departed removed' s' s'') :
    Departed (removed ++ removed') s s'' := by
  have htheirs : theirs s (removed ++ removed') = fun m => theirs s removed m || theirs s' removed' m :=
    funext fun m => theirs_append s s' removed removed' h m
  refine ⟨fun m => ?_, fun chptr => ?_, fun p => ?_, fun k => ?_,
    h'.hashfXorKey.trans h.hashfXorKey, h'.nextMember.trans h.nextMember,
    h'.nextChannel.trans h.nextChannel⟩
  · rw [h'.memberships, h.memberships, congrFun htheirs m]
    cases theirs s removed m <;> cases theirs s' removed' m <;> rfl
  · rw [h'.channels, h.channels, Option.bind_assoc, htheirs]
    congr 1
    funext c
    exact thin_thin _ _ c
  · rw [h'.clients, h.clients]
    by_cases hp : p ∈ removed <;> by_cases hp' : p ∈ removed' <;> simp [hp, hp']
  · rw [h'.table, h.table, List.filter_filter]
    refine List.filter_congr fun chptr _ => ?_
    rw [h'.channels]
    cases s'.channels chptr <;> simp

theorem exitOneClient_departed (env : Env) (s : State) (h : Good s) (source : ClientPtr) :
    Departed [source] s (exitOneClient env s source) := by
  have hlinked := h.consistent.linked
  have htheirs : ∀ m, theirs s [source] m = decide (m ∈ channelsOf s source) := by
    intro m
    rw [Bool.eq_iff_iff, theirs_iff, decide_eq_true_iff, (hlinked.channels source).2 m]
    simp
  have hothers : ∀ p, p ≠ source → ∀ c, s.clients p = some c →
      ∀ m ∈ c.channel, m ∉ channelsOf s source := by
    intro p hp c hc m hm hmem
    rw [← channelsOf_some s p c hc, (hlinked.channels p).2 m] at hm
    rw [(hlinked.channels source).2 m, hm] at hmem
    exact hp (Option.some.inj hmem)
  by_cases hclient : isClient s source = true
  · obtain ⟨gone, hdropped, hgone⟩ := channelDoJoin0_dropped s h source
    have hsame : (fun m => decide (m ∈ gone)) = theirs s [source] := by
      funext m
      rw [htheirs m]
      exact decide_eq_decide.mpr (hgone m)
    have hadd : whowasAddHistory env (channelDoJoin0 s source) source false =
        { channelDoJoin0 s source with
          whowas := (whowasAddHistory env (channelDoJoin0 s source) source false).whowas } := by
      unfold whowasAddHistory
      split <;> rfl
    have hexit : exitOneClient env s source = { channelDoJoin0 s source with
        whowas := (exitOneClient env s source).whowas
        clients := update (channelDoJoin0 s source).clients source none } := by
      unfold exitOneClient
      rw [if_pos hclient, hadd]
      rfl
    rw [hexit]
    refine ⟨fun m => ?_, fun chptr => ?_, fun p => ?_, hdropped.table, hdropped.hashfXorKey,
      hdropped.nextMember, hdropped.nextChannel⟩
    · refine (hdropped.memberships m).trans ?_
      rw [← hsame]
      by_cases hm : m ∈ gone <;> simp [hm]
    · rw [← hsame]
      exact hdropped.channels chptr
    · by_cases hp : p = source
      · rw [hp, if_pos (List.mem_singleton_self _)]
        exact update_self _ _ _
      · refine (update_of_ne hp _ _).trans ?_
        rw [if_neg (by simpa using hp), hdropped.clients p]
        cases hc : s.clients p with
        | none => rfl
        | some c =>
          have hself : c.channel.filter (fun m => !decide (m ∈ gone)) = c.channel := by
            refine List.filter_eq_self.mpr fun m hm => ?_
            have hnot : m ∉ gone := fun hmem => hothers p hp c hc m hm ((hgone m).mp hmem)
            simpa using hnot
          rw [Option.map_some, hself]
  · have hnil := (not_isClient s h.consistent source (by simpa using hclient)).1
    have hnone : theirs s [source] = fun _ => false := by
      funext m
      rw [htheirs m, hnil]
      simp
    have hrefl := departed_refl s h
    have hexit : exitOneClient env s source =
        { s with clients := update s.clients source none } := by
      unfold exitOneClient
      rw [if_neg hclient]
    have hnil' : theirs s [] = fun _ => false := funext fun m => theirs_nil s m
    rw [hexit]
    refine ⟨fun m => ?_, fun chptr => ?_, fun p => ?_, hrefl.table, rfl, rfl, rfl⟩
    · rw [hnone]
      rfl
    · rw [hnone, ← hnil']
      exact hrefl.channels chptr
    · by_cases hp : p = source
      · rw [hp, if_pos (List.mem_singleton_self _)]
        exact update_self _ _ _
      · rw [if_neg (by simpa using hp)]
        exact update_of_ne hp _ _

end IrcdHybrid.Departure
