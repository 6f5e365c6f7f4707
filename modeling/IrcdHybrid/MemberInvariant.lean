import IrcdHybrid.MemberLists

/-!
The lists of memberships stay consistent. Making and finding a channel, adding and
removing a membership and destroying an empty channel each keep the invariant, and so
do the handlers, which are made of them. Between the making of a channel and its first
member the channel is empty; at the end of each handler none is.
-/

namespace IrcdHybrid.MemberInvariant

open CString SjoinHeader Index Function MemberLists
open Channels hiding Channel Membership addUserToChannel makeChannel
open Sjoin hiding hashFindChannel msSjoin sjoinChannel removeOurModes

section Find

variable (s : State) (h : Linked s) (client : ClientPtr) (chptr : ChannelPtr)

include h

theorem find_members_eq : (membersOf s chptr).find? (clientIs s client) =
    (channelsOf s client).find? (chptrIs s chptr) :=
  find_either (chanKey s) (clientKey s) (membersOf s) (channelsOf s) h.members h.channels h.simple
    chptr client

theorem findChannelLink_eq (hclient : isClient s client = true) :
    findChannelLink s client chptr = (membersOf s chptr).find? (clientIs s client) := by
  unfold findChannelLink
  rw [hclient, ← find_members_eq s h client chptr]
  split
  · next hfalse => exact absurd hfalse (by simp)
  · split <;> rfl

theorem findChannelLink_some (member : MemberPtr)
    (hfind : findChannelLink s client chptr = some member) :
    chanKey s member = some chptr ∧ clientKey s member = some client := by
  have hclient : isClient s client = true := by
    unfold findChannelLink at hfind
    split at hfind
    · simp at hfind
    · next hnot => simpa using hnot
  rw [findChannelLink_eq s h client chptr hclient] at hfind
  refine ⟨((h.members chptr).2 member).mp (List.mem_of_find?_eq_some hfind), ?_⟩
  have hp : clientIs s client member = true := List.find?_some hfind
  exact beq_iff_eq.mp hp

theorem not_isMember (hclient : isClient s client = true) (hnot : isMember s client chptr = false)
    (member : MemberPtr) (hkey : chanKey s member = some chptr) :
    clientKey s member ≠ some client := by
  unfold isMember at hnot
  rw [findChannelLink_eq s h client chptr hclient, Option.isSome_eq_false_iff,
    Option.isNone_iff_eq_none, List.find?_eq_none] at hnot
  have hmem := ((h.members chptr).2 member).mpr hkey
  exact fun heq => hnot member hmem (beq_iff_eq.mpr heq)

end Find

section Keys

variable (s s' : State)

section

variable (member : MemberPtr) (m : Option Membership) (h : s'.memberships = update s.memberships member m)

include h

theorem chanKey_update :
    chanKey s' = update (chanKey s) member (m.map Membership.chptr) := by
  funext member'
  unfold chanKey
  rw [h]
  by_cases hm : member' = member
  · rw [hm, update_self, update_self]
  · rw [update_of_ne hm, update_of_ne hm]

theorem clientKey_update :
    clientKey s' = update (clientKey s) member (m.map Membership.client) := by
  funext member'
  unfold clientKey
  rw [h]
  by_cases hm : member' = member
  · rw [hm, update_self, update_self]
  · rw [update_of_ne hm, update_of_ne hm]

theorem localKey_update (hconnect : myConnect s' = myConnect s) :
    localKey s' = update (localKey s) member
      (m.bind (fun m => if myConnect s m.client then some m.chptr else none)) := by
  funext member'
  unfold localKey
  rw [h, hconnect]
  by_cases hm : member' = member
  · rw [hm, update_self, update_self]
  · rw [update_of_ne hm, update_of_ne hm]

end

theorem clients_update (client : ClientPtr) (c c' : Client) (hc : s.clients client = some c)
    (h : s'.clients = update s.clients client (some c')) (hstatus : c'.status = c.status)
    (hconnect : c'.myConnect = c.myConnect) :
    isClient s' = isClient s ∧ myConnect s' = myConnect s := by
  constructor
  · funext p
    unfold isClient
    rw [h]
    by_cases hp : p = client
    · rw [hp, update_self, hc]
      exact congrArg (fun status => status == Status.client) hstatus
    · rw [update_of_ne hp]
  · funext p
    unfold myConnect
    rw [h]
    by_cases hp : p = client
    · rw [hp, update_self, hc]
      exact hconnect
    · rw [update_of_ne hp]

theorem strhash_congr (hashfXorKey : BitVec 32) (a b : CStr) (h : irccmp a b = 0) :
    strhash hashfXorKey a = strhash hashfXorKey b := by
  have hupper := (irccmp_eq_zero_iff a b).mp h
  have hlower : ∀ a b : CStr, a.map toUpper = b.map toUpper → a.map toLower = b.map toLower := by
    intro a
    induction a with
    | nil =>
      intro b hb
      rw [List.map_eq_nil_iff.mp hb.symm]
    | cons c a ih =>
      intro b hb
      cases b with
      | nil => simp at hb
      | cons d b =>
        rw [List.map_cons, List.map_cons, List.cons.injEq] at hb
        rw [List.map_cons, List.map_cons, (toUpper_eq_iff c d).mp hb.1, ih b hb.2]
  have hnil : a = [] ↔ b = [] := by
    have hmap := congrArg (fun s => s = []) hupper
    simpa using hmap
  unfold strhash
  rw [hlower a b hupper]
  by_cases ha : a = []
  · rw [if_pos ha, if_pos (hnil.mp ha)]
  · rw [if_neg ha, if_neg (fun hb => ha (hnil.mpr hb))]

/-- A channel keeps its place in the hash, whatever becomes of its lists and, but for the name,
of the rest. -/
theorem hashed_update (h : Hashed s) (chptr : ChannelPtr) (c c' : Channel)
    (hc : s.channels chptr = some c) (hchannels : s'.channels = update s.channels chptr (some c'))
    (hkey : s'.hashfXorKey = s.hashfXorKey) (htable : s'.channelTable = s.channelTable)
    (hnext : s'.nextChannel = s.nextChannel) (hname : irccmp c'.name c.name = 0)
    (hbuffers : c'.name.length ≤ CHANNELLEN ∧ c'.mode.key.length ≤ KEYLEN) : Hashed s' := by
  have hold : ∀ p d', s'.channels p = some d' → ∃ d, s.channels p = some d ∧
      irccmp d'.name d.name = 0 ∧ d'.name.length ≤ CHANNELLEN ∧ d'.mode.key.length ≤ KEYLEN := by
    intro p d' hd'
    rw [hchannels] at hd'
    by_cases hp : p = chptr
    · rw [hp, update_self] at hd'
      obtain rfl := Option.some.inj hd'
      exact ⟨c, by rw [hp, hc], hname, hbuffers⟩
    · rw [update_of_ne hp] at hd'
      exact ⟨d', hd', irccmp_self _, h.buffers p d' hd'⟩
  constructor
  · have htableKey : tableKey s' = tableKey s := by
      funext p
      unfold tableKey
      rw [hchannels, hkey]
      by_cases hp : p = chptr
      · rw [hp, update_self, hc, Option.map_some, Option.map_some, strhash_congr _ _ _ hname]
      · rw [update_of_ne hp]
    rw [htableKey, htable]
    exact h.table
  · intro p p' d d' hd hd' hsame
    obtain ⟨e, he, hde, _⟩ := hold p d hd
    obtain ⟨e', he', hde', _⟩ := hold p' d' hd'
    have hee' := irccmp_trans_zero _ _ _ ((irccmp_comm_zero _ _).mp hde)
      (irccmp_trans_zero _ _ _ hsame hde')
    exact h.distinct p p' e e' he he' hee'
  · intro p d hd
    obtain ⟨e, _, _, hlen⟩ := hold p d hd
    exact hlen
  · intro p hp
    have hne : p ≠ chptr := by
      intro heq
      rw [heq, hnext] at hp
      simp [h.fresh chptr hp] at hc
    rw [hchannels, update_of_ne hne]
    exact h.fresh p (hnext ▸ hp)

/-- A membership comes or goes, and with it its place in the three lists. -/
theorem listed_consistent (h : Consistent s) (member : MemberPtr) (m : Option Membership)
    (chptr : ChannelPtr) (who : ClientPtr) (c : Channel) (cl : Client)
    (members locmembers channel : List MemberPtr) (next : ℕ) (hc : s.channels chptr = some c)
    (hcl : s.clients who = some cl) (heq : s' = { s with
        memberships := update s.memberships member m
        channels := update s.channels chptr (some { c with members := members, locmembers := locmembers })
        clients := update s.clients who (some { cl with channel := channel })
        nextMember := next })
    (hmembers : Indexes (update (chanKey s) member (m.map Membership.chptr))
      (update (membersOf s) chptr members)) (hlocmembers : Indexes
      (update (localKey s) member (m.bind fun m => if myConnect s m.client then some m.chptr else none))
      (update (locmembersOf s) chptr locmembers))
    (hchannel : Indexes (update (clientKey s) member (m.map Membership.client))
      (update (channelsOf s) who channel))
    (hsimple : Simple (update (chanKey s) member (m.map Membership.chptr))
      (update (clientKey s) member (m.map Membership.client)))
    (hclient : ∀ m', m = some m' → isClient s m'.client = true)
    (hfresh : ∀ member', next ≤ member' → update s.memberships member m member' = none) :
    Consistent s' := by
  have hmember : s'.memberships = update s.memberships member m := by rw [heq]
  have hchannels : s'.channels =
      update s.channels chptr (some { c with members := members, locmembers := locmembers }) := by
    rw [heq]
  have hclients : s'.clients = update s.clients who (some { cl with channel := channel }) := by
    rw [heq]
  obtain ⟨hisClient, hconnect⟩ := clients_update s s' who cl _ hcl hclients rfl rfl
  have hchanKey := chanKey_update s s' _ _ hmember
  have hclientKey := clientKey_update s s' _ _ hmember
  refine ⟨hashed_update s s' h.hashed chptr c _ hc hchannels (by rw [heq]) (by rw [heq])
    (by rw [heq]) (irccmp_self _) (h.hashed.buffers chptr c hc), ?_, ?_⟩
  · constructor
    · rwa [hchanKey, membersOf_update s s' chptr _ hchannels]
    · rwa [localKey_update s s' _ _ hmember hconnect, locmembersOf_update s s' chptr _ hchannels]
    · rwa [hclientKey, channelsOf_update s s' who _ hclients]
    · rwa [hchanKey, hclientKey]
    · intro member' m' hm'
      rw [hisClient]
      rw [hmember] at hm'
      by_cases hcase : member' = member
      · rw [hcase, update_self] at hm'
        exact hclient m' hm'
      · rw [update_of_ne hcase] at hm'
        exact h.linked.clients member' m' hm'
    · intro member' hle
      rw [hmember]
      exact hfresh member' (by rwa [heq] at hle)
  · intro who' hwho client honline
    rw [hisClient]
    rw [heq] at hwho
    exact h.whowas who' hwho client honline

end Keys

section Add

variable (s : State) (h : Consistent s) (chptr : ChannelPtr) (who : ClientPtr) (flags : Flags)

theorem addUserToChannel_eq (c : Channel) (cl : Client) (hc : s.channels chptr = some c)
    (hcl : s.clients who = some cl) :
    addUserToChannel s chptr who flags = { s with
      memberships := update s.memberships s.nextMember (some ⟨who, chptr, flags⟩)
      channels := update s.channels chptr (some { c with
        members := s.nextMember :: c.members
        locmembers := if cl.myConnect then s.nextMember :: c.locmembers else c.locmembers })
      clients := update s.clients who (some { cl with channel := s.nextMember :: cl.channel })
      nextMember := s.nextMember + 1 } := by
  simp [addUserToChannel, modifyChannel, modifyClient, myConnect, hc, hcl]

include h

theorem addUserToChannel_consistent (hc : ∃ c, s.channels chptr = some c)
    (hclient : isClient s who = true) (hnot : isMember s who chptr = false) :
    Consistent (addUserToChannel s chptr who flags) := by
  obtain ⟨c, hc⟩ := hc
  obtain ⟨cl, hcl, hstatus⟩ := (isClient_iff s who).mp hclient
  have hlinked := h.linked
  have hfresh := hlinked.fresh s.nextMember le_rfl
  have hnew := not_isMember s hlinked who chptr hclient hnot
  have hchan : chanKey s s.nextMember = none := by simp [chanKey, hfresh]
  have hclientKey : clientKey s s.nextMember = none := by simp [clientKey, hfresh]
  have hlocal : localKey s s.nextMember = none := by simp [localKey, hfresh]
  refine listed_consistent s _ h _ _ chptr who c cl _ _ _ _ hc hcl
    (addUserToChannel_eq s chptr who flags c cl hc hcl) ?_ ?_ ?_ ?_ ?_ ?_
  · rw [← membersOf_some s chptr c hc]
    exact indexes_insert _ _ _ chptr hlinked.members hchan
  · have hcase : myConnect s who = cl.myConnect := by
      unfold myConnect
      rw [hcl]
    rw [← locmembersOf_some s chptr c hc]
    simp only [Option.bind_some, hcase]
    cases cl.myConnect with
    | true => exact indexes_insert _ _ _ chptr hlinked.locmembers hlocal
    | false =>
      simp only [Bool.false_eq_true, if_false]
      rw [← hlocal, update_eq_self, update_eq_self]
      exact hlinked.locmembers
  · rw [← channelsOf_some s who cl hcl]
    exact indexes_insert _ _ _ who hlinked.channels hclientKey
  · exact simple_insert _ _ hlinked.simple _ chptr who hnew
  · intro m hm
    rw [← Option.some.inj hm]
    exact hclient
  · intro member hle
    rw [update_of_ne (Nat.ne_of_gt hle)]
    exact hlinked.fresh member (Nat.le_of_lt hle)

end Add

section Remove

variable (s : State)

theorem chanKey_of_localKey (member : MemberPtr) (chptr : ChannelPtr)
    (hlocal : localKey s member = some chptr) : chanKey s member = some chptr := by
  unfold localKey at hlocal
  obtain ⟨m, hm, hif⟩ := Option.bind_eq_some_iff.mp hlocal
  split at hif
  · unfold chanKey
    rw [hm, Option.map_some, hif]
  · simp at hif

theorem ends_of_member (h : Linked s) (member : MemberPtr) (m : Membership)
    (hm : s.memberships member = some m) :
    (∃ c, s.channels m.chptr = some c) ∧ ∃ cl, s.clients m.client = some cl := by
  have hmem : member ∈ membersOf s m.chptr := ((h.members m.chptr).2 member).mpr (by
    unfold chanKey
    rw [hm, Option.map_some])
  obtain ⟨cl, hcl, _⟩ := (isClient_iff s m.client).mp (h.clients member m hm)
  refine ⟨?_, cl, hcl⟩
  unfold membersOf at hmem
  cases hc : s.channels m.chptr with
  | none => simp [hc] at hmem
  | some c => exact ⟨c, rfl⟩

theorem destroyChannel_consistent (h : Consistent s) (chptr : ChannelPtr)
    (hempty : membersOf s chptr = []) : Consistent (destroyChannel s chptr) := by
  unfold destroyChannel
  cases hc : s.channels chptr with
  | none => exact h
  | some c =>
    have hhashed := h.hashed
    have hlinked := h.linked
    dsimp only
    generalize hs' : ({ s with
        channels := update s.channels chptr none
        channelTable := update s.channelTable (strhash s.hashfXorKey c.name)
          ((s.channelTable (strhash s.hashfXorKey c.name)).erase chptr) } : State) = s'
    have hchannels : s'.channels = update s.channels chptr none := by rw [← hs']
    have hnobody : locmembersOf s chptr = [] := by
      refine List.eq_nil_iff_forall_not_mem.mpr fun member hmem => ?_
      have hkey := chanKey_of_localKey s member chptr (((hlinked.locmembers chptr).2 member).mp hmem)
      have hin := ((hlinked.members chptr).2 member).mpr hkey
      rw [hempty] at hin
      exact absurd hin (by simp)
    have hmembers : membersOf s' = membersOf s := by
      funext p
      by_cases hp : p = chptr
      · rw [hp, hempty]
        unfold membersOf
        rw [hchannels, update_self]
      · unfold membersOf
        rw [hchannels, update_of_ne hp]
    have hlocmembers : locmembersOf s' = locmembersOf s := by
      funext p
      by_cases hp : p = chptr
      · rw [hp, hnobody]
        unfold locmembersOf
        rw [hchannels, update_self]
      · unfold locmembersOf
        rw [hchannels, update_of_ne hp]
    have hold : ∀ p d, s'.channels p = some d → s.channels p = some d := by
      intro p d hd
      rw [hchannels] at hd
      by_cases hp : p = chptr
      · rw [hp, update_self] at hd
        simp at hd
      · rwa [update_of_ne hp] at hd
    have hkey : tableKey s chptr = some (strhash s.hashfXorKey c.name) := by
      unfold tableKey
      rw [hc, Option.map_some]
    have htableKey : tableKey s' = update (tableKey s) chptr none := by
      funext p
      unfold tableKey
      rw [hchannels, ← hs']
      by_cases hp : p = chptr
      · rw [hp, update_self, update_self, Option.map_none]
      · rw [update_of_ne hp, update_of_ne hp]
    refine ⟨⟨?_, ?_, ?_, ?_⟩, ?_, ?_⟩
    · rw [htableKey, ← hs']
      exact indexes_delete _ _ _ _ hhashed.table hkey
    · exact fun p p' d d' hd hd' => hhashed.distinct p p' d d' (hold p d hd) (hold p' d' hd')
    · exact fun p d hd => hhashed.buffers p d (hold p d hd)
    · intro p hp
      have hnone := hhashed.fresh p (by rwa [← hs'] at hp)
      rw [hchannels]
      by_cases hpc : p = chptr
      · rw [hpc, update_self]
      · rw [update_of_ne hpc, hnone]
    · refine ⟨?_, ?_, ?_, ?_, ?_, ?_⟩
      · rw [hmembers, ← hs']
        exact hlinked.members
      · rw [hlocmembers, ← hs']
        exact hlinked.locmembers
      · rw [← hs']
        exact hlinked.channels
      · rw [← hs']
        exact hlinked.simple
      · rw [← hs']
        exact hlinked.clients
      · rw [← hs']
        exact hlinked.fresh
    · rw [← hs']
      exact h.whowas

/-- The lists without the membership, before the channel may be destroyed. -/
theorem removeUserFromChannel_eq (member : MemberPtr) (m : Membership) (c : Channel) (cl : Client)
    (hm : s.memberships member = some m) (hc : s.channels m.chptr = some c)
    (hcl : s.clients m.client = some cl) : ∃ s' : State,
      removeUserFromChannel s member =
        (if membersOf s' m.chptr = [] then destroyChannel s' m.chptr else s') ∧
      s' = { s with
        memberships := update s.memberships member none
        channels := update s.channels m.chptr (some { c with
          members := c.members.erase member
          locmembers := if cl.myConnect then c.locmembers.erase member else c.locmembers })
        clients := update s.clients m.client (some { cl with channel := cl.channel.erase member }) } := by
  refine ⟨_, ?_, rfl⟩
  simp [removeUserFromChannel, modifyChannel, modifyClient, myConnect, hm, hc, hcl]

theorem removed_consistent (h : Consistent s) (s' : State) (member : MemberPtr) (m : Membership)
    (c : Channel) (cl : Client) (hm : s.memberships member = some m)
    (hc : s.channels m.chptr = some c) (hcl : s.clients m.client = some cl) (heq : s' = { s with
        memberships := update s.memberships member none
        channels := update s.channels m.chptr (some { c with
          members := c.members.erase member
          locmembers := if cl.myConnect then c.locmembers.erase member else c.locmembers })
        clients := update s.clients m.client (some { cl with channel := cl.channel.erase member }) }) :
    Consistent s' := by
  have hlinked := h.linked
  have hchan : chanKey s member = some m.chptr := by
    unfold chanKey
    rw [hm, Option.map_some]
  have hclient : clientKey s member = some m.client := by
    unfold clientKey
    rw [hm, Option.map_some]
  have hlocal : localKey s member = if cl.myConnect then some m.chptr else none := by
    unfold localKey myConnect
    rw [hm, Option.bind_some, hcl]
  refine listed_consistent s s' h member none m.chptr m.client c cl _ _ _ s.nextMember hc hcl heq
    ?_ ?_ ?_ (simple_delete _ _ hlinked.simple _) (by simp) ?_
  · rw [← membersOf_some s m.chptr c hc]
    exact indexes_delete _ _ _ _ hlinked.members hchan
  · rw [← locmembersOf_some s m.chptr c hc]
    cases hcase : cl.myConnect with
    | true =>
      rw [hcase] at hlocal
      exact indexes_delete _ _ _ _ hlinked.locmembers hlocal
    | false =>
      have hnone : localKey s member = none := by rw [hlocal, hcase]; rfl
      simp only [Bool.false_eq_true, if_false, Option.bind_none]
      rw [← hnone, update_eq_self, update_eq_self]
      exact hlinked.locmembers
  · rw [← channelsOf_some s m.client cl hcl]
    exact indexes_delete _ _ _ _ hlinked.channels hclient
  · intro member' hle
    by_cases hcase : member' = member
    · rw [hcase, update_self]
    · rw [update_of_ne hcase, hlinked.fresh member' hle]

theorem removeUserFromChannel_consistent (h : Consistent s) (member : MemberPtr) :
    Consistent (removeUserFromChannel s member) := by
  cases hm : s.memberships member with
  | none =>
    unfold removeUserFromChannel
    rw [hm]
    exact h
  | some m =>
    obtain ⟨⟨c, hc⟩, cl, hcl⟩ := ends_of_member s h.linked member m hm
    obtain ⟨s', hremove, heq⟩ := removeUserFromChannel_eq s member m c cl hm hc hcl
    have hs' := removed_consistent s h s' member m c cl hm hc hcl heq
    rw [hremove]
    split
    · next hempty => exact destroyChannel_consistent s' hs' m.chptr hempty
    · exact hs'

end Remove

section Hash

variable (s : State) (h : Consistent s)

include h

theorem withTable_consistent (table : ℕ → List ChannelPtr) (htable : Indexes (tableKey s) table) :
    Consistent { s with channelTable := table } :=
  ⟨⟨htable, h.hashed.distinct, h.hashed.buffers, h.hashed.fresh⟩,
    ⟨h.linked.members, h.linked.locmembers, h.linked.channels, h.linked.simple, h.linked.clients,
      h.linked.fresh⟩, h.whowas⟩

/-- The channel with the name is found if there is one; nothing changes but the order in its
bucket. -/
theorem hashFindChannel_spec (name : CStr) : ∃ table,
    (hashFindChannel s name).2 = { s with channelTable := table } ∧
      Consistent { s with channelTable := table } ∧
      (∀ chptr, (hashFindChannel s name).1 = some chptr →
        ∃ c, s.channels chptr = some c ∧ irccmp name c.name = 0) ∧
      ((hashFindChannel s name).1 = none →
        ∀ chptr c, s.channels chptr = some c → irccmp name c.name ≠ 0) := by
  unfold hashFindChannel
  dsimp only
  cases hfind : (s.channelTable (strhash s.hashfXorKey name)).find? (named s name) with
  | none =>
    refine ⟨s.channelTable, rfl, h, by simp, fun _ chptr c hc hname => ?_⟩
    have hkey : tableKey s chptr = some (strhash s.hashfXorKey name) := by
      unfold tableKey
      rw [hc, Option.map_some, strhash_congr _ _ _ hname]
    have hmem := ((h.hashed.table _).2 chptr).mpr hkey
    refine List.find?_eq_none.mp hfind chptr hmem ?_
    unfold named
    rw [hc]
    exact decide_eq_true hname
  | some chptr =>
    have hkey := ((h.hashed.table _).2 chptr).mp (List.mem_of_find?_eq_some hfind)
    have hnamed : named s name chptr = true := List.find?_some hfind
    refine ⟨_, rfl, withTable_consistent s h _ (indexes_toFront _ _ _ _ h.hashed.table hkey), ?_,
      by simp⟩
    intro chptr' heq
    obtain rfl := Option.some.inj heq
    unfold named at hnamed
    cases hc : s.channels chptr with
    | none => simp [hc] at hnamed
    | some c =>
      rw [hc] at hnamed
      exact ⟨c, rfl, of_decide_eq_true hnamed⟩

theorem makeChannel_consistent (env : Env) (name : CStr) (hlen : name.length ≤ CHANNELLEN)
    (hnew : ∀ chptr c, s.channels chptr = some c → irccmp name c.name ≠ 0) :
    Consistent (makeChannel env s name).2 := by
  have hname : strlcpy name (CHANNELLEN + 1) = name := strlcpy_of_le name CHANNELLEN hlen
  have hnone := h.hashed.fresh s.nextChannel le_rfl
  have hempty : membersOf s s.nextChannel = [] ∧ locmembersOf s s.nextChannel = [] := by
    unfold membersOf locmembersOf
    rw [hnone]
    exact ⟨rfl, rfl⟩
  unfold makeChannel
  dsimp only
  rw [hname]
  generalize hs' : ({ s with
      channels := update s.channels s.nextChannel (some ⟨name, env.currentTime, noModes, [], []⟩)
      channelTable := update s.channelTable (strhash s.hashfXorKey name)
        (s.nextChannel :: s.channelTable (strhash s.hashfXorKey name))
      nextChannel := s.nextChannel + 1 } : State) = s'
  have hchannels : s'.channels =
      update s.channels s.nextChannel (some ⟨name, env.currentTime, noModes, [], []⟩) := by
    rw [← hs']
  have hmembers : membersOf s' = membersOf s := by
    rw [membersOf_update s s' _ _ hchannels, ← hempty.1, update_eq_self]
  have hlocmembers : locmembersOf s' = locmembersOf s := by
    rw [locmembersOf_update s s' _ _ hchannels, ← hempty.2, update_eq_self]
  have htableKey : tableKey s' =
      update (tableKey s) s.nextChannel (some (strhash s.hashfXorKey name)) := by
    funext p
    unfold tableKey
    rw [hchannels, ← hs']
    by_cases hp : p = s.nextChannel
    · rw [hp, update_self, update_self, Option.map_some]
    · rw [update_of_ne hp, update_of_ne hp]
  have hold : ∀ p d, p ≠ s.nextChannel → s'.channels p = some d → s.channels p = some d := by
    intro p d hp hd
    rwa [hchannels, update_of_ne hp] at hd
  have hself : ∀ d, s'.channels s.nextChannel = some d →
      d = ⟨name, env.currentTime, noModes, [], []⟩ := by
    intro d hd
    rw [hchannels, update_self] at hd
    exact (Option.some.inj hd).symm
  refine ⟨⟨?_, ?_, ?_, ?_⟩, ⟨?_, ?_, ?_, ?_, ?_, ?_⟩, ?_⟩
  · rw [htableKey, ← hs']
    exact indexes_insert _ _ _ _ h.hashed.table (by simp [tableKey, hnone])
  · intro p p' d d' hd hd' hsame
    by_cases hp : p = s.nextChannel
    · rw [hp] at hd
      rw [hself d hd] at hsame
      by_cases hp' : p' = s.nextChannel
      · rw [hp, hp']
      · exact absurd hsame (hnew p' d' (hold p' d' hp' hd'))
    · by_cases hp' : p' = s.nextChannel
      · rw [hp'] at hd'
        rw [hself d' hd', irccmp_comm_zero] at hsame
        exact absurd hsame (hnew p d (hold p d hp hd))
      · exact h.hashed.distinct p p' d d' (hold p d hp hd) (hold p' d' hp' hd') hsame
  · intro p d hd
    by_cases hp : p = s.nextChannel
    · rw [hp] at hd
      rw [hself d hd]
      exact ⟨hlen, Nat.zero_le _⟩
    · exact h.hashed.buffers p d (hold p d hp hd)
  · intro p hp
    have hlt : s.nextChannel < p := by rwa [← hs'] at hp
    rw [hchannels, update_of_ne (Nat.ne_of_gt hlt)]
    exact h.hashed.fresh p (Nat.le_of_lt hlt)
  · rw [hmembers, ← hs']
    exact h.linked.members
  · rw [hlocmembers, ← hs']
    exact h.linked.locmembers
  · rw [← hs']
    exact h.linked.channels
  · rw [← hs']
    exact h.linked.simple
  · rw [← hs']
    exact h.linked.clients
  · rw [← hs']
    exact h.linked.fresh
  · rw [← hs']
    exact h.whowas

end Hash

section Beside

variable (s : State) (h : Consistent s)

include h

theorem withMemberships_consistent (f : MemberPtr → Option Membership)
    (hchan : ∀ member, (f member).map Membership.chptr = chanKey s member)
    (hclient : ∀ member, (f member).map Membership.client = clientKey s member) :
    Consistent { s with memberships := f } := by
  have hends : ∀ member m, f member = some m → ∃ m', s.memberships member = some m' ∧
      m'.chptr = m.chptr ∧ m'.client = m.client := by
    intro member m hm
    have hc := hchan member
    have hcl := hclient member
    unfold chanKey at hc
    unfold clientKey at hcl
    rw [hm, Option.map_some] at hc hcl
    obtain ⟨m', hm', hc'⟩ := Option.map_eq_some_iff.mp hc.symm
    rw [hm', Option.map_some] at hcl
    exact ⟨m', hm', hc', (Option.some.inj hcl).symm⟩
  have hnone : ∀ member, s.memberships member = none → f member = none := by
    intro member hm
    have hc := hchan member
    unfold chanKey at hc
    rwa [hm, Option.map_none, Option.map_eq_none_iff] at hc
  have hlocal : localKey { s with memberships := f } = localKey s := by
    funext member
    unfold localKey
    cases hm : f member with
    | none =>
      have hc := hchan member
      unfold chanKey at hc
      rw [hm, Option.map_none, eq_comm, Option.map_eq_none_iff] at hc
      rw [hc]
      simp [hm]
    | some m =>
      obtain ⟨m', hm', hc, hcl⟩ := hends member m hm
      rw [hm', Option.bind_some, hc, hcl]
      simp only [hm, Option.bind_some]
      rfl
  refine ⟨⟨h.hashed.table, h.hashed.distinct, h.hashed.buffers, h.hashed.fresh⟩,
    ⟨?_, ?_, ?_, ?_, ?_, ?_⟩, h.whowas⟩
  · rw [show chanKey { s with memberships := f } = chanKey s from funext hchan]
    exact h.linked.members
  · rw [hlocal]
    exact h.linked.locmembers
  · rw [show clientKey { s with memberships := f } = clientKey s from funext hclient]
    exact h.linked.channels
  · rw [show chanKey { s with memberships := f } = chanKey s from funext hchan,
      show clientKey { s with memberships := f } = clientKey s from funext hclient]
    exact h.linked.simple
  · intro member m hm
    obtain ⟨m', hm', _, hcl⟩ := hends member m hm
    rw [← hcl]
    exact h.linked.clients member m' hm'
  · exact fun member hle => hnone member (h.linked.fresh member hle)

/-- A channel may change all but its lists and, but for the case, its name. -/
theorem modifyChannel_consistent (chptr : ChannelPtr) (f : Channel → Channel)
    (hmembers : ∀ c, (f c).members = c.members) (hloc : ∀ c, (f c).locmembers = c.locmembers)
    (hname : ∀ c, s.channels chptr = some c → irccmp (f c).name c.name = 0 ∧
      (f c).name.length ≤ CHANNELLEN ∧ (f c).mode.key.length ≤ KEYLEN) :
    Consistent (modifyChannel s chptr f) := by
  cases hc : s.channels chptr with
  | none =>
    have hsame : modifyChannel s chptr f = s := by
      unfold modifyChannel
      rw [hc, Option.map_none, ← hc, update_eq_self]
    rwa [hsame]
  | some c =>
    obtain ⟨hfold, hbuffers⟩ := hname c hc
    have hchannels : (modifyChannel s chptr f).channels = update s.channels chptr (some (f c)) := by
      unfold modifyChannel
      rw [hc, Option.map_some]
    have hmembersOf : membersOf (modifyChannel s chptr f) = membersOf s := by
      rw [membersOf_update s _ chptr (f c) hchannels, hmembers c, ← membersOf_some s chptr c hc,
        update_eq_self]
    have hlocmembersOf : locmembersOf (modifyChannel s chptr f) = locmembersOf s := by
      rw [locmembersOf_update s _ chptr (f c) hchannels, hloc c, ← locmembersOf_some s chptr c hc,
        update_eq_self]
    refine ⟨hashed_update s _ h.hashed chptr c (f c) hc hchannels rfl rfl rfl hfold hbuffers,
      ⟨?_, ?_, h.linked.channels, h.linked.simple, h.linked.clients, h.linked.fresh⟩, h.whowas⟩
    · rw [hmembersOf]
      exact h.linked.members
    · rw [hlocmembersOf]
      exact h.linked.locmembers

theorem clientKey_isClient (member : MemberPtr) (client : ClientPtr)
    (hkey : clientKey s member = some client) : isClient s client = true := by
  unfold clientKey at hkey
  obtain ⟨m, hm, rfl⟩ := Option.map_eq_some_iff.mp hkey
  exact h.linked.clients member m hm

/-- A client on no channel may come, go or become another. -/
theorem withClient_consistent (client : ClientPtr) (x : Option Client)
    (hempty : channelsOf s client = []) (hx : ∀ c, x = some c → c.channel = [])
    (hwho : ∀ who ∈ s.whowas, who.online ≠ some client) :
    Consistent { s with clients := update s.clients client x } := by
  generalize hs' : ({ s with clients := update s.clients client x } : State) = s'
  have hclients : s'.clients = update s.clients client x := by rw [← hs']
  have hnobody : ∀ member m, s.memberships member = some m → m.client ≠ client := by
    intro member m hm heq
    have hkey : clientKey s member = some client := by
      unfold clientKey
      rw [hm, Option.map_some, heq]
    have hmem := ((h.linked.channels client).2 member).mpr hkey
    rw [hempty] at hmem
    exact absurd hmem (by simp)
  have hother : ∀ p, p ≠ client → isClient s' p = isClient s p ∧ myConnect s' p = myConnect s p := by
    intro p hp
    unfold isClient myConnect
    rw [hclients, update_of_ne hp]
    exact ⟨rfl, rfl⟩
  have hchannelsOf : channelsOf s' = channelsOf s := by
    funext p
    by_cases hp : p = client
    · rw [hp, hempty]
      unfold channelsOf
      rw [hclients, update_self]
      cases x with
      | none => rfl
      | some c => exact hx c rfl
    · unfold channelsOf
      rw [hclients, update_of_ne hp]
  have hlocal : localKey s' = localKey s := by
    funext member
    unfold localKey
    rw [← hs']
    cases hm : s.memberships member with
    | none => rfl
    | some m =>
      rw [Option.bind_some, Option.bind_some, hs', (hother m.client (hnobody member m hm)).2]
  refine ⟨?_, ⟨?_, ?_, ?_, ?_, ?_, ?_⟩, ?_⟩
  · rw [← hs']
    exact ⟨h.hashed.table, h.hashed.distinct, h.hashed.buffers, h.hashed.fresh⟩
  · rw [← hs']
    exact h.linked.members
  · rw [hlocal, ← hs']
    exact h.linked.locmembers
  · rw [hchannelsOf, ← hs']
    exact h.linked.channels
  · rw [← hs']
    exact h.linked.simple
  · intro member m hm
    have hm' : s.memberships member = some m := by rwa [← hs'] at hm
    rw [(hother m.client (hnobody member m hm')).1]
    exact h.linked.clients member m hm'
  · rw [← hs']
    exact h.linked.fresh
  · intro who hmem p honline
    have hmem' : who ∈ s.whowas := by rwa [← hs'] at hmem
    have hp : p ≠ client := fun heq => hwho who hmem' (heq ▸ honline)
    rw [(hother p hp).1]
    exact h.whowas who hmem' p honline

/-- What is no client yet is on no channel, and not in the history. -/
theorem not_isClient (client : ClientPtr) (hnot : isClient s client = false) :
    channelsOf s client = [] ∧ ∀ who ∈ s.whowas, who.online ≠ some client := by
  refine ⟨List.eq_nil_iff_forall_not_mem.mpr fun member hmem => ?_, fun who hmem honline => ?_⟩
  · have hkey := ((h.linked.channels client).2 member).mp hmem
    rw [clientKey_isClient s h member client hkey] at hnot
    exact absurd hnot (by simp)
  · rw [h.whowas who hmem client honline] at hnot
    exact absurd hnot (by simp)

theorem withWhowas_consistent (whowas : List Whowas)
    (hwho : ∀ who ∈ whowas, ∀ client, who.online = some client → isClient s client = true) :
    Consistent { s with whowas := whowas } :=
  ⟨⟨h.hashed.table, h.hashed.distinct, h.hashed.buffers, h.hashed.fresh⟩,
    ⟨h.linked.members, h.linked.locmembers, h.linked.channels, h.linked.simple, h.linked.clients,
      h.linked.fresh⟩, hwho⟩

theorem whowasAddHistory_consistent (env : Env) (client : ClientPtr) (online : Bool)
    (hclient : isClient s client = true) : Consistent (whowasAddHistory env s client online) := by
  obtain ⟨c, hc, _⟩ := (isClient_iff s client).mp hclient
  unfold whowasAddHistory
  rw [hc]
  refine withWhowas_consistent s h _ fun who hmem p honline => ?_
  rcases List.mem_cons.mp (List.mem_of_mem_take hmem) with rfl | hold
  · cases online with
    | false => simp at honline
    | true =>
      obtain rfl : client = p := by simpa using honline
      exact hclient
  · exact h.whowas who hold p honline

theorem whowasOffHistory_consistent (client : ClientPtr) :
    Consistent (whowasOffHistory s client) ∧
      ∀ who ∈ (whowasOffHistory s client).whowas, who.online ≠ some client := by
  have hmem : ∀ who ∈ (whowasOffHistory s client).whowas, who.online ≠ some client ∧
      ∀ p, who.online = some p → ∃ old ∈ s.whowas, old.online = some p := by
    intro who hwho
    obtain ⟨old, hold, rfl⟩ := List.mem_map.mp hwho
    split
    · exact ⟨by simp, by simp⟩
    · next hne => exact ⟨hne, fun p honline => ⟨old, hold, honline⟩⟩
  refine ⟨withWhowas_consistent s h _ fun who hwho p honline => ?_,
    fun who hwho => (hmem who hwho).1⟩
  obtain ⟨old, hold, hp⟩ := (hmem who hwho).2 p honline
  exact h.whowas old hold p hp

theorem rename_consistent (client : ClientPtr) (name : CStr) :
    Consistent (modifyClient s client (fun c => { c with name := name })) := by
  cases hc : s.clients client with
  | none =>
    have hsame : modifyClient s client (fun c => { c with name := name }) = s := by
      unfold modifyClient
      rw [hc, Option.map_none, ← hc, update_eq_self]
    rwa [hsame]
  | some c =>
    have hclients : (modifyClient s client (fun c => { c with name := name })).clients =
        update s.clients client (some { c with name := name }) := by
      unfold modifyClient
      rw [hc, Option.map_some]
    obtain ⟨hisClient, hconnect⟩ := clients_update s _ client c _ hc hclients rfl rfl
    have hchannelsOf : channelsOf (modifyClient s client (fun c => { c with name := name })) =
        channelsOf s := by
      rw [channelsOf_update s _ client _ hclients, ← channelsOf_some s client c hc, update_eq_self]
    have hlocal : localKey (modifyClient s client (fun c => { c with name := name })) =
        localKey s := by
      funext member
      unfold localKey
      rw [hconnect]
      rfl
    refine ⟨⟨h.hashed.table, h.hashed.distinct, h.hashed.buffers, h.hashed.fresh⟩,
      ⟨h.linked.members, ?_, ?_, h.linked.simple, ?_, h.linked.fresh⟩, ?_⟩
    · rw [hlocal]
      exact h.linked.locmembers
    · rw [hchannelsOf]
      exact h.linked.channels
    · rw [hisClient]
      exact h.linked.clients
    · rw [hisClient]
      exact h.whowas

end Beside

structure Good (s : State) : Prop where
  consistent : Consistent s
  live : Live s

theorem live_of_but (s : State) (chptr : ChannelPtr) (h : LiveBut s chptr)
    (hne : ∀ c, s.channels chptr = some c → c.members ≠ []) : Live s := by
  intro p c hc
  by_cases hp : p = chptr
  · rw [hp] at hc
    exact hne c hc
  · exact h p c hp hc

theorem addUserToChannel_live (s : State) (chptr : ChannelPtr) (who : ClientPtr) (flags : Flags)
    (h : LiveBut s chptr) (hc : ∃ c, s.channels chptr = some c)
    (hclient : isClient s who = true) : Live (addUserToChannel s chptr who flags) := by
  obtain ⟨c, hc⟩ := hc
  obtain ⟨cl, hcl, _⟩ := (isClient_iff s who).mp hclient
  rw [addUserToChannel_eq s chptr who flags c cl hc hcl]
  intro p d hd
  by_cases hp : p = chptr
  · rw [hp] at hd
    rw [← Option.some.inj ((update_self chptr _ s.channels).symm.trans hd)]
    exact List.cons_ne_nil _ _
  · exact h p d hp ((update_of_ne hp _ s.channels).symm.trans hd)

theorem destroyChannel_channels (s : State) (chptr p : ChannelPtr) (c : Channel)
    (hc : (destroyChannel s chptr).channels p = some c) : p ≠ chptr ∧ s.channels p = some c := by
  unfold destroyChannel at hc
  cases hold : s.channels chptr with
  | none =>
    rw [hold] at hc
    refine ⟨fun hp => ?_, hc⟩
    rw [hp] at hc
    simp [hold] at hc
  | some d =>
    rw [hold] at hc
    by_cases hp : p = chptr
    · rw [hp] at hc
      exact absurd ((update_self chptr none s.channels).symm.trans hc) (by simp)
    · exact ⟨hp, (update_of_ne hp none s.channels).symm.trans hc⟩

theorem destroyChannel_live (s : State) (chptr : ChannelPtr) (h : LiveBut s chptr) :
    Live (destroyChannel s chptr) := by
  intro p c hc
  obtain ⟨hp, hold⟩ := destroyChannel_channels s chptr p c hc
  exact h p c hp hold

theorem destroyChannel_clients (s : State) (chptr : ChannelPtr) :
    (destroyChannel s chptr).clients = s.clients ∧ (destroyChannel s chptr).whowas = s.whowas := by
  unfold destroyChannel
  cases s.channels chptr with
  | none => exact ⟨rfl, rfl⟩
  | some c => exact ⟨rfl, rfl⟩

theorem removeUserFromChannel_good (s : State) (h : Good s) (member : MemberPtr) (m : Membership)
    (hm : s.memberships member = some m) :
    Good (removeUserFromChannel s member) ∧
      channelsOf (removeUserFromChannel s member) =
        update (channelsOf s) m.client ((channelsOf s m.client).erase member) ∧
      isClient (removeUserFromChannel s member) = isClient s ∧
      (removeUserFromChannel s member).whowas = s.whowas := by
  have hconsistent := removeUserFromChannel_consistent s h.consistent member
  obtain ⟨⟨c, hc⟩, cl, hcl⟩ := ends_of_member s h.consistent.linked member m hm
  obtain ⟨s', hremove, heq⟩ := removeUserFromChannel_eq s member m c cl hm hc hcl
  have hclients : s'.clients = update s.clients m.client
      (some { cl with channel := cl.channel.erase member }) := by rw [heq]
  have hchannels : s'.channels = update s.channels m.chptr (some { c with
      members := c.members.erase member
      locmembers := if cl.myConnect then c.locmembers.erase member else c.locmembers }) := by
    rw [heq]
  have hwhowas : s'.whowas = s.whowas := by rw [heq]
  have hbut : LiveBut s' m.chptr := by
    intro p d hp hd
    rw [hchannels, update_of_ne hp] at hd
    exact h.live p d hd
  have hchannelsOf := channelsOf_update s s' m.client _ hclients
  rw [← channelsOf_some s m.client cl hcl] at hchannelsOf
  obtain ⟨hisClient, _⟩ := clients_update s s' m.client cl _ hcl hclients rfl rfl
  obtain ⟨hdclients, hdwhowas⟩ := destroyChannel_clients s' m.chptr
  by_cases hempty : membersOf s' m.chptr = []
  · rw [if_pos hempty] at hremove
    rw [hremove] at hconsistent ⊢
    refine ⟨⟨hconsistent, destroyChannel_live s' m.chptr hbut⟩, ?_, ?_, hdwhowas.trans hwhowas⟩
    · rw [← hchannelsOf]
      unfold channelsOf
      rw [hdclients]
    · rw [← hisClient]
      unfold isClient
      rw [hdclients]
  · rw [if_neg hempty] at hremove
    rw [hremove] at hconsistent ⊢
    refine ⟨⟨hconsistent, live_of_but s' m.chptr hbut fun d hd => ?_⟩, hchannelsOf, hisClient,
      hwhowas⟩
    rwa [membersOf_some s' m.chptr d hd] at hempty

theorem channelDoJoin0_good (s : State) (h : Good s) (source : ClientPtr) :
    Good (channelDoJoin0 s source) ∧ channelsOf (channelDoJoin0 s source) source = [] ∧
      isClient (channelDoJoin0 s source) = isClient s ∧
      (channelDoJoin0 s source).whowas = s.whowas := by
  have hmem : ∀ s member, Good s → member ∈ channelsOf s source →
      ∃ m, s.memberships member = some m ∧ m.client = source := by
    intro s member hs hmember
    have hkey := ((hs.consistent.linked.channels source).2 member).mp hmember
    unfold clientKey at hkey
    exact Option.map_eq_some_iff.mp hkey
  obtain ⟨hwalk, ⟨hgood, hisClient, hwhowas⟩, hnil⟩ := walk_eq_foldl (fun s => channelsOf s source)
    removeUserFromChannel
    (fun t => Good t ∧ isClient t = isClient s ∧ t.whowas = s.whowas)
    (by
      intro t member ⟨ht, hisClient, hwhowas⟩ hmember
      obtain ⟨m, hm, _⟩ := hmem t member ht hmember
      obtain ⟨hgood, _, hsame, hsame'⟩ := removeUserFromChannel_good t ht member m hm
      exact ⟨hgood, hsame.trans hisClient, hsame'.trans hwhowas⟩)
    (by
      intro t member ⟨ht, _⟩ hmember
      obtain ⟨m, hm, hclient⟩ := hmem t member ht hmember
      obtain ⟨_, hlist, _⟩ := removeUserFromChannel_good t ht member m hm
      rw [hlist, hclient, update_self])
    s ⟨h, rfl, rfl⟩
  unfold channelDoJoin0
  rw [hwalk]
  exact ⟨hgood, hnil, hisClient, hwhowas⟩

theorem hashFindChannel_good (s : State) (h : Good s) (name : CStr) :
    Good (hashFindChannel s name).2 ∧ (hashFindChannel s name).2.memberships = s.memberships ∧
      (hashFindChannel s name).2.channels = s.channels ∧
      (hashFindChannel s name).2.clients = s.clients := by
  obtain ⟨table, heq, hconsistent, _⟩ := hashFindChannel_spec s h.consistent name
  rw [heq]
  exact ⟨⟨hconsistent, h.live⟩, rfl, rfl, rfl⟩

theorem removeLink_good (s : State) (h : Good s) (client : ClientPtr) (chptr : ChannelPtr)
    (member : MemberPtr) (hlink : findChannelLink s client chptr = some member) :
    Good (removeUserFromChannel s member) := by
  obtain ⟨hkey, _⟩ := findChannelLink_some s h.consistent.linked client chptr member hlink
  unfold chanKey at hkey
  obtain ⟨m, hm, _⟩ := Option.map_eq_some_iff.mp hkey
  exact (removeUserFromChannel_good s h member m hm).1

theorem channelDoPart_good (s : State) (h : Good s) (source : ClientPtr) (channel : CStr) :
    Good (channelDoPart s source channel) := by
  have hone : ∀ s, Good s → ∀ name, Good (channelPartOneClient s source name) := by
    intro s hs name
    obtain ⟨hgood, _⟩ := hashFindChannel_good s hs name
    unfold channelPartOneClient
    dsimp only
    split
    · exact hgood
    · next chptr _ =>
      split
      · exact hgood
      · next member hlink => exact removeLink_good _ hgood source chptr member hlink
  unfold channelDoPart
  generalize names channel = list
  induction list generalizing s with
  | nil => exact h
  | cons name list ih => exact ih _ (hone s h name)

theorem mKick_good (env : Env) (s : State) (h : Good s) (source : ClientPtr) (name target : CStr) :
    Good (mKick env s source name target) := by
  obtain ⟨hgood, _⟩ := hashFindChannel_good s h name
  unfold mKick
  dsimp only
  split
  · exact hgood
  · next chptr _ =>
    split
    · exact hgood
    · split
      · exact hgood
      · split
        · exact hgood
        · next targetPtr _ =>
          split
          · exact hgood
          · next member hlink =>
            split
            · exact hgood
            · exact removeLink_good _ hgood targetPtr chptr member hlink

theorem msKick_good (env : Env) (s : State) (h : Good s) (name target : CStr) :
    Good (msKick env s name target) := by
  obtain ⟨hgood, _⟩ := hashFindChannel_good s h name
  unfold msKick
  dsimp only
  split
  · exact hgood
  · next chptr _ =>
    split
    · exact hgood
    · next targetPtr _ =>
      split
      · exact hgood
      · next member hlink => exact removeLink_good _ hgood targetPtr chptr member hlink

theorem exitOneClient_good (env : Env) (s : State) (h : Good s) (source : ClientPtr) :
    Good (exitOneClient env s source) := by
  unfold exitOneClient
  by_cases hclient : isClient s source = true
  · obtain ⟨hgood, hnil, hisClient, _⟩ := channelDoJoin0_good s h source
    have hadd := whowasAddHistory_consistent _ hgood.consistent env source false
      (by rw [hisClient]; exact hclient)
    have hchannels : (whowasAddHistory env (channelDoJoin0 s source) source false).channels =
        (channelDoJoin0 s source).channels ∧
        (whowasAddHistory env (channelDoJoin0 s source) source false).clients =
          (channelDoJoin0 s source).clients := by
      unfold whowasAddHistory
      split <;> exact ⟨rfl, rfl⟩
    obtain ⟨hoff, honline⟩ := whowasOffHistory_consistent _ hadd source
    rw [if_pos hclient]
    refine ⟨withClient_consistent _ hoff source none ?_ (by simp) honline, ?_⟩
    · have hsame : channelsOf (whowasOffHistory
          (whowasAddHistory env (channelDoJoin0 s source) source false) source) source =
          channelsOf (channelDoJoin0 s source) source := by
        unfold channelsOf whowasOffHistory
        rw [hchannels.2]
      rw [hsame, hnil]
    · intro p c hc
      refine hgood.live p c ?_
      rw [← hchannels.1]
      exact hc
  · obtain ⟨hnil, honline⟩ := not_isClient s h.consistent source (by simpa using hclient)
    rw [if_neg hclient]
    exact ⟨withClient_consistent s h.consistent source none hnil (by simp) honline, h.live⟩

theorem recurseRemoveClients_good (env : Env) (servers : Servers) (s : State) (h : Good s) :
    Good (recurseRemoveClients env servers s) := by
  have hall : ∀ (clients : List ClientPtr) (s : State), Good s →
      Good (clients.foldl (exitOneClient env) s) := by
    intro clients
    induction clients with
    | nil => exact fun s hs => hs
    | cons client clients ih => exact fun s hs => ih _ (exitOneClient_good env s hs client)
  induction servers generalizing s with
  | nil => exact h
  | cons server clients behind rest ihbehind ihrest =>
    exact ihrest _ (exitOneClient_good env _ (ihbehind _ (hall clients s h)) server)

/-- A client that is found by name, by identifier or in the history is one. -/
theorem findChasing_isClient (env : Env) (s : State) (h : Consistent s) (fromServer : Bool)
    (name : CStr) (client : ClientPtr) (hfind : findChasing env s fromServer name = some client) :
    isClient s client = true := by
  unfold findChasing at hfind
  cases hperson : findPerson env s fromServer name with
  | some target =>
    rw [hperson] at hfind
    obtain rfl := Option.some.inj hfind
    unfold findPerson at hperson
    exact (Option.filter_eq_some_iff.mp hperson).2
  | none =>
    rw [hperson] at hfind
    dsimp only at hfind
    split at hfind
    · simp at hfind
    · unfold whowasGetHistory at hfind
      obtain ⟨who, hwho, honline⟩ := Option.bind_eq_some_iff.mp hfind
      exact h.whowas who (List.mem_of_find?_eq_some hwho) client honline

end IrcdHybrid.MemberInvariant
