import IrcdHybrid.BurstRun

/-!
The round trip of a channel. A server that knows the members of a channel but
not the channel has the same one after the burst, unless it does not believe
timestamps as old as the channel's.
-/

namespace IrcdHybrid.BurstRoundTrip

open CString BanMask Channels Packing Wire Burst Sjoin ChannelMode ChannelTable BurstLines BurstRun

theorem nodup_of_distinct (l : List Nuh) (h : Distinct l) : l.Nodup := by
  refine List.Pairwise.imp ?_ h
  rintro a b hab rfl
  rw [sameMask_self] at hab
  exact absurd hab (by decide)

theorem members_nodup (c : Channel) (h : WellFormed c) : c.members.Nodup :=
  List.Nodup.of_map Membership.id h.members_nodup

/-- The channel that a burst makes where there was none: the lists come out in reverse. -/
theorem receive_burst_none (link : Link) (sid : CStr) (t : Table) (c : Channel)
    (hlink : Linked link sid c) (h : Live c) (htime : 0 ≤ c.creationtime) (hts : Believed link c)
    (hnone : hashFindChannel t c.name = none) :
    hashFindChannel ((burst sid c).foldl (receive link) t) c.name =
      some (bmaskRuns sid c (fresh c c.members.reverse)) := by
  have hread := asRead_eq c htime h.wellFormed.time_lt
  rw [receive_burst link sid t c hlink h.wellFormed, hashFindChannel_setChannel, hnone,
    sjoinRun_none link sid c (by rwa [hread]) h, hread]
  rfl

theorem list_roundTrip (sid : CStr) (c : Channel) (type : ListType) (h : WellFormed c)
    (htime : 0 ≤ c.creationtime) :
    (bmaskRuns sid c (fresh c c.members.reverse)).list type = (c.list type).reverse := by
  have hempty : (fresh c c.members.reverse).list type = [] := by cases type <;> rfl
  rw [list_bmaskRuns, asRead_eq c htime h.time_lt, if_neg (by simp [fresh]), hempty,
    foldl_insertMask_new [] (c.list type) (h.lists_distinct type) (by simp), List.append_nil]

/-- The lines of the burst of any channel on the server. -/
theorem burst_roundTrip (home t : Table) (f sid : CStr) (c : Channel) (link : Link)
    (hreach : Reachable home) (hc : home f = some c) (htime : 0 ≤ c.creationtime)
    (hts : Believed link c) (hlink : Linked link sid c)
    (hnone : hashFindChannel t c.name = none) :
    (∀ line ∈ sendChannelModes sid c, line.length ≤ 510) ∧
    (∃ (gs : List (List Membership)) (bs : ListType → List (List Nuh)),
      sendChannelModes sid c = gs.map (sjoinLine sid c) ++
        ((bs .ban).map (bmaskLine sid c .ban) ++ (bs .exception).map (bmaskLine sid c .exception) ++
          (bs .invex).map (bmaskLine sid c .invex)) ∧
      gs.flatten = c.members ∧
      (∀ member ∈ c.members, gs.countP (fun g => decide (member ∈ g)) = 1) ∧
      ∀ type, (bs type).flatten = c.list type ∧
        ∀ n ∈ c.list type, (bs type).countP (fun g => decide (n ∈ g)) = 1) ∧
    ∃ c', hashFindChannel ((burst sid c).foldl (receive link) t) c.name = some c' ∧
      c'.name = c.name ∧ c'.creationtime = c.creationtime ∧ c'.mode = c.mode ∧
      c'.members.Perm c.members ∧ ∀ type, (c'.list type).Perm (c.list type) := by
  have h : Live c := reachable_live home hreach f c hc
  refine ⟨sendChannelModes_length sid c hlink.validSid h.wellFormed,
    ⟨memberGroups sid c, maskGroups sid c, sendChannelModes_eq sid c hlink.validSid h.wellFormed,
      flatten_memberGroups sid c, ?_, ?_⟩,
    bmaskRuns sid c (fresh c c.members.reverse),
    receive_burst_none link sid t c hlink h htime hts hnone, ?_, ?_, ?_, ?_, ?_⟩
  · intro member hmember
    rw [← flatten_memberGroups sid c] at hmember
    refine countP_groups _ member ?_ hmember
    rw [flatten_memberGroups]
    exact members_nodup c h.wellFormed
  · intro type
    refine ⟨flatten_maskGroups sid c type, fun n hn => ?_⟩
    rw [← flatten_maskGroups sid c type] at hn
    refine countP_groups _ n ?_ hn
    rw [flatten_maskGroups]
    exact nodup_of_distinct _ (h.wellFormed.lists_distinct type)
  · rw [name_bmaskRuns]
    rfl
  · rw [creationtime_bmaskRuns]
    rfl
  · rw [mode_bmaskRuns]
    rfl
  · rw [members_bmaskRuns]
    exact List.reverse_perm c.members
  · intro type
    rw [list_roundTrip sid c type h.wellFormed htime]
    exact List.reverse_perm (c.list type)

def sampleId : CStr := "1AAAAAAAA".toList

theorem sampleId_valid : ValidId sampleId :=
  validId_of_all '1' "AAAAAAAA".toList (by decide) (by decide) (by decide)

def sampleLink (ignoreBogusTs : Bool) : Link := linkTo ignoreBogusTs "1AA".toList sampleId

def sampleChannel (creationtime : ℤ) : Channel := createChannel creationtime "#c".toList sampleId

theorem sampleChannel_reachable (creationtime : ℤ) (h : creationtime < 2 ^ 63) :
    Reachable (setChannel (fun _ => none) "#c".toList (some (sampleChannel creationtime))) :=
  Relation.ReflTransGen.single (Step.create _ creationtime "#c".toList sampleId h (by decide)
    sampleId_valid rfl)

theorem sampleChannel_linked (ignoreBogusTs : Bool) (creationtime : ℤ) :
    Linked (sampleLink ignoreBogusTs) "1AA".toList (sampleChannel creationtime) :=
  linkTo_linked _ _ _ _ ⟨by decide, by decide⟩ (by simp [sampleChannel, createChannel,
    addUserToChannel, makeChannel])

theorem burst_roundTrip_sample :
    ∃ c', hashFindChannel ((burst "1AA".toList (sampleChannel 5)).foldl
        (receive (sampleLink false)) (fun _ => none)) (sampleChannel 5).name = some c' ∧
      c'.creationtime = 5 := by
  obtain ⟨c', hfind, _, htime, _⟩ := (burst_roundTrip _ (fun _ => none) _ "1AA".toList
    (sampleChannel 5) (sampleLink false) (sampleChannel_reachable 5 (by decide))
    (hashFindChannel_setChannel _ "#c".toList _) (by decide) (Or.inl rfl)
    (sampleChannel_linked false 5) rfl).2.2
  exact ⟨c', hfind, htime⟩

/-- The channel that a peer's line with a timestamp below zero creates. -/
def negativeChannel : Channel :=
  fresh ⟨"#c".toList, -5, noModes, [], [], [], []⟩ [⟨sampleId, noFlags⟩]

def negativeLine : CStr := ":1AA SJOIN -5 #c + :1AAAAAAAA".toList

/-- A server that does not believe old timestamps gives the channel another one, and a
timestamp below zero is printed as a number that is out of reach of `atol`. -/
theorem burst_loses_ts :
    (Reachable (setChannel (fun _ => none) "#c".toList (some (sampleChannel 5))) ∧
      Linked (sampleLink true) "1AA".toList (sampleChannel 5) ∧
      (sampleChannel 5).creationtime = 5 ∧
      (hashFindChannel ((burst "1AA".toList (sampleChannel 5)).foldl (receive (sampleLink true))
        (fun _ => none)) "#c".toList).map Channel.creationtime = some 800000000) ∧
    Reachable (receive (sampleLink false) (fun _ => none) negativeLine) ∧
      hashFindChannel (receive (sampleLink false) (fun _ => none) negativeLine) "#c".toList =
        some negativeChannel ∧
      negativeChannel.creationtime = -5 ∧
      (hashFindChannel ((burst "1AA".toList negativeChannel).foldl (receive (sampleLink false))
        (fun _ => none)) "#c".toList).map Channel.creationtime = some (2 ^ 63 - 1) := by
  refine ⟨⟨sampleChannel_reachable 5 (by decide), sampleChannel_linked true 5, rfl, by decide⟩,
    ?_, by decide, rfl, by decide⟩
  exact Relation.ReflTransGen.single
    (Step.line _ (sampleLink false) negativeLine (linkTo_valid _ _ _ sampleId_valid) (by decide))

end IrcdHybrid.BurstRoundTrip
