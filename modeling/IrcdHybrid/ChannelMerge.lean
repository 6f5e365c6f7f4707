import IrcdHybrid.BurstRun
import IrcdHybrid.Delivery
import IrcdHybrid.OlderWins

/-!
Two servers with the same channel exchange their bursts. Each receiver ends
with the merge of the two channels, and the merge does not depend on who makes
it: the older channel's modes and statuses stand, and both sides' where neither
is older.
-/

namespace IrcdHybrid.ChannelMerge

open CString BanMask Channels Packing Wire Burst Sjoin ChannelMode ChannelTable BurstLines BurstRun
open OlderWins Delivery

/-- A channel as the bursts merge it. -/
def holding (c : Channel) : Holding Mode Membership :=
  ⟨c.creationtime, c.mode, { member | member ∈ c.members }⟩

def stripStatus (member : Membership) : Membership := { member with flags := noFlags }

theorem tied_iff (c old : Channel) : Tied (holding old) (holding c) ↔ BothKept c old := by
  unfold Tied BothKept holding
  dsimp only
  omega

/-- The channel that the receiver has after the SJOIN lines. -/
def joinedChannel (c old : Channel) : Channel :=
  { settle c old with
    members := (withStatus (keepNew c old) c.members).reverse ++ (settle c old).members }

theorem mem_removeOurModes (members : List Membership) (m : Membership) :
    m ∈ removeOurModes members ↔ m ∈ stripStatus '' { member | member ∈ members } := by
  exact List.mem_map

theorem holding_joinedChannel (c old : Channel) :
    holding (joinedChannel c old) = merge mergeModes stripStatus (holding old) (holding c) := by
  have hmembers : ∀ m, m ∈ (joinedChannel c old).members ↔
      m ∈ withStatus (keepNew c old) c.members ∨ m ∈ (settle c old).members := by
    intro m
    simp [joinedChannel]
  by_cases hboth : BothKept c old
  · obtain ⟨hsettle, hkeep⟩ := settle_both c old hboth
    rw [merge_tied _ _ _ _ ((tied_iff c old).mpr hboth)]
    ext m
    · show (settle c old).creationtime = _
      rw [hsettle]
      exact if_congr or_comm rfl rfl
    · show (settle c old).mode = _
      rw [hsettle]
      exact mergeModes_comm _ _
    · show m ∈ (joinedChannel c old).members ↔ _
      rw [hmembers, hsettle, hkeep]
      exact or_comm
  · have htied : ¬ Tied (holding old) (holding c) := fun h => hboth ((tied_iff c old).mp h)
    rcases older_or c old hboth with holder | hyounger
    · obtain ⟨hsettle, hkeep⟩ := settle_older c old holder
      rw [merge_younger _ _ _ _ htied holder.2.2]
      ext m
      · show (settle c old).creationtime = _
        rw [hsettle]
        rfl
      · show (settle c old).mode = _
        rw [hsettle]
        rfl
      · show m ∈ (joinedChannel c old).members ↔ _
        rw [hmembers, hsettle, hkeep]
        exact or_congr Iff.rfl (mem_removeOurModes old.members m)
    · obtain ⟨hsettle, hkeep⟩ := settle_younger c old hyounger
      rw [merge_older _ _ _ _ htied hyounger.2.2]
      ext m
      · show (settle c old).creationtime = _
        rw [hsettle]
        rfl
      · show (settle c old).mode = _
        rw [hsettle]
        rfl
      · show m ∈ (joinedChannel c old).members ↔ _
        rw [hmembers, hsettle, hkeep]
        exact or_comm.trans (or_congr Iff.rfl (mem_removeOurModes c.members m))

theorem holding_bmaskRuns (sid : CStr) (c chptr : Channel) :
    holding (bmaskRuns sid c chptr) = holding chptr := by
  simp [holding]

/-- Lines from a peer are not answered. -/
def onLine (link : Link) (t : Table) (line : CStr) : Table × List CStr := (receive link t line, [])

/-- Two servers that burst to each other, before either has received anything. -/
structure Peers where
  left : Link
  right : Link
  leftSid : CStr
  rightSid : CStr
  leftTable : Table
  rightTable : Table
  leftChannel : Channel
  rightChannel : Channel

/-- They have the same channel, each with members of its own that the other knows. -/
structure Peers.Ready (p : Peers) : Prop where
  leftWellFormed : WellFormed p.leftChannel
  rightWellFormed : WellFormed p.rightChannel
  leftTime : -2 ^ 63 ≤ p.leftChannel.creationtime
  rightTime : -2 ^ 63 ≤ p.rightChannel.creationtime
  leftHas : hashFindChannel p.leftTable p.leftChannel.name = some p.leftChannel
  rightHas : hashFindChannel p.rightTable p.rightChannel.name = some p.rightChannel
  same : fold p.leftChannel.name = fold p.rightChannel.name
  leftLinked : Linked p.left p.rightSid p.rightChannel
  rightLinked : Linked p.right p.leftSid p.leftChannel
  disjoint : ∀ m ∈ p.leftChannel.members, ∀ m' ∈ p.rightChannel.members, m.id ≠ m'.id
  leftBelieves : p.left.ignoreBogusTs = false
  rightBelieves : p.right.ignoreBogusTs = false

def Peers.start (p : Peers) : Net Table Table CStr CStr :=
  ⟨p.leftTable, p.rightTable, burst p.rightSid p.rightChannel, burst p.leftSid p.leftChannel⟩

theorem receive_burst_some (link : Link) (sid : CStr) (t : Table) (c old : Channel)
    (hlink : Linked link sid c) (h : WellFormed c) (hts : Believed link (asRead c))
    (hname : fold old.name = fold c.name) (hold : hashFindChannel t old.name = some old)
    (hnew : ∀ m ∈ c.members, ∀ m' ∈ old.members, m.id ≠ m'.id) :
    hashFindChannel ((burst sid c).foldl (receive link) t) c.name =
      some (bmaskRuns sid c (joinedChannel (asRead c) old)) := by
  have hfind : hashFindChannel t c.name = some old := by
    unfold hashFindChannel at hold ⊢
    rwa [← hname]
  have hids : ∀ member ∈ c.members, member.id ∉ old.members.map Membership.id := by
    intro member hmember hmem
    obtain ⟨m', hm', heq⟩ := List.mem_map.mp hmem
    exact hnew member hmember m' hm' heq.symm
  rw [receive_burst link sid t c hlink h, hashFindChannel_setChannel, hfind,
    sjoinRun_some link sid c old hts h hids]
  rfl

/-- Every order of deliveries ends with both bursts received, each by the other side. -/
theorem final_eq (p : Peers) (h : p.Ready) (final : Net Table Table CStr CStr)
    (hfinal : Completes (onLine p.left) (onLine p.right) p.start final) :
    hashFindChannel final.left p.leftChannel.name =
        some (bmaskRuns p.rightSid p.rightChannel
          (joinedChannel (asRead p.rightChannel) p.leftChannel)) ∧
      hashFindChannel final.right p.leftChannel.name =
        some (bmaskRuns p.leftSid p.leftChannel
          (joinedChannel (asRead p.leftChannel) p.rightChannel)) := by
  have hsilent := completes_silent (onLine p.left) (onLine p.right) p.leftTable p.rightTable
    (burst p.rightSid p.rightChannel) (burst p.leftSid p.leftChannel)
    (fun _ _ _ => rfl) (fun _ _ _ => rfl)
  have hunique := completes_unique _ _ _ _ _ hfinal hsilent
  have hleft := receive_burst_some p.left p.rightSid p.leftTable p.rightChannel p.leftChannel
    h.leftLinked h.rightWellFormed (Or.inl h.leftBelieves) h.same h.leftHas
    (fun m hm m' hm' heq => h.disjoint m' hm' m hm heq.symm)
  have hright := receive_burst_some p.right p.leftSid p.rightTable p.leftChannel p.rightChannel
    h.rightLinked h.leftWellFormed (Or.inl h.rightBelieves) h.same.symm h.rightHas h.disjoint
  rw [hunique]
  refine ⟨?_, hright⟩
  unfold hashFindChannel at hleft ⊢
  rw [h.same]
  exact hleft

/-- Both servers end with the same timestamp, modes and members; the older channel's
where one is older, the younger side's members without status. -/
theorem merge_converges (p : Peers) (h : p.Ready) (hlpos : 0 ≤ p.leftChannel.creationtime)
    (hrpos : 0 ≤ p.rightChannel.creationtime) (final : Net Table Table CStr CStr)
    (hfinal : Completes (onLine p.left) (onLine p.right) p.start final) :
    ∃ l r, hashFindChannel final.left p.leftChannel.name = some l ∧
      hashFindChannel final.right p.leftChannel.name = some r ∧
      l.creationtime = r.creationtime ∧ l.mode = r.mode ∧ (∀ m, m ∈ l.members ↔ m ∈ r.members) ∧
      (Older p.leftChannel p.rightChannel →
        l.creationtime = p.leftChannel.creationtime ∧ l.mode = p.leftChannel.mode ∧
        ∀ m, m ∈ l.members ↔ m ∈ p.leftChannel.members ∨
          ∃ m' ∈ p.rightChannel.members, stripStatus m' = m) ∧
      (Older p.rightChannel p.leftChannel →
        l.creationtime = p.rightChannel.creationtime ∧ l.mode = p.rightChannel.mode ∧
        ∀ m, m ∈ l.members ↔ m ∈ p.rightChannel.members ∨
          ∃ m' ∈ p.leftChannel.members, stripStatus m' = m) := by
  obtain ⟨hleft, hright⟩ := final_eq p h final hfinal
  rw [asRead_eq _ hrpos h.rightWellFormed.time_lt] at hleft
  rw [asRead_eq _ hlpos h.leftWellFormed.time_lt] at hright
  have hl := holding_bmaskRuns p.rightSid p.rightChannel
    (joinedChannel p.rightChannel p.leftChannel)
  have hr := holding_bmaskRuns p.leftSid p.leftChannel
    (joinedChannel p.leftChannel p.rightChannel)
  rw [holding_joinedChannel] at hl hr
  rw [merge_comm mergeModes stripStatus mergeModes_comm, ← hl] at hr
  refine ⟨_, _, hleft, hright, congrArg Holding.time hr.symm, congrArg Holding.value hr.symm,
    fun m => Set.ext_iff.mp (congrArg Holding.roster hr.symm) m, ?_, ?_⟩
  · intro holder
    have htied : ¬ Tied (holding p.leftChannel) (holding p.rightChannel) := by
      rw [tied_iff]
      unfold BothKept
      unfold Older at holder
      omega
    rw [merge_older _ _ _ _ htied holder.2.2] at hl
    exact ⟨congrArg Holding.time hl, congrArg Holding.value hl,
      fun m => Set.ext_iff.mp (congrArg Holding.roster hl) m⟩
  · intro holder
    have htied : ¬ Tied (holding p.leftChannel) (holding p.rightChannel) := by
      rw [tied_iff]
      unfold BothKept
      unfold Older at holder
      omega
    rw [merge_younger _ _ _ _ htied holder.2.2] at hl
    exact ⟨congrArg Holding.time hl, congrArg Holding.value hl,
      fun m => Set.ext_iff.mp (congrArg Holding.roster hl) m⟩

def leftId : CStr := "1AAAAAAAA".toList
def rightId : CStr := "2BBAAAAAA".toList

theorem leftId_valid : ValidId leftId :=
  validId_of_all '1' "AAAAAAAA".toList (by decide) (by decide) (by decide)

theorem rightId_valid : ValidId rightId :=
  validId_of_all '2' "BBAAAAAA".toList (by decide) (by decide) (by decide)

/-- The channel #c on either side, with the given times and lists of bans. -/
def pair (lts rts : ℤ) (lbans rbans : List Nuh) : Peers :=
  let l := (createChannel lts "#c".toList leftId).setList lbans .ban
  let r := (createChannel rts "#c".toList rightId).setList rbans .ban
  { left := linkTo false "2BB".toList rightId
    right := linkTo false "1AA".toList leftId
    leftSid := "1AA".toList
    rightSid := "2BB".toList
    leftTable := setChannel (fun _ => none) "#c".toList (some l)
    rightTable := setChannel (fun _ => none) "#c".toList (some r)
    leftChannel := l
    rightChannel := r }

theorem pair_wellFormed (ts : ℤ) (id : CStr) (bans : List Nuh) (hid : ValidId id)
    (hlt : ts < 2 ^ 63) (hvalid : ∀ n ∈ bans, Valid n) (hdist : Distinct bans) :
    WellFormed ((createChannel ts "#c".toList id).setList bans .ban) :=
  setList_wellFormed _ bans .ban
    (createChannel_live ts "#c".toList id hlt (by decide) hid).wellFormed hvalid hdist

theorem pair_ready (lts rts : ℤ) (lbans rbans : List Nuh) (hl : -2 ^ 63 ≤ lts ∧ lts < 2 ^ 63)
    (hr : -2 ^ 63 ≤ rts ∧ rts < 2 ^ 63) (hlbans : (∀ n ∈ lbans, Valid n) ∧ Distinct lbans)
    (hrbans : (∀ n ∈ rbans, Valid n) ∧ Distinct rbans) : (pair lts rts lbans rbans).Ready where
  leftWellFormed := pair_wellFormed lts leftId lbans leftId_valid hl.2 hlbans.1 hlbans.2
  rightWellFormed := pair_wellFormed rts rightId rbans rightId_valid hr.2 hrbans.1 hrbans.2
  leftTime := hl.1
  rightTime := hr.1
  leftHas := hashFindChannel_setChannel _ _ _
  rightHas := hashFindChannel_setChannel _ _ _
  same := rfl
  leftLinked := linkTo_linked _ _ _ _ ⟨by decide, by decide⟩ (by simp [pair, createChannel,
    addUserToChannel, makeChannel])
  rightLinked := linkTo_linked _ _ _ _ ⟨by decide, by decide⟩ (by simp [pair, createChannel,
    addUserToChannel, makeChannel])
  disjoint := by
    intro m hm m' hm'
    rw [List.mem_singleton.mp hm, List.mem_singleton.mp hm']
    decide
  leftBelieves := rfl
  rightBelieves := rfl

theorem pair_completes (p : Peers) : ∃ final,
    Completes (onLine p.left) (onLine p.right) p.start final :=
  ⟨_, completes_silent (onLine p.left) (onLine p.right) p.leftTable p.rightTable
    (burst p.rightSid p.rightChannel) (burst p.leftSid p.leftChannel)
    (fun _ _ _ => rfl) (fun _ _ _ => rfl)⟩

theorem noBans_valid : (∀ n ∈ ([] : List Nuh), Valid n) ∧ Distinct [] :=
  ⟨by simp, List.Pairwise.nil⟩

theorem merge_converges_pair : ∃ final l, Completes (onLine (pair 5 9 [] []).left)
      (onLine (pair 5 9 [] []).right) (pair 5 9 [] []).start final ∧
    hashFindChannel final.right "#c".toList = some l ∧ l.creationtime = 5 := by
  obtain ⟨final, hfinal⟩ := pair_completes (pair 5 9 [] [])
  obtain ⟨l, r, _, hr, htime, _, _, holder, _⟩ := merge_converges (pair 5 9 [] [])
    (pair_ready 5 9 [] [] (by decide) (by decide) noBans_valid noBans_valid) (by decide) (by decide)
    final hfinal
  exact ⟨final, r, hfinal, hr, htime.symm.trans (holder (by unfold Older; decide)).1⟩

/-- A timestamp below zero is read as the highest one, and each side takes itself for the older. -/
theorem negative_stays : (pair (-5) 9 [] []).Ready ∧ ∃ final l r,
    Completes (onLine (pair (-5) 9 [] []).left) (onLine (pair (-5) 9 [] []).right)
      (pair (-5) 9 [] []).start final ∧
    hashFindChannel final.left "#c".toList = some l ∧
    hashFindChannel final.right "#c".toList = some r ∧
    l.creationtime = -5 ∧ r.creationtime = 9 := by
  have hready := pair_ready (-5) 9 [] [] (by decide) (by decide) noBans_valid noBans_valid
  obtain ⟨final, hfinal⟩ := pair_completes (pair (-5) 9 [] [])
  obtain ⟨hl, hr⟩ := final_eq _ hready final hfinal
  exact ⟨hready, final, _, _, hfinal, hl, hr, by decide, by decide⟩

end IrcdHybrid.ChannelMerge
