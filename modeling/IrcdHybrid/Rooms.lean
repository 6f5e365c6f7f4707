import IrcdHybrid.BurstRun

/-!
Channels with their topics and invites. A server that loses a channel's timestamp
clears the topic, whether it learns of that by SJOIN or by JOIN; the lists of masks
and the invites go with a SJOIN only, so the two do not leave the same channel.
-/

namespace IrcdHybrid.Rooms

open CString Numeral BanMask Channels Wire Burst Sjoin ChannelMode ChannelTable BurstLines BurstRun

def TOPICLEN : ℕ := 300
def USERHOST_REPLYLEN : ℕ := NICKLEN + HOSTLEN + USERLEN + 5

/-- `topic`, `topic_info` and `topic_time`. -/
structure Topic where
  text : CStr
  info : CStr
  time : ℤ
  deriving DecidableEq

def noTopic : Topic := ⟨[], [], 0⟩

/-- A channel with its topic and the clients invited to it. -/
structure Room where
  channel : Channel
  topic : Topic
  invites : List CStr

/-- `channel_set_topic` for what comes from another server. -/
def channelSetTopic (topic info : CStr) (topicts : ℤ) : Topic :=
  ⟨strlcpy topic (TOPICLEN + 1), strlcpy info USERHOST_REPLYLEN, topicts⟩

/-- A topic that is there is unset when the timestamp is lost. -/
def loseTopic (topic : Topic) : Topic :=
  if topic.text ≠ [] then channelSetTopic [] [] 0 else topic

/-- The other side's timestamp wins. -/
def loses (link : Link) (ts : CStr) (chptr : Channel) : Bool :=
  !(decideTs false (bogusTs link (strtol ts) chptr.creationtime) chptr.creationtime).keepOurModes

/-- `ms_sjoin` with the topic and the invites. -/
def sjoinRoom (link : Link) (ts name modes : CStr) (args : List CStr) (old : Option Room) :
    Option Room :=
  let channel := sjoinChannel link ts name modes args (old.map Room.channel)
  match old with
  | none => channel.map (fun chptr => ⟨chptr, noTopic, []⟩)
  | some r =>
    let taken := checkChannelName name && (sjoinModes modes args noModes).isSome
    channel.map (fun chptr =>
      if taken && loses link ts r.channel then ⟨chptr, loseTopic r.topic, []⟩
      else { r with channel := chptr })

/-- `ms_join` with the topic and the invites. -/
def joinRoom (link : Link) (id ts name : CStr) (old : Option Room) : Option Room :=
  let channel := joinChannel link id ts name (old.map Room.channel)
  match old with
  | none => channel.map (fun chptr => ⟨chptr, noTopic, []⟩)
  | some r =>
    channel.map (fun chptr =>
      if checkChannelName name && loses link ts r.channel then
        { r with channel := chptr, topic := loseTopic r.topic }
      else { r with channel := chptr })

/-- A client behind the link, as its identifier names it there. -/
structure Joiner (link : Link) where
  id : CStr
  valid : ValidId id
  found : link.findChasing id = some id
  behind : link.behind id = true

/-- All that the two handlers should leave alike; the case of the name is not among it. -/
structure SameState (l r : Room) : Prop where
  creationtime : l.channel.creationtime = r.channel.creationtime
  mode : l.channel.mode = r.channel.mode
  members : l.channel.members = r.channel.members
  lists : ∀ type, l.channel.list type = r.channel.list type
  invites : l.invites = r.invites
  topic : l.topic = r.topic

/-- There is something on the channel that only SJOIN takes away. -/
def Bare (r : Room) : Prop := (∀ type, r.channel.list type = []) ∧ r.invites = []

theorem sjoinModes_none (c : Char) (id : CStr) (h : c = '0' ∨ c = '+') :
    sjoinModes [c] [id] noModes = some (noModes, [id]) := by
  rcases h with rfl | rfl <;> rfl

theorem tokens_id (id : CStr) (h : ValidId id) : tokens id = [id] := by
  have hword := memberText_word ⟨id, noFlags⟩ h
  exact tokens_joined (fun s : CStr => s) [id] (by simpa [memberText, statusText, noFlags] using hword)

/-- The one member of the SJOIN joins as the client of the JOIN does. -/
theorem joinMember_id (link : Link) (j : Joiner link) (keep : Bool) (chptr : Channel) :
    joinMember link keep chptr j.id =
      if chptr.isMember j.id then chptr else addUserToChannel chptr j.id noFlags := by
  unfold joinMember
  rw [readStatus_id j.id noFlags j.valid]
  dsimp only
  rw [j.found]
  dsimp only
  rw [j.behind]
  cases chptr.isMember j.id <;> cases keep <;> rfl

/-- What a SJOIN of that client alone makes of the channel. -/
theorem sjoinChannel_one (link : Link) (j : Joiner link) (ts name : CStr) (c : Char)
    (chptr : Channel) (hc : c = '0' ∨ c = '+') (hname : checkChannelName name = true) :
    sjoinChannel link ts name [c] [j.id] (some chptr) =
      let settled := applyTs (decideTs false (bogusTs link (strtol ts) chptr.creationtime)
        chptr.creationtime) noModes false name chptr
      some (if settled.isMember j.id then settled
        else addUserToChannel settled j.id noFlags) := by
  have hfold : ∀ (keep : Bool) (settled : Channel),
      (tokens ([j.id].headD [])).foldl (joinMember link keep) settled =
        if settled.isMember j.id then settled else addUserToChannel settled j.id noFlags := by
    intro keep settled
    rw [List.headD_cons, tokens_id j.id j.valid, List.foldl_cons, List.foldl_nil,
      joinMember_id link j]
  unfold sjoinChannel
  rw [hname, sjoinModes_none c j.id hc]
  refine (if_neg (by simp)).trans ?_
  refine (if_neg (fun h => absurd h.2 (by simp))).trans ?_
  exact congrArg some (hfold _ _)

theorem joinChannel_some (link : Link) (id ts name : CStr) (chptr : Channel)
    (hname : checkChannelName name = true) :
    joinChannel link id ts name (some chptr) =
      let d := decideTs false (bogusTs link (strtol ts) chptr.creationtime) chptr.creationtime
      let merged := { chptr with
        creationtime := d.creationtime
        mode := finalMode d noModes chptr.mode
        members := if d.keepOurModes then chptr.members else removeOurModes chptr.members }
      some (if merged.isMember id then merged else addUserToChannel merged id noFlags) := by
  unfold joinChannel
  rw [hname]
  rfl

/-- The same members on both, with or without the one that joins. -/
theorem joined_same (l r : Channel) (id : CStr) (hmembers : l.members = r.members) :
    (if l.isMember id then l else addUserToChannel l id noFlags).members =
      (if r.isMember id then r else addUserToChannel r id noFlags).members := by
  have hsame : l.isMember id = r.isMember id := by
    unfold Channel.isMember
    rw [hmembers]
  rw [hsame]
  split
  · exact hmembers
  · exact congrArg (List.cons _) hmembers

theorem joined_rest (chptr : Channel) (id : CStr) (type : ListType) :
    (if chptr.isMember id then chptr else addUserToChannel chptr id noFlags).creationtime =
        chptr.creationtime ∧
      (if chptr.isMember id then chptr else addUserToChannel chptr id noFlags).mode = chptr.mode ∧
      (if chptr.isMember id then chptr else addUserToChannel chptr id noFlags).list type =
        chptr.list type := by
  split
  · exact ⟨rfl, rfl, rfl⟩
  · cases type <;> exact ⟨rfl, rfl, rfl⟩

/-- Losing takes an older timestamp, and neither of the two zero. -/
theorem loses_iff (link : Link) (ts : CStr) (chptr : Channel) (hbogus : link.ignoreBogusTs = false)
    (hts : strtol ts < chptr.creationtime) :
    loses link ts chptr = true ↔ ¬ (strtol ts = 0 ∨ chptr.creationtime = 0) := by
  have hne : strtol ts ≠ chptr.creationtime := by omega
  unfold loses bogusTs decideTs
  by_cases hzero : strtol ts = 0 ∨ chptr.creationtime = 0
  · simp [hbogus, hzero]
  · simp [hbogus, hzero, hne, hts]

/-- JOIN and SJOIN with an older timestamp leave the channel alike when one of the timestamps is
zero, and else only if there is no mask and no invite on it. -/
theorem join_like_sjoin_iff (link : Link) (j : Joiner link) (ts name : CStr) (c : Char) (r : Room)
    (hbogus : link.ignoreBogusTs = false) (hname : checkChannelName name = true)
    (hc : c = '0' ∨ c = '+') (hts : strtol ts < r.channel.creationtime) :
    (∃ a b, joinRoom link j.id ts name (some r) = some a ∧
        sjoinRoom link ts name [c] [j.id] (some r) = some b ∧ SameState a b) ↔
      strtol ts = 0 ∨ r.channel.creationtime = 0 ∨ Bare r := by
  have hloses := loses_iff link ts r.channel hbogus hts
  have hjoin := joinChannel_some link j.id ts name r.channel hname
  have hsjoin := sjoinChannel_one link j ts name c r.channel hc hname
  have hd : (decideTs false (bogusTs link (strtol ts) r.channel.creationtime)
      r.channel.creationtime).keepOurModes = !loses link ts r.channel := by
    unfold loses
    rw [Bool.not_not]
  unfold joinRoom sjoinRoom
  rw [Option.map_some, hjoin, hsjoin, sjoinModes_none c j.id hc, hname]
  unfold applyTs
  dsimp only [Option.map_some]
  rw [hd]
  generalize decideTs false (bogusTs link (strtol ts) r.channel.creationtime)
    r.channel.creationtime = d
  cases hlose : loses link ts r.channel with
  | false =>
    have hzero : strtol ts = 0 ∨ r.channel.creationtime = 0 := by
      by_contra hnot
      rw [hloses.mpr hnot] at hlose
      exact absurd hlose (by simp)
    have hcond : strtol ts = 0 ∨ r.channel.creationtime = 0 ∨ Bare r := by tauto
    exact ⟨fun _ => hcond, fun _ => ⟨_, _, rfl, rfl, rfl, rfl, rfl, fun _ => rfl, rfl, rfl⟩⟩
  | true =>
    have hnot := hloses.mp hlose
    constructor
    · intro ⟨a, b, ha, hb, hsame⟩
      obtain rfl := Option.some.inj ha
      obtain rfl := Option.some.inj hb
      refine Or.inr (Or.inr ⟨fun type => ?_, hsame.invites⟩)
      have hlist := hsame.lists type
      simp only [Option.isSome_some, Bool.and_self, if_true, Bool.not_true, Bool.false_eq_true,
        if_false] at hlist
      rw [(joined_rest _ j.id type).2.2, (joined_rest _ j.id type).2.2] at hlist
      cases type <;> exact hlist
    · intro hor
      have hbare : Bare r := by tauto
      refine ⟨_, _, rfl, rfl, ?_⟩
      simp only [Option.isSome_some, Bool.and_self, if_true, Bool.not_true, Bool.false_eq_true,
        if_false]
      refine ⟨?_, ?_, joined_same _ _ _ rfl, fun type => ?_, hbare.2, rfl⟩
      · rw [(joined_rest _ j.id .ban).1, (joined_rest _ j.id .ban).1]
        rfl
      · rw [(joined_rest _ j.id .ban).2.1, (joined_rest _ j.id .ban).2.1]
        rfl
      · rw [(joined_rest _ j.id type).2.2, (joined_rest _ j.id type).2.2]
        have hlist := hbare.1 type
        cases type <;> exact hlist

def sampleId : CStr := "2BBAAAAAA".toList

theorem sampleId_validId : ValidId sampleId :=
  validId_of_all '2' "BBAAAAAA".toList (by decide) (by decide) (by decide)

def sampleLink : Link := linkTo false "2BB".toList sampleId

def sampleJoiner : Joiner sampleLink where
  id := sampleId
  valid := sampleId_validId
  found := show (if sampleId = sampleId then some sampleId else none) = some sampleId from if_pos rfl
  behind := beq_self_eq_true sampleId

/-- The channel #c of time 100, with these bans and a topic. -/
def sampleRoom (bans : List Nuh) : Room where
  channel := (createChannel 100 "#c".toList "1AAAAAAAA".toList).setList bans .ban
  topic := ⟨"news".toList, "a!b@c".toList, 90⟩
  invites := []

theorem join_like_sjoin_sample : ∃ a b,
    joinRoom sampleLink sampleId "5".toList "#c".toList (some (sampleRoom [])) = some a ∧
      sjoinRoom sampleLink "5".toList "#c".toList ['+'] [sampleId] (some (sampleRoom [])) = some b ∧
      SameState a b := by
  have hiff := join_like_sjoin_iff sampleLink sampleJoiner "5".toList "#c".toList '+'
    (sampleRoom []) rfl (by decide) (Or.inr rfl) (by decide)
  refine hiff.mpr (Or.inr (Or.inr ⟨fun type => ?_, rfl⟩))
  cases type <;> rfl

def sampleBan : Nuh := ⟨['*'], ['*'], "bad.example".toList⟩

/-- The ban outlives the JOIN and not the SJOIN. -/
theorem join_keeps_ban : ¬ ∃ a b,
    joinRoom sampleLink sampleId "5".toList "#c".toList (some (sampleRoom [sampleBan])) = some a ∧
      sjoinRoom sampleLink "5".toList "#c".toList ['+'] [sampleId]
        (some (sampleRoom [sampleBan])) = some b ∧ SameState a b := by
  intro ⟨a, b, ha, hb, hsame⟩
  have hkept : (joinRoom sampleLink sampleId "5".toList "#c".toList
      (some (sampleRoom [sampleBan]))).map (fun r => r.channel.banlist) = some [sampleBan] := by
    decide
  have hgone : (sjoinRoom sampleLink "5".toList "#c".toList ['+'] [sampleId]
      (some (sampleRoom [sampleBan]))).map (fun r => r.channel.banlist) = some [] := by
    decide
  have hlist : a.channel.banlist = b.channel.banlist := hsame.lists .ban
  rw [ha] at hkept
  rw [hb] at hgone
  rw [Option.map_some, hlist] at hkept
  exact absurd (hkept.symm.trans hgone) (by simp)

end IrcdHybrid.Rooms
