import IrcdHybrid.Delivery
import IrcdHybrid.Rooms

/-!
Topics in a burst. A server sends the topic of a channel behind its members, by a
TBURST that carries the timestamps of both. The receiver has read the SJOIN lines
by then: they may have cleared its own topic, and the TBURST is weighed against
what they left.
-/

namespace IrcdHybrid.TopicBurst

open CString Numeral BanMask Channels Packing Wire Burst Sjoin ChannelMode ChannelTable BurstLines
open BurstRun Rooms Delivery

/-- The channels of a server with their topics. -/
abbrev RoomTable := CStr → Option Room

def findRoom (t : RoomTable) (name : CStr) : Option Room := t (fold name)

def setRoom (t : RoomTable) (name : CStr) (r : Option Room) : RoomTable :=
  Function.update t (fold name) r

def channels (t : RoomTable) : Table := fun f => (t f).map Room.channel

/-- The channels change, and the topics stay with those that are still there. -/
def withChannels (t : RoomTable) (new : Table) : RoomTable := fun f =>
  (new f).map (fun chptr =>
    match t f with
    | some r => { r with channel := chptr }
    | none => ⟨chptr, noTopic, []⟩)

/-- A link, and which of those that send on it are services. -/
structure Uplink where
  link : Link
  service : Source → Bool

def msSjoinRoom (link : Link) (t : RoomTable) (params : List CStr) : RoomTable :=
  match params with
  | ts :: name :: modes :: arg :: args =>
    setRoom t name (sjoinRoom link ts name modes (arg :: args) (findRoom t name))
  | _ => t

def msJoinRoom (link : Link) (source : Source) (t : RoomTable) (params : List CStr) : RoomTable :=
  match source, params with
  | .client id _, ts :: name :: _ :: _ =>
    setRoom t name (joinRoom link id ts name (findRoom t name))
  | _, _ => withChannels t (msJoin link source (channels t) params)

/-- The three cases in which `ms_tburst` takes a topic. -/
def acceptRemote (service : Bool) (ts topicts : CStr) (r : Room) : Bool :=
  if service then true
  else if strtol ts < r.channel.creationtime then true
  else if strtol ts = r.channel.creationtime then decide (strtol topicts > r.topic.time)
  else false

/-- `ms_tburst` on the channel of that name. -/
def tburstRoom (service : Bool) (ts topicts setby topic : CStr) (r : Room) : Room :=
  if acceptRemote service ts topicts r then
    { r with topic := channelSetTopic topic setby (strtol topicts) }
  else r

def msTburst (service : Bool) (t : RoomTable) (params : List CStr) : RoomTable :=
  match params with
  | ts :: name :: topicts :: setby :: topic :: _ =>
    setRoom t name ((findRoom t name).map (tburstRoom service ts topicts setby topic))
  | _ => t

/-- A line on a server link. TOPIC, which no burst has in it, is left out. -/
def receiveRoom (up : Uplink) (t : RoomTable) (line : CStr) : RoomTable :=
  match parse line with
  | none => t
  | some msg =>
    match findSource up.link msg.sender with
    | none => t
    | some source =>
      if irccmp msg.command "TBURST".toList = 0 then msTburst (up.service source) t msg.params
      else if irccmp msg.command "SJOIN".toList = 0 then
        if source.isServer then msSjoinRoom up.link t msg.params else t
      else if irccmp msg.command "JOIN".toList = 0 then msJoinRoom up.link source t msg.params
      else withChannels t (receive up.link (channels t) line)

def tburstWords (r : Room) : List CStr :=
  [formatTime r.channel.creationtime, r.channel.name, formatTime r.topic.time, r.topic.info]

/-- `send_tb`. -/
def sendTb (sid : CStr) (r : Room) : List CStr :=
  if r.topic.time ≠ 0 then
    [sendFormat (lineText sid "TBURST".toList (tburstWords r) (' ' :: ':' :: r.topic.text))]
  else []

/-- The lines of `burst_all` for one channel. -/
def burstRoom (sid : CStr) (r : Room) : List CStr := burst sid r.channel ++ sendTb sid r

/-- What a topic can be: the buffers hold it, and its setter is a word. -/
structure ValidTopic (topic : Topic) : Prop where
  text_len : topic.text.length ≤ TOPICLEN
  info_len : topic.info.length < USERHOST_REPLYLEN
  info_word : topic.time ≠ 0 → Word topic.info
  time_range : -2 ^ 63 ≤ topic.time ∧ topic.time < 2 ^ 63

theorem hashFindChannel_channels (t : RoomTable) (name : CStr) :
    hashFindChannel (channels t) name = (findRoom t name).map Room.channel := rfl

theorem tburstRoom_channel (service : Bool) (ts topicts setby topic : CStr) (r : Room) :
    (tburstRoom service ts topicts setby topic r).channel = r.channel := by
  unfold tburstRoom
  split <;> rfl

/-- The timestamp `q` wins over `o`. -/
def Beats (q o : ℤ) : Prop := q ≠ 0 ∧ o ≠ 0 ∧ q < o

instance (q o : ℤ) : Decidable (Beats q o) := inferInstanceAs (Decidable (_ ∧ _ ∧ _))

/-- The timestamp that the two leave. -/
def settledTs (q o : ℤ) : ℤ := if q = 0 ∨ o = 0 then 0 else min q o

theorem decideTs_creationtime (q o : ℤ) :
    (decideTs false q o).creationtime = settledTs q o := by
  unfold decideTs settledTs
  split_ifs <;> first | contradiction | dsimp only <;> omega

theorem loses_eq (link : Link) (ts : CStr) (chptr : Channel) :
    loses link ts chptr =
      decide (Beats (bogusTs link (strtol ts) chptr.creationtime) chptr.creationtime) := by
  unfold loses decideTs Beats
  generalize bogusTs link (strtol ts) chptr.creationtime = q
  by_cases hzero : q = 0 ∨ chptr.creationtime = 0
  · rcases hzero with hzero | hzero <;> simp [hzero]
  · have hne : chptr.creationtime ≠ 0 := fun h0 => hzero (Or.inr h0)
    by_cases heq : q = chptr.creationtime
    · simp [heq, hne]
    · by_cases hlt : q < chptr.creationtime
      · simp only [not_or] at hzero
        simp [hzero, heq, hlt]
      · simp [hzero, heq, hlt]

theorem settledTs_again (link : Link) (ts o : ℤ) :
    settledTs (bogusTs link ts (settledTs (bogusTs link ts o) o)) (settledTs (bogusTs link ts o) o) =
        settledTs (bogusTs link ts o) o ∧
      ¬ Beats (bogusTs link ts (settledTs (bogusTs link ts o) o))
        (settledTs (bogusTs link ts o) o) := by
  unfold settledTs bogusTs Beats
  by_cases hignore : link.ignoreBogusTs = true ∧ ts < 800000000
  · simp only [hignore, and_self, if_true]
    split_ifs <;> omega
  · simp only [hignore, if_false]
    split_ifs <;> omega

theorem loseTopic_eq (topic : Topic) :
    loseTopic topic = if topic.text ≠ [] then noTopic else topic := rfl

/-- The channel is there, with this timestamp and this topic. -/
def Holds (t : RoomTable) (name : CStr) (ts : ℤ) (topic : Topic) : Prop :=
  ∃ r, findRoom t name = some r ∧ r.channel.creationtime = ts ∧ r.topic = topic

theorem findRoom_setRoom (t : RoomTable) (name : CStr) (r : Option Room) :
    findRoom (setRoom t name r) name = r := Function.update_self _ _ _

@[simp] theorem creationtime_joinOne (keep : Bool) (g : List Membership) (chptr : Channel) :
    (g.foldl (joinOne keep) chptr).creationtime = chptr.creationtime := by
  induction g generalizing chptr with
  | nil => rfl
  | cons member g ih =>
    rw [List.foldl_cons, ih]
    unfold joinOne
    split <;> rfl

theorem sjoinStep_creationtime (link : Link) (c old : Channel) (g : List Membership) :
    ∃ new, sjoinStep link c (some old) g = some new ∧
      new.creationtime =
        settledTs (bogusTs link c.creationtime old.creationtime) old.creationtime := by
  refine ⟨_, if_neg (by simp), ?_⟩
  rw [creationtime_joinOne, ← decideTs_creationtime]
  unfold applyTs
  dsimp only [Option.getD_some, Option.isNone_some]
  split <;> rfl

section Lines

variable (up : Uplink) (sid : CStr) (c : Channel) (hlink : Linked up.link sid c)
  (h : WellFormed c)

theorem findSource_sid (hsid : ValidSid sid) : findSource up.link (some sid) = up.link.source sid := by
  refine if_neg fun hnil => ?_
  have hlen := hsid.len
  rw [hnil] at hlen
  exact absurd hlen (by decide)

include hlink h

theorem holds_sjoinLine (t : RoomTable) (g : List Membership) (o : ℤ) (topic : Topic)
    (hg : ∀ member ∈ g, member ∈ c.members) (ht : Holds t c.name o topic) :
    Holds (receiveRoom up t (sjoinLine sid c g)) c.name
      (settledTs (bogusTs up.link (asRead c).creationtime o) o)
      (if Beats (bogusTs up.link (asRead c).creationtime o) o then loseTopic topic else topic) := by
  obtain ⟨source, hsource, hserver⟩ := hlink.source
  obtain ⟨r, hfind, rfl, rfl⟩ := ht
  have hline := sjoinChannel_line up.link c (some r.channel) g h hg hlink.known
  obtain ⟨new, hnew, htime⟩ := sjoinStep_creationtime up.link (asRead c) r.channel g
  rw [hnew] at hline
  have hmodes := sjoinModes_modeLetters c.mode (joined memberText ' ' g) h.key
  have hloses : loses up.link (formatTime c.creationtime) r.channel = decide
      (Beats (bogusTs up.link (asRead c).creationtime r.channel.creationtime)
        r.channel.creationtime) := loses_eq _ _ _
  have hroom : receiveRoom up t (sjoinLine sid c g) =
      setRoom t c.name (sjoinRoom up.link (formatTime c.creationtime) c.name (modeLetters c.mode)
        (modeParams c.mode ++ [joined memberText ' ' g]) (some r)) := by
    unfold receiveRoom
    rw [parse_sjoinLine sid c g hlink.validSid h]
    dsimp only
    rw [findSource_sid up sid hlink.validSid, hsource]
    dsimp only
    rw [if_neg (by decide), if_pos (irccmp_self _), if_pos hserver]
    obtain ⟨arg, args, hargs⟩ : ∃ arg args,
        modeParams c.mode ++ [joined memberText ' ' g] = arg :: args :=
      List.exists_cons_of_ne_nil (by simp)
    show msSjoinRoom up.link t (formatTime c.creationtime :: c.name :: modeLetters c.mode ::
      (modeParams c.mode ++ [joined memberText ' ' g])) = _
    rw [hargs, ← hfind]
    rfl
  rw [hroom]
  unfold Holds
  rw [findRoom_setRoom]
  unfold sjoinRoom
  rw [Option.map_some, hline, h.name, hmodes]
  dsimp only [Option.map_some]
  rw [hloses]
  refine ⟨_, rfl, ?_, ?_⟩
  · split <;> exact htime
  · by_cases hbeats : Beats (bogusTs up.link (asRead c).creationtime r.channel.creationtime)
        r.channel.creationtime
    · simp [hbeats]
    · simp [hbeats]

/-- All the SJOIN lines: the first one settles the timestamp. -/
theorem holds_sjoinLines (t : RoomTable) (o : ℤ) (topic : Topic) (ht : Holds t c.name o topic) :
    Holds ((sjoinLines sid c).foldl (receiveRoom up) t) c.name
      (settledTs (bogusTs up.link (asRead c).creationtime o) o)
      (if Beats (bogusTs up.link (asRead c).creationtime o) o then loseTopic topic else topic) := by
  have hgs : ∀ (gs : List (List Membership)) (t : RoomTable) (topic : Topic),
      (∀ g ∈ gs, ∀ member ∈ g, member ∈ c.members) →
      Holds t c.name (settledTs (bogusTs up.link (asRead c).creationtime o) o) topic →
      Holds ((gs.map (sjoinLine sid c)).foldl (receiveRoom up) t) c.name
        (settledTs (bogusTs up.link (asRead c).creationtime o) o) topic := by
    obtain ⟨hsettled, hnot⟩ := settledTs_again up.link (asRead c).creationtime o
    intro gs
    induction gs with
    | nil => exact fun t topic _ ht => ht
    | cons g gs ih =>
      intro t topic hmem ht
      have hone := holds_sjoinLine up sid c hlink h t g _ topic (hmem g List.mem_cons_self) ht
      rw [hsettled, if_neg hnot] at hone
      exact ih _ topic (fun g' hg' => hmem g' (List.mem_cons_of_mem g hg')) hone
  obtain ⟨g, gs, hgroups⟩ := memberGroups_cons sid c
  have hmem : ∀ g' ∈ g :: gs, ∀ member ∈ g', member ∈ c.members := by
    rw [← hgroups]
    exact fun g' hg' => mem_of_mem_group _ _ g' (flatten_memberGroups sid c) hg'
  unfold sjoinLines
  rw [hgroups, List.map_cons, List.foldl_cons]
  exact hgs gs _ _ (fun g' hg' => hmem g' (List.mem_cons_of_mem g hg'))
    (holds_sjoinLine up sid c hlink h t g o topic (hmem g List.mem_cons_self) ht)

theorem holds_bmaskLine (t : RoomTable) (type : ListType) (g : List Nuh) (o : ℤ) (topic : Topic)
    (hg : g ∈ maskGroups sid c type) (ht : Holds t c.name o topic) :
    Holds (receiveRoom up t (bmaskLine sid c type g)) c.name o topic := by
  obtain ⟨source, hsource, _⟩ := hlink.source
  obtain ⟨r, hfind, rfl, rfl⟩ := ht
  have hvalid : ∀ n ∈ g, n ∈ c.list type :=
    mem_of_mem_group _ _ g (flatten_maskGroups sid c type) hg
  have hlen := bmaskLine_length sid c type hlink.validSid h g hg
  have hreceive := receive_bmaskLine up.link sid source (channels t) c type g hlink.validSid hsource
    h hvalid hlen
  rw [hashFindChannel_channels, hfind] at hreceive
  have hroom : receiveRoom up t (bmaskLine sid c type g) =
      withChannels t (receive up.link (channels t) (bmaskLine sid c type g)) := by
    unfold receiveRoom
    rw [parse_bmaskLine sid c type g hlink.validSid h]
    dsimp only
    rw [findSource_sid up sid hlink.validSid, hsource]
    dsimp only
    rw [if_neg (by decide), if_neg (by decide), if_neg (by decide)]
  have hthere : findRoom (withChannels t (receive up.link (channels t) (bmaskLine sid c type g)))
      c.name = some { r with channel := bmaskStep (asRead c) type r.channel g } := by
    unfold findRoom withChannels
    rw [hreceive]
    have hset : setChannel (channels t) c.name (some (bmaskStep (asRead c) type r.channel g)) (fold c.name) =
        some (bmaskStep (asRead c) type r.channel g) := Function.update_self _ _ _
    unfold findRoom at hfind
    rw [Option.map_some, Option.map_some, hset, hfind]
    rfl
  rw [hroom]
  refine ⟨_, hthere, ?_, rfl⟩
  dsimp only
  unfold bmaskStep
  split
  · rfl
  · rw [foldl_addMask, creationtime_setList]

theorem holds_bmaskLines (t : RoomTable) (type : ListType) (o : ℤ) (topic : Topic)
    (ht : Holds t c.name o topic) :
    Holds ((bmaskLines sid c type).foldl (receiveRoom up) t) c.name o topic := by
  have hgs : ∀ (gs : List (List Nuh)) (t : RoomTable), (∀ g ∈ gs, g ∈ maskGroups sid c type) →
      Holds t c.name o topic →
      Holds ((gs.map (bmaskLine sid c type)).foldl (receiveRoom up) t) c.name o topic := by
    intro gs
    induction gs with
    | nil => exact fun t _ ht => ht
    | cons g gs ih =>
      intro t hmem ht
      exact ih _ (fun g' hg' => hmem g' (List.mem_cons_of_mem g hg'))
        (holds_bmaskLine up sid c hlink h t type g o topic (hmem g List.mem_cons_self) ht)
  exact hgs _ t (fun _ hg => hg) ht

theorem holds_burst (t : RoomTable) (o : ℤ) (topic : Topic) (ht : Holds t c.name o topic) :
    Holds ((burst sid c).foldl (receiveRoom up) t) c.name
      (settledTs (bogusTs up.link (asRead c).creationtime o) o)
      (if Beats (bogusTs up.link (asRead c).creationtime o) o then loseTopic topic else topic) := by
  rw [burst_eq sid c hlink.validSid h,
    sendChannelModes_eq sid c hlink.validSid h, List.foldl_append, List.foldl_append,
    List.foldl_append]
  apply holds_bmaskLines up sid c hlink h
  apply holds_bmaskLines up sid c hlink h
  apply holds_bmaskLines up sid c hlink h
  exact holds_sjoinLines up sid c hlink h t o topic ht

end Lines

def tburstHeader (sid : CStr) (r : Room) : CStr :=
  lineText sid "TBURST".toList (tburstWords r) [' ', ':']

/-- The topic as the other side reads it: the text as far as the line holds it. -/
def heard (sid : CStr) (r : Room) : Topic :=
  ⟨r.topic.text.take (IRCD_BUFSIZE - 2 - (tburstHeader sid r).length), r.topic.info,
    strtol (formatTime r.topic.time)⟩

theorem tburstHeader_length (sid : CStr) (r : Room) (hsid : ValidSid sid)
    (hname : checkChannelName r.channel.name = true) (htopic : ValidTopic r.topic) :
    (tburstHeader sid r).length ≤ IRCD_BUFSIZE - 2 := by
  have hts := formatTime_length r.channel.creationtime
  have htopicts := formatTime_length r.topic.time
  have hlen := checkChannelName_length r.channel.name hname
  have hinfo := htopic.info_len
  have hcommand : "TBURST".toList.length = 6 := rfl
  have hsize : IRCD_BUFSIZE = 512 := rfl
  have hsidlen := hsid.len
  simp only [CHANNELLEN] at hlen
  simp only [USERHOST_REPLYLEN, NICKLEN, HOSTLEN, USERLEN] at hinfo
  unfold tburstHeader tburstWords
  rw [lineText_length]
  simp only [spaced_cons, spaced_nil, List.length_cons, List.length_append, List.length_nil]
  omega

theorem sendFormat_tburst (sid : CStr) (r : Room) (hsid : ValidSid sid)
    (hname : checkChannelName r.channel.name = true) (htopic : ValidTopic r.topic) :
    sendFormat (lineText sid "TBURST".toList (tburstWords r) (' ' :: ':' :: r.topic.text)) =
      lineText sid "TBURST".toList (tburstWords r) (' ' :: ':' :: (heard sid r).text) := by
  have hlen := tburstHeader_length sid r hsid hname htopic
  have hsplit : ∀ text : CStr, lineText sid "TBURST".toList (tburstWords r) (' ' :: ':' :: text) =
      tburstHeader sid r ++ text := by
    intro text
    unfold tburstHeader
    rw [lineText_append]
    rfl
  rw [hsplit, hsplit]
  unfold sendFormat heard
  rw [List.take_append, List.take_of_length_le hlen]

theorem heard_whole (sid : CStr) (r : Room)
    (hlen : (tburstHeader sid r).length + r.topic.text.length ≤ IRCD_BUFSIZE - 2)
    (htime : 0 ≤ r.topic.time ∧ r.topic.time < 2 ^ 63) : heard sid r = r.topic := by
  have htext : r.topic.text.take (IRCD_BUFSIZE - 2 - (tburstHeader sid r).length) = r.topic.text :=
    List.take_of_length_le (by omega)
  unfold heard
  rw [htext, strtol_formatTime _ htime.1 htime.2]

theorem channelSetTopic_heard (sid : CStr) (r : Room) (htopic : ValidTopic r.topic) :
    channelSetTopic (heard sid r).text r.topic.info (strtol (formatTime r.topic.time)) =
      heard sid r := by
  have htext : strlcpy (heard sid r).text (TOPICLEN + 1) = (heard sid r).text :=
    strlcpy_of_le _ _ ((List.length_take_le' _ _).trans htopic.text_len)
  have hinfo : strlcpy r.topic.info USERHOST_REPLYLEN = r.topic.info :=
    List.take_of_length_le (by have := htopic.info_len; omega)
  unfold channelSetTopic
  rw [htext, hinfo]
  rfl

/-- The TBURST of `peer` is taken where the channel has this timestamp and the topic this time. -/
def Newer (sid : CStr) (peer : Room) (o time : ℤ) : Prop :=
  peer.topic.time ≠ 0 ∧ ((asRead peer.channel).creationtime < o ∨
    (asRead peer.channel).creationtime = o ∧ time < (heard sid peer).time)

instance (sid : CStr) (peer : Room) (o time : ℤ) : Decidable (Newer sid peer o time) :=
  inferInstanceAs (Decidable (_ ∧ (_ ∨ _ ∧ _)))

theorem acceptRemote_iff (ts topicts : CStr) (r : Room) :
    acceptRemote false ts topicts r = true ↔ strtol ts < r.channel.creationtime ∨
      strtol ts = r.channel.creationtime ∧ r.topic.time < strtol topicts := by
  unfold acceptRemote
  rw [if_neg (by decide)]
  split_ifs with hlt heq
  · exact iff_of_true rfl (Or.inl hlt)
  · simp [heq]
  · simp [hlt, heq]

theorem holds_sendTb (up : Uplink) (sid : CStr) (peer : Room) (t : RoomTable) (o : ℤ)
    (topic : Topic) (hlink : Linked up.link sid peer.channel) (h : WellFormed peer.channel)
    (htopic : ValidTopic peer.topic)
    (hservice : ∀ source, up.link.source sid = some source → up.service source = false)
    (ht : Holds t peer.channel.name o topic) :
    Holds ((sendTb sid peer).foldl (receiveRoom up) t) peer.channel.name o
      (if Newer sid peer o topic.time then heard sid peer else topic) := by
  obtain ⟨source, hsource, _⟩ := hlink.source
  obtain ⟨r, hfind, rfl, rfl⟩ := ht
  unfold sendTb
  by_cases htime : peer.topic.time ≠ 0
  · have hwords : ∀ w ∈ tburstWords peer, Word w := by
      intro w hw
      simp only [tburstWords, List.mem_cons, List.not_mem_nil, or_false] at hw
      rcases hw with rfl | rfl | rfl | rfl
      · exact word_formatTime _
      · exact word_name _ h.name
      · exact word_formatTime _
      · exact htopic.info_word htime
    have hparse := parse_trailing sid "TBURST".toList (tburstWords peer) (heard sid peer).text
      hlink.validSid.no_space ⟨by decide, by decide, by decide⟩ hwords
      (show 4 < MAXPARA by decide)
    have hreceive : receiveRoom up t (lineText sid "TBURST".toList (tburstWords peer)
        (' ' :: ':' :: (heard sid peer).text)) = setRoom t peer.channel.name
          (some (tburstRoom false (formatTime peer.channel.creationtime)
            (formatTime peer.topic.time) peer.topic.info (heard sid peer).text r)) := by
      unfold receiveRoom
      rw [hparse]
      dsimp only
      rw [findSource_sid up sid hlink.validSid, hsource]
      dsimp only
      rw [if_pos (irccmp_self _), hservice source hsource]
      show setRoom t peer.channel.name ((findRoom t peer.channel.name).map _) = _
      rw [hfind]
      rfl
    have hiff := acceptRemote_iff (formatTime peer.channel.creationtime)
      (formatTime peer.topic.time) r
    rw [if_pos htime, sendFormat_tburst sid peer hlink.validSid h.name htopic,
      List.foldl_cons, List.foldl_nil, hreceive]
    refine ⟨_, findRoom_setRoom _ _ _, by rw [tburstRoom_channel], ?_⟩
    have hnewer : acceptRemote false (formatTime peer.channel.creationtime)
        (formatTime peer.topic.time) r = true ↔
        Newer sid peer r.channel.creationtime r.topic.time :=
      hiff.trans (and_iff_right htime).symm
    unfold tburstRoom
    by_cases haccept : Newer sid peer r.channel.creationtime r.topic.time
    · rw [if_pos haccept, if_pos (hnewer.mpr haccept)]
      exact channelSetTopic_heard sid peer htopic
    · rw [if_neg haccept, if_neg (fun h => haccept (hnewer.mp h))]
  · rw [if_neg htime, if_neg (fun hnewer => htime hnewer.1)]
    exact ⟨r, hfind, rfl, rfl⟩

theorem holds_burstRoom (up : Uplink) (sid : CStr) (peer : Room) (t : RoomTable) (o : ℤ)
    (topic kept : Topic) (q n : ℤ) (hlink : Linked up.link sid peer.channel)
    (h : WellFormed peer.channel) (htopic : ValidTopic peer.topic)
    (hservice : ∀ source, up.link.source sid = some source → up.service source = false)
    (ht : Holds t peer.channel.name o topic)
    (hq : q = bogusTs up.link (asRead peer.channel).creationtime o) (hn : n = settledTs q o)
    (hkept : kept = if Beats q o then loseTopic topic else topic) :
    Holds ((burstRoom sid peer).foldl (receiveRoom up) t) peer.channel.name n
      (if Newer sid peer n kept.time then heard sid peer else kept) := by
  subst hq hn hkept
  unfold burstRoom
  rw [List.foldl_append]
  exact holds_sendTb up sid peer _ _ _ hlink h htopic hservice
    (holds_burst up sid peer.channel hlink h t o topic ht)

/-- Lines from a peer are not answered. -/
def onRoomLine (up : Uplink) (t : RoomTable) (line : CStr) : RoomTable × List CStr :=
  (receiveRoom up t line, [])

/-- One of the two servers: its uplink to the other, its own identifier, its tables and its
channel. -/
structure Side where
  up : Uplink
  sid : CStr
  table : RoomTable
  room : Room

/-- The side has the channel, and hears of the other's from a server that is no service. -/
structure Side.Ready (own peer : Side) : Prop where
  wellFormed : WellFormed own.room.channel
  time : -2 ^ 63 ≤ own.room.channel.creationtime
  validTopic : ValidTopic own.room.topic
  has : findRoom own.table own.room.channel.name = some own.room
  linked : Linked own.up.link peer.sid peer.room.channel
  service : ∀ source, own.up.link.source peer.sid = some source → own.up.service source = false

structure Peers where
  left : Side
  right : Side

structure Peers.Ready (p : Peers) : Prop where
  left : p.left.Ready p.right
  right : p.right.Ready p.left
  same : fold p.left.room.channel.name = fold p.right.room.channel.name

def Peers.start (p : Peers) : Net RoomTable RoomTable CStr CStr :=
  ⟨p.left.table, p.right.table, burstRoom p.right.sid p.right.room,
    burstRoom p.left.sid p.left.room⟩

section Outcome

variable (own peer : Side)

/-- The timestamp that `own` reads in the SJOIN of `peer`. -/
def readTs : ℤ :=
  bogusTs own.up.link (asRead peer.room.channel).creationtime own.room.channel.creationtime

/-- The timestamp after it. -/
def afterTs : ℤ := settledTs (readTs own peer) own.room.channel.creationtime

/-- The SJOIN wins, and there is a topic to clear. -/
def Cleared : Prop :=
  Beats (readTs own peer) own.room.channel.creationtime ∧ own.room.topic.text ≠ []

instance : Decidable (Cleared own peer) := inferInstanceAs (Decidable (_ ∧ _))

/-- The topic that the TBURST finds. -/
def kept : Topic := if Cleared own peer then noTopic else own.room.topic

/-- `own` takes the topic of `peer`. -/
def Takes : Prop := Newer peer.sid peer.room (afterTs own peer) (kept own peer).time

instance : Decidable (Takes own peer) :=
  inferInstanceAs (Decidable (Newer _ _ _ _))

/-- The other side takes the topic of `own`, which gets there whole and stays here. -/
def Spreads : Prop :=
  Takes peer own ∧ ¬ Takes own peer ∧ ¬ Cleared own peer ∧ heard own.sid own.room = own.room.topic

theorem kept_eq : kept own peer =
    if Beats (readTs own peer) own.room.channel.creationtime then loseTopic own.room.topic
    else own.room.topic := by
  rw [loseTopic_eq]
  unfold kept
  by_cases hbeats : Beats (readTs own peer) own.room.channel.creationtime
  · by_cases htext : own.room.topic.text ≠ []
    · rw [if_pos (show Cleared own peer from ⟨hbeats, htext⟩), if_pos hbeats, if_pos htext]
    · rw [if_neg (fun h : Cleared own peer => htext h.2), if_pos hbeats, if_neg htext]
  · rw [if_neg (fun h : Cleared own peer => hbeats h.1), if_neg hbeats]

theorem side_final (h : own.Ready peer) (hpeer : peer.Ready own)
    (hsame : fold own.room.channel.name = fold peer.room.channel.name) :
    Holds ((burstRoom peer.sid peer.room).foldl (receiveRoom own.up) own.table)
      own.room.channel.name (afterTs own peer)
      (if Takes own peer then heard peer.sid peer.room else kept own peer) := by
  have hname : ∀ (t : RoomTable) (ts : ℤ) (topic : Topic),
      Holds t peer.room.channel.name ts topic ↔ Holds t own.room.channel.name ts topic := by
    intro t ts topic
    unfold Holds findRoom
    rw [hsame]
  have hhas : Holds own.table own.room.channel.name own.room.channel.creationtime own.room.topic :=
    ⟨own.room, h.has, rfl, rfl⟩
  exact (hname _ _ _).mp (holds_burstRoom own.up peer.sid peer.room own.table _ own.room.topic
    (kept own peer) (readTs own peer) (afterTs own peer) h.linked hpeer.wellFormed hpeer.validTopic
    h.service ((hname _ _ _).mpr hhas) rfl rfl (kept_eq own peer))

theorem heard_time_ne (h : ValidTopic own.room.topic) (htime : own.room.topic.time ≠ 0) :
    (heard own.sid own.room).time ≠ 0 := by
  have hrange := h.time_range
  have hcases := strtol_formatTime_cases own.room.topic.time hrange.1 hrange.2
  show strtol (formatTime own.room.topic.time) ≠ 0
  omega

end Outcome

/-- The topics in which the two sides end up alike: one of them spreads, or each takes the other's
and they were the same, or neither does and what the SJOIN left is the same. -/
def Agree (l r : Side) : Prop :=
  Spreads l r ∨ Spreads r l ∨
    (Takes l r ∧ Takes r l ∧ heard r.sid r.room = heard l.sid l.room) ∨
    (¬ Takes l r ∧ ¬ Takes r l ∧ kept l r = kept r l)

/-- A topic that was sent does not meet with one that was cleared. -/
theorem heard_ne_noTopic (own : Side) (h : ValidTopic own.room.topic)
    (htime : own.room.topic.time ≠ 0) : heard own.sid own.room ≠ noTopic :=
  fun heq => heard_time_ne own h htime (congrArg Topic.time heq)

theorem spreads_iff (own peer : Side) (h : ValidTopic own.room.topic) (htakes : Takes peer own)
    (hnot : ¬ Takes own peer) :
    heard own.sid own.room = kept own peer ↔ Spreads own peer := by
  unfold kept Spreads
  by_cases hcleared : Cleared own peer
  · rw [if_pos hcleared]
    exact iff_of_false (heard_ne_noTopic own h htakes.1) (fun hs => hs.2.2.1 hcleared)
  · rw [if_neg hcleared]
    exact ⟨fun heq => ⟨htakes, hnot, hcleared, heq⟩, fun hs => hs.2.2.2⟩

theorem agree_of_final (l r : Side) (hl : ValidTopic l.room.topic) (hr : ValidTopic r.room.topic) :
    ((if Takes l r then heard r.sid r.room else kept l r) =
      if Takes r l then heard l.sid l.room else kept r l) ↔ Agree l r := by
  unfold Agree
  by_cases htl : Takes l r
  · by_cases htr : Takes r l
    · rw [if_pos htl, if_pos htr]
      unfold Spreads
      tauto
    · rw [if_pos htl, if_neg htr, spreads_iff r l hr htl htr]
      unfold Spreads
      tauto
  · by_cases htr : Takes r l
    · rw [if_neg htl, if_pos htr, eq_comm, spreads_iff l r hl htr htl]
      unfold Spreads
      tauto
    · rw [if_neg htl, if_neg htr]
      unfold Spreads
      tauto

/-- Neither the channels' timestamps nor the topics' times tell the two apart. -/
def Level (l r : Side) : Prop :=
  l.room.channel.creationtime = r.room.channel.creationtime ∧ l.room.topic.time = r.room.topic.time

/-- Every order of deliveries ends with both bursts received. -/
theorem final_same_iff (p : Peers) (h : p.Ready) (final : Net RoomTable RoomTable CStr CStr)
    (hfinal : Completes (onRoomLine p.left.up) (onRoomLine p.right.up) p.start final) :
    (∃ l r, findRoom final.left p.left.room.channel.name = some l ∧
      findRoom final.right p.right.room.channel.name = some r ∧ l.topic = r.topic) ↔
      Agree p.left p.right := by
  have hsilent := completes_silent (onRoomLine p.left.up) (onRoomLine p.right.up) p.left.table
    p.right.table (burstRoom p.right.sid p.right.room) (burstRoom p.left.sid p.left.room)
    (fun _ _ _ => rfl) (fun _ _ _ => rfl)
  have hunique := completes_unique _ _ _ _ _ hfinal hsilent
  obtain ⟨l, hl, _, hltopic⟩ := side_final p.left p.right h.left h.right h.same
  obtain ⟨r, hr, _, hrtopic⟩ := side_final p.right p.left h.right h.left h.same.symm
  rw [← agree_of_final p.left p.right h.left.validTopic h.right.validTopic, ← hltopic, ← hrtopic,
    hunique]
  constructor
  · intro ⟨l', r', hl', hr', heq⟩
    obtain rfl := Option.some.inj (hl.symm.trans hl')
    obtain rfl := Option.some.inj (hr.symm.trans hr')
    exact heq
  · exact fun heq => ⟨l, r, hl, hr, heq⟩

/-- Whatever the order of deliveries: unless the times are level, the two sides hold the same topic
in the end if and only if what they started from lets them agree. -/
theorem topics_converge_iff (p : Peers) (h : p.Ready) (final : Net RoomTable RoomTable CStr CStr)
    (hfinal : Completes (onRoomLine p.left.up) (onRoomLine p.right.up) p.start final) :
    (¬ Level p.left p.right → ∃ l r, findRoom final.left p.left.room.channel.name = some l ∧
      findRoom final.right p.right.room.channel.name = some r ∧ l.topic = r.topic) ↔
      (Level p.left p.right ∨ Agree p.left p.right) := by
  rw [final_same_iff p h final hfinal]
  tauto

structure Plain (l r : Side) : Prop where
  leftRead : readTs l r = r.room.channel.creationtime
  rightRead : readTs r l = l.room.channel.creationtime
  leftHeard : heard l.sid l.room = l.room.topic
  rightHeard : heard r.sid r.room = r.room.topic
  leftTold : (asRead l.room.channel).creationtime = l.room.channel.creationtime
  rightTold : (asRead r.room.channel).creationtime = r.room.channel.creationtime
  leftTs : 0 ≤ l.room.channel.creationtime
  rightTs : 0 ≤ r.room.channel.creationtime
  leftTime : 0 ≤ l.room.topic.time
  rightTime : 0 ≤ r.room.topic.time

theorem Plain.symm (l r : Side) (h : Plain l r) : Plain r l :=
  ⟨h.rightRead, h.leftRead, h.rightHeard, h.leftHeard, h.rightTold, h.leftTold, h.rightTs, h.leftTs, h.rightTime,
    h.leftTime⟩

section Plain

variable (l r : Side) (h : Plain l r)

include h

theorem takes_plain : Takes l r ↔
    (r.room.channel.creationtime = 0 ∨ l.room.channel.creationtime ≠ 0 ∧
      r.room.channel.creationtime ≤ l.room.channel.creationtime) ∧
    (kept l r).time < r.room.topic.time := by
  have hkept : 0 ≤ (kept l r).time := by
    unfold kept
    split
    · exact le_refl 0
    · exact h.leftTime
  have hl := h.leftTs
  have hr := h.rightTs
  unfold Takes Newer afterTs settledTs
  rw [h.leftRead, h.rightHeard, h.rightTold]
  split_ifs <;> omega

theorem cleared_plain : Cleared l r ↔
    Beats r.room.channel.creationtime l.room.channel.creationtime ∧ l.room.topic.text ≠ [] := by
  unfold Cleared
  rw [h.leftRead]

/-- The timestamp of `r` does not win, so the topic of `l` stays. -/
theorem kept_plain (hnot : ¬ Beats r.room.channel.creationtime l.room.channel.creationtime) :
    kept l r = l.room.topic := by
  unfold kept
  exact if_neg (fun hcleared => hnot ((cleared_plain l r h).mp hcleared).1)

/-- The older channel's topic stands, unless there is a topic to clear and none to send, or none to
clear and it is not newer than what is left of the other. -/
theorem agree_older (holder : Older l.room.channel r.room.channel) :
    Agree l r ↔
      (r.room.topic.text ≠ [] → l.room.topic.time ≠ 0 ∨ l.room.topic = noTopic) ∧
      (r.room.topic.text = [] → r.room.topic.time < l.room.topic.time ∨
        l.room.topic = r.room.topic) := by
  obtain ⟨hl, hr, hlt⟩ := holder
  have hnotl : ¬ Beats r.room.channel.creationtime l.room.channel.creationtime := by
    unfold Beats
    omega
  have hbeats : Beats l.room.channel.creationtime r.room.channel.creationtime := ⟨hl, hr, hlt⟩
  have htl := takes_plain l r h
  have htr := takes_plain r l h.symm
  have hkl := kept_plain l r h hnotl
  have hcl := (cleared_plain l r h).not.mpr (fun hc => hnotl hc.1)
  have hcr := cleared_plain r l h.symm
  have hls : ¬ Takes l r := by
    rw [htl]
    omega
  have hpos := h.leftTime
  unfold Agree Spreads
  rw [hkl, h.leftHeard]
  by_cases htext : r.room.topic.text = []
  · have hkr : kept r l = r.room.topic := if_neg (fun hc => (hcr.mp hc).2 htext)
    rw [hkr] at htr ⊢
    have hrs : Takes r l ↔ r.room.topic.time < l.room.topic.time := htr.trans (by omega)
    have htime : l.room.topic = r.room.topic → l.room.topic.time = r.room.topic.time := congrArg _
    rw [hrs]
    by_cases hnewer : r.room.topic.time < l.room.topic.time
    · simp [hls, hnewer, hcl, htext]
    · simp [hls, hnewer, htext]
  · have hkr : kept r l = noTopic := if_pos (hcr.mpr ⟨hbeats, htext⟩)
    rw [hkr] at htr ⊢
    have hrs : Takes r l ↔ l.room.topic.time ≠ 0 := by
      have hzero : noTopic.time = 0 := rfl
      rw [htr]
      omega
    rw [hrs]
    by_cases htime : l.room.topic.time = 0
    · simp [hls, htime, htext]
    · simp [hls, htime, htext, hcl]

end Plain

def sampleRoom (ts : ℤ) (id : CStr) (topic : Topic) : Room :=
  ⟨createChannel ts "#c".toList id, topic, []⟩

def sampleSide (ts : ℤ) (sid id peerSid peerId : CStr) (topic : Topic) : Side where
  up := ⟨linkTo false peerSid peerId, fun _ => false⟩
  sid := sid
  table := setRoom (fun _ => none) "#c".toList (some (sampleRoom ts id topic))
  room := sampleRoom ts id topic

theorem sampleSide_ready (own peer : ℤ) (sid id peerSid peerId : CStr) (topic topic' : Topic)
    (hown : -2 ^ 63 ≤ own ∧ own < 2 ^ 63) (hid : ValidId id) (hsid : ValidSid peerSid)
    (htopic : ValidTopic topic) :
    (sampleSide own sid id peerSid peerId topic).Ready
      (sampleSide peer peerSid peerId sid id topic') where
  wellFormed := (createChannel_live own "#c".toList id hown.2 (by decide) hid).wellFormed
  time := hown.1
  validTopic := htopic
  has := findRoom_setRoom _ _ _
  linked := linkTo_linked _ _ _ _ hsid (by simp [sampleSide, sampleRoom, createChannel,
    addUserToChannel, makeChannel])
  service := fun _ _ => rfl

def leftId : CStr := "1AAAAAAAA".toList
def rightId : CStr := "2BBAAAAAA".toList

theorem ids_valid : ValidId leftId ∧ ValidId rightId :=
  ⟨validId_of_all '1' "AAAAAAAA".toList (by decide) (by decide) (by decide),
    validId_of_all '2' "BBAAAAAA".toList (by decide) (by decide) (by decide)⟩

def newTopic : Topic := ⟨"new".toList, "a!b@c".toList, 10⟩

/-- What is left of a topic that was unset at 20. -/
def unsetTopic : Topic := ⟨[], "d!e@f".toList, 20⟩

def oldTopic : Topic := ⟨"old".toList, "d!e@f".toList, 20⟩

/-- The left channel is from 5 and the right one from 9. -/
def samplePeers (topic : Topic) : Peers where
  left := sampleSide 5 "1AA".toList leftId "2BB".toList rightId newTopic
  right := sampleSide 9 "2BB".toList rightId "1AA".toList leftId topic

theorem samplePeers_ready (topic : Topic) (h : ValidTopic topic) : (samplePeers topic).Ready where
  left := sampleSide_ready 5 9 _ _ _ _ _ _ (by decide) ids_valid.1 ⟨by decide, by decide⟩
    ⟨by decide, by decide, fun _ => ⟨by decide, by decide, by decide⟩, by decide⟩
  right := sampleSide_ready 9 5 _ _ _ _ _ _ (by decide) ids_valid.2 ⟨by decide, by decide⟩ h
  same := rfl

theorem samplePeers_plain (topic : Topic) (htime : 0 ≤ topic.time ∧ topic.time < 2 ^ 63)
    (hlen : (tburstHeader "2BB".toList (sampleRoom 9 rightId topic)).length + topic.text.length ≤
      IRCD_BUFSIZE - 2) :
    Plain (samplePeers topic).left (samplePeers topic).right where
  leftRead := congrArg Channel.creationtime (asRead_eq (samplePeers topic).right.room.channel
    (show (0 : ℤ) ≤ 9 by decide) (show (9 : ℤ) < 2 ^ 63 by decide))
  rightRead := congrArg Channel.creationtime (asRead_eq (samplePeers topic).left.room.channel
    (show (0 : ℤ) ≤ 5 by decide) (show (5 : ℤ) < 2 ^ 63 by decide))
  leftHeard := heard_whole "1AA".toList (sampleRoom 5 leftId newTopic) (by decide) (by decide)
  rightHeard := heard_whole "2BB".toList (sampleRoom 9 rightId topic) hlen htime
  leftTold := congrArg Channel.creationtime (asRead_eq _ (show (0 : ℤ) ≤ 5 by decide)
    (show (5 : ℤ) < 2 ^ 63 by decide))
  rightTold := congrArg Channel.creationtime (asRead_eq _ (show (0 : ℤ) ≤ 9 by decide)
    (show (9 : ℤ) < 2 ^ 63 by decide))
  leftTs := show (0 : ℤ) ≤ 5 by decide
  rightTs := show (0 : ℤ) ≤ 9 by decide
  leftTime := show (0 : ℤ) ≤ 10 by decide
  rightTime := htime.1

theorem samplePeers_older (topic : Topic) :
    Older (samplePeers topic).left.room.channel (samplePeers topic).right.room.channel :=
  ⟨show (5 : ℤ) ≠ 0 by decide, show (9 : ℤ) ≠ 0 by decide, show (5 : ℤ) < 9 by decide⟩

theorem samplePeers_completes (topic : Topic) : ∃ final,
    Completes (onRoomLine (samplePeers topic).left.up) (onRoomLine (samplePeers topic).right.up)
      (samplePeers topic).start final :=
  ⟨_, completes_silent _ _ _ _ _ _ (fun _ _ _ => rfl) (fun _ _ _ => rfl)⟩

theorem samplePeers_level (topic : Topic) :
    ¬ Level (samplePeers topic).left (samplePeers topic).right :=
  fun hlevel => absurd (show (5 : ℤ) = 9 from hlevel.1) (by decide)

theorem topics_converge_sample : ∃ final,
    Completes (onRoomLine (samplePeers oldTopic).left.up) (onRoomLine (samplePeers oldTopic).right.up)
      (samplePeers oldTopic).start final ∧
    ∃ l r, findRoom final.left "#c".toList = some l ∧ findRoom final.right "#c".toList = some r ∧
      l.topic = r.topic := by
  obtain ⟨final, hfinal⟩ := samplePeers_completes oldTopic
  have hready := samplePeers_ready oldTopic
    ⟨by decide, by decide, fun _ => ⟨by decide, by decide, by decide⟩, by decide⟩
  have hplain := samplePeers_plain oldTopic (by decide) (by decide)
  have hagree : Agree (samplePeers oldTopic).left (samplePeers oldTopic).right :=
    (agree_older _ _ hplain (samplePeers_older oldTopic)).mpr
      ⟨fun _ => Or.inl (show (10 : ℤ) ≠ 0 by decide),
        fun hnil => absurd (show "old".toList = [] from hnil) (by decide)⟩
  exact ⟨final, hfinal, (topics_converge_iff (samplePeers oldTopic) hready final hfinal).mpr
    (Or.inr hagree) (samplePeers_level oldTopic)⟩

/-- The topic that was unset on the younger side keeps its time, and the older side's is not
taken. -/
theorem unset_topic_stays : (samplePeers unsetTopic).Ready ∧
    ¬ Level (samplePeers unsetTopic).left (samplePeers unsetTopic).right ∧
    ∃ final, Completes (onRoomLine (samplePeers unsetTopic).left.up)
        (onRoomLine (samplePeers unsetTopic).right.up) (samplePeers unsetTopic).start final ∧
      ¬ ∃ l r, findRoom final.left "#c".toList = some l ∧
        findRoom final.right "#c".toList = some r ∧ l.topic = r.topic := by
  obtain ⟨final, hfinal⟩ := samplePeers_completes unsetTopic
  have hready := samplePeers_ready unsetTopic
    ⟨by decide, by decide, fun _ => ⟨by decide, by decide, by decide⟩, by decide⟩
  have hplain := samplePeers_plain unsetTopic (by decide) (by decide)
  refine ⟨hready, samplePeers_level unsetTopic, final, hfinal, fun hsame => ?_⟩
  have hagree := (final_same_iff (samplePeers unsetTopic) hready final hfinal).mp hsame
  have hcases := ((agree_older _ _ hplain (samplePeers_older unsetTopic)).mp hagree).2 rfl
  rcases hcases with hnewer | heq
  · exact absurd (show (20 : ℤ) < 10 from hnewer) (by decide)
  · exact absurd (show newTopic = unsetTopic from heq) (by decide)

end IrcdHybrid.TopicBurst
