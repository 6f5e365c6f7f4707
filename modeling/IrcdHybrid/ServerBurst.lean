import IrcdHybrid.ServerTree

/-!
A new link. It is told of all servers, from the oldest on, then of every channel, with
the users on it in front, and last of the users on no channel. A user that has been
sent is marked, so that it is not sent again.
-/

namespace IrcdHybrid.ServerBurst

open CString Numeral Wire MemberLists ServerTree Function

/-- The lines that introduce a user to a link, without what else is known of it. -/
def uidLines (s : Net) (link target : ClientPtr) : List Line :=
  let n := s.node target
  [.uid (idOf s n.servptr) (nameOf s target) (n.hopcount + 1) (idOf s target) n.profile
      (s.node link).capSvs] ++
    (if n.profile.certfp ≠ [] then [.certfp (idOf s target) n.profile.certfp] else [])

/-- `sendnick_TS`. -/
def sendnickTS (s : Net) (link target : ClientPtr) : Net :=
  if !isClient s.rooms target then s
  else
    let profile := (s.node target).profile
    let lines := uidLines s link target ++
      (if profile.away ≠ [] then [.away (idOf s target) profile.away] else []) ++
      profile.svstags.map (fun tag => .svstag s.meId (idOf s target) profile.tsinfo tag)
    { s with sent := s.sent ++ lines.map (fun line => (link, line)) }

def addBursted (s : Net) (target : ClientPtr) : Net :=
  { s with bursted := update s.bursted target true }

def delBursted (s : Net) (target : ClientPtr) : Net :=
  { s with bursted := update s.bursted target false }

/-- One turn of the loop of `burst_members`. -/
def burstMember (link : ClientPtr) (s : Net) (member : MemberPtr) : Net :=
  match s.rooms.memberships member with
  | none => s
  | some m =>
    if s.bursted m.client then s
    else
      let s := addBursted s m.client
      if fromOf s m.client ≠ link then sendnickTS s link m.client else s

def burstMembers (s : Net) (link : ClientPtr) (chptr : ChannelPtr) : Net :=
  (membersOf s.rooms chptr).foldl (burstMember link) s

/-- A membership as it is printed. -/
def memberView (s : Net) (member : MemberPtr) : Option Channels.Membership :=
  (s.rooms.memberships member).map (fun m => ⟨idOf s m.client, m.flags⟩)

def channelView (s : Net) (chptr : ChannelPtr) (c : Channel) : Channels.Channel :=
  ⟨c.name, c.creationtime, c.mode, c.members.filterMap (memberView s), (s.extra chptr).banlist,
    (s.extra chptr).exceptlist, (s.extra chptr).invexlist⟩

/-- The start of the buffer of `send_members`. -/
def sjoinStart (s : Net) (c : Channels.Channel) : CStr :=
  let (modebuf, parabuf) := Burst.channelModes c.mode
  [':'] ++ s.meId ++ " SJOIN ".toList ++ Burst.formatTime c.creationtime ++ [' '] ++ c.name ++
    [' '] ++ modebuf ++ [' '] ++ parabuf ++ [':']

/-- The loop of `send_members`: the members of each line, when the buffer starts with `start`
letters and has `t` by now. -/
def memberGroups (start : ℕ) : List Channels.Membership → ℕ → List Channels.Membership →
    List (List Channels.Membership)
  | [], _, cur => [cur]
  | member :: members, t, cur =>
    let tlen := member.id.length + 1 + (if member.flags.chanop then 1 else 0) +
      (if member.flags.halfop then 1 else 0) + (if member.flags.voice then 1 else 0)
    if t + tlen > IRCD_BUFSIZE - 1 then
      cur :: memberGroups start members (start + tlen) [member]
    else memberGroups start members (t + tlen) (cur ++ [member])

def sendMembers (s : Net) (chptr : ChannelPtr) (c : Channels.Channel) : List Line :=
  let start := (sjoinStart s c).length
  (memberGroups start c.members start []).map (fun g => .sjoin chptr g)

/-- `send_channel_modes`. -/
def sendChannelModes (s : Net) (link : ClientPtr) (chptr : ChannelPtr) : Net :=
  match s.rooms.channels chptr with
  | none => s
  | some c =>
    let view := channelView s chptr c
    let masks := fun type => (Burst.sendModeList s.meId view type).map (fun t => Line.bmask chptr t)
    let lines := sendMembers s chptr view ++ masks .ban ++ masks .exception ++ masks .invex
    { s with sent := s.sent ++ lines.map (fun line => (link, line)) }

/-- `send_tb`. -/
def sendTb (s : Net) (link : ClientPtr) (chptr : ChannelPtr) : Net :=
  let e := s.extra chptr
  if e.topicTime ≠ 0 then sendtoOne s link (.tburst chptr e.topicTime e.topicInfo e.topic) else s

/-- `channel_list`: channels are made one after the other, and each comes to the front. -/
def channelList (s : Net) : List ChannelPtr :=
  (List.range s.rooms.nextChannel).reverse.filter (fun chptr => (s.rooms.channels chptr).isSome)

def burstChannel (link : ClientPtr) (s : Net) (chptr : ChannelPtr) : Net :=
  if membersOf s.rooms chptr = [] then s
  else
    let s := sendChannelModes (burstMembers s link chptr) link chptr
    if (s.node link).capTburst then sendTb s link chptr else s

/-- One turn of the second loop of `burst_all`. -/
def burstRest (link : ClientPtr) (s : Net) (target : ClientPtr) : Net :=
  let s := if !s.bursted target && decide (fromOf s target ≠ link) then sendnickTS s link target
    else s
  delBursted s target

def burstAll (s : Net) (link : ClientPtr) : Net :=
  s.globalClientList.foldl (burstRest link) ((channelList s).foldl (burstChannel link) s)

def serverBurst (s : Net) (link : ClientPtr) : Net :=
  sendtoOne (burstAll s link) link (.ping s.meId)

/-- The servers, from the oldest on. -/
def sendServer (link : ClientPtr) (s : Net) (target : ClientPtr) : Net :=
  if target = s.me ∨ fromOf s target = link then s
  else
    let n := s.node target
    sendtoOne s link (.sid (idOf s n.servptr) (nameOf s target) (n.hopcount + 1) (idOf s target)
      n.hidden n.profile.info)

def sendEob (link : ClientPtr) (s : Net) (target : ClientPtr) : Net :=
  if fromOf s target = link then s
  else if target = s.me ∨ (s.node target).eob then sendtoOne s link (.eob (idOf s target))
  else s

/-- What a link is told before it is on the lists. -/
def greet (conf : Conf) (s : Net) (link : ClientPtr) : Net :=
  let s := if (s.node link).outbound then s
    else sendtoOne (sendtoOne (sendtoOne s link (.pass conf.password s.meId)) link .capab) link
      (.server s.meName conf.hidden s.meInfo)
  sendtoOne s link (.svinfo s.meId conf.env.currentTime)

/-- The link becomes a server, and is put on the lists of servers and in the hashes. -/
def linkServer (s : Net) (link : ClientPtr) : Net :=
  let s := { s with rooms := modifyClient s.rooms link (fun c => { c with status := .server }) }
  let s := modifyNode s s.me (fun n => { n with serverList := link :: n.serverList })
  let s := { s with
    unknownList := s.unknownList.erase link
    localServerList := link :: s.localServerList
    globalClientList := link :: s.globalClientList
    globalServerList := link :: s.globalServerList }
  hashAddId (hashAddClient s link) link

/-- What a new link is told of the network. -/
def tellNetwork (s : Net) (link : ClientPtr) : Net :=
  let s := s.globalServerList.reverse.foldl (sendServer link) s
  let s := serverBurst s link
  if (s.node link).capEob then s.globalServerList.reverse.foldl (sendEob link) s else s

def serverEstab (conf : Conf) (s : Net) (link : ClientPtr) : Net :=
  if !conf.hub && decide (s.localServerList ≠ []) then
    exitClient conf s link "I'm a leaf not a hub".toList
  else
    let s := modifyNode (greet conf s link) link (fun n => { n with servptr := s.me })
    if (s.node link).closing then s
    else
      let s := linkServer s link
      let s := sendtoServer s (some link) (.sid s.meId (nameOf s link) 2 (idOf s link)
        (s.node link).hidden (s.node link).profile.info)
      tellNetwork s link

end IrcdHybrid.ServerBurst
