import IrcdHybrid.ChannelMode

/-!
What the members of a channel who are on this server are shown. A change that a
server made is announced in the name of the server itself when servers are
hidden. `remove_a_mode` takes one status from every member that has it and says
so, six names at a time.
-/

namespace IrcdHybrid.ChannelLines

open CString Numeral Channels Burst Sjoin ChannelMode

/-- `CAP_EXTENDED_JOIN` and `CAP_AWAY_NOTIFY`. -/
structure Caps where
  extendedJoin : Bool
  awayNotify : Bool
  deriving DecidableEq, Repr

/-- A client; `connection` is there for one on this server that can be written to. -/
structure Client where
  name : CStr
  username : CStr
  host : CStr
  account : CStr
  info : CStr
  away : CStr
  server : CStr
  direction : CStr
  connection : Option Caps
  umodes : Finset Char

/-- A server behind a link. -/
structure Peer where
  name : CStr
  hidden : Bool
  service : Bool
  direction : CStr

/-- This server and its configuration, the servers it knows and how it looks up a nick. -/
structure Net where
  me : CStr
  hideServers : Bool
  ignoreBogusTs : Bool
  cycleOnHostChange : Bool
  currentTime : ℤ
  servers : CStr → Peer
  findChasing : CStr → Option CStr

/-- A channel with its topic. -/
structure Room extends Channel where
  topic : CStr
  topicInfo : CStr
  topicTime : ℤ

abbrev Clients := CStr → Option Client
abbrev Rooms := CStr → Option Room

def makeRoom (currentTime : ℤ) (name : CStr) : Room :=
  ⟨makeChannel currentTime name, [], [], 0⟩

def findRoom (rooms : Rooms) (name : CStr) : Option Room := rooms (fold name)

def setRoom (rooms : Rooms) (name : CStr) (room : Option Room) : Rooms :=
  Function.update rooms (fold name) room

theorem findRoom_setRoom (rooms : Rooms) (name : CStr) (room : Option Room) :
    findRoom (setRoom rooms name room) name = room := by
  simp [findRoom, setRoom]

theorem findRoom_setRoom_other (rooms : Rooms) (name other : CStr) (room : Option Room)
    (h : fold other ≠ fold name) : findRoom (setRoom rooms name room) other = findRoom rooms other := by
  simp [findRoom, setRoom, h]

/-- Who a message is from. -/
inductive Sender where
  | server (id : CStr)
  | client (id : CStr)
  deriving DecidableEq, Repr

def nick (clients : Clients) (id : CStr) : CStr := (clients id).elim [] Client.name

def Sender.name (net : Net) (clients : Clients) : Sender → CStr
  | .server id => (net.servers id).name
  | .client id => nick clients id

/-- `IsHidden`; only servers are. -/
def Sender.hidden (net : Net) : Sender → Bool
  | .server id => (net.servers id).hidden
  | .client _ => false

def Sender.direction (net : Net) (clients : Clients) : Sender → CStr
  | .server id => (net.servers id).direction
  | .client id => (clients id).elim [] Client.direction

/-- The name that a change of modes is announced in. -/
def shownName (net : Net) (clients : Clients) (source : Sender) : CStr :=
  if source.hidden net || net.hideServers then net.me else source.name net clients

/-- A line `":%s COMMAND rest"`. -/
structure Line where
  origin : CStr
  command : CStr
  rest : CStr
  deriving DecidableEq, Repr

def Line.text (l : Line) : CStr := ':' :: l.origin ++ ' ' :: l.command ++ ' ' :: l.rest

/-- A line on its way: to a client of this server, to the operators, to the other servers. -/
inductive Sent where
  | member (id : CStr) (line : Line)
  | realops (text : CStr)
  | servers (line : Line)
  deriving DecidableEq, Repr

/-- What one client is sent. -/
def linesTo (id : CStr) (sent : List Sent) : List Line :=
  sent.filterMap (fun
    | .member target line => if target = id then some line else none
    | _ => none)

@[simp] theorem linesTo_nil (id : CStr) : linesTo id [] = [] := rfl

@[simp] theorem linesTo_append (id : CStr) (a b : List Sent) :
    linesTo id (a ++ b) = linesTo id a ++ linesTo id b := by
  simp [linesTo]

@[simp] theorem linesTo_realops (id text : CStr) (sent : List Sent) :
    linesTo id (.realops text :: sent) = linesTo id sent := by
  simp [linesTo]

@[simp] theorem linesTo_servers (id : CStr) (line : Line) (sent : List Sent) :
    linesTo id (.servers line :: sent) = linesTo id sent := by
  simp [linesTo]

theorem linesTo_member (id target : CStr) (line : Line) (sent : List Sent) :
    linesTo id (.member target line :: sent) =
      if target = id then line :: linesTo id sent else linesTo id sent := by
  unfold linesTo
  by_cases h : target = id
  · simp [h]
  · simp [h]

/-- The members on this server whose capabilities fit, in the order of `locmembers`. -/
def localMembers (clients : Clients) (fits : Caps → Bool) (chptr : Channel) : List CStr :=
  (chptr.members.map Membership.id).filter
    (fun id => ((clients id).bind Client.connection).any fits)

def sendtoChannelLocal (clients : Clients) (chptr : Channel) (line : Line) : List Sent :=
  (localMembers clients (fun _ => true) chptr).map (fun id => .member id line)

/-- `sendto_channel_local_butone`, for a `one` who is on another server or none. -/
def sendtoChannelLocalButone (clients : Clients) (fits : Caps → Bool) (chptr : Channel)
    (line : Line) : List Sent :=
  (localMembers clients fits chptr).map (fun id => .member id line)

/-- `"%s!%s@%s"`. -/
def Client.prefixText (c : Client) : CStr := c.name ++ '!' :: c.username ++ '@' :: c.host

/-- The account, unless it is a number or there is none. -/
def Client.shownAccount (c : Client) : CStr :=
  match c.account with
  | a :: _ => if isDigit a ∨ a = '*' then ['*'] else c.account
  | [] => []

/-- The JOIN and AWAY lines for a client from elsewhere who has come in. -/
def joinLines (clients : Clients) (chptr : Channel) (c : Client) : List Sent :=
  sendtoChannelLocalButone clients Caps.extendedJoin chptr
      ⟨c.prefixText, "JOIN".toList, chptr.name ++ ' ' :: c.shownAccount ++ " :".toList ++ c.info⟩ ++
    sendtoChannelLocalButone clients (fun caps => !caps.extendedJoin) chptr
      ⟨c.prefixText, "JOIN".toList, ':' :: chptr.name⟩ ++
    (if c.away = [] then []
    else sendtoChannelLocalButone clients Caps.awayNotify chptr
      ⟨c.prefixText, "AWAY".toList, ':' :: c.away⟩)

/-- A MODE line for letters that all take a parameter. -/
def modeLine (origin name : CStr) (sign : Char) (changes : List (Char × CStr)) : Line :=
  ⟨origin, "MODE".toList,
    name ++ ' ' :: sign :: changes.map Prod.fst ++ changes.flatMap (fun ch => ' ' :: ch.2)⟩

/-- The nicks six at a time; `lpara` are those not sent yet. -/
def statusBatches : List CStr → List CStr → List (List CStr)
  | [], lpara => if lpara = [] then [] else [lpara]
  | n :: nicks, lpara =>
    if MAXMODEPARAMS ≤ (lpara ++ [n]).length then (lpara ++ [n]) :: statusBatches nicks []
    else statusBatches nicks (lpara ++ [n])

theorem flatten_statusBatches (nicks lpara : List CStr) :
    (statusBatches nicks lpara).flatten = lpara ++ nicks := by
  induction nicks generalizing lpara with
  | nil =>
    unfold statusBatches
    split <;> simp [*]
  | cons n nicks ih =>
    unfold statusBatches
    split
    · simp [ih]
    · simp [ih]

theorem statusBatches_length (nicks lpara : List CStr) (h : lpara.length < MAXMODEPARAMS)
    (b : List CStr) (hb : b ∈ statusBatches nicks lpara) :
    b ≠ [] ∧ b.length ≤ MAXMODEPARAMS := by
  induction nicks generalizing lpara with
  | nil =>
    unfold statusBatches at hb
    split at hb
    · simp at hb
    · next hne =>
      rw [List.mem_singleton] at hb
      subst hb
      exact ⟨hne, by omega⟩
  | cons n nicks ih =>
    unfold statusBatches at hb
    split at hb
    · next hfull =>
      rcases List.mem_cons.mp hb with rfl | hb
      · refine ⟨by simp, ?_⟩
        simp only [List.length_append, List.length_cons, List.length_nil] at hfull ⊢
        omega
      · exact ih [] (by decide) hb
    · next hroom => exact ih _ (by omega) hb

/-- Take one status from everybody. That of m_join.c also stops at an empty nick, which nobody has. -/
def removeAMode (net : Net) (clients : Clients) (source : Sender) (status : Status) (flag : Char)
    (chptr : Channel) : Channel × List Sent :=
  let nicks := (chptr.members.filter (fun member => hasFlag member.flags status)).map
    (fun member => nick clients member.id)
  let members := chptr.members.map
    (fun member => { member with flags := setFlag member.flags false status })
  ({ chptr with members := members },
    (statusBatches nicks []).flatMap (fun lpara => sendtoChannelLocal clients chptr
      (modeLine (shownName net clients source) chptr.name '-'
        (lpara.map (fun n => (flag, n))))))

def removeOurModes (net : Net) (clients : Clients) (source : Sender) (chptr : Channel) :
    Channel × List Sent :=
  let (chptr, ops) := removeAMode net clients source .chanop 'o' chptr
  let (chptr, hops) := removeAMode net clients source .halfop 'h' chptr
  let (chptr, voices) := removeAMode net clients source .voice 'v' chptr
  (chptr, ops ++ hops ++ voices)

theorem removeOurModes_fst (net : Net) (clients : Clients) (source : Sender) (chptr : Channel) :
    (removeOurModes net clients source chptr).1 =
      { chptr with members := Sjoin.removeOurModes chptr.members } := by
  simp only [removeOurModes, removeAMode, Sjoin.removeOurModes, List.map_map]
  rfl

section Ts

variable (net : Net) (clients : Clients)

def believeTs (newts oldts : ℤ) : ℤ :=
  if net.ignoreBogusTs ∧ newts < 800000000 then (if oldts = 0 then 0 else 800000000) else newts

/-- The notices about the timestamp of the line. -/
def tsNotices (source : Sender) (isnew : Bool) (chptr : Channel) (newts : ℤ) : List Sent :=
  let oldts := chptr.creationtime
  if net.ignoreBogusTs then
    if newts < 800000000 then
      [.realops ("*** Bogus TS ".toList ++ formatTime newts ++ " on ".toList ++ chptr.name ++
        " ignored from ".toList ++ source.name net clients ++ "(via ".toList ++
        source.direction net clients ++ ")".toList)]
    else []
  else if newts = 0 ∧ !isnew ∧ oldts ≠ 0 then
    sendtoChannelLocal clients chptr
        ⟨net.me, "NOTICE".toList, chptr.name ++ " :*** Notice -- TS for ".toList ++ chptr.name ++
          " changed from ".toList ++ formatTime oldts ++ " to 0".toList⟩ ++
      [.realops ("Server ".toList ++ source.name net clients ++ " changing TS on ".toList ++
        chptr.name ++ " from ".toList ++ formatTime oldts ++ " to 0".toList)]
  else []

/-- `channel_set_topic(chptr, "", "", 0, 0)` and its announcement. -/
def clearTopic (source : Sender) (room : Room) : Room × List Sent :=
  if room.topic = [] then (room, [])
  else
    ({ room with topic := [], topicInfo := [], topicTime := 0 },
      sendtoChannelLocal clients room.toChannel
        ⟨shownName net clients source, "TOPIC".toList, room.name ++ " :".toList⟩)

def tsChanged (chptr : Channel) (oldts newts : ℤ) : List Sent :=
  sendtoChannelLocal clients chptr
    ⟨net.me, "NOTICE".toList, chptr.name ++ " :*** Notice -- TS for ".toList ++ chptr.name ++
      " changed from ".toList ++ formatTime oldts ++ " to ".toList ++ formatTime newts⟩

def announceMode (source : Sender) (chptr : Channel) (modebuf parabuf : CStr) : List Sent :=
  if modebuf = [] then []
  else sendtoChannelLocal clients chptr
    ⟨shownName net clients source, "MODE".toList, chptr.name ++ ' ' :: modebuf ++ ' ' :: parabuf⟩

theorem localMembers_congr (fits : Caps → Bool) (a b : Channel)
    (h : a.members.map Membership.id = b.members.map Membership.id) :
    localMembers clients fits a = localMembers clients fits b := by
  unfold localMembers
  rw [h]

theorem clearTopic_members (source : Sender) (room : Room) :
    (clearTopic net clients source room).1.members = room.members := by
  unfold clearTopic
  split <;> rfl

end Ts

end IrcdHybrid.ChannelLines
