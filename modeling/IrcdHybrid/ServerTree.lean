import IrcdHybrid.Burst
import IrcdHybrid.HashChains
import IrcdHybrid.MemberLists

/-!
Clients and servers as a server keeps them: the global lists, the lists of a server's
own clients and servers, the hashes by name and by identifier, and what is on each
channel. A client that exits is taken off every one of these; a server takes all that
is behind it along.
-/

namespace IrcdHybrid.ServerTree

open CString BanMask Index HashChains MemberLists Function

def IRC_MAXSID : ℕ := 3

structure SvsTag where
  numeric : ℕ
  umodes : CStr
  tag : CStr
  deriving DecidableEq

/-- What a user is introduced with, apart from the name and the identifier. -/
structure Profile where
  tsinfo : ℤ
  umodes : CStr
  username : CStr
  host : CStr
  sockhost : CStr
  account : CStr
  info : CStr
  certfp : CStr
  away : CStr
  svstags : List SvsTag
  deriving DecidableEq

/-- What a client or server has besides its names and its channels; the two lists are those
of `serv`. -/
structure Node where
  servptr : ClientPtr
  hopcount : ℕ
  profile : Profile
  hidden : Bool
  outbound : Bool
  capSvs : Bool
  capTburst : Bool
  capEob : Bool
  dead : Bool
  closing : Bool
  killed : Bool
  squit : Bool
  eob : Bool
  clientList : List ClientPtr
  serverList : List ClientPtr

/-- The lists of a channel and its topic. -/
structure Extra where
  banlist : List Nuh
  exceptlist : List Nuh
  invexlist : List Nuh
  topicTime : ℤ
  topicInfo : CStr
  topic : CStr

/-- The lines that are sent, by the words of their formats. -/
inductive Line where
  | pass (password id : CStr)
  | capab
  | server (name : CStr) (hidden : Bool) (info : CStr)
  | svinfo (id : CStr) (time : ℤ)
  | sid (source name : CStr) (hopcount : ℕ) (id : CStr) (hidden : Bool) (info : CStr)
  | uid (server name : CStr) (hopcount : ℕ) (id : CStr) (profile : Profile) (account : Bool)
  | certfp (id certfp : CStr)
  | away (id away : CStr)
  | svstag (me id : CStr) (tsinfo : ℤ) (tag : SvsTag)
  | sjoin (chptr : ChannelPtr) (members : List Channels.Membership)
  | bmask (chptr : ChannelPtr) (text : CStr)
  | tburst (chptr : ChannelPtr) (topicTime : ℤ) (topicInfo topic : CStr)
  | ping (id : CStr)
  | eob (id : CStr)
  | squit (source : Option CStr) (id comment : CStr)
  | error (host comment : CStr)
  | quit (name username host comment : CStr)
  | quitOf (id comment : CStr)
  deriving DecidableEq

/-- Every pointer in use is below `top`, and so no chain of a hash is longer. -/
structure Net where
  rooms : MemberLists.State
  node : ClientPtr → Node
  me : ClientPtr
  meId : CStr
  meName : CStr
  meInfo : CStr
  globalClientList : List ClientPtr
  globalServerList : List ClientPtr
  localServerList : List ClientPtr
  localClientList : List ClientPtr
  unknownList : List ClientPtr
  deadList : List ClientPtr
  clientTable : Chains ℕ ClientPtr
  idTable : Chains ℕ ClientPtr
  top : ClientPtr
  bursted : ClientPtr → Bool
  extra : ChannelPtr → Extra
  sent : List (ClientPtr × Line)

/-- What is read of the configuration. -/
structure Conf where
  env : MemberLists.Env
  hideServers : Bool
  hub : Bool
  password : CStr
  hidden : Bool

def isServer (s : Net) (p : ClientPtr) : Bool :=
  match s.rooms.clients p with
  | some c => c.status == .server
  | none => false

def isUnknown (s : Net) (p : ClientPtr) : Bool :=
  match s.rooms.clients p with
  | some c => c.status == .unknown
  | none => false

def myConnect (s : Net) (p : ClientPtr) : Bool := MemberLists.myConnect s.rooms p

def nameOf (s : Net) (p : ClientPtr) : CStr :=
  if p = s.me then s.meName
  else
    match s.rooms.clients p with
    | some c => c.name
    | none => []

def idOf (s : Net) (p : ClientPtr) : CStr :=
  if p = s.me then s.meId
  else
    match s.rooms.clients p with
    | some c => c.id
    | none => []

def fromOf (s : Net) (p : ClientPtr) : ClientPtr :=
  match s.rooms.clients p with
  | some c => c.fromPtr
  | none => p

def modifyNode (s : Net) (p : ClientPtr) (f : Node → Node) : Net :=
  { s with node := update s.node p (f (s.node p)) }

def isDefunct (s : Net) (p : ClientPtr) : Bool :=
  (s.node p).dead || (s.node p).closing || (s.node p).killed

def hashOf (s : Net) (name : CStr) : ℕ := strhash s.rooms.hashfXorKey name

def hashAddClient (s : Net) (p : ClientPtr) : Net :=
  { s with clientTable := s.clientTable.add (hashOf s (nameOf s p)) p }

def hashDelClient (s : Net) (p : ClientPtr) : Net :=
  { s with clientTable := s.clientTable.del s.top (hashOf s (nameOf s p)) p }

def hashAddId (s : Net) (p : ClientPtr) : Net :=
  { s with idTable := s.idTable.add (hashOf s (idOf s p)) p }

def hashDelId (s : Net) (p : ClientPtr) : Net :=
  { s with idTable := s.idTable.del s.top (hashOf s (idOf s p)) p }

def hashFindClient (s : Net) (name : CStr) : Option ClientPtr × Net :=
  let (found, table) := s.clientTable.find s.top (hashOf s name)
    (fun p => decide (irccmp name (nameOf s p) = 0))
  (found, { s with clientTable := table })

def hashFindId (s : Net) (name : CStr) : Option ClientPtr × Net :=
  let (found, table) := s.idTable.find s.top (hashOf s name) (fun p => decide (name = idOf s p))
  (found, { s with idTable := table })

def hashFindServer (s : Net) (name : CStr) : Option ClientPtr × Net :=
  if startsWithDigit name && decide (name.length = IRC_MAXSID) then hashFindId s name
  else
    let (found, table) := s.clientTable.find s.top (hashOf s name)
      (fun p => (isServer s p || decide (p = s.me)) && decide (irccmp name (nameOf s p) = 0))
    (found, { s with clientTable := table })

def sendtoOne (s : Net) (p : ClientPtr) (line : Line) : Net :=
  { s with sent := s.sent ++ [(p, line)] }

/-- `sendto_server`; `one` is the link that is left out. -/
def sendtoServer (s : Net) (one : Option ClientPtr) (line : Line) : Net :=
  let links := s.localServerList.filter (fun q => !(s.node q).dead && decide (one ≠ some q))
  { s with sent := s.sent ++ links.map (fun q => (q, line)) }

/-- Who is on a channel with the user, each once. -/
def commonLocal (s : Net) (user : ClientPtr) : List ClientPtr :=
  ((channelsOf s.rooms user).flatMap (fun m =>
      match s.rooms.memberships m with
      | some x => locmembersOf s.rooms x.chptr
      | none => [])).foldl
    (fun seen m =>
      match s.rooms.memberships m with
      | some x =>
        if x.client = user ∨ isDefunct s x.client ∨ x.client ∈ seen then seen else seen ++ [x.client]
      | none => seen) []

/-- `sendto_common_channels_local`, not to the user. -/
def sendtoCommonChannelsLocal (s : Net) (user : ClientPtr) (line : Line) : Net :=
  { s with sent := s.sent ++ (commonLocal s user).map (fun q => (q, line)) }

/-- The global lists and those of the server, and the QUIT on channels. -/
def unlist (s : Net) (source : ClientPtr) (comment : CStr) : Net :=
  let servptr := (s.node source).servptr
  if isClient s.rooms source then
    let s := modifyNode s servptr (fun n => { n with clientList := n.clientList.erase source })
    let s := { s with globalClientList := s.globalClientList.erase source }
    sendtoCommonChannelsLocal s source (.quit (nameOf s source) (s.node source).profile.username
      (s.node source).profile.host comment)
  else if isServer s source then
    let s := modifyNode s servptr (fun n => { n with serverList := n.serverList.erase source })
    { s with
      globalClientList := s.globalClientList.erase source
      globalServerList := s.globalServerList.erase source }
  else s

/-- `exit_one_client`; the hashes are keyed by the names it had. -/
def exitOneClient (conf : Conf) (s : Net) (source : ClientPtr) (comment : CStr) : Net :=
  let s := unlist s source comment
  let s := if idOf s source ≠ [] then hashDelId s source else s
  let s := if nameOf s source ≠ [] then hashDelClient s source else s
  let s := { s with rooms := MemberLists.exitOneClient conf.env s.rooms source }
  let s := modifyNode s source (fun n => { n with dead := true })
  { s with deadList := source :: s.deadList }

/-- `recurse_remove_clients`; the recursion goes down the tree of servers. -/
def recurseRemoveClients (conf : Conf) (comment : CStr) : ℕ → Net → ClientPtr → Net
  | 0, s, _ => s
  | depth + 1, s, source =>
    let s := walk (fun s => (s.node source).clientList) (fun s p => exitOneClient conf s p comment)
      (s.node source).clientList.length s (s.node source).clientList.head?
    walk (fun s => (s.node source).serverList)
      (fun s p => exitOneClient conf (recurseRemoveClients conf comment depth s p) p comment)
      (s.node source).serverList.length s (s.node source).serverList.head?

/-- What a connection that is closed is taken off, and its last words. -/
def closeLocal (s : Net) (source : ClientPtr) (comment : CStr) : Net :=
  let s := modifyNode s source (fun n => { n with closing := true })
  let s :=
    if isClient s.rooms source then { s with localClientList := s.localClientList.erase source }
    else if isServer s source then { s with localServerList := s.localServerList.erase source }
    else { s with unknownList := s.unknownList.erase source }
  if (s.node source).dead then s
  else
    let s := if isServer s source && !(s.node source).squit then
        sendtoOne s source (.squit (some s.meId) s.meId comment) else s
    sendtoOne s source (.error (s.node source).profile.host comment)

/-- What is said on the channels of a split. -/
def splitComment (conf : Conf) (s : Net) (source : ClientPtr) : CStr :=
  if conf.hideServers then "*.net *.split".toList
  else nameOf s (s.node source).servptr ++ [' '] ++ nameOf s source

/-- The rest of `exit_client`, when the connection is closed. -/
def exitRest (conf : Conf) (s : Net) (source : ClientPtr) (comment : CStr) : Net :=
  if isServer s source then
    let splitstr := splitComment conf s source
    let s := if (s.node source).squit then s
      else sendtoServer s none (.squit none (idOf s source) comment)
    -- no chain of servers is longer than the list of them all
    let s := recurseRemoveClients conf splitstr s.globalServerList.length s source
    exitOneClient conf s source comment
  else
    let s := if isClient s.rooms source && !(s.node source).killed then
        sendtoServer s (some (fromOf s source)) (.quitOf (idOf s source) comment)
      else s
    exitOneClient conf s source comment

def exitClient (conf : Conf) (s : Net) (source : ClientPtr) (comment : CStr) : Net :=
  if myConnect s source then
    if (s.node source).closing then s
    else exitRest conf (closeLocal s source comment) source comment
  else exitRest conf s source comment

end IrcdHybrid.ServerTree
