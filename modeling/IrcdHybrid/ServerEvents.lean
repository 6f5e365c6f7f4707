import IrcdHybrid.ServerBurst
import IrcdHybrid.Uid

/-!
What happens to a server: connections come, take a nick, register as users or as
servers; links introduce servers and users behind them; users change their nicks, join
and leave channels; anybody exits. A handler that looks somebody up, or exits somebody
to make room for a name, is several of these steps.
-/

namespace IrcdHybrid.ServerEvents

open CString BanMask HashChains MemberLists ServerTree ServerBurst Function
open Uid (validSid)

def REALLEN : ℕ := 150

def isServChar (c : Char) : Bool :=
  isDigit c || decide (c ∈ ['*', '-', '.']) || decide ('A' ≤ c ∧ c ≤ '}')

def validServname (name : CStr) : Bool :=
  name.all isServChar && decide ('.' ∈ name) && decide (name.length ≤ HOSTLEN)

def blankProfile (username : CStr) : Profile := ⟨0, [], username, [], [], ['*'], [], [], [], []⟩

/-- As `make_client` leaves it. -/
def blankNode (me : ClientPtr) : Node where
  servptr := me
  hopcount := 0
  profile := blankProfile "unknown".toList
  hidden := false
  outbound := false
  capSvs := false
  capTburst := false
  capEob := false
  dead := false
  closing := false
  killed := false
  squit := false
  eob := false
  clientList := []
  serverList := []

/-- A pointer that the pool may return. -/
def fresh (s : Net) (p : ClientPtr) : Bool :=
  (s.rooms.clients p).isNone && decide (p ≠ s.me ∧ p ∉ s.deadList)

def selfLink (t : Chains ℕ ClientPtr) (p : ClientPtr) : Chains ℕ ClientPtr :=
  ⟨t.head, update t.next p (some p)⟩

def setClient (s : Net) (p : ClientPtr) (c : Client) : Net :=
  { s with rooms := { s.rooms with clients := update s.rooms.clients p (some c) } }

/-- `make_client`; `link` is the connection of a remote one. -/
def makeClient (s : Net) (p : ClientPtr) (link : Option ClientPtr) : Net :=
  let c : Client := ⟨[], [], .unknown, link.isNone, link.getD p, [], Nat.zero_le _⟩
  let s := setClient s p c
  let s := { s with
    node := update s.node p (blankNode s.me)
    clientTable := selfLink s.clientTable p
    idTable := selfLink s.idTable p
    top := max s.top (p + 1) }
  if link.isNone then { s with unknownList := p :: s.unknownList } else s

def onRooms (s : Net) (rooms : MemberLists.State) : Net := { s with rooms := rooms }

def modifyName (s : Net) (p : ClientPtr) (name : CStr) : Net :=
  onRooms s (modifyClient s.rooms p (fun c => { c with name := strlcpy name (HOSTLEN + 1) }))

def modifyId (s : Net) (p : ClientPtr) (id : CStr) : Net :=
  onRooms s (modifyClient s.rooms p (fun c =>
    { c with id := strlcpy id (Channels.IDLEN + 1), id_len := List.length_take_le _ _ }))

def setStatus (s : Net) (p : ClientPtr) (status : Status) : Net :=
  onRooms s (modifyClient s.rooms p (fun c => { c with status := status }))

/-- The name was hashed: a client that is in no bucket is its own successor. -/
def hashed (t : Chains ℕ ClientPtr) (p : ClientPtr) : Bool := decide (t.next p ≠ some p)

/-- `serv_connect`, until the connection is made. -/
def servConnect (s : Net) (p : ClientPtr) (name : CStr) : Net :=
  modifyNode (modifyName (makeClient s p none) p name) p (fun n => { n with outbound := true })

/-- `set_initial_nick`. -/
def setInitialNick (s : Net) (p : ClientPtr) (nick : CStr) : Net :=
  let s := if nameOf s p ≠ [] then hashDelClient s p else s
  hashAddClient (modifyName s p nick) p

/-- `change_local_nick`, `change_remote_nick` and `ms_svsnick`, as far as the name goes. -/
def changeNick (conf : Conf) (s : Net) (p : ClientPtr) (nick : CStr) : Net :=
  let s := { s with rooms := whowasAddHistory conf.env s.rooms p true }
  hashAddClient (modifyName (hashDelClient s p) p nick) p

/-- `introduce_client`. -/
def introduceClient (s : Net) (p : ClientPtr) : Net :=
  let links := s.localServerList.filter (fun link => decide (link ≠ fromOf s p))
  let lines := links.flatMap (fun link => (uidLines s link p).map (fun line => (link, line)))
  { s with sent := s.sent ++ lines }

/-- The lists of users. -/
def enlistClient (s : Net) (p : ClientPtr) : Net :=
  let s := modifyNode s (s.node p).servptr (fun n => { n with clientList := p :: n.clientList })
  { s with globalClientList := p :: s.globalClientList }

/-- `register_local_user`, of one who sent USER. -/
def registerLocalUser (s : Net) (p : ClientPtr) (id : CStr) (profile : Profile) : Net :=
  let s := modifyNode s p (fun n => { n with servptr := s.me, profile := profile })
  let s := hashAddId (modifyId s p id) p
  let s := enlistClient (setStatus s p .client) p
  let s := { s with
    unknownList := s.unknownList.erase p
    localClientList := p :: s.localClientList }
  introduceClient s p

/-- `set_server_gecos`. -/
def setServerGecos (n : Node) (info : CStr) : Node :=
  let (hidden, rest) := if "(H) ".toList.isPrefixOf info then (true, info.drop 4)
    else (n.hidden, info)
  let info := if rest ≠ [] then strlcpy rest (REALLEN + 1) else "(Unknown Location)".toList
  { n with hidden := hidden, profile := { n.profile with info := info } }

/-- `mr_server`, when all is well with the connection and the names. -/
def mrServer (conf : Conf) (s : Net) (p : ClientPtr) (name : CStr) (hopcount : ℕ)
    (info : CStr) : Net :=
  let s := modifyName s p name
  serverEstab conf (modifyNode s p (fun n => { setServerGecos n info with hopcount := hopcount })) p

/-- A server introduced by `source`, on the lists. -/
def enlistServer (s : Net) (p : ClientPtr) : Net :=
  let s := { s with
    globalClientList := p :: s.globalClientList
    globalServerList := p :: s.globalServerList }
  modifyNode s (s.node p).servptr (fun n => { n with serverList := p :: n.serverList })

/-- `ms_sid`, when all is well with the names. -/
def msSid (s : Net) (source p : ClientPtr) (name : CStr) (hopcount : ℕ) (id info : CStr) : Net :=
  let s := makeClient s p (some (fromOf s source))
  let s := modifyNode s p (fun n =>
    { setServerGecos n info with hopcount := hopcount, servptr := source })
  let s := setStatus (modifyId (modifyName s p name) p id) p .server
  let s := hashAddId (hashAddClient (enlistServer s p) p) p
  let n := s.node p
  sendtoServer s (some (fromOf s source)) (.sid (idOf s source) (nameOf s p) (n.hopcount + 1)
    (idOf s p) n.hidden n.profile.info)

/-- `uid_from_server` and `register_remote_user`. -/
def uidFromServer (s : Net) (source p : ClientPtr) (name : CStr) (hopcount : ℕ) (id : CStr)
    (profile : Profile) : Net :=
  let s := makeClient s p (some (fromOf s source))
  let s := modifyNode s p (fun n =>
    { n with servptr := source, hopcount := hopcount, profile := profile })
  let s := hashAddId (hashAddClient (modifyId (modifyName s p name) p id) p) p
  introduceClient (enlistClient (setStatus s p .client) p) p

inductive Event where
  | connect (p : ClientPtr)
  | servConnect (p : ClientPtr) (name : CStr)
  | pass (p : ClientPtr) (id : CStr)
  | capab (p : ClientPtr) (svs tburst eob : Bool)
  | nick (p : ClientPtr) (nick : CStr)
  | user (p : ClientPtr) (id : CStr) (profile : Profile)
  | server (p : ClientPtr) (name : CStr) (hopcount : ℕ) (info : CStr)
  | sid (source p : ClientPtr) (name : CStr) (hopcount : ℕ) (id info : CStr)
  | uid (source p : ClientPtr) (name : CStr) (hopcount : ℕ) (id : CStr) (profile : Profile)
  | changeNick (p : ClientPtr) (nick : CStr)
  | profile (p : ClientPtr) (profile : Profile)
  | channelData (chptr : ChannelPtr) (extra : Extra)
  | memberMode (member : MemberPtr) (flags : Channels.Flags)
  | channelMode (chptr : ChannelPtr) (mode : Channels.Mode)
  | join (policy : Policy) (p : ClientPtr) (channel : CStr)
  | msJoin (source : ClientPtr) (params : List CStr)
  | msSjoin (source : ClientPtr) (params : List CStr)
  | part (p : ClientPtr) (channel : CStr)
  | mKick (source : ClientPtr) (name target : CStr)
  | msKick (name target : CStr)
  | findClient (name : CStr)
  | findId (name : CStr)
  | findServer (name : CStr)
  | deadLink (p : ClientPtr)
  | eob (p : ClientPtr)
  | kill (p : ClientPtr)
  | squit (p : ClientPtr)
  | exit (p : ClientPtr) (comment : CStr)
  | freeExited

def known (s : Net) (p : ClientPtr) : Bool := (s.rooms.clients p).isSome

/-- A connection of its own that has not registered. -/
def unregistered (s : Net) (p : ClientPtr) : Bool := isUnknown s p && myConnect s p

def guarded (b : Bool) (s : Net) : Option Net := if b then some s else none

/-- What is done about the event, if it can happen. -/
def step (conf : Conf) (s : Net) : Event → Option Net
  | .connect p => guarded (fresh s p) (makeClient s p none)
  | .servConnect p name => guarded (fresh s p) (servConnect s p name)
  | .pass p id => guarded (unregistered s p && validSid id) (modifyId s p id)
  | .capab p svs tburst eob =>
    guarded (unregistered s p)
      (modifyNode s p (fun n => { n with capSvs := svs, capTburst := tburst, capEob := eob }))
  | .nick p nick =>
    let (found, s) := hashFindClient s nick
    guarded (unregistered s p && decide (nick ≠ [] ∧ (found = none ∨ found = some p)))
      (setInitialNick s p nick)
  | .user p id profile =>
    let (found, s) := hashFindId s id
    guarded (unregistered s p && hashed s.clientTable p && decide (id ≠ [] ∧ found = none))
      (registerLocalUser s p id profile)
  | .server p name hopcount info =>
    let (found, s) := hashFindServer s name
    let (found', s) := hashFindId s (idOf s p)
    guarded (unregistered s p && validServname name && validSid (idOf s p) &&
      decide (info ≠ [] ∧ found = none ∧ found' = none)) (mrServer conf s p name hopcount info)
  | .sid source p name hopcount id info =>
    let (found, s) := hashFindId s id
    let (found', s) := hashFindServer s name
    guarded (isServer s source && fresh s p && validServname name && validSid id &&
      decide (info ≠ [] ∧ found = none ∧ found' = none)) (msSid s source p name hopcount id info)
  | .uid source p name hopcount id profile =>
    let (found, s) := hashFindId s id
    let (found', s) := hashFindClient s name
    guarded (isServer s source && fresh s p &&
      decide (name ≠ [] ∧ id ≠ [] ∧ found = none ∧ found' = none))
      (uidFromServer s source p name hopcount id profile)
  | .changeNick p nick =>
    let (found, s) := hashFindClient s nick
    guarded (isClient s.rooms p && decide (nick ≠ [] ∧ (found = none ∨ found = some p)))
      (changeNick conf s p nick)
  | .profile p profile =>
    guarded (known s p) (modifyNode s p (fun n => { n with profile := profile }))
  | .channelData chptr extra => some { s with extra := update s.extra chptr extra }
  | .memberMode member flags => some (onRooms s (setFlags s.rooms member flags))
  | .channelMode chptr mode =>
    guarded (decide (mode.key.length ≤ Channels.KEYLEN))
      (onRooms s (modifyChannel s.rooms chptr (fun c => { c with mode := mode })))
  | .join policy p channel =>
    guarded (isClient s.rooms p) (onRooms s (channelDoJoin conf.env policy s.rooms p channel))
  | .msJoin source params => some (onRooms s (MemberLists.msJoin conf.env s.rooms source params))
  | .msSjoin source params => some (onRooms s (MemberLists.msSjoin conf.env s.rooms source params))
  | .part p channel => some (onRooms s (channelDoPart s.rooms p channel))
  | .mKick source name target =>
    some (onRooms s (MemberLists.mKick conf.env s.rooms source name target))
  | .msKick name target => some (onRooms s (MemberLists.msKick conf.env s.rooms name target))
  | .findClient name => some (hashFindClient s name).2
  | .findId name => some (hashFindId s name).2
  | .findServer name => some (hashFindServer s name).2
  | .deadLink p => guarded (myConnect s p) (modifyNode s p (fun n => { n with dead := true }))
  | .eob p => guarded (isServer s p) (modifyNode s p (fun n => { n with eob := true }))
  | .kill p => guarded (isClient s.rooms p) (modifyNode s p (fun n => { n with killed := true }))
  | .squit p => guarded (isServer s p) (modifyNode s p (fun n => { n with squit := true }))
  | .exit p comment => guarded (known s p) (exitClient conf s p comment)
  | .freeExited => some { s with deadList := [] }

/-- Just started. This server is on `global_client_list` in the source; here only the others are. -/
def start (hashfXorKey : BitVec 32) (me : ClientPtr) (meId meName meInfo : CStr) : Net :=
  let s : Net :=
    { rooms := MemberLists.start hashfXorKey
      node := fun _ => blankNode me
      me := me, meId := meId, meName := meName, meInfo := meInfo
      globalClientList := [], globalServerList := [me], localServerList := []
      localClientList := [], unknownList := [], deadList := []
      clientTable := HashChains.empty, idTable := HashChains.empty
      top := me + 1
      bursted := fun _ => false
      extra := fun _ => ⟨[], [], [], 0, [], []⟩
      sent := [] }
  hashAddClient (hashAddId s me) me

end IrcdHybrid.ServerEvents
