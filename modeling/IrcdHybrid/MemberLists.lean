import IrcdHybrid.Index
import IrcdHybrid.SjoinHeader
import Mathlib.Logic.Relation

/-!
Who is on which channel, as it is kept in memory. A membership is on three lists: its
channel's members, its channel's local members if it is a local client's, and its
client's channels. Channels are found in a hash by their names. Handlers make and
destroy channels, and add and remove memberships, and must leave all lists consistent.
-/

namespace IrcdHybrid.MemberLists

open CString Numeral Channels Wire Burst Sjoin SjoinHeader Index Function

abbrev MemberPtr := ℕ
abbrev ChannelPtr := ℕ
abbrev ClientPtr := ℕ

structure Membership where
  client : ClientPtr
  chptr : ChannelPtr
  flags : Flags

structure Channel where
  name : CStr
  creationtime : ℤ
  mode : Mode
  members : List MemberPtr
  locmembers : List MemberPtr

inductive Status where
  | unknown
  | server
  | client
  deriving DecidableEq, Repr

/-- A client or a server; `fromPtr` is the connection it is behind. -/
structure Client where
  id : CStr
  name : CStr
  status : Status
  myConnect : Bool
  fromPtr : ClientPtr
  channel : List MemberPtr
  id_len : id.length ≤ IDLEN

/-- An entry of the nick history. -/
structure Whowas where
  name : CStr
  logoff : ℤ
  online : Option ClientPtr

structure State where
  hashfXorKey : BitVec 32
  memberships : MemberPtr → Option Membership
  channels : ChannelPtr → Option Channel
  clients : ClientPtr → Option Client
  channelTable : ℕ → List ChannelPtr
  whowas : List Whowas
  nextMember : MemberPtr
  nextChannel : ChannelPtr

/-- What a handler reads apart from the lists: the clock, the configuration, and the hashes of
clients by identifier and by name, of which nothing is assumed. -/
structure Env where
  currentTime : ℤ
  ignoreBogusTs : Bool
  killChaseTimeLimit : ℤ
  hashFindId : CStr → Option ClientPtr
  hashFindClient : CStr → Option ClientPtr

def NICKNAMEHISTORYLENGTH : ℕ := 32768

def membersOf (s : State) (chptr : ChannelPtr) : List MemberPtr :=
  match s.channels chptr with
  | some c => c.members
  | none => []

def locmembersOf (s : State) (chptr : ChannelPtr) : List MemberPtr :=
  match s.channels chptr with
  | some c => c.locmembers
  | none => []

def channelsOf (s : State) (client : ClientPtr) : List MemberPtr :=
  match s.clients client with
  | some c => c.channel
  | none => []

def isClient (s : State) (client : ClientPtr) : Bool :=
  match s.clients client with
  | some c => c.status == .client
  | none => false

def myConnect (s : State) (client : ClientPtr) : Bool :=
  match s.clients client with
  | some c => c.myConnect
  | none => false

def modifyChannel (s : State) (chptr : ChannelPtr) (f : Channel → Channel) : State :=
  { s with channels := update s.channels chptr ((s.channels chptr).map f) }

def modifyClient (s : State) (client : ClientPtr) (f : Client → Client) : State :=
  { s with clients := update s.clients client ((s.clients client).map f) }

def FNV1_32_INIT : BitVec 32 := 0x811c9dc5
def FNV1_32_BITS : ℕ := 16

def strhash (hashfXorKey : BitVec 32) (name : CStr) : ℕ :=
  if name = [] then 0
  else
    let hval := (name.map toLower).foldl (fun (hval : BitVec 32) c =>
      (hval + ((hval <<< 1) + (hval <<< 4) + (hval <<< 7) + (hval <<< 8) + (hval <<< 24))) ^^^
        (BitVec.ofNat 32 c.toNat ^^^ hashfXorKey)) FNV1_32_INIT
    ((hval >>> FNV1_32_BITS) ^^^ (hval &&& ((1 <<< FNV1_32_BITS) - 1))).toNat

/-- The channel of that pointer has the name. -/
def named (s : State) (name : CStr) (chptr : ChannelPtr) : Bool :=
  match s.channels chptr with
  | some c => decide (irccmp name c.name = 0)
  | none => false

/-- `hash_find_channel`, which moves what it finds to the top of its bucket. -/
def hashFindChannel (s : State) (name : CStr) : Option ChannelPtr × State :=
  let hashv := strhash s.hashfXorKey name
  match (s.channelTable hashv).find? (named s name) with
  | none => (none, s)
  | some chptr =>
    (some chptr, { s with
      channelTable := update s.channelTable hashv (chptr :: (s.channelTable hashv).erase chptr) })

def makeChannel (env : Env) (s : State) (name : CStr) : ChannelPtr × State :=
  let chptr := s.nextChannel
  let name := strlcpy name (CHANNELLEN + 1)
  let hashv := strhash s.hashfXorKey name
  (chptr, { s with
    channels := update s.channels chptr (some ⟨name, env.currentTime, noModes, [], []⟩)
    channelTable := update s.channelTable hashv (chptr :: s.channelTable hashv)
    nextChannel := chptr + 1 })

def destroyChannel (s : State) (chptr : ChannelPtr) : State :=
  match s.channels chptr with
  | none => s
  | some c =>
    let hashv := strhash s.hashfXorKey c.name
    { s with
      channels := update s.channels chptr none
      channelTable := update s.channelTable hashv ((s.channelTable hashv).erase chptr) }

def addUserToChannel (s : State) (chptr : ChannelPtr) (who : ClientPtr) (flags : Flags) : State :=
  let member := s.nextMember
  let s := { s with
    memberships := update s.memberships member (some ⟨who, chptr, flags⟩)
    nextMember := member + 1 }
  let s := modifyChannel s chptr (fun c => { c with
    members := member :: c.members
    locmembers := if myConnect s who then member :: c.locmembers else c.locmembers })
  modifyClient s who (fun c => { c with channel := member :: c.channel })

/-- `remove_user_from_channel`: with the last member the channel goes. -/
def removeUserFromChannel (s : State) (member : MemberPtr) : State :=
  match s.memberships member with
  | none => s
  | some m =>
    let s := modifyChannel s m.chptr (fun c => { c with
      members := c.members.erase member
      locmembers := if myConnect s m.client then c.locmembers.erase member else c.locmembers })
    let s := modifyClient s m.client (fun c => { c with channel := c.channel.erase member })
    let s := { s with memberships := update s.memberships member none }
    if membersOf s m.chptr = [] then destroyChannel s m.chptr else s

/-- A membership on the list of a channel is the client's. -/
def clientIs (s : State) (client : ClientPtr) (member : MemberPtr) : Bool :=
  (s.memberships member).map Membership.client == some client

/-- A membership on the list of a client is the channel's. -/
def chptrIs (s : State) (chptr : ChannelPtr) (member : MemberPtr) : Bool :=
  (s.memberships member).map Membership.chptr == some chptr

/-- `find_channel_link` walks the shorter list. -/
def findChannelLink (s : State) (client : ClientPtr) (chptr : ChannelPtr) : Option MemberPtr :=
  if !isClient s client then none
  else if (membersOf s chptr).length < (channelsOf s client).length then
    (membersOf s chptr).find? (clientIs s client)
  else (channelsOf s client).find? (chptrIs s chptr)

def isMember (s : State) (client : ClientPtr) (chptr : ChannelPtr) : Bool :=
  (findChannelLink s client chptr).isSome

def whowasAddHistory (env : Env) (s : State) (client : ClientPtr) (online : Bool) : State :=
  match s.clients client with
  | none => s
  | some c =>
    let who : Whowas := ⟨c.name, env.currentTime, if online then some client else none⟩
    { s with whowas := (who :: s.whowas).take NICKNAMEHISTORYLENGTH }

def whowasOffHistory (s : State) (client : ClientPtr) : State :=
  { s with whowas := s.whowas.map (fun who =>
      if who.online = some client then { who with online := none } else who) }

def whowasGetHistory (env : Env) (s : State) (nick : CStr) : Option ClientPtr :=
  let timelimit := env.currentTime - env.killChaseTimeLimit
  (s.whowas.find? (fun who => !decide (who.logoff < timelimit) &&
    decide (irccmp nick who.name = 0))).bind Whowas.online

def startsWithDigit (name : CStr) : Bool := name.head?.any isDigit

/-- `find_person`; identifiers are for servers. -/
def findPerson (env : Env) (s : State) (fromServer : Bool) (name : CStr) : Option ClientPtr :=
  let target :=
    if startsWithDigit name then (if fromServer then env.hashFindId name else none)
    else env.hashFindClient name
  target.filter (isClient s)

def findChasing (env : Env) (s : State) (fromServer : Bool) (name : CStr) : Option ClientPtr :=
  match findPerson env s fromServer name with
  | some target => some target
  | none => if startsWithDigit name then none else whowasGetHistory env s name

/-- `channel_do_join_0`. -/
def channelDoJoin0 (s : State) (source : ClientPtr) : State :=
  walk (fun s => channelsOf s source) removeUserFromChannel (channelsOf s source).length s
    (channelsOf s source).head?

def channelPartOneClient (s : State) (source : ClientPtr) (name : CStr) : State :=
  let (found, s) := hashFindChannel s name
  match found with
  | none => s
  | some chptr =>
    match findChannelLink s source chptr with
    | none => s
    | some member => removeUserFromChannel s member

/-- `strtoken` at the commas. -/
def names (list : CStr) : List CStr := Segments.segments (fun c => c == ',') (list ++ [','])

def channelDoPart (s : State) (source : ClientPtr) (channel : CStr) : State :=
  (names channel).foldl (fun s name => channelPartOneClient s source name) s

def memberFlags (s : State) (member : MemberPtr) : Flags :=
  match s.memberships member with
  | some m => m.flags
  | none => noFlags

/-- `m_kick`, from a client of this server. -/
def mKick (env : Env) (s : State) (source : ClientPtr) (name target : CStr) : State :=
  let (found, s) := hashFindChannel s name
  match found with
  | none => s
  | some chptr =>
    match findChannelLink s source chptr with
    | none => s
    | some memberSource =>
      let fl := memberFlags s memberSource
      if !(fl.chanop || fl.halfop) then s
      else
        match findChasing env s false target with
        | none => s
        | some targetPtr =>
          match findChannelLink s targetPtr chptr with
          | none => s
          | some memberTarget =>
            let tfl := memberFlags s memberTarget
            if fl.halfop && !fl.chanop && (tfl.chanop || tfl.halfop) then s
            else removeUserFromChannel s memberTarget

/-- `ms_kick`. -/
def msKick (env : Env) (s : State) (name target : CStr) : State :=
  let (found, s) := hashFindChannel s name
  match found with
  | none => s
  | some chptr =>
    match findPerson env s true target with
    | none => s
    | some targetPtr =>
      match findChannelLink s targetPtr chptr with
      | none => s
      | some memberTarget => removeUserFromChannel s memberTarget

/-- `exit_one_client`; what is freed later cannot be found any more. -/
def exitOneClient (env : Env) (s : State) (source : ClientPtr) : State :=
  let s :=
    if isClient s source then
      whowasOffHistory (whowasAddHistory env (channelDoJoin0 s source) source false) source
    else s
  { s with clients := update s.clients source none }

/-- The servers behind a server, each with its clients and the servers behind it. -/
inductive Servers where
  | nil
  | cons (server : ClientPtr) (clients : List ClientPtr) (behind rest : Servers)

/-- `recurse_remove_clients` for each of the servers, and their own exits. -/
def recurseRemoveClients (env : Env) : Servers → State → State
  | .nil, s => s
  | .cons server clients behind rest, s =>
    recurseRemoveClients env rest
      (exitOneClient env
        (recurseRemoveClients env behind (clients.foldl (exitOneClient env) s)) server)

/-- What `channel_do_join` asks of the configuration and of the channel's modes and lists. -/
structure Policy where
  disableFakeChannels : Bool
  reserved : CStr → Bool
  maxChannels : ℕ
  noCreate : Bool
  refused : State → ChannelPtr → Bool

/-- `IsVisibleChanChar`. -/
def isVisibleChanChar (c : Char) : Bool :=
  isChanChar c && decide (c.toNat ∉ [2, 3, 15, 22, 29, 31, 160])

/-- `check_channel_name(name, 1)`. -/
def checkChannelNameLocal (policy : Policy) (name : CStr) : Bool :=
  if policy.disableFakeChannels then
    match name with
    | c :: p => c == '#' && p.all isVisibleChanChar && decide (name.length ≤ CHANNELLEN)
    | [] => false
  else checkChannelName name

/-- What is behind the last `0`, if there is one. -/
def channelFindLast0 (chanlist : List CStr) : Bool × List CStr :=
  if ['0'] ∈ chanlist then
    (true, (chanlist.reverse.takeWhile (fun chan => chan != ['0'])).reverse)
  else (false, chanlist)

/-- The client that comes to an empty channel starts it anew. -/
def startChannel (env : Env) (c : Channel) : Channel :=
  { c with
    creationtime := env.currentTime
    mode := { c.mode with mode := insert .topiclimit (insert .noprivmsgs c.mode.mode) } }

/-- The loop of `channel_do_join`. -/
def joinChannels (env : Env) (policy : Policy) (source : ClientPtr) : List CStr → State → State
  | [], s => s
  | chan :: list, s =>
    if !checkChannelNameLocal policy chan then joinChannels env policy source list s
    else if policy.reserved chan then joinChannels env policy source list s
    else if policy.maxChannels ≤ (channelsOf s source).length then s
    else
      let (found, s) := hashFindChannel s chan
      match found with
      | some chptr =>
        if isMember s source chptr then joinChannels env policy source list s
        else if policy.refused s chptr then joinChannels env policy source list s
        else if membersOf s chptr = [] then
          let s := addUserToChannel s chptr source ⟨true, false, false⟩
          joinChannels env policy source list (modifyChannel s chptr (startChannel env))
        else joinChannels env policy source list (addUserToChannel s chptr source noFlags)
      | none =>
        if policy.noCreate then joinChannels env policy source list s
        else
          let (chptr, s) := makeChannel env s chan
          let s := addUserToChannel s chptr source ⟨true, false, false⟩
          joinChannels env policy source list (modifyChannel s chptr (startChannel env))

def channelDoJoin (env : Env) (policy : Policy) (s : State) (source : ClientPtr)
    (channel : CStr) : State :=
  let (join0, list) := channelFindLast0 (names channel)
  joinChannels env policy source list (if join0 then channelDoJoin0 s source else s)

/-- A timestamp before 800000000, where such are not believed. -/
def believeTs (env : Env) (newts oldts : ℤ) : ℤ :=
  if env.ignoreBogusTs ∧ newts < 800000000 then (if oldts = 0 then 0 else 800000000) else newts

/-- `remove_our_modes`. -/
def removeOurModes (s : State) (chptr : ChannelPtr) : State :=
  { s with memberships := fun member =>
      if member ∈ membersOf s chptr then
        (s.memberships member).map (fun m => { m with flags := noFlags })
      else s.memberships member }

/-- `hash_find_channel`, or `make_channel`; whether the channel is new. -/
def findOrMake (env : Env) (s : State) (name : CStr) : Bool × ChannelPtr × State :=
  let (found, s) := hashFindChannel s name
  match found with
  | some chptr => (false, chptr, s)
  | none => (true, makeChannel env s name)

/-- The timestamp, the modes and, where the other side wins, the name and the statuses. -/
def settleChannel (s : State) (chptr : ChannelPtr) (d : Decision) (mode : Mode)
    (rename : CStr → CStr) : State :=
  let s := modifyChannel s chptr (fun c => { c with
    name := if d.keepOurModes then c.name else rename c.name
    creationtime := d.creationtime
    mode := finalMode d mode c.mode })
  if d.keepOurModes then s else removeOurModes s chptr

/-- `ms_join`. -/
def msJoin (env : Env) (s : State) (source : ClientPtr) (params : List CStr) : State :=
  if !isClient s source then s
  else
    match params with
    | [p] => if p = ['0'] then channelDoJoin0 s source else s
    | ts :: name :: _ :: _ =>
      if !checkChannelName name then s
      else
        let (isnew, chptr, s) := findOrMake env s name
        match s.channels chptr with
        | none => s
        | some c =>
          let newts := believeTs env (strtol ts) c.creationtime
          let d := decideTs isnew newts c.creationtime
          let s := settleChannel s chptr d noModes id
          if isMember s source chptr then s else addUserToChannel s chptr source noFlags
    | _ => s

/-- One member of a SJOIN. -/
def sjoinMember (env : Env) (fromPtr : ClientPtr) (chptr : ChannelPtr) (keepNewModes : Bool)
    (s : State) (member : CStr) : State :=
  let (fl, name) := readStatus member noFlags
  match findChasing env s true name with
  | none => s
  | some target =>
    match s.clients target with
    | none => s
    | some c =>
      if c.fromPtr ≠ fromPtr then s
      else if isMember s target chptr then s
      else addUserToChannel s chptr target (if keepNewModes then fl else noFlags)

/-- `ms_sjoin` once its modes are read. -/
def sjoinChannel (env : Env) (s : State) (source : Client) (ts name modes members : CStr)
    (mode : Mode) : State :=
  let (isnew, chptr, s) := findOrMake env s name
  match s.channels chptr with
  | none => s
  | some c =>
    let newts := believeTs env (strtol ts) c.creationtime
    let d := decideTs isnew newts c.creationtime
    let rename := fun old => if isnew then old else strlcpy name (CHANNELLEN + 1)
    let s := settleChannel s chptr d mode rename
    let bufs := relayBufs modes d.keepNewModes (finalMode d mode c.mode) c.mode
    let relayName := if d.keepOurModes then c.name else rename c.name
    if tooLong (relayHeader source.id d.creationtime relayName bufs.1 bufs.2) then s
    else
      let s := (tokens members).foldl (sjoinMember env source.fromPtr chptr d.keepNewModes) s
      if membersOf s chptr = [] ∧ isnew then destroyChannel s chptr else s

def msSjoin (env : Env) (s : State) (source : ClientPtr) (params : List CStr) : State :=
  match s.clients source, params with
  | some c, ts :: name :: modes :: arg :: args =>
    if c.status ≠ .server then s
    else if !checkChannelName name then s
    else
      match sjoinModes modes (arg :: args) noModes with
      | none => s
      | some (mode, rest) => sjoinChannel env s c ts name modes (rest.headD []) mode
  | _, _ => s

/-- A change of a member's status. -/
def setFlags (s : State) (member : MemberPtr) (flags : Flags) : State :=
  let changed := (s.memberships member).map (fun m => { m with flags := flags })
  { s with memberships := update s.memberships member changed }

inductive Step : State → State → Prop where
  | connect (s : State) (client : ClientPtr) (c : Client) (hfresh : s.clients client = none)
      (hnone : c.channel = []) : Step s { s with clients := update s.clients client (some c) }
  | register (s : State) (client : ClientPtr) (c c' : Client) (hc : s.clients client = some c)
      (hunknown : c.status = .unknown) (hsame : c'.channel = c.channel) :
      Step s { s with clients := update s.clients client (some c') }
  | nick (s : State) (env : Env) (client : ClientPtr) (name : CStr)
      (hclient : isClient s client = true) :
      Step s (modifyClient (whowasAddHistory env s client true) client
        (fun c => { c with name := name }))
  | mode (s : State) (member : MemberPtr) (flags : Flags) :
      Step s (setFlags s member flags)
  | join (s : State) (env : Env) (policy : Policy) (client : ClientPtr) (channel : CStr)
      (hclient : isClient s client = true) : Step s (channelDoJoin env policy s client channel)
  | msJoin (s : State) (env : Env) (source : ClientPtr) (params : List CStr) :
      Step s (msJoin env s source params)
  | msSjoin (s : State) (env : Env) (source : ClientPtr) (params : List CStr) :
      Step s (msSjoin env s source params)
  | part (s : State) (source : ClientPtr) (channel : CStr) : Step s (channelDoPart s source channel)
  | mKick (s : State) (env : Env) (source : ClientPtr) (name target : CStr) :
      Step s (mKick env s source name target)
  | msKick (s : State) (env : Env) (name target : CStr) : Step s (msKick env s name target)
  | exit (s : State) (env : Env) (client : ClientPtr) : Step s (exitOneClient env s client)
  | split (s : State) (env : Env) (servers : Servers) : Step s (recurseRemoveClients env servers s)

/-- Nobody is there yet. -/
def start (hashfXorKey : BitVec 32) : State :=
  ⟨hashfXorKey, fun _ => none, fun _ => none, fun _ => none, fun _ => [], [], 0, 0⟩

def Reachable (s : State) : Prop :=
  ∃ hashfXorKey, Relation.ReflTransGen Step (start hashfXorKey) s

def chanKey (s : State) (member : MemberPtr) : Option ChannelPtr :=
  (s.memberships member).map Membership.chptr

def clientKey (s : State) (member : MemberPtr) : Option ClientPtr :=
  (s.memberships member).map Membership.client

/-- The channel of a local client's membership. -/
def localKey (s : State) (member : MemberPtr) : Option ChannelPtr :=
  (s.memberships member).bind (fun m => if myConnect s m.client then some m.chptr else none)

def tableKey (s : State) (chptr : ChannelPtr) : Option ℕ :=
  (s.channels chptr).map (fun c => strhash s.hashfXorKey c.name)

/-- The channels are in the hash under their names. -/
structure Hashed (s : State) : Prop where
  table : Indexes (tableKey s) s.channelTable
  distinct : ∀ p p' c c', s.channels p = some c → s.channels p' = some c' →
    irccmp c.name c'.name = 0 → p = p'
  buffers : ∀ p c, s.channels p = some c →
    c.name.length ≤ CHANNELLEN ∧ c.mode.key.length ≤ KEYLEN
  fresh : ∀ chptr, s.nextChannel ≤ chptr → s.channels chptr = none

/-- The memberships are on their lists. -/
structure Linked (s : State) : Prop where
  members : Indexes (chanKey s) (membersOf s)
  locmembers : Indexes (localKey s) (locmembersOf s)
  channels : Indexes (clientKey s) (channelsOf s)
  simple : Simple (chanKey s) (clientKey s)
  clients : ∀ member m, s.memberships member = some m → isClient s m.client = true
  fresh : ∀ member, s.nextMember ≤ member → s.memberships member = none

structure Consistent (s : State) : Prop where
  hashed : Hashed s
  linked : Linked s
  whowas : ∀ who ∈ s.whowas, ∀ client, who.online = some client → isClient s client = true

/-- Somebody is on every channel. -/
def Live (s : State) : Prop := ∀ p c, s.channels p = some c → c.members ≠ []

/-- Somebody is on every channel but this one. -/
def LiveBut (s : State) (chptr : ChannelPtr) : Prop :=
  ∀ p c, p ≠ chptr → s.channels p = some c → c.members ≠ []

section Lists

variable (s s' : State)

theorem membersOf_update (p : ChannelPtr) (c : Channel)
    (h : s'.channels = update s.channels p (some c)) :
    membersOf s' = update (membersOf s) p c.members := by
  funext p'
  unfold membersOf
  rw [h]
  by_cases hp : p' = p
  · rw [hp, update_self, update_self]
  · rw [update_of_ne hp, update_of_ne hp]

theorem locmembersOf_update (p : ChannelPtr) (c : Channel)
    (h : s'.channels = update s.channels p (some c)) :
    locmembersOf s' = update (locmembersOf s) p c.locmembers := by
  funext p'
  unfold locmembersOf
  rw [h]
  by_cases hp : p' = p
  · rw [hp, update_self, update_self]
  · rw [update_of_ne hp, update_of_ne hp]

theorem channelsOf_update (p : ClientPtr) (c : Client)
    (h : s'.clients = update s.clients p (some c)) :
    channelsOf s' = update (channelsOf s) p c.channel := by
  funext p'
  unfold channelsOf
  rw [h]
  by_cases hp : p' = p
  · rw [hp, update_self, update_self]
  · rw [update_of_ne hp, update_of_ne hp]

theorem membersOf_some (p : ChannelPtr) (c : Channel) (h : s.channels p = some c) :
    membersOf s p = c.members := by
  unfold membersOf
  rw [h]

theorem locmembersOf_some (p : ChannelPtr) (c : Channel) (h : s.channels p = some c) :
    locmembersOf s p = c.locmembers := by
  unfold locmembersOf
  rw [h]

theorem channelsOf_some (p : ClientPtr) (c : Client) (h : s.clients p = some c) :
    channelsOf s p = c.channel := by
  unfold channelsOf
  rw [h]

theorem isClient_iff (p : ClientPtr) :
    isClient s p = true ↔ ∃ c, s.clients p = some c ∧ c.status = .client := by
  unfold isClient
  cases s.clients p with
  | none => simp
  | some c => simp

end Lists

end IrcdHybrid.MemberLists
