import IrcdHybrid.ChannelTable
import IrcdHybrid.MemberLists
import IrcdHybrid.Hostmask

/-!
The cache of `can_send`. A membership remembers whether the ban lists were looked
through for it, and with what result; whoever changes the lists, the nick or the host
has to clear it. Channels change as in the table of channels; beside each change there
is what it clears.
-/

namespace IrcdHybrid.BanCache

open CString Numeral BanMask Match Netmask Hostmask Channels Wire Burst Sjoin ChannelMode
open ChannelTable hiding Step Reachable
open Function

/-- What of a client is matched against the bans, and what lets it speak or change its nick. -/
structure Client where
  name : CStr
  username : CStr
  host : CStr
  sockhost : CStr
  aftype : Family
  ip : SsAddr
  status : MemberLists.Status
  myConnect : Bool
  service : Bool
  exemptResv : Bool
  oper : Bool
  registered : Bool
  hiddenHost : Bool
  opme : Bool
  tsinfo : ℤ
  lastAttempt : ℤ
  nickCount : ℕ

/-- `MyClient`. -/
def Client.myClient (c : Client) : Bool := c.myConnect && c.status == .client

/-- One entry of `find_bmask`. -/
def banMatches (who : Client) (ban : Nuh) : Bool :=
  decide (matchMask ban.name who.name = 0) && decide (matchMask ban.user who.username = 0) &&
    match parseNetmask ban.host with
    | .host =>
      decide (matchMask ban.host who.host = 0) || decide (matchMask ban.host who.sockhost = 0)
    | .ipv4 addr bits => who.aftype == .inet && matchIpv4 who.ip.sin addr bits
    | .ipv6 addr bits => who.aftype == .inet6 && matchIpv6 who.ip.sin6 addr bits

def findBmask (who : Client) (list : List Nuh) : Bool := list.any (banMatches who)

def isBanned (chptr : Channel) (who : Client) : Bool :=
  findBmask who chptr.banlist && !findBmask who chptr.exceptlist

/-- `CHFL_BAN_CHECKED` and `CHFL_BAN_SILENCED` of a membership. -/
structure Cache where
  checked : Bool
  silenced : Bool
  deriving DecidableEq, Repr

def cleared : Cache := ⟨false, false⟩

inductive Answer where
  | opv
  | nonop
  | cannotSendToChan
  | needReggedNick
  | noCtrlsOnChan
  | noCtcp
  deriving DecidableEq, Repr

structure SendConf where
  operPassResv : Bool
  reserved : CStr → Client → Bool

def msgHasCtrls : CStr → Bool
  | [] => false
  | c :: p =>
    if 31 < c.toNat ∨ c.toNat = 1 then msgHasCtrls p
    else if c.toNat = 27 then
      match p with
      | d :: p' => if d = '$' ∨ d = '(' then msgHasCtrls p' else true
      | [] => true
    else true

/-- `can_send` as far as its cache; `none` where it goes on. -/
def beforeBans (conf : SendConf) (chptr : Channel) (source : Client) (member : Option Flags)
    (message : CStr) : Option Answer :=
  if source.status = .server ∨ source.service then some .opv
  else if source.myClient ∧ !source.exemptResv ∧ !(source.oper && conf.operPassResv) ∧
      conf.reserved chptr.name source then some .cannotSendToChan
  else if .noctrl ∈ chptr.mode.mode ∧ msgHasCtrls message then some .noCtrlsOnChan
  else if .noctcp ∈ chptr.mode.mode ∧ message.head? = some (Char.ofNat 1) ∧
      message.tail.take 7 ≠ "ACTION ".toList then some .noCtcp
  else if member.any (fun fl => fl.chanop || fl.halfop || fl.voice) then some .opv
  else if member.isNone ∧ .noprivmsgs ∈ chptr.mode.mode then some .cannotSendToChan
  else if .moderated ∈ chptr.mode.mode then some .cannotSendToChan
  else if .modreg ∈ chptr.mode.mode ∧ !source.registered then some .needReggedNick
  else none

/-- `can_send`: the answer, and the cache of the membership. -/
def canSend (conf : SendConf) (chptr : Channel) (source : Client)
    (member : Option (Flags × Cache)) (message : CStr) : Answer × Option Cache :=
  match beforeBans conf chptr source (member.map Prod.fst) message, member with
  | some answer, _ => (answer, member.map Prod.snd)
  | none, some (_, cache) =>
    if !source.myClient then (.nonop, some cache)
    else if cache.silenced then (.cannotSendToChan, some cache)
    else if !cache.checked then
      if isBanned chptr source then (.cannotSendToChan, some ⟨true, true⟩)
      else (.nonop, some { cache with checked := true })
    else (.nonop, some cache)
  | none, none =>
    if source.myClient && isBanned chptr source then (.cannotSendToChan, none) else (.nonop, none)

/-- The answer if the ban lists were looked through on every message. -/
def canSendAnew (conf : SendConf) (chptr : Channel) (source : Client) (member : Option Flags)
    (message : CStr) : Answer :=
  match beforeBans conf chptr source member message with
  | some answer => answer
  | none => if source.myClient && isBanned chptr source then .cannotSendToChan else .nonop

/-- Whether `add_id` comes to `clear_ban_cache_channel`. -/
def addIdClears (maxBans : Option ℕ) (chptr : Channel) (type : ListType) : Bool :=
  type != .invex && !maxBans.any (fun maxBans => decide (maxBans ≤ numMask chptr))

/-- Whether `del_id` does. -/
def delIdClears (type : ListType) : Bool := type != .invex

def setMaskClears (type : ListType) (source : Setter) (dir : Dir) (mask : CStr)
    (s : ModeState) : Bool :=
  if mask.head? = some ':' ∨ (!source.myConnect ∧ ' ' ∈ mask) then false
  else if dir = .add then
    addIdClears (if source.myClient then some source.maxBans else none) s.chptr type
  else delIdClears type

def chmMaskClears (type : ListType) (source : Setter) (dir : Dir) (s : ModeState) : Bool :=
  if dir = .query then false
  else
    match s.params with
    | [] => false
    | p :: params =>
      if source.alev.level < Access.halfop.level ∧ !source.opme then false
      else
        let (s, full) := countLimit source s
        if full then false
        else setMaskClears type source dir (strlcpy p IRCD_BUFSIZE) { s with params := params }

def modeFuncClears (source : Setter) (dir : Dir) (c : Char) (s : ModeState) : Bool :=
  match c with
  | 'I' => chmMaskClears .invex source dir s
  | 'b' => chmMaskClears .ban source dir s
  | 'e' => chmMaskClears .exception source dir s
  | _ => false

def modesClear (source : Setter) : CStr → Dir × ModeState → Bool
  | [], _ => false
  | c :: modes, st =>
    modeFuncClears source st.1 c st.2 || modesClear source modes (modeStep source st c)

def setChannelModeClears (source : Setter) (chptr : Channel) (modes : CStr)
    (params : List CStr) : Bool :=
  modesClear source modes (.add, ⟨chptr, params, [], 0, ∅⟩)

def tmodeClears (link : Link) (source : Source) (ts modes : CStr) (args : List CStr)
    (chptr : Channel) : Bool :=
  if strtol ts > chptr.creationtime then false
  else setChannelModeClears (remoteSetter link source) chptr modes args

/-- The side that loses the timestamp clears its cache with its lists. -/
def sjoinClears (link : Link) (ts name modes : CStr) (args : List CStr) (old : Option Channel) :
    Bool :=
  if !checkChannelName name then false
  else
    match sjoinModes modes args noModes with
    | none => false
    | some _ =>
      let chptr := old.getD (makeChannel link.currentTime name)
      !(decideTs old.isNone (bogusTs link (strtol ts) chptr.creationtime)
        chptr.creationtime).keepOurModes

def addMasksClear (type : ListType) : List CStr → Bool
  | [] => false
  | s :: masks =>
    if s.length > MODEBUFLEN then false
    else if s.head? = some ':' then addMasksClear type masks
    else type != .invex || addMasksClear type masks

def bmaskClears (ts flag masks : CStr) (chptr : Channel) : Bool :=
  if strtol ts > chptr.creationtime then false
  else
    match flag.head?.bind listType with
    | some type => addMasksClear type (tokens (strlcpy masks IRCD_BUFSIZE))
    | none => false

def msSjoinClears (link : Link) (t : Table) (params : List CStr) (f : CStr) : Bool :=
  match params with
  | ts :: name :: modes :: arg :: args =>
    decide (f = fold name) && sjoinClears link ts name modes (arg :: args) (hashFindChannel t name)
  | _ => false

def msBmaskClears (t : Table) (params : List CStr) (f : CStr) : Bool :=
  match params with
  | ts :: name :: flag :: masks :: _ =>
    decide (f = fold name) && (hashFindChannel t name).any (bmaskClears ts flag masks)
  | _ => false

def msTmodeClears (link : Link) (source : Source) (t : Table) (params : List CStr) (f : CStr) :
    Bool :=
  match params with
  | ts :: name :: modes :: args =>
    decide (f = fold name) && (hashFindChannel t name).any (tmodeClears link source ts modes args)
  | _ => false

def mBanClears (params : List CStr) (f : CStr) : Bool :=
  match params with
  | name :: _ :: _ :: _ :: _ => decide (f = fold name)
  | _ => false

/-- The channels whose cache a line on a server link clears. -/
def lineClears (link : Link) (t : Table) (line : CStr) (f : CStr) : Bool :=
  match parse line with
  | none => false
  | some msg =>
    match findSource link msg.sender with
    | none => false
    | some source =>
      if irccmp msg.command "SJOIN".toList = 0 then
        source.isServer && msSjoinClears link t msg.params f
      else if irccmp msg.command "BMASK".toList = 0 then msBmaskClears t msg.params f
      else if irccmp msg.command "TMODE".toList = 0 then msTmodeClears link source t msg.params f
      else if irccmp msg.command "JOIN".toList = 0 then false
      else if irccmp msg.command "BAN".toList = 0 then
        source.isServer && mBanClears msg.params f
      else false

/-- Clients by identifier, channels by folded name, and the caches of the memberships. -/
structure World where
  clients : CStr → Option Client
  table : Table
  cache : CStr → CStr → Cache

def start : World := ⟨fun _ => none, fun _ => none, fun _ _ => cleared⟩

def isLocal (w : World) (id : CStr) : Bool := (w.clients id).any Client.myClient

/-- The membership is there before and after. -/
def stays (t t' : Table) (f id : CStr) : Bool :=
  (t f).any (fun chptr => chptr.isMember id) && (t' f).any (fun chptr => chptr.isMember id)

/-- The channels change; a new membership has nothing in its cache, and that of a local client
loses what was in it where `clear_ban_cache_channel` is called. -/
def withTable (w : World) (table : Table) (clears : CStr → Bool) : World :=
  { w with
    table := table
    cache := fun f id =>
      if !stays w.table table f id || (clears f && isLocal w id) then cleared else w.cache f id }

def clearBanCacheClient (w : World) (id : CStr) : World :=
  { w with cache := fun f id' => if id' = id then cleared else w.cache f id' }

def setClient (w : World) (id : CStr) (c : Client) : World :=
  { w with clients := update w.clients id (some c) }

def exitClient (w : World) (id : CStr) : World :=
  let w := withTable w (leaveAll w.table id) (fun _ => false)
  { w with clients := update w.clients id none }

/-- `memberOf` is what `find_channel_link` finds, with its cache. -/
def memberOf (w : World) (f : CStr) (chptr : Channel) (id : CStr) : Option (Flags × Cache) :=
  (findChannelLink chptr id).map (fun member => (member.flags, w.cache f id))

def sendTo (conf : SendConf) (w : World) (id name message : CStr) : World :=
  match w.clients id, hashFindChannel w.table name with
  | some c, some chptr =>
    match (canSend conf chptr c (memberOf w (fold name) chptr id) message).2 with
    | some cache =>
      { w with cache := update w.cache (fold name) (update (w.cache (fold name)) id cache) }
    | none => w
  | _, _ => w

structure NickConf where
  currentTime : ℤ
  maxNickTime : ℤ
  antiNickFlood : Bool
  maxNickChanges : ℕ

/-- The count starts again when the last attempt is long ago. -/
def recount (conf : NickConf) (c : Client) : Client :=
  if c.lastAttempt + conf.maxNickTime < conf.currentTime then { c with nickCount := 0 } else c

def tooFast (conf : NickConf) (c : Client) : Bool :=
  conf.antiNickFlood && !c.oper && decide (conf.maxNickChanges < c.nickCount)

def withName (c : Client) (nick : CStr) : Client := { c with name := strlcpy nick (NICKLEN + 1) }

def changeLocalNick (conf : NickConf) (w : World) (id : CStr) (c : Client) (nick : CStr) :
    World :=
  if !c.opme then exitClient w id
  else
    let c := recount conf c
    if tooFast conf c then setClient w id c
    else
      let c := { c with lastAttempt := conf.currentTime, nickCount := c.nickCount + 1 }
      if irccmp c.name nick = 0 then setClient w id (withName c nick)
      else
        setClient (clearBanCacheClient w id) id
          { withName c nick with tsinfo := conf.currentTime, registered := false }

def changeRemoteNick (w : World) (id : CStr) (c : Client) (nick ts : CStr) : World :=
  if irccmp c.name nick = 0 then setClient w id (withName c nick)
  else setClient w id { withName c nick with tsinfo := strtol ts, registered := false }

/-- `ms_svsnick` behind its checks; `hashFind` is whom `hash_find_client` finds. -/
def svsnick (w : World) (id : CStr) (c : Client) (nick ts : CStr) (hashFind : Option CStr) :
    World :=
  let rename := fun w => setClient (clearBanCacheClient w id) id
    { withName c nick with tsinfo := atoi ts, registered := false }
  match hashFind with
  | none => rename w
  | some other =>
    if other = id then if c.name = nick then w else rename w
    else if (w.clients other).any (fun c => c.status == .unknown) then rename (exitClient w other)
    else exitClient w id

def userSetHostmask (w : World) (id : CStr) (c : Client) (hostname : CStr) (what : Dir) : World :=
  if c.host = hostname then w
  else
    match what with
    | .query => w
    | _ =>
      let changed := { c with
        hiddenHost := decide (what = .add)
        host := strlcpy hostname (HOSTLEN + 1) }
      let w := setClient w id changed
      if changed.myClient then clearBanCacheClient w id else w

inductive Op where
  | connect (id : CStr) (c : Client)
  | register (id : CStr) (c : Client)
  | exit (id : CStr)
  | create (currentTime : ℤ) (name id : CStr)
  | join (name id : CStr)
  | leave (name id : CStr)
  | leaveAll (id : CStr)
  | opme (name id : CStr)
  | mode (source : Setter) (name modes : CStr) (params : List CStr)
  | line (link : Link) (line : CStr)
  | nick (conf : NickConf) (id nick : CStr)
  | remoteNick (id nick ts : CStr)
  | svsnick (id nick ts : CStr) (hashFind : Option CStr)
  | hostmask (id hostname : CStr) (what : Dir)
  | umodes (id : CStr) (registered oper opme : Bool)
  | send (conf : SendConf) (id name message : CStr)

def apply (w : World) : Op → World
  | .connect id c => if (w.clients id).isNone then setClient w id c else w
  | .register id c =>
    if (w.clients id).any (fun old => old.status == .unknown) then setClient w id c else w
  | .exit id => exitClient w id
  | .create currentTime name id =>
    if (hashFindChannel w.table name).isSome then w
    else withTable w (setChannel w.table name (some (createChannel currentTime name id)))
      (fun _ => false)
  | .join name id =>
    match hashFindChannel w.table name with
    | none => w
    | some chptr =>
      if chptr.isMember id then w
      else withTable w (setChannel w.table name (some (addUserToChannel chptr id noFlags)))
        (fun _ => false)
  | .leave name id =>
    match hashFindChannel w.table name with
    | none => w
    | some chptr =>
      withTable w (setChannel w.table name (removeUser chptr id)) (fun _ => false)
  | .leaveAll id => withTable w (ChannelTable.leaveAll w.table id) (fun _ => false)
  | .opme name id =>
    match hashFindChannel w.table name with
    | none => w
    | some chptr =>
      withTable w (setChannel w.table name (some (ChannelTable.opme chptr id))) (fun _ => false)
  | .mode source name modes params =>
    match hashFindChannel w.table name with
    | none => w
    | some chptr =>
      withTable w (setChannel w.table name
          (some (setChannelMode source chptr modes params).chptr))
        (fun f => decide (f = fold name) && setChannelModeClears source chptr modes params)
  | .line link line => withTable w (receive link w.table line) (lineClears link w.table line)
  | .nick conf id nick =>
    match w.clients id with
    | none => w
    | some c => if c.myClient then changeLocalNick conf w id c nick else w
  | .remoteNick id nick ts =>
    match w.clients id with
    | none => w
    | some c => if c.myConnect then w else changeRemoteNick w id c nick ts
  | .svsnick id nick ts hashFind =>
    match w.clients id with
    | none => w
    | some c => if c.myClient then svsnick w id c nick ts hashFind else w
  | .hostmask id hostname what =>
    match w.clients id with
    | none => w
    | some c => userSetHostmask w id c hostname what
  | .umodes id registered oper opme =>
    match w.clients id with
    | none => w
    | some c => setClient w id { c with registered := registered, oper := oper, opme := opme }
  | .send conf id name message => sendTo conf w id name message

def run (w : World) (ops : List Op) : World := ops.foldl apply w

/-- Whatever the cache of a local member says is so. -/
def Coherent (w : World) : Prop :=
  ∀ f chptr id c, w.table f = some chptr → chptr.isMember id = true → w.clients id = some c →
    c.myClient = true → (w.cache f id).checked = true →
      ((w.cache f id).silenced = true ↔ isBanned chptr c = true)

/-- Nobody's answer depends on the cache. -/
def AnswersAnew (w : World) : Prop :=
  ∀ conf f chptr id c message, w.table f = some chptr → w.clients id = some c →
    (canSend conf chptr c (memberOf w f chptr id) message).1 =
      canSendAnew conf chptr c ((findChannelLink chptr id).map Channels.Membership.flags) message

/-- A nick change that is let through and changes the case only. -/
def recased (conf : NickConf) (c : Client) (nick : CStr) : Bool :=
  c.opme && !tooFast conf (recount conf c) && decide (irccmp c.name nick = 0)

/-- Where the cache of a client is set, a change of the nick's case does not change whether the
client is banned. -/
def Careful (w : World) : Op → Prop
  | .nick conf id nick => ∀ c, w.clients id = some c → c.myClient = true →
      recased conf c nick = true → ∀ f chptr, w.table f = some chptr →
        (w.cache f id).checked = true → isBanned chptr (withName c nick) = isBanned chptr c
  | _ => True

end IrcdHybrid.BanCache
