import IrcdHybrid.MemberLists
import IrcdHybrid.NickHistory
import IrcdHybrid.Uid
import IrcdHybrid.UserModes

/-!
What a user does, on the user's own server, and what every other server makes of the line about it.
Both go by different code: the own server decides and says what it did, and the others do it once
more and say it on.
-/

namespace IrcdHybrid.UserLines

open CString UserModes
open BanMask (NICKLEN)
open ChannelMode (Dir)
open NickHistory (validNickname)

def AWAYLEN : ℕ := 180

def REALLEN : ℕ := 150

/-- Modes that a MODE does not touch on any server. -/
def fixedModes : List UMode := [.ssl, .webirc, .registered, .hiddenhost]

/-- What is read of the configuration; no item of it stands for one of the fixed modes. -/
structure Conf where
  user : UserModes.Conf
  maxNickLength : ℕ
  resv : CStr → Bool
  operOnlyPlain : ∀ flag ∈ fixedModes, flag ∉ user.operOnlyUmodes
  operPlain : ∀ flag ∈ fixedModes, flag ∉ user.operUmodes

/-- An `operator` block. -/
structure OperBlock where
  modes : Modes
  admin : Bool
  opme : Bool
  plain : ∀ flag ∈ fixedModes, flag ∉ modes

/-- What servers tell each other of a user. -/
structure Client where
  name : CStr
  tsinfo : ℤ
  umodes : Modes
  away : CStr
  info : CStr

/-- What only the user's own server has: `OPER_HANDLER`, and two of the operator flags. -/
structure Local where
  operHandler : Bool
  adminFlag : Bool
  opme : Bool

/-- A prefix is an identifier or a nick; texts that nothing depends on are left out. -/
inductive Line (S : Type*) where
  | uid (server : S) (id name : CStr) (tsinfo : ℤ) (umodes info : CStr)
  | nick (source name : CStr) (tsinfo : ℤ)
  | mode (source target modes : CStr)
  | away (source message : CStr)
  | rchg (source realName : CStr)
  | quit (source : CStr)
  | killBy (source target : CStr)
  | killFrom (server : S) (target : CStr)

/-- The table of modes as it stands; one of them is there twice. -/
def umodeTable : List (Char × UMode) :=
  [('D', .deaf), ('F', .farconnect), ('G', .softcallerid), ('H', .hidden), ('R', .regonly),
    ('S', .ssl), ('W', .webirc), ('a', .admin), ('b', .bots), ('c', .cconn), ('d', .debug),
    ('e', .external), ('f', .full), ('g', .callerid), ('i', .invisible), ('j', .rej),
    ('k', .skill), ('k', .skill), ('l', .locops), ('n', .nchange), ('o', .oper), ('p', .hidechans),
    ('q', .hideidle), ('r', .registered), ('s', .servnotice), ('u', .unauth), ('w', .wallop),
    ('x', .hiddenhost), ('y', .spy)]

/-- The loop of `send_umode`; `what` is the sign that was written last. -/
def umodeChange (old new : Modes) : Option Dir → List (Char × UMode) → CStr
  | _, [] => []
  | what, (c, flag) :: tab =>
    if flag ∈ old ∧ flag ∉ new then
      if what = some .del then c :: umodeChange old new (some .del) tab
      else '-' :: c :: umodeChange old new (some .del) tab
    else if flag ∉ old ∧ flag ∈ new then
      if what = some .add then c :: umodeChange old new (some .add) tab
      else '+' :: c :: umodeChange old new (some .add) tab
    else umodeChange old new what tab

def sendUmode (old new : Modes) : CStr := umodeChange old new none umodeTable

/-- The line with which `introduce_client` makes a user known. -/
def introduction {S : Type*} (server : S) (id : CStr) (c : Client) : Line S :=
  let ubuf := sendUmode ∅ c.umodes
  .uid server id c.name c.tsinfo (if ubuf = [] then ['+'] else ubuf) c.info

/-- A line of at most 510 characters: the prefix, ` RCHG :` and as much of the text as fits. -/
def rchgLine {S : Type*} (name realName : CStr) : Line S :=
  .rchg name (realName.take (510 - (name.length + 8)))

/-- What is left of the user, and what the other servers are told. -/
structure Outcome (S : Type*) where
  client : Option Client
  line : Option (Line S)

variable {S : Type*}

/-- Nothing happens. -/
def stay (c : Client) : Outcome S := ⟨some c, none⟩

/-- `exit_client`, for a user that is not killed. -/
def leave (id : CStr) : Outcome S := ⟨none, some (.quit id)⟩

inductive Command where
  | mode (modes : CStr)
  | oper (block : OperBlock)
  | nick (nick : CStr) (now : ℤ) (exemptResv tooFast : Bool)
  | away (message : CStr) (tooMany : Bool)
  | rchg (realName : CStr)
  | quit

def mine (l : Local) (c : Client) : UserModes.Client :=
  ⟨true, c.umodes, l.operHandler, l.adminFlag, c.tsinfo, [], []⟩

/-- The counters are followed elsewhere. -/
def noCount : Counter := ⟨0, 0, 0, 0⟩

/-- `send_umode_out`. -/
def sendUmodeOut (id : CStr) (old : Modes) (c : Client) : Outcome S :=
  let buf := sendUmode old c.umodes
  ⟨some c, if buf = [] then none else some (.mode id id buf)⟩

/-- The operator flags go with `OPER_HANDLER`. -/
def flagsOf (l : Local) (c : UserModes.Client) : Local :=
  ⟨c.operHandler, c.adminFlag, l.opme && c.operHandler⟩

/-- What a nick change does to a user's own data, for a local and for a remote user. -/
def renamed (c : Client) (nick : CStr) (ts : ℤ) : Client :=
  if irccmp c.name nick = 0 then { c with name := nick }
  else { c with name := nick, tsinfo := ts, umodes := c.umodes.erase .registered }

/-- Only who has `OPER_FLAG_OPME` may change nicks. -/
def changeLocalNick (l : Local) (id : CStr) (c : Client) (nick : CStr) (now : ℤ) (tooFast : Bool) :
    Outcome S :=
  if !l.opme then leave id
  else if tooFast then stay c
  else
    let c := renamed c nick now
    ⟨some c, some (.nick id nick c.tsinfo)⟩

/-- The nick as it is copied. -/
def copied (conf : Conf) (nick : CStr) : CStr :=
  strlcpy nick (min (NICKLEN + 1) (conf.maxNickLength + 1))

/-- `found` is what `hash_find_client` says of the nick. A connection that is not registered is
thrown out, and counts for nothing here. -/
def mNick (conf : Conf) (found : CStr → Option CStr) (l : Local) (id : CStr) (c : Client)
    (nick : CStr) (now : ℤ) (exemptResv tooFast : Bool) : Outcome S :=
  let nick := copied conf nick
  if !validNickname nick true || (!exemptResv && conf.resv nick) then stay c
  else
    match found nick with
    | none => changeLocalNick l id c nick now tooFast
    | some target =>
      if target = id then
        if c.name = nick then stay c else changeLocalNick l id c nick now tooFast
      else stay c

def mAway (id : CStr) (c : Client) (message : CStr) (tooMany : Bool) : Outcome S :=
  if message = [] then
    if c.away ≠ [] then ⟨some { c with away := [] }, some (.away id [])⟩ else stay c
  else if tooMany then stay c
  else
    let away := strlcpy message (AWAYLEN + 1)
    ⟨some { c with away := away }, some (.away id away)⟩

/-- The text starts with one of `^` and a blank; the third character of the test has three bytes,
and so is none. -/
def blankName (hold : CStr) : Bool := hold.head?.any fun c => c = '^' || c = ' '

/-- The size of `hold`, into which `m_rchg` copies the text with `strcpy`. -/
def holdSize : ℕ := 100

/-- `m_rchg`, which is there for every user, on a text that fits into `hold`; `opme` is what
`HasOFlag` says, and for a user of another server it says no. -/
def mRchg (opme : Bool) (id : CStr) (c : Client) (realName : CStr) : Outcome S :=
  if !opme && blankName (strlcpy realName (REALLEN + 1)) then leave id
  else ⟨some { c with info := strlcpy realName (REALLEN + 1) }, some (rchgLine c.name realName)⟩

def own (conf : Conf) (found : CStr → Option CStr) (l : Local) (id : CStr) (c : Client) :
    Command → Local × Outcome S
  | .mode modes =>
    let c' := (setUserMode conf.user (mine l c) noCount modes).1
    (flagsOf l c', sendUmodeOut id c.umodes { c with umodes := c'.umodes })
  | .oper block =>
    let c' := (operUp conf.user block.modes block.admin (mine l c) noCount).1
    (⟨c'.operHandler, c'.adminFlag, l.opme || block.opme⟩,
      sendUmodeOut id c.umodes { c with umodes := c'.umodes })
  | .nick nick now exemptResv tooFast =>
    (l, mNick conf found l id c nick now exemptResv tooFast)
  | .away message tooMany => (l, mAway id c message tooMany)
  | .rchg realName => (l, mRchg l.opme id c realName)
  | .quit => (l, leave id)

def theirs (c : Client) : UserModes.Client :=
  ⟨false, c.umodes, false, false, c.tsinfo, [], []⟩

def msAway (id : CStr) (c : Client) (message : CStr) : Outcome S :=
  if message = [] then
    if c.away ≠ [] then ⟨some { c with away := [] }, some (.away id [])⟩ else stay c
  else
    let away := strlcpy message (AWAYLEN + 1)
    ⟨some { c with away := away }, some (.away id away)⟩

def changeRemoteNick (id : CStr) (c : Client) (nick : CStr) (ts : ℤ) : Outcome S :=
  let c := renamed c nick ts
  ⟨some c, some (.nick id nick c.tsinfo)⟩

/-- A bad nick and a nick of somebody else end in kills, which are followed elsewhere. -/
def msNick (found : CStr → Option CStr) (id : CStr) (c : Client) (nick : CStr) (ts : ℤ) :
    Option (Outcome S) :=
  if !validNickname nick false then none
  else
    match found nick with
    | none => some (changeRemoteNick id c nick ts)
    | some target =>
      if target = id then
        some (if c.name = nick then stay c else changeRemoteNick id c nick ts)
      else none

/-- What a server makes of a line of a user of another server, once it knows who that is. -/
def relay (conf : Conf) (found : CStr → Option CStr) (id : CStr) (c : Client) :
    Line S → Option (Outcome S)
  | .nick _ name ts => msNick found id c name ts
  | .mode _ target modes =>
    if target = id then
      let c' := (setUserMode conf.user (theirs c) noCount modes).1
      some (sendUmodeOut id c.umodes { c with umodes := c'.umodes })
    else some (stay c)
  | .away _ message => some (msAway id c message)
  | .rchg _ realName => some (mRchg false id c realName)
  | .quit _ => some (leave id)
  | _ => none

/-- The user as the line of `introduce_client` makes it. -/
def introduced (name : CStr) (tsinfo : ℤ) (umodes info : CStr) : Client where
  name := strlcpy name (NICKLEN + 1)
  tsinfo := tsinfo
  umodes := (uidModes umodes noCount).1
  away := []
  info := strlcpy info (REALLEN + 1)

end IrcdHybrid.UserLines
