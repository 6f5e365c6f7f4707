import IrcdHybrid.NickCollide
import IrcdHybrid.NickHistory
import IrcdHybrid.ServerRuns
import IrcdHybrid.Uid

/-!
The handlers that give a nick to somebody. Each looks for the one that has it already and makes
room or does not; whoever was to have the nick may be the one that exits. What is said about it
to anybody is left out, since no nick depends on it.
-/

namespace IrcdHybrid.NickHandlers

open CString MemberLists ServerTree ServerEvents
open NickHistory (validNickname)

/-- What is read of the configuration; `resv` says whether a nick is reserved. -/
structure Conf where
  net : ServerTree.Conf
  maxNickLength : ℕ
  resv : CStr → Bool

/-- What the record of a connection says when a NICK of it comes. -/
structure Record where
  exemptResv : Bool
  opme : Bool
  tooFast : Bool

/-- `IsUnknown`; a connection that the server makes itself has another status until it registers. -/
def statUnknown (s : Net) (p : ClientPtr) : Bool :=
  ServerTree.isUnknown s p && !(s.node p).outbound

def addFlagKilled (s : Net) (p : ClientPtr) : Net :=
  modifyNode s p (fun n => { n with killed := true })

def setTsinfo (s : Net) (p : ClientPtr) (tsinfo : ℤ) : Net :=
  modifyNode s p (fun n => { n with profile := { n.profile with tsinfo := tsinfo } })

/-- A client with another nick has a new timestamp, and `+r` no more. -/
def restamp (s : Net) (p : ClientPtr) (tsinfo : ℤ) : Net :=
  modifyNode s p (fun n => { n with profile := { n.profile with
    tsinfo := tsinfo, umodes := n.profile.umodes.filter (· ≠ 'r') } })

/-- `set_initial_nick`, but for the registration, which may follow at once. -/
def setInitialNick (conf : Conf) (s : Net) (p : ClientPtr) (nick : CStr) : Net :=
  let s := if irccmp (nameOf s p) nick = 0 then s else setTsinfo s p conf.net.env.currentTime
  ServerEvents.setInitialNick s p nick

def changeLocalNick (conf : Conf) (s : Net) (p : ClientPtr) (nick : CStr) (record : Record) : Net :=
  if !record.opme then exitClient conf.net s p "Killed for nick change attempt".toList
  else if record.tooFast then s
  else
    let s := if irccmp (nameOf s p) nick = 0 then s else restamp s p conf.net.env.currentTime
    changeNick conf.net s p nick

/-- The nick as it is copied. -/
def copied (conf : Conf) (nick : CStr) : CStr :=
  strlcpy nick (min (BanMask.NICKLEN + 1) (conf.maxNickLength + 1))

section

variable (conf : Conf) (s : Net) (source : ClientPtr) (nick : CStr)

def mrNick : Net :=
  let nick := copied conf nick
  if !validNickname nick true || conf.resv nick then s
  else
    match hashFindClient s nick with
    | (none, s) => setInitialNick conf s source nick
    | (some target, s) => if target = source then setInitialNick conf s source nick else s

def mNick (record : Record) : Net :=
  let nick := copied conf nick
  if !validNickname nick true || (!record.exemptResv && conf.resv nick) then s
  else
    match hashFindClient s nick with
    | (none, s) => changeLocalNick conf s source nick record
    | (some target, s) =>
      if target = source then
        if nameOf s target = nick then s else changeLocalNick conf s source nick record
      else if statUnknown s target then
        let s := exitClient conf.net s target "Overridden by other sign on".toList
        changeLocalNick conf s source nick record
      else s

/-- `check_clean_nick`; the flag says that the nick is bad. -/
def checkCleanNick : Net × Bool :=
  if validNickname nick false then (s, false)
  else if isClient s.rooms source && !myConnect s source then
    (exitClient conf.net (addFlagKilled s source) source "Bad Nickname".toList, true)
  else (s, true)

def changeRemoteNick (ts : ℤ) : Net :=
  let s := if irccmp (nameOf s source) nick = 0 then s else restamp s source ts
  changeNick conf.net s source nick

end

/-- Whether two users are one, by the host where an address is hidden. -/
def sameUser (target new : Profile) (hidden : Bool) : Bool :=
  decide (irccmp target.username new.username = 0) &&
    if hidden then decide (irccmp target.host new.host = 0)
    else decide (irccmp target.sockhost new.sockhost = 0)

/-- `perform_uid_introduction_collides`; the flag says that the new client is to be introduced. -/
def performUidIntroductionCollides (conf : Conf) (s : Net) (target : ClientPtr) (new : Profile) :
    Net × Bool :=
  let old := (s.node target).profile
  if new.tsinfo = 0 ∨ old.tsinfo = 0 ∨ new.tsinfo = old.tsinfo then
    (exitClient conf.net (addFlagKilled s target) target "Nick collision (new)".toList, false)
  else
    let sameuser := sameUser old new (decide (old.sockhost = ['0']))
    if (sameuser ∧ new.tsinfo < old.tsinfo) ∨ (¬ sameuser ∧ new.tsinfo > old.tsinfo) then (s, false)
    else (exitClient conf.net (addFlagKilled s target) target "Nick collision".toList, true)

/-- `perform_nick_change_collides`. -/
def performNickChangeCollides (conf : Conf) (s : Net) (source target : ClientPtr) (newts : ℤ) :
    Net × Bool :=
  let old := (s.node target).profile
  let new := (s.node source).profile
  if newts = 0 ∨ old.tsinfo = 0 ∨ newts = old.tsinfo then
    let s := addFlagKilled (addFlagKilled s source) target
    let s := exitClient conf.net s source "Nick collision (old)".toList
    (exitClient conf.net s target "Nick collision (new)".toList, false)
  else
    let sameuser := sameUser old new (decide (old.sockhost = ['0'] ∨ new.sockhost = ['0']))
    if (sameuser ∧ newts < old.tsinfo) ∨ (¬ sameuser ∧ newts > old.tsinfo) then
      let comment := if sameuser then "Nick collision (old)" else "Nick collision (new)"
      (exitClient conf.net (addFlagKilled s source) source comment.toList, false)
    else (exitClient conf.net (addFlagKilled s target) target "Nick collision".toList, true)

def msNick (conf : Conf) (s : Net) (source : ClientPtr) (nick : CStr) (ts : ℤ) : Net :=
  match checkCleanNick conf s source nick with
  | (s, true) => s
  | (s, false) =>
    match hashFindClient s nick with
    | (none, s) => changeRemoteNick conf s source nick ts
    | (some target, s) =>
      if statUnknown s target then
        let s := exitClient conf.net s target "Overridden by other sign on".toList
        changeRemoteNick conf s source nick ts
      else if target = source then
        if nameOf s target = nick then s else changeRemoteNick conf s source nick ts
      else
        match performNickChangeCollides conf s source target ts with
        | (s, true) => changeRemoteNick conf s source nick ts
        | (s, false) => s

/-- `uid_from_server`; whoever introduces a user has the lists of a server, and `make_client` finds
memory. -/
def introduce (s : Net) (source p : ClientPtr) (name : CStr) (hopcount : ℕ) (id : CStr)
    (profile : Profile) : Option Net :=
  guarded (isServer s source && fresh s p) (uidFromServer s source p name hopcount id profile)

def msUid (conf : Conf) (s : Net) (source p : ClientPtr) (name : CStr) (hopcount : ℕ) (id : CStr)
    (profile : Profile) : Option Net :=
  match checkCleanNick conf s source name with
  | (s, true) => some s
  | (s, false) =>
    -- `check_clean_user` lets everything pass
    if !NickCollide.validHostname profile.host then some s
    else
      match hashFindId s id with
      | (some target, s) =>
        some (exitClient conf.net (addFlagKilled s target) target "ID Collision".toList)
      | (none, s) =>
        match hashFindClient s name with
        | (none, s) => introduce s source p name hopcount id profile
        | (some target, s) =>
          if statUnknown s target then
            let s := exitClient conf.net s target "Overridden by other sign on".toList
            introduce s source p name hopcount id profile
          else
            match performUidIntroductionCollides conf s target profile with
            | (s, true) => introduce s source p name hopcount id profile
            | (s, false) => some s

/-- `find_person`, for a server. -/
def findPerson (s : Net) (name : CStr) : Option ClientPtr × Net :=
  let (found, s) := if startsWithDigit name then hashFindId s name else hashFindClient s name
  (found.filter (isClient s.rooms), s)

/-- The rest of `ms_svsnick`, when there is room for the nick. -/
def forceNick (conf : Conf) (s : Net) (target : ClientPtr) (nick : CStr) (ts : ℤ) : Net :=
  changeNick conf.net (restamp s target ts) target nick

/-- `service` is the flag of the source; for a client of another server the line goes on there. -/
def msSvsnick (conf : Conf) (s : Net) (service : Bool) (name nick : CStr) (ts : ℤ) : Net :=
  if !service || !validNickname nick true then s
  else
    match findPerson s name with
    | (none, s) => s
    | (some target, s) =>
      if !myConnect s target then s
      else
        match hashFindClient s nick with
        | (none, s) => forceNick conf s target nick ts
        | (some exists', s) =>
          if target = exists' then
            if nameOf s target = nick then s else forceNick conf s target nick ts
          else if statUnknown s exists' then
            forceNick conf (exitClient conf.net s exists' "SVSNICK Override".toList) target nick ts
          else exitClient conf.net s target "SVSNICK Collide".toList

inductive Event where
  | other (e : ServerEvents.Event)
  | mrNick (source : ClientPtr) (nick : CStr)
  | mNick (source : ClientPtr) (nick : CStr) (record : Record)
  | msNick (source : ClientPtr) (nick : CStr) (ts : ℤ)
  | msUid (source p : ClientPtr) (name : CStr) (hopcount : ℕ) (id : CStr) (profile : Profile)
  | msSvsnick (service : Bool) (name nick : CStr) (ts : ℤ)

/-- The events that have a handler here; and `uid_get` makes identifiers of one length. -/
def handled : ServerEvents.Event → Bool
  | .nick .. => true
  | .uid .. => true
  | .changeNick .. => true
  | .user _ id _ => decide (id.length ≠ Uid.TOTALSIDUID)
  | _ => false

/-- What is done about the event, if it can happen; a word in the middle of a line is not empty. -/
def step (conf : Conf) (s : Net) : Event → Option Net
  | .other e => if handled e then none else ServerEvents.step conf.net s e
  | .mrNick source nick => guarded (unregistered s source) (mrNick conf s source nick)
  | .mNick source nick record =>
    guarded (isClient s.rooms source && myConnect s source) (mNick conf s source nick record)
  | .msNick source nick ts =>
    guarded (isClient s.rooms source && !myConnect s source) (msNick conf s source nick ts)
  | .msUid source p name hopcount id profile =>
    if (isClient s.rooms source && !myConnect s source || isServer s source) && decide (id ≠ []) then
      msUid conf s source p name hopcount id profile
    else none
  | .msSvsnick service name nick ts => some (msSvsnick conf s service name nick ts)

end IrcdHybrid.NickHandlers
