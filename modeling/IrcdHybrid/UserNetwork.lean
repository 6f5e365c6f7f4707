import IrcdHybrid.UserEcho

/-!
Servers that tell each other about their users. A link keeps the order of its lines; a server takes
one line at a time, looks who sent it and whether it came from there, and does what the line says.
-/

namespace IrcdHybrid.UserNetwork

open CString UserLines Function
open NickHistory (validNickname)
open MemberLists (startsWithDigit)
open UserModes (UMode)

/-- What does not change: `local_server_list` of every server, from where a server has every other
one, and who gave an identifier out. -/
structure Topology (S : Type*) where
  neighbours : S → List S
  route : S → S → S
  home : CStr → S

/-- A user on a server, and `from` if it is not the user's own. -/
structure Entry (S : Type*) where
  client : Client
  link : Option S

/-- `byId` and `byName` are the hashes; a user of the server itself has a `Local`. -/
structure Server (S : Type*) where
  byId : CStr → Option (Entry S)
  byName : CStr → Option CStr
  locals : CStr → Local
  issued : CStr → Bool

structure Net (S : Type*) where
  server : S → Server S
  queue : S → S → List (Line S)

def nameKey (name : CStr) : CStr := name.map toUpper

section Server

variable {S : Type*} (s : Server S) (id : CStr)

/-- `hash_find_client` -/
def found (nick : CStr) : Option CStr := s.byName (nameKey nick)

def addUser (e : Entry S) : Server S where
  byId := update s.byId id (some e)
  byName := update s.byName (nameKey e.client.name) (some id)
  locals := s.locals
  issued := s.issued

/-- `exit_one_client` -/
def dropUser (e : Entry S) : Server S where
  byId := update s.byId id none
  byName := update s.byName (nameKey e.client.name) none
  locals := s.locals
  issued := s.issued

/-- The user as a handler leaves it. -/
def putUser (e : Entry S) : Option Client → Server S
  | some c => addUser (dropUser s id e) id { e with client := c }
  | none => dropUser s id e

/-- The client that a prefix stands for. -/
def findSource (prefix' : CStr) : Option (CStr × Entry S) :=
  match s.byId prefix' with
  | some e => some (prefix', e)
  | none => (found s prefix').bind fun id => (s.byId id).map fun e => (id, e)

/-- `find_person`, for a server -/
def findPerson (name : CStr) : Option (CStr × Entry S) :=
  if startsWithDigit name then (s.byId name).map fun e => (name, e)
  else (found s name).bind fun id => (s.byId id).map fun e => (id, e)

end Server

variable {S : Type*} [DecidableEq S] (conf : Conf) (top : Topology S)

/-- `sendto_server`: to all servers but `one`. -/
def sendtoServer (n : S) (one : Option S) (l : Line S) : List (S × Line S) :=
  ((top.neighbours n).filter fun m => some m ≠ one).map fun m => (m, l)

/-- Whether an unknown prefix is taken for the one of a server. -/
def serverPrefix (sender : CStr) : Bool :=
  (startsWithDigit sender && decide (sender.length ≤ Uid.IRC_MAXSID)) || decide ('.' ∈ sender)

/-- `parse_remove_unknown`; a SQUIT for a server that is not there is none of the lines here. -/
def parseRemoveUnknown (n link : S) (sender : CStr) : Option (List (S × Line S)) :=
  if serverPrefix sender then none else some [(link, .killFrom n sender)]

/-- `ms_kill`, from a source that is behind `link`; `say` is the line for who is killed. -/
def msKill (n : S) (s : Server S) (link : S) (say : CStr → Line S) (target : CStr) :
    Server S × List (S × Line S) :=
  match findPerson s target with
  | none => (s, [])
  | some (id, e) => (dropUser s id e, sendtoServer top n (some link) (say id))

/-- A line from a user of another server. -/
def handleUser (n : S) (s : Server S) (link : S) (sender : CStr) (l : Line S) :
    Option (Server S × List (S × Line S)) :=
  match findSource s sender with
  | none => (parseRemoveUnknown n link sender).map fun out => (s, out)
  | some (id, e) =>
    if e.link ≠ some link then some (s, [])
    else
      (relay conf (found s) id e.client l).map fun o =>
        (putUser s id e o.client, (o.line.map (sendtoServer top n (some link))).getD [])

/-- One line is parsed. Where the nick or the identifier of somebody is taken already, or a nick is
bad, there is no result: what happens then is followed elsewhere. -/
def handle (n : S) (s : Server S) (link : S) (l : Line S) :
    Option (Server S × List (S × Line S)) :=
  match l with
  | .uid server id name tsinfo umodes info =>
    if top.route server n ≠ link then some (s, [])
    else if !validNickname name false || (s.byId id).isSome || (found s name).isSome then none
    else
      let c := introduced name tsinfo umodes info
      some (addUser s id ⟨c, some link⟩, sendtoServer top n (some link) (introduction server id c))
  | .killFrom server target =>
    if top.route server n ≠ link then some (s, [])
    else some (msKill top n s link (.killFrom server) target)
  | .killBy source target =>
    match findSource s source with
    | none => (parseRemoveUnknown n link source).map fun out => (s, out)
    | some (id, e) =>
      if e.link ≠ some link then some (s, [])
      else some (msKill top n s link (.killBy id) target)
  | .nick sender _ _ => handleUser conf top n s link sender l
  | .mode sender _ _ => handleUser conf top n s link sender l
  | .away sender _ => handleUser conf top n s link sender l
  | .rchg sender _ => handleUser conf top n s link sender l
  | .quit sender => handleUser conf top n s link sender l

/-- What a server has to say goes into its queues. -/
def post (net : Net S) (n : S) (s : Server S) (out : List (S × Line S)) : Net S where
  server := update net.server n s
  queue := fun a b =>
    if a = n then net.queue a b ++ (out.filter fun o => o.1 = b).map Prod.snd else net.queue a b

/-- The first line of a queue is gone. -/
def takeLine (net : Net S) (a b : S) (rest : List (Line S)) : Net S where
  server := net.server
  queue := fun c d => if c = a ∧ d = b then rest else net.queue c d

inductive Event (S : Type*) where
  | connect (id : CStr) (c : Client)
  | command (id : CStr) (cmd : Command)
  | kill (n : S) (source target : CStr)
  | deliver (a b : S)

/-- A digit, and nine letters and digits together. -/
def validUid (id : CStr) : Bool :=
  startsWithDigit id && id.all (fun c => isDigit c || isLetter c) &&
    decide (id.length = Uid.TOTALSIDUID)

/-- A user registers, with a nick that nobody has and an identifier that `uid_get` gives out. -/
def connectable (s : Server S) (id : CStr) (c : Client) : Bool :=
  validUid id && !s.issued id &&
    validNickname c.name true && (found s c.name).isNone && decide (c.away = []) &&
    decide (c.info.length ≤ REALLEN)

/-- `mo_kill`, with the user that was found for it. -/
def moKill (n : S) (s : Server S) (source target : CStr) :
    Option (Server S × List (S × Line S)) :=
  match s.byId source, s.byId target with
  | some ek, some e =>
    if ek.link = none ∧ .oper ∈ ek.client.umodes then
      some (dropUser s target e, sendtoServer top n none
        (if e.link = none then .quit target else .killBy source target))
    else none
  | _, _ => none

def step (net : Net S) : Event S → Option (Net S)
  | .connect id c =>
    let n := top.home id
    let s := net.server n
    if connectable s id c then
      let s := { s with
        locals := update s.locals id ⟨false, false, false⟩, issued := update s.issued id true }
      some (post net n (addUser s id ⟨c, none⟩) (sendtoServer top n none (introduction n id c)))
    else none
  | .command id cmd =>
    let n := top.home id
    let s := net.server n
    match s.byId id with
    | none => none
    | some e =>
      let (l, o) := own conf (found s) (s.locals id) id e.client cmd
      let s := { s with locals := update s.locals id l }
      some (post net n (putUser s id e o.client) ((o.line.map (sendtoServer top n none)).getD []))
  | .kill n source target =>
    (moKill top n (net.server n) source target).map fun r => post net n r.1 r.2
  | .deliver a b =>
    match net.queue a b with
    | [] => none
    | l :: rest =>
      (handle conf top b (net.server b) a l).map fun r =>
        post (takeLine net a b rest) b r.1 r.2

/-- Nobody is there, and nothing is under way. -/
def start : Net S where
  server := fun _ => ⟨fun _ => none, fun _ => none, fun _ => ⟨false, false, false⟩, fun _ => false⟩
  queue := fun _ _ => []

end IrcdHybrid.UserNetwork
