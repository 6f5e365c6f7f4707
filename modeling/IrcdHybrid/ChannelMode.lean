import IrcdHybrid.Sjoin

/-!
Mode changes. `set_channel_mode` goes through a mode string with a cursor in
the parameters, changes the channel letter by letter and records what it
changed; `send_mode_changes_server` prints the record into TMODE lines. The
numerics that a client gets in reply are left out.
-/

namespace IrcdHybrid.ChannelMode

open CString Numeral BanMask Channels Wire Burst Sjoin

def MAXMODEPARAMS : ℕ := 6
def BAN_FUDGE : ℕ := 10

inductive Dir where
  | query
  | add
  | del
  deriving DecidableEq, Repr

/-- `CHACCESS_NOTONCHAN` to `CHACCESS_REMOTE`, from -1 to 3. -/
inductive Access where
  | notonchan
  | peon
  | halfop
  | chanop
  | remote
  deriving DecidableEq, Repr

def Access.level : Access → ℤ
  | .notonchan => -1
  | .peon => 0
  | .halfop => 1
  | .chanop => 2
  | .remote => 3

/-- The client or server that sets the modes, and what the server looks up for it. -/
structure Setter where
  isServer : Bool
  myConnect : Bool
  service : Bool
  oper : Bool
  opme : Bool
  alev : Access
  maxBans : ℕ
  findChasing : CStr → Option CStr

def Setter.myClient (source : Setter) : Bool := source.myConnect && !source.isServer

/-- The argument of a change: a text, an identifier, or the channel's own key, which is
read only when the change is printed. -/
inductive Arg where
  | null
  | text (s : CStr)
  | id (s : CStr)
  | modeKey
  deriving DecidableEq, Repr

/-- `struct ChModeChange`; a change that a later one replaces has no letter. -/
structure ModeChange where
  letter : Option Char
  arg : Arg
  dir : Dir
  deriving DecidableEq, Repr

structure ModeState where
  chptr : Channel
  params : List CStr
  changes : List ModeChange
  modeLimit : ℕ
  simpleModesMask : Finset SimpleMode
  deriving DecidableEq

def ModeState.record (s : ModeState) (c : Char) (arg : Arg) (dir : Dir) : ModeState :=
  { s with changes := s.changes ++ [⟨some c, arg, dir⟩] }

/-- Earlier changes in the same direction make way for the latest. -/
def dropAdds (c : Char) (changes : List ModeChange) : List ModeChange :=
  changes.map (fun ch =>
    if ch.letter = some c ∧ ch.dir = .add then { ch with letter := none } else ch)

/-- `++mode_limit > MAXMODEPARAMS`, which clients of this server are held to. -/
def countLimit (source : Setter) (s : ModeState) : ModeState × Bool :=
  if source.myClient then
    ({ s with modeLimit := s.modeLimit + 1 }, decide (s.modeLimit + 1 > MAXMODEPARAMS))
  else (s, false)

def chmNosuch (s : ModeState) : ModeState := s

/-- The part that `chm_simple`, `chm_registered` and `chm_operonly` share. -/
def setSimple (dir : Dir) (c : Char) (d : SimpleMode) (s : ModeState) : ModeState :=
  if d ∈ s.simpleModesMask then s
  else
    let s := { s with simpleModesMask := insert d s.simpleModesMask }
    let mode := s.chptr.mode
    match dir with
    | .add => { s with chptr := { s.chptr with mode := { mode with mode := insert d mode.mode } } }
        |>.record c .null dir
    | .del => { s with chptr := { s.chptr with mode := { mode with mode := mode.mode.erase d } } }
        |>.record c .null dir
    | .query => s

def chmSimple (source : Setter) (dir : Dir) (c : Char) (d : SimpleMode) (s : ModeState) :
    ModeState :=
  if source.alev.level < Access.halfop.level then s else setSimple dir c d s

def chmRegistered (source : Setter) (dir : Dir) (c : Char) (s : ModeState) : ModeState :=
  if !source.isServer && !source.service then s else setSimple dir c .registered s

def chmOperonly (source : Setter) (dir : Dir) (c : Char) (s : ModeState) : ModeState :=
  if source.alev.level < Access.halfop.level ∧ !source.opme then s
  else if source.myClient && !source.oper then s
  else setSimple dir c .operonly s

/-- The part of `chm_ban`, `chm_except` and `chm_invex` behind the checks. -/
def setMask (type : ListType) (source : Setter) (dir : Dir) (c : Char) (mask : CStr)
    (s : ModeState) : ModeState :=
  if mask.head? = some ':' ∨ (!source.myConnect ∧ ' ' ∈ mask) then s
  else if dir = .add then
    let maxBans := if source.myClient then some source.maxBans else none
    let text := if source.myClient then collapse mask else mask
    let (chptr, added) := addId maxBans s.chptr mask type
    if added then { s with chptr := chptr }.record c (.text (nuhText (maskOf text))) dir else s
  else
    let (chptr, deleted) := delId s.chptr mask type
    if deleted then { s with chptr := chptr }.record c (.text (nuhText (maskOf mask))) dir else s

/-- `chm_ban`, `chm_except` and `chm_invex`. -/
def chmMask (type : ListType) (source : Setter) (dir : Dir) (c : Char) (s : ModeState) :
    ModeState :=
  if dir = .query then s
  else
    match s.params with
    | [] => s
    | p :: params =>
      if source.alev.level < Access.halfop.level ∧ !source.opme then s
      else
        let (s, full) := countLimit source s
        if full then s
        else setMask type source dir c (strlcpy p IRCD_BUFSIZE) { s with params := params }

def chmBan : Setter → Dir → Char → ModeState → ModeState := chmMask .ban

def chmExcept : Setter → Dir → Char → ModeState → ModeState := chmMask .exception

def chmInvex : Setter → Dir → Char → ModeState → ModeState := chmMask .invex

inductive Status where
  | chanop
  | halfop
  | voice
  deriving DecidableEq, Repr

/-- `has_member_flags`. -/
def hasFlag (f : Flags) : Status → Bool
  | .chanop => f.chanop
  | .halfop => f.halfop
  | .voice => f.voice

/-- `AddMemberFlag` and `DelMemberFlag`. -/
def setFlag (f : Flags) (b : Bool) : Status → Flags
  | .chanop => { f with chanop := b }
  | .halfop => { f with halfop := b }
  | .voice => { f with voice := b }

def setMember (chptr : Channel) (id : CStr) (status : Status) (b : Bool) : Channel :=
  { chptr with members := chptr.members.map (fun member =>
      if member.id = id then { member with flags := setFlag member.flags b status } else member) }

def findChannelLink (chptr : Channel) (id : CStr) : Option Membership :=
  chptr.members.find? (fun member => member.id == id)

/-- `chm_voice`, `chm_hop` and `chm_op`: the access they ask for, and which changes they
take for redundant. -/
def chmMember (need : Access) (status : Status) (redundant : Dir → Bool → Bool)
    (source : Setter) (dir : Dir) (c : Char) (s : ModeState) : ModeState :=
  if source.alev.level < need.level ∧ !source.opme then s
  else if dir = .query then s
  else
    match s.params with
    | [] => s
    | p :: params =>
      let s := { s with params := params }
      match source.findChasing p with
      | none => s
      | some id =>
        match findChannelLink s.chptr id with
        | none => s
        | some member =>
          let (s, full) := countLimit source s
          if full then s
          else if redundant dir (hasFlag member.flags status) then s
          else { s with chptr := setMember s.chptr id status (dir == Dir.add) }.record c (.id id) dir

def chmVoice : Setter → Dir → Char → ModeState → ModeState :=
  chmMember .halfop .voice (fun dir has => (dir == Dir.add && has) || (dir == Dir.del && !has))

def chmHop : Setter → Dir → Char → ModeState → ModeState :=
  chmMember .chanop .halfop (fun dir has => (dir == Dir.add && has) || (dir == Dir.del && !has))

def chmOp : Setter → Dir → Char → ModeState → ModeState :=
  chmMember .chanop .chanop (fun dir has => dir == Dir.del && !has)

def setLimit (chptr : Channel) (limit : BitVec 32) : Channel :=
  { chptr with mode := { chptr.mode with limit := limit } }

def chmLimit (source : Setter) (dir : Dir) (c : Char) (s : ModeState) : ModeState :=
  if source.alev.level < Access.halfop.level ∧ !source.opme then s
  else
    match dir with
    | .query => s
    | .add =>
      match s.params with
      | [] => s
      | p :: params =>
        let s := { s with params := params }
        let limit := atoi p
        if limit ≤ 0 then s
        else
          { s with
            chptr := setLimit s.chptr (BitVec.ofInt 32 limit)
            changes := dropAdds c s.changes }.record c (.text (signedDecimal limit)) dir
    | .del =>
      if s.chptr.mode.limit = 0 then s
      else { s with chptr := setLimit s.chptr 0 }.record c .null dir

def fixKey (arg : CStr) : CStr :=
  (arg.map (fun c => Char.ofNat (c.toNat % 128))).filter (fun c => c ≠ ':' ∧ ' ' < c ∧ c ≠ ',')

def setKey (chptr : Channel) (key : CStr) : Channel :=
  { chptr with mode := { chptr.mode with key := key } }

def chmKey (source : Setter) (dir : Dir) (c : Char) (s : ModeState) : ModeState :=
  if source.alev.level < Access.halfop.level ∧ !source.opme then s
  else
    match dir with
    | .query => s
    | .add =>
      match s.params with
      | [] => s
      | p :: params =>
        let s := { s with params := params }
        let key := fixKey p
        if key = [] then s
        else
          { s with
            chptr := setKey s.chptr (strlcpy key (KEYLEN + 1))
            changes := dropAdds c s.changes }.record c .modeKey dir
    | .del =>
      let s := { s with params := s.params.tail }
      if s.chptr.mode.key = [] then s
      else { s with chptr := setKey s.chptr [] }.record c (.text ['*']) dir

/-- `ModeTable`. -/
def modeFunc (source : Setter) (dir : Dir) (c : Char) (s : ModeState) : ModeState :=
  match c with
  | 'I' => chmInvex source dir c s
  | 'O' => chmOperonly source dir c s
  | 'b' => chmBan source dir c s
  | 'e' => chmExcept source dir c s
  | 'h' => chmHop source dir c s
  | 'k' => chmKey source dir c s
  | 'l' => chmLimit source dir c s
  | 'o' => chmOp source dir c s
  | 'r' => chmRegistered source dir c s
  | 'v' => chmVoice source dir c s
  | c =>
    match modeBit c with
    | some d => chmSimple source dir c d s
    | none => chmNosuch s

/-- One letter of the mode string. -/
def modeStep (source : Setter) (st : Dir × ModeState) (c : Char) : Dir × ModeState :=
  if c = '+' then (.add, st.2)
  else if c = '-' then (.del, st.2)
  else if c = '=' then (.query, st.2)
  else (st.1, modeFunc source st.1 c st.2)

/-- `set_channel_mode` up to the sending of the changes. -/
def setChannelMode (source : Setter) (chptr : Channel) (modes : CStr) (params : List CStr) :
    ModeState :=
  (modes.foldl (modeStep source) (.add, ⟨chptr, params, [], 0, ∅⟩)).2

def Arg.read (chptr : Channel) : Arg → Option CStr
  | .null => none
  | .text s => some s
  | .id s => some s
  | .modeKey => some chptr.mode.key

def signOf : Dir → Char
  | .add => '+'
  | _ => '-'

/-- The line being filled: the letters behind the header, the parameters, and how
many there are of each. -/
structure LineState where
  letters : CStr
  parabuf : CStr
  dir : Dir
  nc : ℕ
  mc : ℕ
  deriving DecidableEq, Repr

def emptyLine : LineState := ⟨[], [], .query, 0, 0⟩

def LineState.push (st : LineState) (c : Char) (arg : Option CStr) (dir : Dir) : LineState :=
  let st := if st.dir = dir then st
    else { st with letters := st.letters ++ [signOf dir], dir := dir }
  let st := { st with letters := st.letters ++ [c], nc := st.nc + 1 }
  match arg with
  | some arg => { st with parabuf := st.parabuf ++ arg ++ [' '], mc := st.mc + 1 }
  | none => st

/-- The loop of `send_mode_changes_server`. -/
def modeChangesLoop (header : CStr) (chptr : Channel) : List ModeChange → LineState → List CStr
  | [], st =>
    if st.nc = 0 then []
    else
      let parabuf := if st.parabuf.getLast? = some ' ' then st.parabuf.dropLast else st.parabuf
      [header ++ st.letters ++ [' '] ++ parabuf]
  | ch :: changes, st =>
    match ch.letter with
    | none => modeChangesLoop header chptr changes st
    | some c =>
      let arg := ch.arg.read chptr
      let arglen := (arg.getD []).length
      let mbl := header.length + st.letters.length
      let pbl := st.parabuf.length
      if st.mc = MAXMODEPARAMS ∨ arglen + mbl + pbl + 2 > IRCD_BUFSIZE ∨
          pbl + arglen + BAN_FUDGE ≥ MODEBUFLEN then
        (if st.nc = 0 then [] else [header ++ st.letters ++ [' '] ++ st.parabuf]) ++
          modeChangesLoop header chptr changes (emptyLine.push c arg ch.dir)
      else modeChangesLoop header chptr changes (st.push c arg ch.dir)

def tmodeHeader (id : CStr) (chptr : Channel) : CStr :=
  [':'] ++ id ++ " TMODE ".toList ++ formatTime chptr.creationtime ++ [' '] ++ chptr.name ++ [' ']

/-- The lines handed to `sendto_server`. -/
def sendModeChangesServer (id : CStr) (s : ModeState) : List CStr :=
  modeChangesLoop (tmodeHeader id s.chptr) s.chptr s.changes emptyLine

def Source.service : Source → Bool
  | .client _ service => service
  | _ => false

/-- How the mode functions see a source behind a link. -/
def remoteSetter (link : Link) (source : Source) : Setter where
  isServer := source.isServer
  myConnect := decide (source = .link)
  service := Source.service source
  oper := false
  opme := false
  alev := .remote
  maxBans := 0
  findChasing := link.findChasing

def tmodeChannel (link : Link) (source : Source) (ts modes : CStr) (args : List CStr)
    (chptr : Channel) : Channel :=
  if strtol ts > chptr.creationtime then chptr
  else (setChannelMode (remoteSetter link source) chptr modes args).chptr

def msTmode (link : Link) (source : Source) (t : Table) (params : List CStr) : Table :=
  match params with
  | ts :: name :: modes :: args =>
    setChannel t name ((hashFindChannel t name).map (tmodeChannel link source ts modes args))
  | _ => t

end IrcdHybrid.ChannelMode
