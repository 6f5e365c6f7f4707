import IrcdHybrid.ChannelLines
import IrcdHybrid.SjoinRelay

/-!
What `ms_sjoin` shows the local members: the modes, statuses and masks that a
lost timestamp takes away, the modes that came, everybody who joins, and the
letters that the list of the line puts before the names. What it does to the
channel is what `Sjoin.sjoinChannel` says, and what it sends on is in `SjoinRelay`.
-/

namespace IrcdHybrid.SjoinLines

open CString Numeral BanMask Channels Wire Burst Sjoin ChannelMode SjoinHeader SjoinRelay
  ChannelLines

section Lines

variable (net : Net) (clients : Clients)

/-- What the search for the members is given. -/
def linkOf (direction : CStr) : Link where
  ignoreBogusTs := net.ignoreBogusTs
  currentTime := net.currentTime
  source := fun _ => none
  findChasing := net.findChasing
  behind := fun id => decide ((clients id).map Client.direction = some direction)

/-- `plen`: a mask with its letter and the characters around it. -/
def plen (ban : Nuh) : ℕ := ban.name.length + ban.user.length + ban.host.length + 4

/-- The masks of one line after the other; `cur` are those of the line that is being filled. -/
def banBatches (mlen : ℕ) : List Nuh → List Nuh → ℕ → List (List Nuh)
  | [], cur, _ => [cur]
  | ban :: list, cur, curLen =>
    if MAXMODEPARAMS ≤ cur.length ∨ IRCD_BUFSIZE - 2 < curLen + 1 + (plen ban - 1) then
      cur :: banBatches mlen list [ban] (mlen + plen ban)
    else banBatches mlen list (cur ++ [ban]) (curLen + plen ban)

/-- `mlen`: the length of `":%s MODE %s -"`. -/
def mlen (origin name : CStr) : ℕ :=
  (':' :: origin ++ " MODE ".toList ++ name ++ " -".toList).length

def banLine (origin name : CStr) (c : Char) (bans : List Nuh) : Line :=
  modeLine origin name '-' (bans.map (fun ban => (c, nuhText ban)))

/-- Unlike all other lines this one shows the name of the source whether it is hidden or not. -/
def removeBanList (source : Sender) (type : ListType) (c : Char) (chptr : Channel) :
    Channel × List Sent :=
  if chptr.list type = [] then (chptr, [])
  else
    let origin := source.name net clients
    let m := mlen origin chptr.name
    (chptr.setList [] type, (banBatches m (chptr.list type) [] m).flatMap (fun bans =>
      sendtoChannelLocal clients chptr (banLine origin chptr.name c bans)))

/-- The other side wins. -/
def loseTs (source : Sender) (isnew : Bool) (name : CStr) (oldts newts : ℤ) (room : Room) :
    Room × List Sent :=
  let named : Channel := { room.toChannel with
    name := if isnew then room.name else strlcpy name (CHANNELLEN + 1) }
  let deopped := removeOurModes net clients source named
  let unbanned := removeBanList net clients source .ban 'b' deopped.1
  let unexcepted := removeBanList net clients source .exception 'e' unbanned.1
  let uninvited := removeBanList net clients source .invex 'I' unexcepted.1
  let cleared := clearTopic net clients source { room with toChannel := uninvited.1 }
  (cleared.1, deopped.2 ++ unbanned.2 ++ unexcepted.2 ++ uninvited.2 ++ cleared.2 ++
    tsChanged net clients cleared.1.toChannel oldts newts)

/-- The channel as the timestamps leave it. -/
def settle (source : Sender) (d : Decision) (mode : Mode) (isnew : Bool) (name : CStr) (newts : ℤ)
    (room : Room) : Room × List Sent :=
  let merged : Room := { room with
    creationtime := d.creationtime
    mode := finalMode d mode room.mode }
  if d.keepOurModes then (merged, [])
  else loseTs net clients source isnew name room.creationtime newts merged

/-- The channel, the letters and nicks not shown yet, and what was sent. -/
structure Loop where
  chptr : Channel
  pending : List (Char × CStr)
  sent : List Sent

def noteStatus (origin nick : CStr) (l : Loop) (c : Char) : Loop :=
  let pending := l.pending ++ [(c, nick)]
  if MAXMODEPARAMS ≤ pending.length then
    { l with
      pending := []
      sent := l.sent ++
        sendtoChannelLocal clients l.chptr (modeLine origin l.chptr.name '+' pending) }
  else { l with pending := pending }

/-- Somebody who is not on the channel comes in. -/
def comeIn (c : Client) (member : Membership) (l : Loop) : Loop :=
  if l.chptr.isMember member.id then l
  else
    let chptr := addUserToChannel l.chptr member.id member.flags
    { l with
      chptr := chptr
      sent := l.sent ++ joinLines clients chptr c }

/-- One name of the list; the letters are shown whether he came in with them or was there. -/
def memberStep (link : Link) (origin : CStr) (keepNewModes : Bool) (l : Loop) (s : CStr) : Loop :=
  match target link keepNewModes s with
  | none => l
  | some member =>
    match clients member.id with
    | none => l
    | some c =>
      (statusLetters member.flags).foldl (noteStatus clients origin c.name)
        (comeIn clients c member l)

/-- The line for the letters that are left. -/
def lastStatuses (origin : CStr) (l : Loop) : List Sent :=
  if l.pending = [] then []
  else sendtoChannelLocal clients l.chptr (modeLine origin l.chptr.name '+' l.pending)

/-- `ms_sjoin` for a line of the server `id`, on the channel of that name. -/
def sjoinRoom (id ts name modes : CStr) (args : List CStr) (old : Option Room) :
    Option Room × List Sent :=
  let source := Sender.server id
  let direction := (net.servers id).direction
  if !checkChannelName name then
    (old, [.realops ("*** Too long or invalid channel name from ".toList ++
      source.name net clients ++ "(via ".toList ++ direction ++ "): ".toList ++ name)])
  else
    match sjoinModes modes args noModes with
    | none => (old, [])
    | some (mode, rest) =>
      let isnew := old.isNone
      let room := old.getD (makeRoom net.currentTime name)
      let notices := tsNotices net clients source isnew room.toChannel (strtol ts)
      let newts := believeTs net (strtol ts) room.creationtime
      let d := decideTs isnew newts room.creationtime
      let settled := settle net clients source d mode isnew name newts room
      let bufs := setFinalMode settled.1.mode room.mode
      let announced := announceMode net clients source settled.1.toChannel bufs.1 bufs.2
      let sent := notices ++ settled.2 ++ announced
      let relayed := relayBufs modes d.keepNewModes settled.1.mode room.mode
      if tooLong (relayHeader id d.creationtime settled.1.name relayed.1 relayed.2) then
        (some settled.1, sent ++ [.realops ("Long SJOIN from server: ".toList ++
          source.name net clients ++ "(via ".toList ++ direction ++ ") (ignored)".toList)])
      else
        let origin := shownName net clients source
        let l := (tokens (rest.headD [])).foldl
          (memberStep clients (linkOf net clients direction) origin d.keepNewModes)
          ⟨settled.1.toChannel, [], []⟩
        let joined : Room := { settled.1 with toChannel := l.chptr }
        (if l.chptr.members = [] ∧ isnew then none else some joined,
          sent ++ l.sent ++ lastStatuses clients origin l)

/-- `ms_sjoin`. -/
def msSjoin (source : Sender) (params : List CStr) (rooms : Rooms) : Rooms × List Sent :=
  match source, params with
  | .server id, ts :: name :: modes :: arg :: args =>
    let joined := sjoinRoom net clients id ts name modes (arg :: args) (findRoom rooms name)
    (setRoom rooms name joined.1, joined.2)
  | _, _ => (rooms, [])

theorem removeBanList_fst (source : Sender) (type : ListType) (c : Char) (chptr : Channel) :
    (removeBanList net clients source type c chptr).1 = chptr.setList [] type := by
  unfold removeBanList
  split
  · next h =>
    cases type <;> cases chptr <;> simp_all [Channel.list, Channel.setList]
  · rfl

theorem clearTopic_toChannel (source : Sender) (room : Room) :
    (clearTopic net clients source room).1.toChannel = room.toChannel := by
  unfold clearTopic
  split <;> rfl

theorem loseTs_toChannel (source : Sender) (isnew : Bool) (name : CStr) (oldts newts : ℤ)
    (room : Room) : (loseTs net clients source isnew name oldts newts room).1.toChannel =
      Sjoin.loseTs room.toChannel isnew name := by
  simp only [loseTs, clearTopic_toChannel, removeBanList_fst, removeOurModes_fst]
  rfl

theorem settle_toChannel (source : Sender) (d : Decision) (mode : Mode) (isnew : Bool)
    (name : CStr) (newts : ℤ) (room : Room) :
    (settle net clients source d mode isnew name newts room).1.toChannel =
      applyTs d mode isnew name room.toChannel := by
  unfold settle applyTs
  dsimp only
  split
  · rfl
  · rw [loseTs_toChannel]

theorem linkOf_behind (direction id : CStr) (h : (linkOf net clients direction).behind id = true) :
    ∃ c, clients id = some c := by
  have hsome : (clients id).map Client.direction = some direction := by simpa [linkOf] using h
  obtain ⟨c, hc, -⟩ := Option.map_eq_some_iff.mp hsome
  exact ⟨c, hc⟩

theorem target_client (direction : CStr) (keep : Bool) (s : CStr) (member : Membership)
    (h : target (linkOf net clients direction) keep s = some member) :
    ∃ c, clients member.id = some c := by
  unfold target at h
  dsimp only at h
  split at h
  · split at h
    · next hbehind =>
      obtain rfl := Option.some.inj h
      exact linkOf_behind net clients direction _ hbehind
    · simp at h
  · simp at h

end Lines

end IrcdHybrid.SjoinLines
