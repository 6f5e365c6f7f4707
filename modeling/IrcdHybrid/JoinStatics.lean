import IrcdHybrid.ChannelLines

/-!
`ms_join` and the buffers of m_join.c, which stay from one JOIN to the next.
The letters are written anew every time, but the parameters are only written
when there are some: a channel without a key that loses its modes is shown with
the key of the last channel that lost one.
-/

namespace IrcdHybrid.JoinStatics

open CString Numeral Channels Burst Sjoin ChannelMode ChannelLines

/-- What `set_final_mode` writes through `mbuf` and `pbuf`, and the last sign. -/
structure Pen where
  mbuf : CStr
  what : Dir
  pbuf : CStr
  deriving DecidableEq, Repr

def Pen.put (p : Pen) (dir : Dir) (c : Char) : Pen :=
  { p with
    mbuf := p.mbuf ++ (if p.what = dir then [c] else [signOf dir, c])
    what := dir }

/-- `sprintf(pbuf, "%s ", arg)`. -/
def Pen.param (p : Pen) (arg : CStr) : Pen := { p with pbuf := p.pbuf ++ arg ++ [' '] }

/-- The letters of the flags of `mode` that `other` has not. -/
def putFlags (dir : Dir) (mode other : Mode) (p : Pen) : Pen :=
  chanModes.foldl
    (fun p tab => if tab.1 ∈ mode.mode ∧ tab.1 ∉ other.mode then p.put dir tab.2 else p) p

def writeModes (mode oldmode : Mode) : Pen :=
  let p := putFlags .add mode oldmode ⟨[], .query, []⟩
  let p := putFlags .del oldmode mode p
  let p := if oldmode.limit ≠ 0 ∧ mode.limit = 0 then p.put .del 'l' else p
  let p := if oldmode.key ≠ [] ∧ mode.key = [] then (p.put .del 'k').param oldmode.key else p
  let p := if mode.limit ≠ 0 ∧ oldmode.limit ≠ mode.limit then
      (p.put .add 'l').param (signedDecimal mode.limit.toInt)
    else p
  if mode.key ≠ [] ∧ oldmode.key ≠ mode.key then (p.put .add 'k').param mode.key else p

/-- The buffers after it: nothing terminates `parabuf` but a parameter that is written. -/
def setFinalMode (mode oldmode : Mode) (parabuf : CStr) : CStr × CStr :=
  let p := writeModes mode oldmode
  (p.mbuf, if p.pbuf = [] then parabuf else p.pbuf)

/-- One server with the clients and channels it knows and the buffers of m_join.c. -/
structure State where
  clients : Clients
  channels : Rooms
  modebuf : CStr
  parabuf : CStr

section Join

variable (net : Net) (clients : Clients)

/-- The other side wins: the statuses and the topic go. -/
def loseStatuses (source : Sender) (oldts newts : ℤ) (room : Room) : Room × List Sent :=
  let deopped := removeOurModes net clients source room.toChannel
  let cleared := clearTopic net clients source { room with toChannel := deopped.1 }
  (cleared.1, deopped.2 ++ cleared.2 ++ tsChanged net clients cleared.1.toChannel oldts newts)

/-- The channel as the timestamps leave it. -/
def settleRoom (source : Sender) (d : Decision) (newts : ℤ) (room : Room) : Room × List Sent :=
  let settled : Room := { room with
    creationtime := d.creationtime
    mode := finalMode d noModes room.mode }
  if d.keepOurModes then (settled, [])
  else loseStatuses net clients source room.creationtime newts settled

def bringIn (id : CStr) (c : Client) (room : Room) : Room × List Sent :=
  if room.isMember id then (room, [])
  else
    let chptr := addUserToChannel room.toChannel id noFlags
    ({ room with toChannel := chptr }, joinLines clients chptr c)

/-- The part of `ms_join` behind the search for the channel. -/
def joinRoom (id : CStr) (c : Client) (newts : ℤ) (isnew : Bool) (parabuf : CStr) (room : Room) :
    Room × (CStr × CStr) × List Sent :=
  let source := Sender.client id
  let notices := tsNotices net clients source isnew room.toChannel newts
  let newts := believeTs net newts room.creationtime
  let d := decideTs isnew newts room.creationtime
  let bufs := setFinalMode (finalMode d noModes room.mode) room.mode parabuf
  let settled := settleRoom net clients source d newts room
  let announced := announceMode net clients source settled.1.toChannel bufs.1 bufs.2
  let joined := bringIn clients id c settled.1
  let relay := .servers ⟨id, "JOIN".toList,
    formatTime joined.1.creationtime ++ ' ' :: joined.1.name ++ " +".toList⟩
  (joined.1, bufs, (notices ++ settled.2) ++ (announced ++ (joined.2 ++ [relay])))

/-- The channel without the client, who may have been the last. -/
def leaveRoom (id name : CStr) (rooms : Rooms) : Rooms :=
  match findRoom rooms name with
  | none => rooms
  | some room =>
    let left := room.members.filter (fun member => member.id != id)
    setRoom rooms name (if left = [] then none else some { room with members := left })

def partLines (id : CStr) (c : Client) : Option Room → List Sent
  | none => []
  | some room => .servers ⟨id, "PART".toList, room.name⟩ ::
    sendtoChannelLocal clients room.toChannel ⟨c.prefixText, "PART".toList, room.name⟩

/-- `channel_do_join_0`, over the channels of the client in the order of his list. -/
def channelDoJoin0 (id : CStr) (c : Client) : List CStr → Rooms → Rooms × List Sent
  | [], rooms => (rooms, [])
  | name :: names, rooms =>
    let rest := channelDoJoin0 id c names (leaveRoom id name rooms)
    (rest.1, partLines clients id c (findRoom rooms name) ++ rest.2)

end Join

/-- `ms_join` for a line from the client `id`, who is on the channels `names`. -/
def msJoin (net : Net) (id : CStr) (names : List CStr) (params : List CStr) (s : State) :
    State × List Sent :=
  match s.clients id with
  | none => (s, [])
  | some c =>
    match params with
    | [p] =>
      if p = ['0'] then
        let left := channelDoJoin0 s.clients id c names s.channels
        ({ s with channels := left.1 }, left.2)
      else (s, [])
    | ts :: name :: _ :: _ =>
      if !checkChannelName name then
        (s, [.realops ("*** Too long or invalid channel name from ".toList ++ c.name ++
          "(via ".toList ++ c.direction ++ "): ".toList ++ name)])
      else
        let old := findRoom s.channels name
        let joined := joinRoom net s.clients id c (strtol ts) old.isNone s.parabuf
          (old.getD (makeRoom net.currentTime name))
        ({ s with
          channels := setRoom s.channels name (some joined.1)
          modebuf := joined.2.1.1
          parabuf := joined.2.1.2 }, joined.2.2)
    | _ => (s, [])

/-- What happens on the server: a JOIN from another server, or anything else about a
channel or a client, which cannot reach the buffers of this file. -/
inductive Event where
  | join (id : CStr) (names params : List CStr)
  | channel (name : CStr) (room : Option Room)
  | client (id : CStr) (c : Option Client)

def step (net : Net) (s : State) : Event → State
  | .join id names params => (msJoin net id names params s).1
  | .channel name room => { s with channels := setRoom s.channels name room }
  | .client id c => { s with clients := Function.update s.clients id c }

def boot : State := ⟨fun _ => none, fun _ => none, [], []⟩

def run (net : Net) (history : List Event) (s : State) : State := history.foldl (step net) s

/-- Whether the event is about other channels than this one only. -/
def Event.elsewhere (chan : CStr) : Event → Bool
  | .join _ names [_] => names.all (fun name => fold name != fold chan)
  | .join _ _ (_ :: name :: _) => fold name != fold chan
  | .join _ _ [] => false
  | .channel name _ => fold name != fold chan
  | .client _ _ => false

/-- The histories differ only in what happens to other channels. -/
def SameFor (chan : CStr) (h h' : List Event) : Prop :=
  h.filter (fun e => !e.elsewhere chan) = h'.filter (fun e => !e.elsewhere chan)

/-- The MODE lines to the members. -/
def modeLines (sent : List Sent) : List (CStr × CStr) :=
  sent.filterMap (fun
    | .member id line => if line.command = "MODE".toList then some (id, line.text) else none
    | _ => none)

/-- The channel that loses its modes to a JOIN, being younger than the line says. -/
def takenRoom (net : Net) (s : State) : Event → Option Room
  | .join id _ (ts :: name :: _ :: _) =>
    if (s.clients id).isSome ∧ checkChannelName name then
      (findRoom s.channels name).filter (fun room =>
        !(decideTs false (believeTs net (strtol ts) room.creationtime)
          room.creationtime).keepOurModes)
    else none
  | _ => none

/-- The key that the channel loses with them. -/
def keyTaken (net : Net) (s : State) (e : Event) : Option CStr :=
  (takenRoom net s e).bind (fun room => if room.mode.key = [] then none else some room.mode.key)

/-- The keys that channels lost to a JOIN, in the order of the history. -/
def keysTaken (net : Net) : List Event → State → List CStr
  | [], _ => []
  | e :: history, s => (keyTaken net s e).toList ++ keysTaken net history (step net s e)

def lastKey (net : Net) (history : List Event) : Option CStr := (keysTaken net history boot).getLast?

/-- The JOIN takes modes from a channel that has no key and members to be told. -/
def Unkeyed (net : Net) (s : State) (e : Event) : Prop :=
  ∃ room, takenRoom net s e = some room ∧ room.mode ≠ noModes ∧ room.mode.key = [] ∧
    localMembers s.clients (fun _ => true) room.toChannel ≠ []

theorem foldl_keep {α β : Type*} (f : β → α → β) (l : List α) (b : β) (h : ∀ a ∈ l, f b a = b) :
    l.foldl f b = b := by
  induction l with
  | nil => rfl
  | cons a l ih =>
    rw [List.foldl_cons, h a (by simp)]
    exact ih (fun x hx => h x (by simp [hx]))

theorem putFlags_subset (dir : Dir) (mode other : Mode) (p : Pen) (h : mode.mode ⊆ other.mode) :
    putFlags dir mode other p = p := by
  unfold putFlags
  apply foldl_keep
  intro tab _
  rw [if_neg]
  intro hin
  exact hin.2 (h hin.1)

theorem put_pbuf (p : Pen) (dir : Dir) (c : Char) : (p.put dir c).pbuf = p.pbuf := rfl

theorem put_ne_nil (p : Pen) (dir : Dir) (c : Char) : (p.put dir c).mbuf ≠ [] := by
  unfold Pen.put
  by_cases h : p.what = dir
  · simp [h]
  · simp [h]

theorem foldl_flags (dir : Dir) (mode other : Mode) (tabs : List (SimpleMode × Char)) (p : Pen) :
    let q := tabs.foldl
      (fun p tab => if tab.1 ∈ mode.mode ∧ tab.1 ∉ other.mode then p.put dir tab.2 else p) p
    q.pbuf = p.pbuf ∧
      ((p.mbuf ≠ [] ∨ ∃ tab ∈ tabs, tab.1 ∈ mode.mode ∧ tab.1 ∉ other.mode) → q.mbuf ≠ []) := by
  induction tabs generalizing p with
  | nil => simp
  | cons tab tabs ih =>
    rw [List.foldl_cons]
    by_cases htab : tab.1 ∈ mode.mode ∧ tab.1 ∉ other.mode
    · rw [if_pos htab]
      obtain ⟨hp, hm⟩ := ih (p.put dir tab.2)
      exact ⟨hp, fun _ => hm (Or.inl (put_ne_nil p dir tab.2))⟩
    · rw [if_neg htab]
      obtain ⟨hp, hm⟩ := ih p
      refine ⟨hp, fun h => hm ?_⟩
      rcases h with h | ⟨t, ht, hin⟩
      · exact Or.inl h
      · rcases List.mem_cons.mp ht with rfl | ht
        · exact absurd hin htab
        · exact Or.inr ⟨t, ht, hin⟩

theorem mem_chanModes (d : SimpleMode) : ∃ tab ∈ chanModes, tab.1 = d := by
  cases d <;> decide

theorem putFlags_pbuf (dir : Dir) (mode other : Mode) (p : Pen) :
    (putFlags dir mode other p).pbuf = p.pbuf := (foldl_flags dir mode other chanModes p).1

theorem putFlags_ne_nil (dir : Dir) (mode other : Mode) (p : Pen) (d : SimpleMode)
    (hd : d ∈ mode.mode) (hother : d ∉ other.mode) : (putFlags dir mode other p).mbuf ≠ [] := by
  apply (foldl_flags dir mode other chanModes p).2
  obtain ⟨tab, htab, rfl⟩ := mem_chanModes d
  exact Or.inr ⟨tab, htab, hd, hother⟩

theorem writeModes_same (mode : Mode) : writeModes mode mode = ⟨[], .query, []⟩ := by
  have hlimit : ¬ (mode.limit ≠ 0 ∧ mode.limit = 0) := fun h => h.1 h.2
  have hkey : ¬ (mode.key ≠ [] ∧ mode.key = []) := fun h => h.1 h.2
  simp only [writeModes, putFlags_subset _ mode mode _ (Finset.Subset.refl _), if_neg hlimit,
    if_neg hkey, ne_eq, not_true_eq_false, and_false, if_false]

/-- Without the modes there is a letter for each of them and a parameter for the key only. -/
theorem writeModes_none (old : Mode) :
    ((writeModes noModes old).mbuf = [] ↔ old = noModes) ∧
      (writeModes noModes old).pbuf = if old.key = [] then [] else old.key ++ [' '] := by
  have hadd : ∀ p, putFlags .add noModes old p = p :=
    fun p => putFlags_subset _ _ _ p (Finset.empty_subset _)
  have hl : ¬ ((noModes : Mode).limit ≠ 0 ∧ old.limit ≠ noModes.limit) := fun h => h.1 rfl
  have hk : ¬ ((noModes : Mode).key ≠ [] ∧ old.key ≠ noModes.key) := fun h => h.1 rfl
  have hl0 : (noModes : Mode).limit = 0 := rfl
  have hk0 : (noModes : Mode).key = [] := rfl
  simp only [writeModes, hadd]
  rw [if_neg hk, if_neg hl]
  simp only [hl0, hk0, and_true]
  constructor
  · constructor
    · intro hnil
      have hkey : old.key = [] := by
        by_contra hkey
        rw [if_pos hkey] at hnil
        exact put_ne_nil _ _ _ hnil
      rw [if_neg (not_not.mpr hkey)] at hnil
      have hlimit : old.limit = 0 := by
        by_contra hlimit
        rw [if_pos hlimit] at hnil
        exact put_ne_nil _ _ _ hnil
      rw [if_neg (not_not.mpr hlimit)] at hnil
      have hmode : old.mode = ∅ := by
        apply Finset.eq_empty_of_forall_notMem
        intro d hd
        exact putFlags_ne_nil .del old noModes _ d hd (Finset.notMem_empty d) hnil
      cases old
      simp only at hkey hlimit hmode
      subst hkey hlimit hmode
      rfl
    · rintro rfl
      rw [if_neg (not_not.mpr hk0), if_neg (not_not.mpr hl0),
        putFlags_subset _ _ _ _ (Finset.Subset.refl _)]
  · by_cases hkey : old.key = []
    · rw [if_neg (not_not.mpr hkey), if_pos hkey]
      by_cases hlimit : old.limit = 0
      · rw [if_neg (not_not.mpr hlimit), putFlags_pbuf]
      · rw [if_pos hlimit, put_pbuf, putFlags_pbuf]
    · rw [if_pos hkey, if_neg hkey]
      show (Pen.put _ .del 'k').pbuf ++ old.key ++ [' '] = _
      rw [put_pbuf]
      by_cases hlimit : old.limit = 0
      · rw [if_neg (not_not.mpr hlimit), putFlags_pbuf]
        rfl
      · rw [if_pos hlimit, put_pbuf, putFlags_pbuf]
        rfl

theorem mergeModes_noModes (old : Mode) : mergeModes noModes old = old := by
  unfold mergeModes noModes
  have hlimit : (if old.limit > 0 then old.limit else 0) = old.limit := by
    by_cases h : old.limit > 0
    · rw [if_pos h]
    · rw [if_neg h]
      bv_omega
  have hkey : (if [] < old.key then old.key else []) = old.key := by
    cases h : old.key with
    | nil => rfl
    | cons c key => rw [if_pos (by simp)]
  have hmode : ∅ ∪ old.mode = old.mode := by
    ext d
    simp
  simp only [hmode, hlimit, hkey]

/-- A JOIN brings no modes: the channel keeps its own or has none. -/
theorem finalMode_noModes (isnew : Bool) (newts oldts : ℤ) (old : Mode) :
    finalMode (decideTs isnew newts oldts) noModes old =
      if (decideTs isnew newts oldts).keepOurModes then old else noModes := by
  unfold decideTs
  split
  · exact mergeModes_noModes old
  split
  · exact mergeModes_noModes old
  split
  · exact mergeModes_noModes old
  split
  · rfl
  · rfl

theorem setFinalMode_join (isnew : Bool) (newts oldts : ℤ) (old : Mode) (parabuf : CStr) :
    let d := decideTs isnew newts oldts
    setFinalMode (finalMode d noModes old) old parabuf =
      if d.keepOurModes then ([], parabuf)
      else ((writeModes noModes old).mbuf, if old.key = [] then parabuf else old.key ++ [' ']) := by
  intro d
  rw [finalMode_noModes]
  by_cases h : d.keepOurModes = true
  · rw [if_pos h, if_pos h]
    unfold setFinalMode
    rw [writeModes_same]
    rfl
  · rw [if_neg h, if_neg h]
    unfold setFinalMode
    simp only [(writeModes_none old).2]
    by_cases hkey : old.key = []
    · simp [hkey]
    · simp [hkey]

section Join

variable (net : Net) (clients : Clients)

theorem loseStatuses_ids (source : Sender) (oldts newts : ℤ) (room : Room) :
    (loseStatuses net clients source oldts newts room).1.members.map Membership.id =
      room.members.map Membership.id := by
  simp only [loseStatuses, clearTopic_members, removeOurModes_fst, Sjoin.removeOurModes,
    List.map_map]
  rfl

theorem settleRoom_ids (source : Sender) (d : Decision) (newts : ℤ) (room : Room) :
    (settleRoom net clients source d newts room).1.members.map Membership.id =
      room.members.map Membership.id := by
  unfold settleRoom
  dsimp only
  split
  · rfl
  · rw [loseStatuses_ids]

/-- What a JOIN sends around the MODE line does not come from the buffers. -/
theorem joinRoom_sent (id : CStr) (c : Client) (newts : ℤ) (isnew : Bool) (room : Room) :
    ∃ before after chptr,
      localMembers clients (fun _ => true) chptr =
        localMembers clients (fun _ => true) room.toChannel ∧
      ∀ parabuf, (joinRoom net clients id c newts isnew parabuf room).2.2 =
        before ++ (announceMode net clients (.client id) chptr
          (joinRoom net clients id c newts isnew parabuf room).2.1.1
          (joinRoom net clients id c newts isnew parabuf room).2.1.2 ++ after) := by
  let source := Sender.client id
  let ts := believeTs net newts room.creationtime
  let settled := settleRoom net clients source (decideTs isnew ts room.creationtime) ts room
  let joined := bringIn clients id c settled.1
  refine ⟨tsNotices net clients source isnew room.toChannel newts ++ settled.2,
    joined.2 ++ [.servers ⟨id, "JOIN".toList,
      formatTime joined.1.creationtime ++ ' ' :: joined.1.name ++ " +".toList⟩],
    settled.1.toChannel, ?_, fun parabuf => rfl⟩
  exact localMembers_congr clients _ _ _ (settleRoom_ids net clients source _ ts room)

theorem joinRoom_bufs (id : CStr) (c : Client) (newts : ℤ) (isnew : Bool) (parabuf : CStr)
    (room : Room) :
    (joinRoom net clients id c newts isnew parabuf room).2.1 =
      if (decideTs isnew (believeTs net newts room.creationtime) room.creationtime).keepOurModes then
        ([], parabuf)
      else ((writeModes noModes room.mode).mbuf,
        if room.mode.key = [] then parabuf else room.mode.key ++ [' ']) :=
  setFinalMode_join isnew _ _ room.mode parabuf

theorem joinRoom_fst (id : CStr) (c : Client) (newts : ℤ) (isnew : Bool) (parabuf parabuf' : CStr)
    (room : Room) : (joinRoom net clients id c newts isnew parabuf room).1 =
      (joinRoom net clients id c newts isnew parabuf' room).1 := rfl

end Join

section Run

variable (net : Net)

theorem msJoin_channel (s : State) (id ts name modes : CStr) (c : Client) (names rest : List CStr)
    (hclient : s.clients id = some c) (hname : checkChannelName name = true) :
    msJoin net id names (ts :: name :: modes :: rest) s =
      let joined := joinRoom net s.clients id c (strtol ts) (findRoom s.channels name).isNone
        s.parabuf ((findRoom s.channels name).getD (makeRoom net.currentTime name))
      ({ s with
        channels := setRoom s.channels name (some joined.1)
        modebuf := joined.2.1.1
        parabuf := joined.2.1.2 }, joined.2.2) := by
  simp only [msJoin, hclient, hname, Bool.not_true, Bool.false_eq_true, if_false]

/-- The room that a JOIN on this channel takes the modes of. -/
theorem takenRoom_join (s : State) (id ts name modes : CStr) (c : Client) (names rest : List CStr)
    (hclient : s.clients id = some c) (hname : checkChannelName name = true) :
    takenRoom net s (.join id names (ts :: name :: modes :: rest)) =
      (findRoom s.channels name).filter (fun room =>
        !(decideTs false (believeTs net (strtol ts) room.creationtime)
          room.creationtime).keepOurModes) := by
  simp [takenRoom, hclient, hname]

/-- One event leaves the parameters of the last key that was taken. -/
theorem step_parabuf (s : State) (e : Event) :
    (step net s e).parabuf = ((keyTaken net s e).map (fun key => key ++ [' '])).getD s.parabuf := by
  cases e with
  | channel name room => rfl
  | client id c => rfl
  | join id names params =>
    show (msJoin net id names params s).1.parabuf = _
    rcases params with _ | ⟨ts, _ | ⟨name, _ | ⟨modes, rest⟩⟩⟩
    · unfold msJoin
      cases s.clients id <;> rfl
    · unfold msJoin
      cases s.clients id with
      | none => rfl
      | some c =>
        show (if ts = ['0'] then _ else _ : State × List Sent).1.parabuf = s.parabuf
        split <;> rfl
    · unfold msJoin
      cases s.clients id <;> rfl
    · cases hclient : s.clients id with
      | none => simp [msJoin, keyTaken, takenRoom, hclient]
      | some c =>
        by_cases hname : checkChannelName name = true
        · rw [msJoin_channel net s id ts name modes c names rest hclient hname]
          unfold keyTaken
          rw [takenRoom_join net s id ts name modes c names rest hclient hname]
          dsimp only
          rw [joinRoom_bufs]
          cases hroom : findRoom s.channels name with
          | none => simp [decideTs]
          | some room =>
            simp only [Option.isNone_some, Option.getD_some]
            by_cases hkeep : (decideTs false (believeTs net (strtol ts) room.creationtime)
                room.creationtime).keepOurModes = true
            · simp [hkeep, Option.filter]
            · by_cases hkey : room.mode.key = []
              · simp [hkeep, hkey, Option.filter]
              · simp [hkeep, hkey, Option.filter]
        · simp [msJoin, keyTaken, takenRoom, hclient, hname]

theorem run_parabuf (history : List Event) (s : State) :
    (run net history s).parabuf =
      ((keysTaken net history s).getLast?.map (fun key => key ++ [' '])).getD s.parabuf := by
  induction history generalizing s with
  | nil => rfl
  | cons e history ih =>
    show (run net history (step net s e)).parabuf = _
    rw [ih, step_parabuf]
    show _ = (((keyTaken net s e).toList ++ keysTaken net history (step net s e)).getLast?.map
      _).getD _
    rw [List.getLast?_append]
    cases (keysTaken net history (step net s e)).getLast? with
    | some key => rfl
    | none => cases keyTaken net s e <;> rfl

/-- Two servers that know the same clients and have the same channel of this name. -/
structure Agree (chan : CStr) (s t : State) : Prop where
  clients : s.clients = t.clients
  channel : findRoom s.channels chan = findRoom t.channels chan

theorem Agree.refl (chan : CStr) (s : State) : Agree chan s s := ⟨rfl, rfl⟩

theorem Agree.trans (chan : CStr) (s t u : State) (h : Agree chan s t) (h' : Agree chan t u) :
    Agree chan s u := ⟨h.clients.trans h'.clients, h.channel.trans h'.channel⟩

theorem findRoom_setRoom_agree (chan name : CStr) (rooms rooms' : Rooms) (room : Option Room)
    (h : findRoom rooms chan = findRoom rooms' chan) :
    findRoom (setRoom rooms name room) chan = findRoom (setRoom rooms' name room) chan := by
  unfold findRoom setRoom at *
  by_cases hname : fold chan = fold name
  · simp [hname]
  · simpa [hname] using h

theorem findRoom_congr (rooms : Rooms) (a b : CStr) (h : fold a = fold b) :
    findRoom rooms a = findRoom rooms b := by
  unfold findRoom
  rw [h]

theorem findRoom_setRoom_fold (rooms : Rooms) (chan name : CStr) (room : Option Room)
    (h : fold chan = fold name) : findRoom (setRoom rooms name room) chan = room := by
  rw [findRoom_congr _ chan name h, findRoom_setRoom]

theorem leaveRoom_agree (id chan name : CStr) (rooms rooms' : Rooms)
    (h : findRoom rooms chan = findRoom rooms' chan) :
    findRoom (leaveRoom id name rooms) chan = findRoom (leaveRoom id name rooms') chan := by
  by_cases hname : fold chan = fold name
  · have hsame : findRoom rooms name = findRoom rooms' name := by
      rw [findRoom_congr _ name chan hname.symm, findRoom_congr _ name chan hname.symm, h]
    unfold leaveRoom
    rw [hsame]
    cases findRoom rooms' name with
    | none => exact h
    | some room => exact findRoom_setRoom_agree chan name rooms rooms' _ h
  · have hkeep : ∀ r : Rooms, findRoom (leaveRoom id name r) chan = findRoom r chan := by
      intro r
      unfold leaveRoom
      cases findRoom r name with
      | none => rfl
      | some room => exact findRoom_setRoom_other r name chan _ hname
    rw [hkeep, hkeep, h]

theorem channelDoJoin0_channel (clients : Clients) (id chan : CStr) (c : Client)
    (names : List CStr) (rooms rooms' : Rooms)
    (h : findRoom rooms chan = findRoom rooms' chan) :
    findRoom (channelDoJoin0 clients id c names rooms).1 chan =
      findRoom (channelDoJoin0 clients id c names rooms').1 chan := by
  induction names generalizing rooms rooms' with
  | nil => exact h
  | cons name names ih => exact ih _ _ (leaveRoom_agree id chan name rooms rooms' h)

theorem channelDoJoin0_elsewhere (clients : Clients) (id chan : CStr) (c : Client)
    (names : List CStr) (rooms : Rooms) (h : ∀ name ∈ names, fold name ≠ fold chan) :
    findRoom (channelDoJoin0 clients id c names rooms).1 chan = findRoom rooms chan := by
  induction names generalizing rooms with
  | nil => rfl
  | cons name names ih =>
    have hname : fold chan ≠ fold name := fun heq => h name (by simp) heq.symm
    show findRoom (channelDoJoin0 clients id c names (leaveRoom id name rooms)).1 chan = _
    rw [ih _ (fun n hn => h n (by simp [hn]))]
    unfold leaveRoom
    cases findRoom rooms name with
    | none => rfl
    | some room => exact findRoom_setRoom_other rooms name chan _ hname

theorem msJoin_clients (id : CStr) (names params : List CStr) (s : State) :
    (msJoin net id names params s).1.clients = s.clients := by
  unfold msJoin
  cases s.clients id with
  | none => rfl
  | some c =>
    rcases params with _ | ⟨ts, _ | ⟨name, _ | ⟨modes, rest⟩⟩⟩
    · rfl
    · dsimp only
      split <;> rfl
    · rfl
    · dsimp only
      split <;> rfl

theorem step_elsewhere (chan : CStr) (s : State) (e : Event) (h : e.elsewhere chan = true) :
    Agree chan (step net s e) s := by
  cases e with
  | channel name room =>
    refine ⟨rfl, findRoom_setRoom_other s.channels name chan room ?_⟩
    intro heq
    simp [Event.elsewhere, heq] at h
  | client id c => exact absurd h (by simp [Event.elsewhere])
  | join id names params =>
    refine ⟨msJoin_clients net id names params s, ?_⟩
    show findRoom (msJoin net id names params s).1.channels chan = _
    cases hclient : s.clients id with
    | none => simp [msJoin, hclient]
    | some c =>
      rcases params with _ | ⟨ts, _ | ⟨name, _ | ⟨modes, rest⟩⟩⟩
      · simp [msJoin, hclient]
      · simp only [msJoin, hclient]
        split
        · apply channelDoJoin0_elsewhere
          simpa [Event.elsewhere] using h
        · rfl
      · simp [msJoin, hclient]
      · have hne : fold chan ≠ fold name := by
          intro heq
          simp [Event.elsewhere, heq] at h
        by_cases hname : checkChannelName name = true
        · rw [msJoin_channel net s id ts name modes c names rest hclient hname]
          exact findRoom_setRoom_other s.channels name chan _ hne
        · simp [msJoin, hclient, hname]

theorem step_agree (chan : CStr) (s t : State) (e : Event) (h : e.elsewhere chan = false)
    (hagree : Agree chan s t) : Agree chan (step net s e) (step net t e) := by
  obtain ⟨hclients, hchannel⟩ := hagree
  cases e with
  | channel name room =>
    exact ⟨hclients, findRoom_setRoom_agree chan name s.channels t.channels room hchannel⟩
  | client id c =>
    refine ⟨?_, hchannel⟩
    show Function.update s.clients id c = Function.update t.clients id c
    rw [hclients]
  | join id names params =>
    constructor
    · show (msJoin net id names params s).1.clients = (msJoin net id names params t).1.clients
      rw [msJoin_clients, msJoin_clients, hclients]
    · show findRoom (msJoin net id names params s).1.channels chan =
        findRoom (msJoin net id names params t).1.channels chan
      cases hclient : t.clients id with
      | none => simp [msJoin, hclient, hclients, hchannel]
      | some c =>
        have hclient' : s.clients id = some c := by rw [hclients, hclient]
        rcases params with _ | ⟨ts, _ | ⟨name, _ | ⟨modes, rest⟩⟩⟩
        · simp [msJoin, hclient, hclient', hchannel]
        · simp only [msJoin, hclient, hclient', hclients]
          split
          · exact channelDoJoin0_channel t.clients id chan c names _ _ hchannel
          · exact hchannel
        · simp [msJoin, hclient, hclient', hchannel]
        · have hfold : fold chan = fold name := by
            simp only [Event.elsewhere, bne_eq_false_iff_eq] at h
            exact h.symm
          by_cases hname : checkChannelName name = true
          · rw [msJoin_channel net s id ts name modes c names rest hclient' hname,
              msJoin_channel net t id ts name modes c names rest hclient hname]
            dsimp only
            rw [findRoom_setRoom_fold _ chan name _ hfold, findRoom_setRoom_fold _ chan name _ hfold,
              findRoom_congr s.channels name chan hfold.symm,
              findRoom_congr t.channels name chan hfold.symm, hchannel, hclients,
              joinRoom_fst net t.clients id c (strtol ts) _ s.parabuf t.parabuf]
          · simp [msJoin, hclient, hclient', hname, hchannel]

theorem run_agree (chan : CStr) (history : List Event) (s t : State)
    (h : ∀ e ∈ history, e.elsewhere chan = false) (hagree : Agree chan s t) :
    Agree chan (run net history s) (run net history t) := by
  induction history generalizing s t with
  | nil => exact hagree
  | cons e history ih =>
    exact ih _ _ (fun x hx => h x (by simp [hx])) (step_agree net chan s t e (h e (by simp)) hagree)

theorem run_filter (chan : CStr) (history : List Event) (s : State) :
    Agree chan (run net history s)
      (run net (history.filter (fun e => !e.elsewhere chan)) s) := by
  induction history generalizing s with
  | nil => exact Agree.refl chan s
  | cons e history ih =>
    have hkept : ∀ x ∈ history.filter (fun e => !e.elsewhere chan), x.elsewhere chan = false := by
      intro x hx
      simpa using (List.mem_filter.mp hx).2
    by_cases he : e.elsewhere chan = true
    · rw [List.filter_cons_of_neg (by simp [he])]
      exact (ih (step net s e)).trans chan _ _ _
        (run_agree net chan _ _ _ hkept (step_elsewhere net chan s e he))
    · rw [List.filter_cons_of_pos (by simp [he])]
      exact ih (step net s e)

theorem SameFor.agree (chan : CStr) (h h' : List Event) (hsame : SameFor chan h h') (s : State) :
    Agree chan (run net h s) (run net h' s) := by
  have hleft := run_filter net chan h s
  have hright := run_filter net chan h' s
  rw [← hsame] at hright
  exact ⟨hleft.clients.trans hright.clients.symm, hleft.channel.trans hright.channel.symm⟩

theorem modeLines_append (a b : List Sent) : modeLines (a ++ b) = modeLines a ++ modeLines b := by
  simp [modeLines]

theorem modeLines_announceMode (clients : Clients) (source : Sender) (chptr : Channel)
    (modebuf parabuf : CStr) :
    modeLines (announceMode net clients source chptr modebuf parabuf) =
      if modebuf = [] then []
      else (localMembers clients (fun _ => true) chptr).map (fun id =>
        (id, Line.text ⟨shownName net clients source, "MODE".toList,
          chptr.name ++ ' ' :: modebuf ++ ' ' :: parabuf⟩)) := by
  unfold announceMode
  split
  · rfl
  · simp [modeLines, sendtoChannelLocal, List.filterMap_map]

/-- Two announcements with the same letters are the same when nobody is told or the
parameters are the same. -/
theorem announceMode_eq_iff (clients : Clients) (source : Sender) (chptr : Channel)
    (modebuf parabuf parabuf' : CStr) :
    modeLines (announceMode net clients source chptr modebuf parabuf) =
        modeLines (announceMode net clients source chptr modebuf parabuf') ↔
      modebuf = [] ∨ localMembers clients (fun _ => true) chptr = [] ∨ parabuf = parabuf' := by
  rw [modeLines_announceMode, modeLines_announceMode]
  by_cases hmode : modebuf = []
  · simp [hmode]
  · rw [if_neg hmode, if_neg hmode]
    cases localMembers clients (fun _ => true) chptr with
    | nil => simp
    | cons id ids =>
      constructor
      · intro h
        refine Or.inr (Or.inr ?_)
        have htext := congrArg Prod.snd (List.cons.inj h).1
        simpa [Line.text] using htext
      · rintro (h | h | rfl)
        · exact absurd h hmode
        · exact absurd h (by simp)
        · rfl

theorem parabuf_eq_iff (history history' : List Event) :
    (run net history boot).parabuf = (run net history' boot).parabuf ↔
      lastKey net history = lastKey net history' := by
  rw [run_parabuf, run_parabuf]
  show ((lastKey net history).map _).getD [] = ((lastKey net history').map _).getD [] ↔ _
  cases lastKey net history <;> cases lastKey net history' <;> simp

/-- The MODE lines of a JOIN depend on the rest of the history only through the last key
that was taken, and only where the channel has none. -/
theorem announced_iff (history history' : List Event) (id ts name modes : CStr)
    (names rest : List CStr) (hsame : SameFor name history history') :
    modeLines (msJoin net id names (ts :: name :: modes :: rest) (run net history boot)).2 =
        modeLines (msJoin net id names (ts :: name :: modes :: rest) (run net history' boot)).2 ↔
      (Unkeyed net (run net history boot) (.join id names (ts :: name :: modes :: rest)) →
        lastKey net history = lastKey net history') := by
  have hagree := hsame.agree net name history history' boot
  have hparabuf := parabuf_eq_iff net history history'
  generalize run net history boot = s at hagree hparabuf ⊢
  generalize run net history' boot = t at hagree hparabuf ⊢
  obtain ⟨hclients, hchannel⟩ := hagree
  rw [← hparabuf]
  cases hclient : s.clients id with
  | none =>
    have hclient' : t.clients id = none := by rw [← hclients, hclient]
    simp [msJoin, hclient, hclient', Unkeyed, takenRoom]
  | some c =>
    have hclient' : t.clients id = some c := by rw [← hclients, hclient]
    by_cases hname : checkChannelName name = true
    · rw [msJoin_channel net s id ts name modes c names rest hclient hname,
        msJoin_channel net t id ts name modes c names rest hclient' hname]
      unfold Unkeyed
      rw [takenRoom_join net s id ts name modes c names rest hclient hname]
      dsimp only
      rw [← hclients, ← hchannel]
      obtain ⟨before, after, chptr, hlocal, hsent⟩ := joinRoom_sent net s.clients id c (strtol ts)
        (findRoom s.channels name).isNone
        ((findRoom s.channels name).getD (makeRoom net.currentTime name))
      rw [hsent, hsent, modeLines_append, modeLines_append, modeLines_append, modeLines_append,
        List.append_cancel_left_eq, List.append_cancel_right_eq, joinRoom_bufs, joinRoom_bufs]
      cases hroom : findRoom s.channels name with
      | none => simp [decideTs, announceMode]
      | some room =>
        rw [hroom] at hlocal
        simp only [Option.isNone_some, Option.getD_some] at hlocal ⊢
        by_cases hkeep : (decideTs false (believeTs net (strtol ts) room.creationtime)
            room.creationtime).keepOurModes = true
        · simp [hkeep, Option.filter, announceMode]
        · rw [if_neg hkeep, if_neg hkeep, announceMode_eq_iff, (writeModes_none room.mode).1, hlocal]
          have hfilter : (some room).filter (fun room =>
              !(decideTs false (believeTs net (strtol ts) room.creationtime)
                room.creationtime).keepOurModes) = some room := by
            simp [Option.filter, hkeep]
          rw [hfilter]
          by_cases hkey : room.mode.key = []
          · simp only [hkey, if_true, Option.some.injEq, exists_eq_left']
            tauto
          · simp [hkey]
    · simp [msJoin, hclient, hclient', hname, Unkeyed, takenRoom]

end Run

def sampleNet : Net :=
  ⟨"irc.example.net".toList, false, false, false, 300,
    fun _ => ⟨"hub.example.net".toList, false, false, "1".toList⟩, fun _ => none⟩

def sampleMember : Client :=
  ⟨"alice".toList, "a".toList, "host".toList, ['*'], "Alice".toList, [], "0AA".toList,
    "0AAAAAAAA".toList, some ⟨false, false⟩, ∅⟩

def sampleJoiner : Client :=
  ⟨"bob".toList, "b".toList, "host".toList, ['*'], "Bob".toList, [], "1BB".toList, "1BB".toList,
    none, ∅⟩

def sampleRoom (name : CStr) (mode : Mode) (members : List Membership) : Room :=
  ⟨⟨name, 200, mode, members, [], [], []⟩, [], [], 0⟩

def sampleHistory : List Event :=
  [.client "0AAAAAAAA".toList (some sampleMember), .client "1BBAAAAAA".toList (some sampleJoiner),
    .channel "#c".toList (some (sampleRoom "#c".toList ⟨{.noprivmsgs}, 0, []⟩
      [⟨"0AAAAAAAA".toList, noFlags⟩]))]

def sampleKeyed : List Event :=
  [.channel "#k".toList (some (sampleRoom "#k".toList ⟨∅, 0, "secret".toList⟩ [])),
    .join "1BBAAAAAA".toList [] ["100".toList, "#k".toList, "+".toList]]

theorem sample_same : SameFor "#c".toList (sampleHistory ++ sampleKeyed) sampleHistory := by
  rfl

theorem announced_iff_sample :
    modeLines (msJoin sampleNet "1BBAAAAAA".toList [] ["100".toList, "#c".toList, "+".toList]
        (run sampleNet (sampleHistory ++ sampleKeyed) boot)).2 =
      modeLines (msJoin sampleNet "1BBAAAAAA".toList [] ["100".toList, "#c".toList, "+".toList]
        (run sampleNet sampleHistory boot)).2 ↔
      (Unkeyed sampleNet (run sampleNet (sampleHistory ++ sampleKeyed) boot)
          (.join "1BBAAAAAA".toList [] ["100".toList, "#c".toList, "+".toList]) →
        lastKey sampleNet (sampleHistory ++ sampleKeyed) = lastKey sampleNet sampleHistory) :=
  announced_iff sampleNet (sampleHistory ++ sampleKeyed) sampleHistory "1BBAAAAAA".toList
    "100".toList "#c".toList "+".toList [] [] sample_same

/-- The key of the one channel is shown to the members of the other. -/
theorem foreign_key_announced :
    ¬ ∀ (net : Net) (history history' : List Event) (id ts name modes : CStr)
      (names rest : List CStr), SameFor name history history' →
      modeLines (msJoin net id names (ts :: name :: modes :: rest) (run net history boot)).2 =
        modeLines (msJoin net id names (ts :: name :: modes :: rest) (run net history' boot)).2 := by
  intro h
  have hsame := h sampleNet (sampleHistory ++ sampleKeyed) sampleHistory "1BBAAAAAA".toList
    "100".toList "#c".toList "+".toList [] [] sample_same
  have hshown : modeLines (msJoin sampleNet "1BBAAAAAA".toList []
      ["100".toList, "#c".toList, "+".toList]
      (run sampleNet (sampleHistory ++ sampleKeyed) boot)).2 =
        [("0AAAAAAAA".toList, ":bob MODE #c -n secret ".toList)] := by decide +kernel
  have hquiet : modeLines (msJoin sampleNet "1BBAAAAAA".toList []
      ["100".toList, "#c".toList, "+".toList] (run sampleNet sampleHistory boot)).2 =
        [("0AAAAAAAA".toList, ":bob MODE #c -n ".toList)] := by decide +kernel
  have hne := hshown.symm.trans (hsame.trans hquiet)
  exact absurd hne (by decide)

end IrcdHybrid.JoinStatics
