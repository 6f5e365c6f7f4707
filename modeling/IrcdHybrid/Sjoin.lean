import IrcdHybrid.Burst
import IrcdHybrid.Segments
import Mathlib.Data.List.Lex

/-!
Channels as other servers describe them. `ms_sjoin` weighs the timestamp of the
line against the channel's and keeps the modes of one side or of both; it then
adds the members of the line. `ms_bmask` adds masks unless its timestamp is
higher than the channel's.
-/

namespace IrcdHybrid.Sjoin

open CString Numeral BanMask Channels Wire Burst

def MODEBUFLEN : ℕ := 200

/-- Who a line can be from: the server at the other end, one behind it, or a client. -/
inductive Source where
  | link
  | server
  | client (id : CStr) (service : Bool)
  deriving DecidableEq, Repr

def Source.isServer : Source → Bool
  | .link => true
  | .server => true
  | .client _ _ => false

/-- One server's view of the link a line comes in on. -/
structure Link where
  ignoreBogusTs : Bool
  currentTime : ℤ
  source : CStr → Option Source
  findChasing : CStr → Option CStr
  behind : CStr → Bool

abbrev Table := CStr → Option Channel

def fold (name : CStr) : CStr := name.map toUpper

def hashFindChannel (t : Table) (name : CStr) : Option Channel := t (fold name)

def setChannel (t : Table) (name : CStr) (chptr : Option Channel) : Table :=
  Function.update t (fold name) chptr

/-- The bit of `ModeTable` for a letter. -/
def modeBit (c : Char) : Option SimpleMode :=
  (chanModes.find? (fun tab => tab.2 == c)).map Prod.fst

def addBit (c : Char) (mode : Mode) : Mode :=
  match modeBit c with
  | some bit => { mode with mode := insert bit mode.mode }
  | none => mode

/-- The parameter of a key or a limit. -/
def readParam (c : Char) (arg : CStr) (mode : Mode) : Mode :=
  if c = 'k' then { mode with key := strlcpy arg (KEYLEN + 1) }
  else { mode with limit := BitVec.ofInt 32 (atoi arg) }

/-- The modes of the line, and the parameters left; `none` when they run out. -/
def sjoinModes : CStr → List CStr → Mode → Option (Mode × List CStr)
  | [], args, mode => some (mode, args)
  | c :: modes, args, mode =>
    if c = 'k' ∨ c = 'l' then
      match args with
      | arg :: next :: rest => sjoinModes modes (next :: rest) (readParam c arg mode)
      | _ => none
    else sjoinModes modes args (addBit c mode)

/-- What the timestamps decide. -/
structure Decision where
  creationtime : ℤ
  keepOurModes : Bool
  keepNewModes : Bool
  deriving DecidableEq, Repr

def decideTs (isnew : Bool) (newts oldts : ℤ) : Decision :=
  if isnew then ⟨newts, true, true⟩
  else if newts = 0 ∨ oldts = 0 then ⟨0, true, true⟩
  else if newts = oldts then ⟨oldts, true, true⟩
  else if newts < oldts then ⟨newts, false, true⟩
  else ⟨oldts, true, false⟩

/-- Both sides' modes: every flag, the larger limit and the larger key. -/
def mergeModes (mode oldmode : Mode) : Mode :=
  ⟨mode.mode ∪ oldmode.mode, if oldmode.limit > mode.limit then oldmode.limit else mode.limit,
    if mode.key < oldmode.key then oldmode.key else mode.key⟩

def finalMode (d : Decision) (mode oldmode : Mode) : Mode :=
  if !d.keepNewModes then oldmode
  else if d.keepOurModes then mergeModes mode oldmode
  else mode

/-- A timestamp before 800000000, where such are not believed. -/
def bogusTs (link : Link) (newts oldts : ℤ) : ℤ :=
  if link.ignoreBogusTs ∧ newts < 800000000 then (if oldts = 0 then 0 else 800000000) else newts

/-- `remove_a_mode` for all three. -/
def removeOurModes (members : List Membership) : List Membership :=
  members.map (fun member => { member with flags := noFlags })

/-- The other side wins: `remove_our_modes` and `remove_ban_list`, under its name. -/
def loseTs (chptr : Channel) (isnew : Bool) (name : CStr) : Channel :=
  { chptr with
    name := if isnew then chptr.name else strlcpy name (CHANNELLEN + 1)
    members := removeOurModes chptr.members
    banlist := []
    exceptlist := []
    invexlist := [] }

/-- The channel as the timestamps leave it, before the members of the line. -/
def applyTs (d : Decision) (mode : Mode) (isnew : Bool) (name : CStr) (chptr : Channel) : Channel :=
  let merged := { chptr with
    creationtime := d.creationtime
    mode := finalMode d mode chptr.mode }
  if d.keepOurModes then merged else loseTs merged isnew name

def tokens (s : CStr) : List CStr := Segments.segments (fun c => c == ' ') (s ++ [' '])

/-- The prefix of a member. -/
def readStatus : CStr → Flags → Flags × CStr
  | '@' :: s, fl => readStatus s { fl with chanop := true }
  | '%' :: s, fl => readStatus s { fl with halfop := true }
  | '+' :: s, fl => readStatus s { fl with voice := true }
  | s, fl => (fl, s)

def joinMember (link : Link) (keepNewModes : Bool) (chptr : Channel) (s : CStr) : Channel :=
  let (fl, name) := readStatus s noFlags
  match link.findChasing name with
  | some id =>
    if link.behind id && !chptr.isMember id then
      addUserToChannel chptr id (if keepNewModes then fl else noFlags)
    else chptr
  | none => chptr

/-- `ms_sjoin` on the channel of that name. The line sent on has room for every
header that these modes make, so the exit for long ones is not taken. -/
def sjoinChannel (link : Link) (ts name modes : CStr) (args : List CStr)
    (old : Option Channel) : Option Channel :=
  if !checkChannelName name then old
  else
    match sjoinModes modes args noModes with
    | none => old
    | some (mode, rest) =>
      let isnew := old.isNone
      let chptr := old.getD (makeChannel link.currentTime name)
      let d := decideTs isnew (bogusTs link (strtol ts) chptr.creationtime) chptr.creationtime
      let joined := (tokens (rest.headD [])).foldl (joinMember link d.keepNewModes)
        (applyTs d mode isnew name chptr)
      if joined.members = [] ∧ isnew then none else some joined

def msSjoin (link : Link) (t : Table) (params : List CStr) : Table :=
  match params with
  | ts :: name :: modes :: arg :: args =>
    setChannel t name (sjoinChannel link ts name modes (arg :: args) (hashFindChannel t name))
  | _ => t

def listType (c : Char) : Option ListType :=
  if c = 'b' then some .ban
  else if c = 'e' then some .exception
  else if c = 'I' then some .invex
  else none

/-- The loop of `ms_bmask` over the masks. `add_id` writes a mask back into the buffer as nick!user@host;
a mask that comes as one, as servers send them, leaves the next ones alone, and for a shorter one that
grows over them this is not modelled. -/
def addMasks (type : ListType) : List CStr → Channel → Channel
  | [], chptr => chptr
  | s :: masks, chptr =>
    if s.length > MODEBUFLEN then chptr
    else if s.head? = some ':' then addMasks type masks chptr
    else addMasks type masks (addId none chptr s type).1

def bmaskChannel (ts flag masks : CStr) (chptr : Channel) : Channel :=
  if strtol ts > chptr.creationtime then chptr
  else
    match flag.head?.bind listType with
    | some type => addMasks type (tokens (strlcpy masks IRCD_BUFSIZE)) chptr
    | none => chptr

def msBmask (t : Table) (params : List CStr) : Table :=
  match params with
  | ts :: name :: flag :: masks :: _ =>
    setChannel t name ((hashFindChannel t name).map (bmaskChannel ts flag masks))
  | _ => t

def findSource (link : Link) (sender : Option CStr) : Option Source :=
  match sender with
  | none => some .link
  | some s => if s = [] then some .link else link.source s

@[simp] theorem hashFindChannel_setChannel (t : Table) (name : CStr) (chptr : Option Channel) :
    hashFindChannel (setChannel t name chptr) name = chptr := by
  simp [hashFindChannel, setChannel]

theorem setChannel_other (t : Table) (name : CStr) (chptr : Option Channel) (f : CStr)
    (h : f ≠ fold name) : setChannel t name chptr f = t f := by
  simp [setChannel, h]

@[simp] theorem setChannel_setChannel (t : Table) (name : CStr) (c d : Option Channel) :
    setChannel (setChannel t name c) name d = setChannel t name d := by
  simp [setChannel]

/-- Clients are introduced with identifiers of the right form. -/
structure ValidLink (link : Link) : Prop where
  findChasing : ∀ s id, link.findChasing s = some id → ValidId id
  source : ∀ s id service, link.source s = some (.client id service) → ValidId id

/-- A channel is there only while somebody is on it. -/
structure Live (chptr : Channel) : Prop where
  wellFormed : WellFormed chptr
  members_ne : chptr.members ≠ []

theorem strlcpy_name (name : CStr) (h : checkChannelName name = true) :
    strlcpy name (CHANNELLEN + 1) = name :=
  strlcpy_of_le name CHANNELLEN (checkChannelName_length name h)

theorem validKey_nil : ValidKey [] := ⟨by simp, by simp, by simp⟩

theorem validKey_strlcpy (arg : CStr) (h : Word arg) : ValidKey (strlcpy arg (KEYLEN + 1)) := by
  refine ⟨by simp [strlcpy], fun hmem => h.no_space (List.mem_of_mem_take hmem), ?_⟩
  unfold strlcpy
  rw [List.head?_take]
  split
  · simp
  · exact h.no_colon

@[simp] theorem key_addBit (c : Char) (mode : Mode) : (addBit c mode).key = mode.key := by
  unfold addBit
  split <;> rfl

@[simp] theorem limit_addBit (c : Char) (mode : Mode) : (addBit c mode).limit = mode.limit := by
  unfold addBit
  split <;> rfl

theorem validKey_readParam (c : Char) (arg : CStr) (mode : Mode) (hmode : ValidKey mode.key)
    (harg : Word arg) : ValidKey (readParam c arg mode).key := by
  unfold readParam
  split
  · exact validKey_strlcpy arg harg
  · exact hmode

/-- The key of the line is a parameter that another one follows. -/
theorem sjoinModes_validKey (modes : CStr) (args : List CStr) (mode mode' : Mode)
    (rest : List CStr) (hmode : ValidKey mode.key) (hargs : ∀ arg ∈ args.dropLast, Word arg)
    (h : sjoinModes modes args mode = some (mode', rest)) : ValidKey mode'.key := by
  induction modes generalizing args mode with
  | nil =>
    obtain ⟨rfl, rfl⟩ := Prod.mk.inj (Option.some.inj h)
    exact hmode
  | cons c modes ih =>
    unfold sjoinModes at h
    split at h
    · split at h
      · next arg next more =>
        rw [List.dropLast_cons_cons] at hargs
        have harg := hargs arg List.mem_cons_self
        exact ih (next :: more) _ (validKey_readParam c arg mode hmode harg)
          (fun a ha => hargs a (List.mem_cons_of_mem arg ha)) h
      · simp at h
    · exact ih args _ (by rwa [key_addBit]) hargs h

theorem validKey_finalMode (d : Decision) (mode oldmode : Mode) (h : ValidKey mode.key)
    (hold : ValidKey oldmode.key) : ValidKey (finalMode d mode oldmode).key := by
  have hmerge : ValidKey (mergeModes mode oldmode).key := by
    show ValidKey (if mode.key < oldmode.key then oldmode.key else mode.key)
    split
    · exact hold
    · exact h
  unfold finalMode
  split_ifs
  · exact hold
  · exact hmerge
  · exact h

theorem decideTs_lt (isnew : Bool) (newts oldts : ℤ) (hnew : newts < 2 ^ 63)
    (hold : oldts < 2 ^ 63) : (decideTs isnew newts oldts).creationtime < 2 ^ 63 := by
  unfold decideTs
  split_ifs
  · exact hnew
  · exact Int.pow_pos (by decide)
  · exact hold
  · exact hnew
  · exact hold

theorem bogusTs_lt (link : Link) (newts oldts : ℤ) (h : newts < 2 ^ 63) :
    bogusTs link newts oldts < 2 ^ 63 := by
  unfold bogusTs
  split_ifs
  · decide
  · decide
  · exact h

theorem withModes_wellFormed (chptr : Channel) (ts : ℤ) (mode : Mode) (h : WellFormed chptr)
    (hts : ts < 2 ^ 63) (hkey : ValidKey mode.key) :
    WellFormed { chptr with creationtime := ts, mode := mode } where
  name := h.name
  time_lt := hts
  key := hkey
  members_nodup := h.members_nodup
  members_id := h.members_id
  lists_valid := fun type => by
    have hlist := h.lists_valid type
    cases type <;> exact hlist
  lists_distinct := fun type => by
    have hlist := h.lists_distinct type
    cases type <;> exact hlist

@[simp] theorem removeOurModes_ids (members : List Membership) :
    (removeOurModes members).map Membership.id = members.map Membership.id := by
  simp [removeOurModes]

theorem loseTs_wellFormed (chptr : Channel) (isnew : Bool) (name : CStr) (h : WellFormed chptr)
    (hname : checkChannelName name = true) : WellFormed (loseTs chptr isnew name) where
  name := by
    unfold loseTs
    dsimp only
    split
    · exact h.name
    · rwa [strlcpy_name name hname]
  time_lt := h.time_lt
  key := h.key
  members_nodup := by
    simp only [loseTs, removeOurModes_ids]
    exact h.members_nodup
  members_id := by
    intro member hmember
    obtain ⟨m, hm, rfl⟩ := List.mem_map.mp hmember
    exact h.members_id m hm
  lists_valid := fun type => by cases type <;> simp [loseTs, Channel.list]
  lists_distinct := fun type => by cases type <;> simp [loseTs, Channel.list, Distinct]

theorem applyTs_wellFormed (d : Decision) (mode : Mode) (isnew : Bool) (name : CStr)
    (chptr : Channel) (h : WellFormed chptr) (hts : d.creationtime < 2 ^ 63)
    (hkey : ValidKey mode.key) (hname : checkChannelName name = true) :
    WellFormed (applyTs d mode isnew name chptr) := by
  have hmerged := withModes_wellFormed chptr d.creationtime _ h hts
    (validKey_finalMode d mode chptr.mode hkey h.key)
  unfold applyTs
  dsimp only
  split
  · exact hmerged
  · exact loseTs_wellFormed _ isnew name hmerged hname

theorem applyTs_ids (d : Decision) (mode : Mode) (isnew : Bool) (name : CStr) (chptr : Channel) :
    (applyTs d mode isnew name chptr).members.map Membership.id =
      chptr.members.map Membership.id := by
  unfold applyTs
  dsimp only
  split
  · rfl
  · exact removeOurModes_ids chptr.members

theorem joinMember_wellFormed (link : Link) (hlink : ValidLink link) (keep : Bool)
    (chptr : Channel) (s : CStr) (h : WellFormed chptr) :
    WellFormed (joinMember link keep chptr s) := by
  unfold joinMember
  dsimp only
  split
  · next id hid =>
    split
    · next hnot =>
      simp only [Bool.and_eq_true, Bool.not_eq_true'] at hnot
      exact addUserToChannel_wellFormed chptr id _ h (hlink.findChasing _ id hid) hnot.2
    · exact h
  · exact h

theorem foldl_joinMember_wellFormed (link : Link) (hlink : ValidLink link) (keep : Bool)
    (l : List CStr) (chptr : Channel) (h : WellFormed chptr) :
    WellFormed (l.foldl (joinMember link keep) chptr) := by
  induction l generalizing chptr with
  | nil => exact h
  | cons s l ih => exact ih _ (joinMember_wellFormed link hlink keep chptr s h)

theorem joinMember_members (link : Link) (keep : Bool) (chptr : Channel) (s : CStr) :
    chptr.members <:+ (joinMember link keep chptr s).members := by
  unfold joinMember
  dsimp only
  split
  · split
    · exact List.suffix_cons _ _
    · exact List.suffix_rfl
  · exact List.suffix_rfl

theorem foldl_joinMember_members (link : Link) (keep : Bool) (l : List CStr) (chptr : Channel) :
    chptr.members <:+ (l.foldl (joinMember link keep) chptr).members := by
  induction l generalizing chptr with
  | nil => exact List.suffix_rfl
  | cons s l ih => exact (joinMember_members link keep chptr s).trans (ih _)

theorem makeChannel_wellFormed (currentTime : ℤ) (name : CStr) (hnow : currentTime < 2 ^ 63)
    (hname : checkChannelName name = true) : WellFormed (makeChannel currentTime name) where
  name := by rwa [makeChannel, strlcpy_name name hname]
  time_lt := hnow
  key := validKey_nil
  members_nodup := by simp [makeChannel]
  members_id := by simp [makeChannel]
  lists_valid := fun type => by cases type <;> simp [makeChannel, Channel.list]
  lists_distinct := fun type => by cases type <;> simp [makeChannel, Channel.list, Distinct]

/-- A SJOIN leaves a channel that somebody is on, or none. -/
theorem sjoinChannel_live (link : Link) (hlink : ValidLink link)
    (hnow : link.currentTime < 2 ^ 63) (ts name modes : CStr) (args : List CStr)
    (old : Option Channel) (hargs : ∀ arg ∈ args.dropLast, Word arg)
    (hold : ∀ chptr, old = some chptr → Live chptr) (chptr : Channel)
    (h : sjoinChannel link ts name modes args old = some chptr) : Live chptr := by
  unfold sjoinChannel at h
  split at h
  · exact hold chptr h
  next hinvalid =>
  have hname : checkChannelName name = true := by simpa using hinvalid
  split at h
  · exact hold chptr h
  next mode rest hmodes =>
  dsimp only at h
  have hwf : WellFormed (old.getD (makeChannel link.currentTime name)) := by
    cases hcase : old with
    | none => exact makeChannel_wellFormed _ _ hnow hname
    | some c => exact (hold c hcase).wellFormed
  have hmembers : old.isNone = false →
      (old.getD (makeChannel link.currentTime name)).members ≠ [] := by
    intro hsome
    cases hcase : old with
    | none => simp [hcase] at hsome
    | some c => exact (hold c hcase).members_ne
  generalize old.getD (makeChannel link.currentTime name) = c at h hwf hmembers
  have htime := decideTs_lt old.isNone _ c.creationtime
    (bogusTs_lt link _ c.creationtime (strtol_lt ts)) hwf.time_lt
  generalize decideTs old.isNone _ c.creationtime = d at h htime
  have hkey := sjoinModes_validKey modes args noModes mode rest validKey_nil hargs hmodes
  have happly := applyTs_wellFormed d mode old.isNone name c hwf htime hkey hname
  have hids := applyTs_ids d mode old.isNone name c
  generalize applyTs d mode old.isNone name c = a at h happly hids
  split at h
  · simp at h
  next hempty =>
  rw [← Option.some.inj h]
  refine ⟨foldl_joinMember_wellFormed link hlink _ _ a happly, ?_⟩
  intro hnone
  cases hnew : old.isNone with
  | true => exact hempty ⟨hnone, hnew⟩
  | false =>
    have hsuffix := foldl_joinMember_members link d.keepNewModes (tokens (rest.headD [])) a
    rw [hnone, List.suffix_nil] at hsuffix
    rw [hsuffix, List.map_nil] at hids
    exact hmembers hnew (List.map_eq_nil_iff.mp hids.symm)

theorem addMasks_wellFormed (type : ListType) (masks : List CStr) (chptr : Channel)
    (h : WellFormed chptr) : WellFormed (addMasks type masks chptr) := by
  induction masks generalizing chptr with
  | nil => exact h
  | cons s masks ih =>
    unfold addMasks
    split
    · exact h
    split
    · exact ih chptr h
    · next hcolon =>
      exact ih _ (addMask_wellFormed chptr type _ h (maskOf_valid s hcolon))

theorem addId_members (maxBans : Option ℕ) (chptr : Channel) (banid : CStr) (type : ListType) :
    (addId maxBans chptr banid type).1.members = chptr.members := by
  cases maxBans with
  | none => rw [addId, addMask_list, members_setList]
  | some n =>
    simp only [addId]
    split
    · rfl
    · rw [addMask_list, members_setList]

theorem addMasks_members (type : ListType) (masks : List CStr) (chptr : Channel) :
    (addMasks type masks chptr).members = chptr.members := by
  induction masks generalizing chptr with
  | nil => rfl
  | cons s masks ih =>
    unfold addMasks
    split
    · rfl
    split
    · exact ih chptr
    · rw [ih, addId_members]

theorem bmaskChannel_live (ts flag masks : CStr) (chptr : Channel) (h : Live chptr) :
    Live (bmaskChannel ts flag masks chptr) := by
  unfold bmaskChannel
  split
  · exact h
  split
  · exact ⟨addMasks_wellFormed _ _ chptr h.wellFormed, by
      rw [addMasks_members]
      exact h.members_ne⟩
  · exact h

end IrcdHybrid.Sjoin
