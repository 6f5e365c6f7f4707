import IrcdHybrid.BanMask
import Mathlib.Algebra.Ring.Int.Defs
import Mathlib.Data.Finset.Basic

/-!
Channels: modes, members with their status, and the three lists of masks. New
entries go to the head of a list. The cache bits of a membership are not kept
here: nothing about a channel's modes, members or lists depends on them.
-/

namespace IrcdHybrid.Channels

open CString BanMask

def KEYLEN : ℕ := 23
def CHANNELLEN : ℕ := 50
def IDLEN : ℕ := 12

/-- The modes that are a single bit, `MODE_NOCTRL` to `MODE_SSLONLY`. -/
inductive SimpleMode where
  | noctrl | inviteonly | moderated | noprivmsgs | priv | registered | secret | topiclimit
  | noctcp | modreg | operonly | regonly | sslonly
  deriving DecidableEq, Repr

/-- `chan_modes`, in the order of the table. -/
def chanModes : List (SimpleMode × Char) :=
  [(.noctrl, 'c'), (.inviteonly, 'i'), (.moderated, 'm'), (.noprivmsgs, 'n'), (.priv, 'p'),
    (.registered, 'r'), (.secret, 's'), (.topiclimit, 't'), (.noctcp, 'C'), (.modreg, 'M'),
    (.operonly, 'O'), (.regonly, 'R'), (.sslonly, 'S')]

structure Mode where
  mode : Finset SimpleMode
  limit : BitVec 32
  key : CStr
  deriving DecidableEq

/-- `CHFL_CHANOP`, `CHFL_HALFOP` and `CHFL_VOICE`. -/
structure Flags where
  chanop : Bool
  halfop : Bool
  voice : Bool
  deriving DecidableEq, Repr

def noFlags : Flags := ⟨false, false, false⟩

structure Membership where
  id : CStr
  flags : Flags
  deriving DecidableEq, Repr

/-- `CHFL_BAN`, `CHFL_EXCEPTION` and `CHFL_INVEX`. -/
inductive ListType where
  | ban
  | exception
  | invex
  deriving DecidableEq, Repr

structure Channel where
  name : CStr
  creationtime : ℤ
  mode : Mode
  members : List Membership
  banlist : List Nuh
  exceptlist : List Nuh
  invexlist : List Nuh
  deriving DecidableEq

def Channel.list (chptr : Channel) : ListType → List Nuh
  | .ban => chptr.banlist
  | .exception => chptr.exceptlist
  | .invex => chptr.invexlist

def Channel.setList (chptr : Channel) (l : List Nuh) : ListType → Channel
  | .ban => { chptr with banlist := l }
  | .exception => { chptr with exceptlist := l }
  | .invex => { chptr with invexlist := l }

def noModes : Mode := ⟨∅, 0, []⟩

/-- `make_channel`. -/
def makeChannel (currentTime : ℤ) (name : CStr) : Channel :=
  ⟨strlcpy name (CHANNELLEN + 1), currentTime, noModes, [], [], [], []⟩

/-- `add_id` from the comparison with the list on: whether it was added. -/
def addMask (chptr : Channel) (type : ListType) (n : Nuh) : Channel × Bool :=
  if (chptr.list type).any (fun ban => sameMask ban n) then (chptr, false)
  else (chptr.setList (n :: chptr.list type) type, true)

def delMask (chptr : Channel) (type : ListType) (n : Nuh) : Channel × Bool :=
  if (chptr.list type).any (fun ban => sameMask n ban) then
    (chptr.setList ((chptr.list type).eraseP (fun ban => sameMask n ban)) type, true)
  else (chptr, false)

/-- The number of entries that `max_bans` limits. -/
def numMask (chptr : Channel) : ℕ :=
  chptr.banlist.length + chptr.exceptlist.length + chptr.invexlist.length

/-- `add_id`; `maxBans` is there for a client of this server only. -/
def addId (maxBans : Option ℕ) (chptr : Channel) (banid : CStr) (type : ListType) :
    Channel × Bool :=
  match maxBans with
  | some maxBans =>
    if maxBans ≤ numMask chptr then (chptr, false)
    else addMask chptr type (maskOf (collapse banid))
  | none => addMask chptr type (maskOf banid)

def delId (chptr : Channel) (banid : CStr) (type : ListType) : Channel × Bool :=
  delMask chptr type (maskOf banid)

/-- `IsMember`. -/
def Channel.isMember (chptr : Channel) (id : CStr) : Bool :=
  chptr.members.any (fun member => member.id == id)

def addUserToChannel (chptr : Channel) (id : CStr) (flags : Flags) : Channel :=
  { chptr with members := ⟨id, flags⟩ :: chptr.members }

/-- `IsChanChar`. -/
def isChanChar (c : Char) : Bool := c ≠ Char.ofNat 0 && c ≠ Char.ofNat 7 && c ≠ ' ' && c ≠ ','

/-- `check_channel_name(name, 0)`. -/
def checkChannelName (name : CStr) : Bool :=
  match name with
  | c :: p => c == '#' && p.all isChanChar && decide (name.length ≤ CHANNELLEN)
  | [] => false

/-- The form of the identifiers that clients are introduced with. -/
structure ValidId (id : CStr) : Prop where
  digit : ∃ c s, id = c :: s ∧ isDigit c = true
  alnum : ∀ c ∈ id, isDigit c = true ∨ isLetter c = true
  len : id.length ≤ IDLEN

theorem validId_of_all (c : Char) (s : CStr) (hdigit : isDigit c = true)
    (hall : (c :: s).all (fun c => isDigit c || isLetter c) = true)
    (hlen : (c :: s).length ≤ IDLEN) : ValidId (c :: s) :=
  ⟨⟨c, s, rfl, hdigit⟩, fun d hd => by simpa using List.all_eq_true.mp hall d hd, hlen⟩

structure ValidKey (key : CStr) : Prop where
  len : key.length ≤ KEYLEN
  no_space : ' ' ∉ key
  no_colon : key.head? ≠ some ':'

/-- No two entries that `add_id` takes for the same. -/
def Distinct (l : List Nuh) : Prop := l.Pairwise (fun a b => sameMask a b = false)

/-- What holds of every channel on a server. -/
structure WellFormed (chptr : Channel) : Prop where
  name : checkChannelName chptr.name = true
  time_lt : chptr.creationtime < 2 ^ 63
  key : ValidKey chptr.mode.key
  members_nodup : (chptr.members.map Membership.id).Nodup
  members_id : ∀ member ∈ chptr.members, ValidId member.id
  lists_valid : ∀ type, ∀ n ∈ chptr.list type, Valid n
  lists_distinct : ∀ type, Distinct (chptr.list type)

section

variable (chptr : Channel) (l : List Nuh)

@[simp] theorem list_setList (type : ListType) :
    (chptr.setList l type).list type = l := by cases type <;> rfl

theorem list_setList_of_ne (type type' : ListType)
    (h : type' ≠ type) : (chptr.setList l type).list type' = chptr.list type' := by
  cases type <;> cases type' <;> first | rfl | exact absurd rfl h

@[simp] theorem name_setList (type : ListType) :
    (chptr.setList l type).name = chptr.name := by cases type <;> rfl

@[simp] theorem creationtime_setList (type : ListType) :
    (chptr.setList l type).creationtime = chptr.creationtime := by cases type <;> rfl

@[simp] theorem mode_setList (type : ListType) :
    (chptr.setList l type).mode = chptr.mode := by cases type <;> rfl

@[simp] theorem members_setList (type : ListType) :
    (chptr.setList l type).members = chptr.members := by cases type <;> rfl

theorem setList_wellFormed (type : ListType)
    (h : WellFormed chptr) (hvalid : ∀ n ∈ l, Valid n) (hdist : Distinct l) :
    WellFormed (chptr.setList l type) := by
  have hcases : ∀ type', (chptr.setList l type).list type' = l ∨
      (chptr.setList l type).list type' = chptr.list type' := by
    intro type'
    by_cases heq : type' = type
    · exact Or.inl (by rw [heq, list_setList])
    · exact Or.inr (list_setList_of_ne chptr l type type' heq)
  constructor
  · simpa using h.name
  · simpa using h.time_lt
  · simpa using h.key
  · simpa using h.members_nodup
  · simpa using h.members_id
  · intro type'
    rcases hcases type' with heq | heq
    · rw [heq]
      exact hvalid
    · rw [heq]
      exact h.lists_valid type'
  · intro type'
    rcases hcases type' with heq | heq
    · rw [heq]
      exact hdist
    · rw [heq]
      exact h.lists_distinct type'

end

@[simp] theorem setList_list (chptr : Channel) (type : ListType) :
    chptr.setList (chptr.list type) type = chptr := by cases type <;> rfl

@[simp] theorem setList_setList (chptr : Channel) (l m : List Nuh) (type : ListType) :
    (chptr.setList l type).setList m type = chptr.setList m type := by cases type <;> rfl

/-- The list with the mask, unless one like it is there. -/
def insertMask (l : List Nuh) (n : Nuh) : List Nuh :=
  if l.any (fun ban => sameMask ban n) then l else n :: l

theorem addMask_list (chptr : Channel) (type : ListType) (n : Nuh) :
    (addMask chptr type n).1 = chptr.setList (insertMask (chptr.list type) n) type := by
  unfold addMask insertMask
  split
  · simp
  · rfl

theorem foldl_addMask (type : ListType) (l : List Nuh) (chptr : Channel) :
    l.foldl (fun c n => (addMask c type n).1) chptr =
      chptr.setList (l.foldl insertMask (chptr.list type)) type := by
  induction l generalizing chptr with
  | nil => simp
  | cons n l ih => rw [List.foldl_cons, ih, addMask_list, list_setList, setList_setList, List.foldl_cons]

theorem mem_insertMask (l : List Nuh) (n m : Nuh) :
    m ∈ insertMask l n ↔ m ∈ l ∨ (m = n ∧ ∀ ban ∈ l, sameMask ban n = false) := by
  unfold insertMask
  split
  · next hany =>
    obtain ⟨ban, hban, hsame⟩ := List.any_eq_true.mp hany
    refine ⟨Or.inl, fun h => h.elim id fun hn => ?_⟩
    rw [hn.2 ban hban] at hsame
    exact absurd hsame (by decide)
  · next hnone =>
    have hall : ∀ ban ∈ l, sameMask ban n = false := by simpa using hnone
    simp only [List.mem_cons]
    constructor
    · exact fun h => h.elim (fun heq => Or.inr ⟨heq, hall⟩) Or.inl
    · exact fun h => h.elim Or.inr (fun hn => Or.inl hn.1)

/-- Adding a list whose masks are distinct: what is like a mask of the old list stays out. -/
theorem mem_foldl_insertMask (old l : List Nuh) (h : Distinct l) (m : Nuh) :
    m ∈ l.foldl insertMask old ↔ m ∈ old ∨ (m ∈ l ∧ ∀ ban ∈ old, sameMask ban m = false) := by
  induction l generalizing old with
  | nil => simp
  | cons n l ih =>
    obtain ⟨hn, hl⟩ := List.pairwise_cons.mp h
    rw [List.foldl_cons, ih (insertMask old n) hl, mem_insertMask]
    simp only [List.mem_cons]
    constructor
    · rintro ((hold | ⟨rfl, hall⟩) | ⟨hm, hall⟩)
      · exact Or.inl hold
      · exact Or.inr ⟨Or.inl rfl, hall⟩
      · exact Or.inr ⟨Or.inr hm, fun ban hban => hall ban ((mem_insertMask old n ban).mpr (Or.inl hban))⟩
    · rintro (hold | ⟨rfl | hm, hall⟩)
      · exact Or.inl (Or.inl hold)
      · exact Or.inl (Or.inr ⟨rfl, hall⟩)
      · refine Or.inr ⟨hm, fun ban hban => ?_⟩
        rcases (mem_insertMask old n ban).mp hban with hban | ⟨rfl, _⟩
        · exact hall ban hban
        · exact hn m hm

theorem foldl_insertMask_new (old l : List Nuh) (h : Distinct l)
    (hnew : ∀ n ∈ l, ∀ ban ∈ old, sameMask ban n = false) :
    l.foldl insertMask old = l.reverse ++ old := by
  induction l generalizing old with
  | nil => rfl
  | cons n l ih =>
    obtain ⟨hn, hl⟩ := List.pairwise_cons.mp h
    have hinsert : insertMask old n = n :: old := by
      unfold insertMask
      rw [if_neg (by simpa using hnew n List.mem_cons_self)]
    have htail : ∀ m ∈ l, ∀ ban ∈ n :: old, sameMask ban m = false := by
      intro m hm ban hban
      rcases List.mem_cons.mp hban with rfl | hban
      · exact hn m hm
      · exact hnew m (List.mem_cons_of_mem n hm) ban hban
    rw [List.foldl_cons, hinsert, ih (n :: old) hl htail]
    simp

theorem distinct_add (l : List Nuh) (n : Nuh) (h : Distinct l) : Distinct (insertMask l n) := by
  unfold insertMask
  split
  · exact h
  · next hany =>
    refine List.pairwise_cons.mpr ⟨?_, h⟩
    intro ban hban
    rw [sameMask_comm]
    by_contra hsame
    exact hany (List.any_eq_true.mpr ⟨ban, hban, by simpa using hsame⟩)

theorem addMask_wellFormed (chptr : Channel) (type : ListType) (n : Nuh)
    (h : WellFormed chptr) (hn : Valid n) : WellFormed (addMask chptr type n).1 := by
  rw [addMask_list]
  apply setList_wellFormed chptr _ type h _ (distinct_add _ n (h.lists_distinct type))
  intro m hm
  rcases (mem_insertMask _ n m).mp hm with hm | ⟨rfl, _⟩
  · exact h.lists_valid type m hm
  · exact hn

theorem delMask_wellFormed (chptr : Channel) (type : ListType) (n : Nuh)
    (h : WellFormed chptr) : WellFormed (delMask chptr type n).1 := by
  unfold delMask
  split
  · apply setList_wellFormed chptr _ type h
    · exact fun m hm => h.lists_valid type m (List.mem_of_mem_eraseP hm)
    · exact (h.lists_distinct type).sublist List.eraseP_sublist
  · exact h

theorem withMembers_wellFormed (chptr : Channel) (members : List Membership) (h : WellFormed chptr)
    (hids : members.map Membership.id = chptr.members.map Membership.id) :
    WellFormed { chptr with members := members } where
  name := h.name
  time_lt := h.time_lt
  key := h.key
  members_nodup := by
    rw [hids]
    exact h.members_nodup
  members_id := by
    intro member hmember
    have hmem : member.id ∈ chptr.members.map Membership.id := by
      rw [← hids]
      exact List.mem_map_of_mem hmember
    obtain ⟨m, hm, heq⟩ := List.mem_map.mp hmem
    rw [← heq]
    exact h.members_id m hm
  lists_valid := fun type => by
    have hlist := h.lists_valid type
    cases type <;> exact hlist
  lists_distinct := fun type => by
    have hlist := h.lists_distinct type
    cases type <;> exact hlist

theorem isMember_iff (chptr : Channel) (id : CStr) :
    chptr.isMember id = true ↔ id ∈ chptr.members.map Membership.id := by
  simp [Channel.isMember]

theorem addUserToChannel_wellFormed (chptr : Channel) (id : CStr) (flags : Flags)
    (h : WellFormed chptr) (hid : ValidId id) (hnot : chptr.isMember id = false) :
    WellFormed (addUserToChannel chptr id flags) := by
  have hmem : id ∉ chptr.members.map Membership.id := by
    rw [← isMember_iff, hnot]
    simp
  refine ⟨h.name, h.time_lt, h.key, ?_, ?_, ?_, ?_⟩
  · exact List.nodup_cons.mpr ⟨hmem, h.members_nodup⟩
  · intro member hmember
    rcases List.mem_cons.mp hmember with rfl | hmember
    · exact hid
    · exact h.members_id member hmember
  · intro type
    cases type
    · exact h.lists_valid .ban
    · exact h.lists_valid .exception
    · exact h.lists_valid .invex
  · intro type
    cases type
    · exact h.lists_distinct .ban
    · exact h.lists_distinct .exception
    · exact h.lists_distinct .invex

end IrcdHybrid.Channels
