import IrcdHybrid.Unkline

/-!
REHASH. The old configuration is cleared and the file is read again. The table of
address masks keeps what is temporary or in the database; the lists of the other
items are emptied, whatever is in them, and the databases are only read when the
server starts. The bans of the table survive, X-lines and RESVs do not.
-/

namespace IrcdHybrid.Rehash

open CString Netmask BestScan Hostmask Unkline

/-- What no lookup by address reads of an item; for an item of a list, all that is read of it. -/
structure Attrs where
  name : Option CStr
  reason : Option CStr
  setat : ℤ
  holdUntil : ℤ
  isConfDatabase : Bool

/-- The configuration: the table, its items by their addresses, the lists by type, and the next
address of the allocator, which no item in the table has. -/
structure Store where
  table : Atable
  attrs : ℕ → Attrs
  lists : MaskitemType → List Attrs
  next : ℕ
  live : ∀ hv, ∀ r ∈ table.bucket hv, r.conf.ptr < next

def inDatabase (s : Store) (r : AddressRec) : Bool := (s.attrs r.conf.ptr).isConfDatabase

/-- The entries of a type that are saved, bucket by bucket. -/
def savedEntries (s : Store) (type : MaskitemType) : List AddressRec :=
  (List.finRange atableSize).flatMap
    (fun hv => (s.table.bucket hv).filter (fun r => decide (r.type = type) && inDatabase s r))

def savedItems (s : Store) (type : MaskitemType) : List Attrs :=
  (s.lists type).filter Attrs.isConfDatabase

/-- User, host, reason and the two times; a D-line is saved without the user. -/
structure AddressRecord where
  user : Option CStr
  host : CStr
  reason : Option CStr
  setat : ℤ
  holdUntil : ℤ

def addressRecord (s : Store) (r : AddressRec) : AddressRecord :=
  let attrs := s.attrs r.conf.ptr
  ⟨r.conf.user, r.conf.host, attrs.reason, attrs.setat, attrs.holdUntil⟩

def saveKlineDatabase (s : Store) : List AddressRecord :=
  (savedEntries s .kline).map (addressRecord s)

def saveGlineDatabase (s : Store) : List AddressRecord :=
  (savedEntries s .gline).map (addressRecord s)

def AddressRecord.withoutUser (record : AddressRecord) : AddressRecord :=
  { record with user := none }

def saveDlineDatabase (s : Store) : List AddressRecord :=
  (savedEntries s .dline).map (fun r => (addressRecord s r).withoutUser)

structure NameRecord where
  name : Option CStr
  reason : Option CStr
  setat : ℤ
  holdUntil : ℤ

def nameRecord (attrs : Attrs) : NameRecord :=
  ⟨attrs.name, attrs.reason, attrs.setat, attrs.holdUntil⟩

def saveXlineDatabase (s : Store) : List NameRecord := (savedItems s .xline).map nameRecord

def saveResvDatabase (s : Store) : List NameRecord :=
  (savedItems s .cresv).map nameRecord ++ (savedItems s .nresv).map nameRecord

def clearOutAddressConf (s : Store) : Store where
  table := ⟨fun hv => (s.table.bucket hv).filter
    (fun r => decide ((s.attrs r.conf.ptr).holdUntil ≠ 0) || inDatabase s r), s.table.precValue⟩
  attrs := s.attrs
  lists := s.lists
  next := s.next
  live := fun hv r hr => s.live hv r (List.mem_filter.mp hr).1

def freeItems : List MaskitemType :=
  [.server, .oper, .uline, .xline, .nresv, .cluster, .service, .cresv]

def clearOutOldConf (s : Store) : Store :=
  clearOutAddressConf { s with lists := fun type => if type ∈ freeItems then [] else s.lists type }

/-- What a block of the file makes. -/
inductive Block where
  /-- `auth`, `kill`, `deny` and `exempt` -/
  | address (type : MaskitemType) (host : CStr) (user passwd : Option CStr)
      (needPassword encrypted : Bool) (reason : Option CStr)
  /-- `operator`, `connect`, `cluster`, `shared`, `service` and `gecos` -/
  | named (type : MaskitemType) (name reason : Option CStr)
  | resv (name reason : CStr)

theorem live_add (s : Store) (type : MaskitemType) (conf : MaskItem) (hconf : conf.ptr = s.next) :
    ∀ hv, ∀ r ∈ (addConfByAddress s.table type conf).bucket hv, r.conf.ptr < s.next + 1 := by
  intro hv r hr
  by_cases hhv : hv = slotOf conf.host
  · subst hhv
    rw [show (addConfByAddress s.table type conf).bucket (slotOf conf.host) =
      addressRec type conf s.table.precValue :: s.table.bucket (slotOf conf.host) from
        Function.update_self _ _ _] at hr
    rcases List.mem_cons.mp hr with rfl | hr
    · show conf.ptr < s.next + 1
      omega
    · have hlt := s.live _ r hr
      omega
  · rw [show (addConfByAddress s.table type conf).bucket hv = s.table.bucket hv from
      Function.update_of_ne hhv _ _] at hr
    have hlt := s.live hv r hr
    omega

/-- `conf_make` and `add_conf_by_address`. -/
def addAddress (s : Store) (type : MaskitemType) (host : CStr) (user passwd : Option CStr)
    (needPassword encrypted : Bool) (reason : Option CStr) : Store where
  table := addConfByAddress s.table type ⟨s.next, host, user, passwd, needPassword, encrypted⟩
  attrs := Function.update s.attrs s.next ⟨none, reason, 0, 0, false⟩
  lists := s.lists
  next := s.next + 1
  live := live_add s type _ rfl

/-- `conf_make` of an item that goes to a list. -/
def addItem (s : Store) (type : MaskitemType) (attrs : Attrs) : Store :=
  { s with lists := Function.update s.lists type (attrs :: s.lists type) }

def resvType (name : CStr) : MaskitemType := if name.head? == some '#' then .cresv else .nresv

/-- `find_exact_name_conf` with a name alone. -/
def findExactNameConf (s : Store) (type : MaskitemType) (name : CStr) : Option Attrs :=
  (s.lists type).find? (fun conf => conf.name.any (fun n => !n.isEmpty && irccmp n name == 0))

def createResv (s : Store) (name reason : CStr) : Store :=
  if (findExactNameConf s (resvType name) name).isSome then s
  else addItem s (resvType name) ⟨some name, some reason, 0, 0, false⟩

def Store.read (s : Store) : Block → Store
  | .address type host user passwd needPassword encrypted reason =>
    addAddress s type host user passwd needPassword encrypted reason
  | .named type name reason => addItem s type ⟨name, reason, 0, 0, false⟩
  | .resv name reason => createResv s name reason

/-- `none` is a file that cannot be opened. -/
def readConfFiles (s : Store) : Option (List Block) → Store
  | none => s
  | some blocks => blocks.foldl Store.read (clearOutOldConf s)

/-- What `conf_rehash` does to the items; `check_conf_klines` then tests the clients. -/
def confRehash (s : Store) (file : Option (List Block)) : Store := readConfFiles s file

/-- The lists that hold bans: X-lines and RESVs. -/
def banLists : List MaskitemType := [.xline, .cresv, .nresv]

/-- The bans of the database are in their buckets as before and expire as before, in the table and
in the lists; a query that one of them answered is answered by it or by an entry before it; and
the databases that are written next are the same. -/
structure KeepsBans (s s' : Store) : Prop where
  table : ∀ hv, (s'.table.bucket hv).filter (inDatabase s') =
    (s.table.bucket hv).filter (inDatabase s)
  attrs : ∀ hv, ∀ r ∈ s.table.bucket hv, s'.attrs r.conf.ptr = s.attrs r.conf.ptr
  lists : ∀ type ∈ banLists, savedItems s' type = savedItems s type
  answered : ∀ crypt q doMatch r, findConfByAddress crypt s.table q doMatch = some r →
    inDatabase s r = true → ∃ r', findConfByAddress crypt s'.table q doMatch = some r' ∧
      r.precedence ≤ r'.precedence
  saved : saveKlineDatabase s' = saveKlineDatabase s ∧
    saveDlineDatabase s' = saveDlineDatabase s ∧ saveGlineDatabase s' = saveGlineDatabase s ∧
    saveXlineDatabase s' = saveXlineDatabase s ∧ saveResvDatabase s' = saveResvDatabase s

structure Adds (s s' : Store) : Prop where
  table : ∀ hv, (s'.table.bucket hv).filter (inDatabase s') =
    (s.table.bucket hv).filter (inDatabase s)
  attrs : ∀ ptr, ptr < s.next → s'.attrs ptr = s.attrs ptr
  next : s.next ≤ s'.next
  lists : ∀ type, savedItems s' type = savedItems s type

theorem Adds.self (s : Store) : Adds s s :=
  ⟨fun _ => rfl, fun _ _ => rfl, Nat.le_refl _, fun _ => rfl⟩

theorem Adds.trans (s s' s'' : Store) (h : Adds s s') (h' : Adds s' s'') : Adds s s'' where
  table hv := (h'.table hv).trans (h.table hv)
  attrs ptr hptr := (h'.attrs ptr (Nat.lt_of_lt_of_le hptr h.next)).trans (h.attrs ptr hptr)
  next := Nat.le_trans h.next h'.next
  lists type := (h'.lists type).trans (h.lists type)

theorem adds_address (s : Store) (type : MaskitemType) (host : CStr) (user passwd : Option CStr)
    (needPassword encrypted : Bool) (reason : Option CStr) :
    Adds s (addAddress s type host user passwd needPassword encrypted reason) := by
  have hattrs : ∀ ptr, ptr < s.next →
      (addAddress s type host user passwd needPassword encrypted reason).attrs ptr =
        s.attrs ptr := by
    intro ptr hptr
    exact Function.update_of_ne (by omega) _ _
  have hold : ∀ hv, (s.table.bucket hv).filter
      (inDatabase (addAddress s type host user passwd needPassword encrypted reason)) =
        (s.table.bucket hv).filter (inDatabase s) := by
    intro hv
    apply List.filter_congr
    intro r hr
    unfold inDatabase
    rw [hattrs _ (s.live hv r hr)]
  refine ⟨?_, hattrs, Nat.le_succ _, fun _ => rfl⟩
  intro hv
  by_cases hhv : hv = slotOf host
  · subst hhv
    rw [show (addAddress s type host user passwd needPassword encrypted reason).table.bucket
        (slotOf host) =
      addressRec type ⟨s.next, host, user, passwd, needPassword, encrypted⟩ s.table.precValue ::
        s.table.bucket (slotOf host) from Function.update_self _ _ _]
    rw [List.filter_cons_of_neg, hold]
    -- the new item is not in the database
    show ¬ (Function.update s.attrs s.next _ s.next).isConfDatabase = true
    rw [Function.update_self]
    simp
  · rw [show (addAddress s type host user passwd needPassword encrypted reason).table.bucket hv =
      s.table.bucket hv from Function.update_of_ne hhv _ _]
    exact hold hv

theorem adds_item (s : Store) (type : MaskitemType) (attrs : Attrs)
    (h : attrs.isConfDatabase = false) : Adds s (addItem s type attrs) := by
  refine ⟨fun _ => rfl, fun _ _ => rfl, Nat.le_refl _, ?_⟩
  intro type'
  unfold savedItems
  by_cases htype : type' = type
  · subst htype
    rw [show (addItem s type' attrs).lists type' = attrs :: s.lists type' from
      Function.update_self _ _ _]
    rw [List.filter_cons_of_neg (by simp [h])]
  · rw [show (addItem s type attrs).lists type' = s.lists type' from
      Function.update_of_ne htype _ _]

theorem adds_read (s : Store) (b : Block) : Adds s (s.read b) := by
  cases b with
  | address type host user passwd needPassword encrypted reason =>
    exact adds_address s type host user passwd needPassword encrypted reason
  | named type name reason => exact adds_item s type _ rfl
  | resv name reason =>
    show Adds s (createResv s name reason)
    unfold createResv
    split
    · exact Adds.self s
    · exact adds_item s _ _ rfl

theorem adds_blocks (s : Store) (blocks : List Block) : Adds s (blocks.foldl Store.read s) := by
  induction blocks generalizing s with
  | nil => exact Adds.self s
  | cons b blocks ih => exact (adds_read s b).trans _ _ _ (ih _)

theorem clear_table (s : Store) (hv : Slot) :
    ((clearOutOldConf s).table.bucket hv).filter (inDatabase (clearOutOldConf s)) =
      (s.table.bucket hv).filter (inDatabase s) := by
  show ((s.table.bucket hv).filter _).filter (inDatabase s) = _
  rw [List.filter_filter]
  apply List.filter_congr
  intro r _
  show (inDatabase s r && (_ || inDatabase s r)) = inDatabase s r
  cases inDatabase s r <;> simp

theorem clear_lists (s : Store) (type : MaskitemType) (h : type ∈ freeItems) :
    savedItems (clearOutOldConf s) type = [] := by
  show List.filter _ (if type ∈ freeItems then [] else s.lists type) = []
  rw [if_pos h]
  rfl

section Read

variable (s : Store) (blocks : List Block)

theorem rehash_table (hv : Slot) :
    ((confRehash s (some blocks)).table.bucket hv).filter
        (inDatabase (confRehash s (some blocks))) =
      (s.table.bucket hv).filter (inDatabase s) :=
  ((adds_blocks (clearOutOldConf s) blocks).table hv).trans (clear_table s hv)

theorem rehash_attrs (hv : Slot) (r : AddressRec) (hr : r ∈ s.table.bucket hv) :
    (confRehash s (some blocks)).attrs r.conf.ptr = s.attrs r.conf.ptr :=
  (adds_blocks (clearOutOldConf s) blocks).attrs _ (s.live hv r hr)

theorem rehash_lists (type : MaskitemType) (h : type ∈ freeItems) :
    savedItems (confRehash s (some blocks)) type = [] :=
  ((adds_blocks (clearOutOldConf s) blocks).lists type).trans (clear_lists s type h)

end Read

section Table

variable (s s' : Store)
  (htable : ∀ hv, (s'.table.bucket hv).filter (inDatabase s') =
    (s.table.bucket hv).filter (inDatabase s))

include htable

theorem kept_bucket (hv : Slot) (r : AddressRec) (hr : r ∈ s.table.bucket hv)
    (hdb : inDatabase s r = true) : r ∈ s'.table.bucket hv := by
  have hmem : r ∈ (s.table.bucket hv).filter (inDatabase s) := List.mem_filter.mpr ⟨hr, hdb⟩
  rw [← htable] at hmem
  exact (List.mem_filter.mp hmem).1

theorem kept_probes (probes : List Slot) (accepts : AddressRec → Bool) (r : AddressRec)
    (hr : r ∈ (probes.flatMap s.table.bucket).filter accepts) (hdb : inDatabase s r = true) :
    r ∈ (probes.flatMap s'.table.bucket).filter accepts := by
  obtain ⟨hmem, hacc⟩ := List.mem_filter.mp hr
  obtain ⟨hv, hhv, hr⟩ := List.mem_flatMap.mp hmem
  have hkept := kept_bucket s s' htable hv r hr hdb
  exact List.mem_filter.mpr ⟨List.mem_flatMap.mpr ⟨hv, hhv, hkept⟩, hacc⟩

theorem kept_seen (crypt : CStr → CStr → Option CStr) (q : Query) (doMatch : Bool)
    (r : AddressRec) (hr : r ∈ seen crypt s.table q doMatch) (hdb : inDatabase s r = true) :
    r ∈ seen crypt s'.table q doMatch := by
  rcases List.mem_append.mp hr with hr | hr
  · apply List.mem_append_left
    unfold seenAddr at hr ⊢
    split at hr
    · exact kept_probes s s' htable _ _ r hr hdb
    · exact kept_probes s s' htable _ _ r hr hdb
    · simp at hr
  · apply List.mem_append_right
    unfold seenName at hr ⊢
    split at hr
    · exact kept_probes s s' htable _ _ r hr hdb
    · simp at hr

theorem kept_answered (crypt : CStr → CStr → Option CStr) (q : Query) (doMatch : Bool)
    (r : AddressRec) (hr : findConfByAddress crypt s.table q doMatch = some r)
    (hdb : inDatabase s r = true) :
    ∃ r', findConfByAddress crypt s'.table q doMatch = some r' ∧
      r.precedence ≤ r'.precedence := by
  obtain ⟨hpos, front, rest, heq, _⟩ := (find_eq_some_iff crypt s.table q doMatch r).mp hr
  have hseen := kept_seen s s' htable crypt q doMatch r (by simp [heq]) hdb
  have hbest := isBest_scan (fun _ => true) AddressRec.precedence []
    (seen crypt s'.table q doMatch) start (isBest_start _)
  obtain ⟨r', hr', _, hle⟩ := hbest.result _ _ _ r (by simpa using hseen) (by omega)
  rw [find_eq_scan]
  exact ⟨r', hr', hle⟩

theorem kept_savedEntries (type : MaskitemType) :
    savedEntries s' type = savedEntries s type := by
  unfold savedEntries
  congr 1
  funext hv
  rw [← List.filter_filter, ← List.filter_filter, htable]

end Table

/-- The files of the table are written from the entries and what is known of their items. -/
theorem kept_saved {α : Type*} (s s' : Store)
    (htable : ∀ hv, (s'.table.bucket hv).filter (inDatabase s') =
      (s.table.bucket hv).filter (inDatabase s))
    (hattrs : ∀ hv, ∀ r ∈ s.table.bucket hv, s'.attrs r.conf.ptr = s.attrs r.conf.ptr)
    (type : MaskitemType) (write : AddressRecord → α) :
    (savedEntries s' type).map (fun r => write (addressRecord s' r)) =
      (savedEntries s type).map (fun r => write (addressRecord s r)) := by
  rw [kept_savedEntries s s' htable]
  apply List.map_congr_left
  intro r hr
  obtain ⟨hv, _, hr⟩ := List.mem_flatMap.mp hr
  unfold addressRecord
  rw [hattrs hv r (List.mem_filter.mp hr).1]

/-- A rehash keeps the bans of the database when it cannot read the file, or when none of them
is in a list. -/
theorem rehash_keeps_iff (s : Store) (file : Option (List Block)) :
    KeepsBans s (confRehash s file) ↔
      file = none ∨ ∀ type ∈ banLists, ∀ conf ∈ s.lists type, conf.isConfDatabase = false := by
  cases file with
  | none =>
    refine ⟨fun _ => Or.inl rfl, fun _ => ?_⟩
    exact ⟨fun _ => rfl, fun _ _ _ => rfl, fun _ _ => rfl,
      fun _ _ _ r hr _ => ⟨r, hr, Nat.le_refl _⟩, rfl, rfl, rfl, rfl, rfl⟩
  | some blocks =>
    have hfree : ∀ type ∈ banLists, type ∈ freeItems := by decide
    have hempty : ∀ type, savedItems s type = [] ↔
        ∀ conf ∈ s.lists type, conf.isConfDatabase = false := by
      intro type
      unfold savedItems
      rw [List.filter_eq_nil_iff]
      simp
    constructor
    · intro h
      refine Or.inr (fun type htype => ?_)
      rw [← hempty, ← h.lists type htype]
      exact rehash_lists s blocks type (hfree type htype)
    · intro hor
      have hnone := hor.resolve_left (by simp)
      have htable := rehash_table s blocks
      have hattrs := rehash_attrs s blocks
      have hlists : ∀ type ∈ banLists,
          savedItems (confRehash s (some blocks)) type = savedItems s type := by
        intro type htype
        rw [rehash_lists s blocks type (hfree type htype)]
        exact ((hempty type).mpr (hnone type htype)).symm
      refine ⟨htable, hattrs, hlists, fun crypt q doMatch r => kept_answered s _ htable crypt q
        doMatch r, ?_, ?_, ?_, ?_, ?_⟩
      · unfold saveKlineDatabase
        exact kept_saved s _ htable hattrs .kline (fun record => record)
      · unfold saveDlineDatabase
        exact kept_saved s _ htable hattrs .dline AddressRecord.withoutUser
      · unfold saveGlineDatabase
        exact kept_saved s _ htable hattrs .gline (fun record => record)
      · exact congrArg (List.map nameRecord) (hlists .xline (by decide))
      · unfold saveResvDatabase
        rw [hlists .cresv (by decide), hlists .nresv (by decide)]

/-- One X-line that an operator has set, and nothing else. -/
def xlineStore : Store where
  table := Atable.empty
  attrs := fun _ => ⟨none, none, 0, 0, false⟩
  lists := fun type =>
    if type = .xline then [⟨some "*bot*".toList, some "no bots".toList, 1, 0, true⟩] else []
  next := 0
  live := fun _ _ hr => absurd hr List.not_mem_nil

theorem rehash_drops_xline : ¬ KeepsBans xlineStore (confRehash xlineStore (some [])) := by
  intro h
  have hlists := h.lists .xline (by decide)
  have hcount : (savedItems xlineStore .xline).length = 1 := rfl
  rw [← hlists, rehash_lists xlineStore [] .xline (by decide)] at hcount
  simp at hcount

end IrcdHybrid.Rehash
