import IrcdHybrid.Hostmask
import IrcdHybrid.ResvDatabase
import Mathlib.Data.List.FinRange

/-!
The bans in force, as the server holds them: the access list's table for the lines that name
an address, a list each for the X-lines and for the two kinds of RESV. Strings are bytes here,
as a database keeps them; `chars` gives them to the lookups.
-/

namespace IrcdHybrid.BanTables

open CString Hostmask BestScan Match BanDatabase ResvDatabase

/-- What the ban databases read of a configuration item. -/
structure Conf where
  type : MaskitemType
  user : Option (List Byte)
  host : Option (List Byte)
  name : Option (List Byte)
  reason : Option (List Byte)
  setat : ℕ
  holdUntil : ℕ
  isConfDatabase : Bool
  deriving DecidableEq

/-- `struct AddressRec`. -/
structure Arec where
  type : MaskitemType
  conf : Conf
  precedence : ℕ
  deriving DecidableEq

structure Tables where
  atable : Slot → List Arec
  precValue : ℕ
  xconfItems : List Conf
  cresvItems : List Conf
  nresvItems : List Conf

def Tables.empty : Tables := ⟨fun _ => [], 0xFFFFFFFF, [], [], []⟩

/-- The entries in the order in which the savers walk the table. -/
def Tables.arecs (t : Tables) : List Arec := (List.finRange atableSize).flatMap t.atable

/-- The test of the savers that walk the table. -/
def savedAs (type : MaskitemType) (arec : Arec) : Bool :=
  decide (arec.type = type) && arec.conf.isConfDatabase

/-- What `save_kline_database` and its like write of the table. -/
def Tables.lines (t : Tables) (type : MaskitemType) : List Conf :=
  (t.arecs.filter (savedAs type)).map Arec.conf

def Tables.klines (t : Tables) : List Conf := t.lines .kline

def Tables.dlines (t : Tables) : List Conf := t.lines .dline

def Tables.glines (t : Tables) : List Conf := t.lines .gline

/-- The channels first. -/
def Tables.resvs (t : Tables) : List Conf :=
  t.cresvItems.filter Conf.isConfDatabase ++ t.nresvItems.filter Conf.isConfDatabase

def Tables.xlines (t : Tables) : List Conf := t.xconfItems.filter Conf.isConfDatabase

def Conf.userHostReason (conf : Conf) : Record :=
  ⟨[conf.user, conf.host, conf.reason], conf.setat, conf.holdUntil⟩

def Conf.hostReason (conf : Conf) : Record :=
  ⟨[conf.host, conf.reason], conf.setat, conf.holdUntil⟩

def Conf.nameReason (conf : Conf) : Record :=
  ⟨[conf.name, conf.reason], conf.setat, conf.holdUntil⟩

def Record.field (r : Record) (i : ℕ) : Option (List Byte) := (r.strings[i]?).join

/-- User, host and reason, in the order in which they are stored. -/
def lineConf (type : MaskitemType) (r : Record) : Conf :=
  ⟨type, Record.field r 0, Record.field r 1, none, Record.field r 2, r.setat, r.holdUntil, true⟩

def klineConf : Record → Conf := lineConf .kline

def glineConf : Record → Conf := lineConf .gline

def dlineConf (r : Record) : Conf :=
  ⟨.dline, none, Record.field r 0, none, Record.field r 1, r.setat, r.holdUntil, true⟩

def xlineConf (r : Record) : Conf :=
  ⟨.xline, none, none, Record.field r 0, Record.field r 1, r.setat, r.holdUntil, true⟩

def Conf.slot (conf : Conf) : Slot := slotOf (chars (conf.host.getD []))

def Tables.addConfByAddress (t : Tables) (type : MaskitemType) (conf : Conf) : Tables :=
  { t with
    atable := Function.update t.atable conf.slot (⟨type, conf, t.precValue⟩ :: t.atable conf.slot)
    precValue := decr t.precValue }

def Tables.addLines (t : Tables) (type : MaskitemType) (confs : List Conf) : Tables :=
  confs.foldl (fun t conf => t.addConfByAddress type conf) t

def loadKlineDatabase (bytes : List Byte) (t : Tables) : Option Tables :=
  (BanDatabase.loadKlineDatabase bytes).map
    (fun items => t.addLines .kline (items.map (fun v => klineConf v.record)))

def loadDlineDatabase (bytes : List Byte) (t : Tables) : Option Tables :=
  (BanDatabase.loadDlineDatabase bytes).map
    (fun items => t.addLines .dline (items.map (fun v => dlineConf v.record)))

def loadGlineDatabase (bytes : List Byte) (t : Tables) : Option Tables :=
  (BanDatabase.loadGlineDatabase bytes).map
    (fun items => t.addLines .gline (items.map (fun v => glineConf v.record)))

/-- `conf_make` puts an item at the head of its list. -/
def Tables.addXlines (t : Tables) (confs : List Conf) : Tables :=
  confs.foldl (fun t conf => { t with xconfItems := conf :: t.xconfItems }) t

def loadXlineDatabase (bytes : List Byte) (t : Tables) : Option Tables :=
  (BanDatabase.loadXlineDatabase bytes).map
    (fun items => t.addXlines (items.map (fun v => xlineConf v.record)))

/-- An item of one of the two lists, which `create_resv` has made. -/
def resvConf (type : MaskitemType) (r : Resv) : Conf :=
  ⟨type, none, none, some r.name, some r.reason, r.setat, r.holdUntil, r.isConfDatabase⟩

def confResv (conf : Conf) : Resv :=
  ⟨conf.name.getD [], conf.reason.getD [], conf.setat, conf.holdUntil, conf.isConfDatabase⟩

def loadResvDatabase (bytes : List Byte) (t : Tables) : Option Tables :=
  (ResvDatabase.loadResvDatabase bytes
      ⟨t.cresvItems.map confResv, t.nresvItems.map confResv⟩).map
    (fun l => { t with
      cresvItems := l.cresv.map (resvConf .cresv), nresvItems := l.nresv.map (resvConf .nresv) })

section Lookup

variable (crypt : CStr → CStr → Option CStr)

/-- A ban has no password. -/
def Arec.addressRec (a : Arec) : AddressRec :=
  Hostmask.addressRec a.type
    ⟨0, chars (a.conf.host.getD []), a.conf.user.map chars, none, true, false⟩ a.precedence

/-- The entries that `find_conf_by_address` meets on its way and accepts. -/
def Tables.metByAddr (t : Tables) (q : Query) (doMatch : Bool) : List Arec :=
  match q.addr, q.fam with
  | some addr, .inet6 => ((ipv6Probes addr).flatMap t.atable).filter
      (fun a => ipv6Test crypt q doMatch addr a.addressRec)
  | some addr, .inet => ((ipv4Probes addr).flatMap t.atable).filter
      (fun a => ipv4Test crypt q doMatch addr a.addressRec)
  | _, _ => []

def Tables.metByName (t : Tables) (q : Query) (doMatch : Bool) : List Arec :=
  match q.name with
  | some name => ((hostProbes name).flatMap t.atable).filter
      (fun a => hostTest crypt q doMatch name a.addressRec)
  | none => []

def Tables.met (t : Tables) (q : Query) (doMatch : Bool) : List Arec :=
  t.metByAddr crypt q doMatch ++ t.metByName crypt q doMatch

/-- And the one of them that it answers. -/
def Tables.findConf (t : Tables) (q : Query) (doMatch : Bool) : Option Arec :=
  (scan (fun _ => true) Arec.precedence start (t.met crypt q doMatch)).item

/-- An empty name is passed over. -/
def isNamed (test : CStr → CStr → ℕ) (name : CStr) (conf : Conf) : Bool :=
  conf.name.any (fun own => !own.isEmpty && test (chars own) name == 0)

def findExactNameConf (items : List Conf) (name : CStr) : Option Conf :=
  items.find? (isNamed irccmp name)

def findMatchingNameConf (items : List Conf) (name : CStr) : Option Conf :=
  items.find? (isNamed matchMask name)

/-- The lookup answers one of those it met, and it answers when it met one of positive rank. -/
theorem findConf_spec (t : Tables) (q : Query) (doMatch : Bool)
    (hpos : ∀ a ∈ t.met crypt q doMatch, 0 < a.precedence) :
    (∀ a, t.findConf crypt q doMatch = some a → a ∈ t.met crypt q doMatch) ∧
      (t.findConf crypt q doMatch = none ↔ t.met crypt q doMatch = []) := by
  have hbest := isBest_scan (fun _ => true) Arec.precedence [] (t.met crypt q doMatch) start
    (isBest_start _)
  rw [List.nil_append, List.filter_true] at hbest
  refine ⟨hbest.item_mem, ?_⟩
  constructor
  · intro hnone
    apply List.eq_nil_iff_forall_not_mem.mpr
    intro a ha
    obtain ⟨y, hy, -⟩ := hbest.result _ _ _ a ha (Nat.ne_of_gt (hpos a ha))
    unfold Tables.findConf at hnone
    rw [hnone] at hy
    exact absurd hy (by simp)
  · intro hnil
    unfold Tables.findConf
    rw [hnil]
    rfl

end Lookup

end IrcdHybrid.BanTables
