import IrcdHybrid.CidrLimits
import IrcdHybrid.Rehash
import IrcdHybrid.Retention

/-!
The configuration items clients are attached to, and the classes the items are in. An item and
a class each have a count of attachments and a mark that the configuration has them; both are
freed where the count reaches zero without the mark: when a client is detached, when the old
configuration is cleared, and when the marked classes are deleted.
-/

namespace IrcdHybrid.ConfItems

open CString Hostmask Rehash Retention

/-- `ref_count` and `active` are those of the cell the item is in. -/
structure MaskItem where
  type : MaskitemType
  classPtr : Option ℕ
  holdUntil : ℤ
  isConfDatabase : Bool
  exemptLimits : Bool

structure ClassItem where
  name : CStr
  cidr : CidrLimits.ClassItem

/-- `lists` has the list of each type and, for the types that have none, the records of the type
in the table of address masks. -/
structure State (ι : Type) where
  confs : Store MaskItem
  classes : Store ClassItem
  lists : MaskitemType → List ℕ
  classList : List ℕ
  attached : ι → List ℕ
  clients : List ι
  localClients : List ι

/-- The first class that is made. -/
def classDefault : ℕ := 0

/-- `CONF_CLIENT | CONF_OPER | CONF_SERVER` -/
def attachable : MaskitemType → Bool
  | .client | .oper | .server => true
  | _ => false

/-- The types of the table of address masks. -/
def addressItems : List MaskitemType := [.client, .kline, .dline, .exempt, .gline]

section Items

variable {ι : Type}

/-- `conf_make` with the fields its callers fill in, and `add_conf_by_address`. -/
def confMake (item : MaskItem) (s : State ι) : State ι :=
  { s with
    confs := s.confs.add item
    lists := Function.update s.lists item.type (s.confs.next :: s.lists item.type) }

/-- An item of the table has left it before. -/
def confFree (c : ℕ) (s : State ι) : Option (State ι) := do
  let conf ← s.confs.cell c
  let confs ← s.confs.free c
  some { s with
    confs
    lists := Function.update s.lists conf.item.type ((s.lists conf.item.type).erase c) }

def classMake (s : State ι) : State ι :=
  { s with
    classes := s.classes.add ⟨[], CidrLimits.ClassItem.blank⟩
    classList := s.classes.next :: s.classList }

def classFree (k : ℕ) (s : State ι) : Option (State ι) := do
  let cls ← s.classes.cell k
  guard (k ≠ classDefault ∧ cls.active = false ∧ cls.refs = 0)
  let classes ← s.classes.free k
  some { s with classes, classList := s.classList.erase k }

def hasName (s : State ι) (name : CStr) (k : ℕ) : Bool :=
  (s.classes.cell k).any fun cls => irccmp cls.item.name name == 0

def classFind (name : CStr) (active : Bool) (s : State ι) : Option ℕ :=
  match s.classList.find? (hasName s name) with
  | none => none
  | some k => if active && !(s.classes.cell k).any Cell.active then none else some k

end Items

section Attach

variable {ι : Type} [DecidableEq ι] (address : ι → CidrLimits.Ip)

def attachConf (client : ι) (c : ℕ) (s : State ι) :
    Option (State ι × CidrLimits.Attached) :=
  if c ∈ s.attached client then some (s, .already)
  else do
    let conf ← s.confs.cell c
    let k ← conf.item.classPtr
    let cls ← s.classes.cell k
    match if conf.item.type = .client then
        CidrLimits.cidrLimitReached conf.item.exemptLimits (address client) cls.item.cidr
      else some cls.item.cidr with
    | none => some (s, .tooMany)
    | some cidr => do
      let classes ← (s.classes.put k (some { cls with item := { cls.item with cidr } })).raise k
      let confs ← s.confs.raise c
      some ({ s with
        classes, confs
        attached := Function.update s.attached client (c :: s.attached client) }, .ok)

/-- `if (--conf->class->ref_count == 0 && conf->class->active == 0)` -/
def dropClass (c k : ℕ) (s : State ι) : Option (State ι) := do
  let classes ← s.classes.lower k
  let cls ← classes.cell k
  if cls.refs = 0 ∧ cls.active = false then do
    let s ← classFree k { s with classes }
    let conf ← s.confs.cell c
    some { s with confs := s.confs.put c (some
      { conf with item := { conf.item with classPtr := none } }) }
  else some { s with classes }

/-- `if (--conf->ref_count == 0 && conf->active == 0)` -/
def dropConf (c : ℕ) (s : State ι) : Option (State ι) := do
  let confs ← s.confs.lower c
  let conf ← confs.cell c
  if conf.refs = 0 ∧ conf.active = false then confFree c { s with confs }
  else some { s with confs }

/-- `remove_from_cidr_check` -/
def uncount (client : ι) (type : MaskitemType) (k : ℕ) (s : State ι) : Option (State ι) := do
  let cls ← s.classes.cell k
  some { s with classes := s.classes.put k (some (if type = .client then
    { cls with item := { cls.item with
        cidr := CidrLimits.removeFromCidrCheck (address client) cls.item.cidr } }
    else cls)) }

/-- `detach_conf` for one item of the client. -/
def detachOne (client : ι) (c : ℕ) (s : State ι) : Option (State ι) := do
  let conf ← s.confs.cell c
  let k ← conf.item.classPtr
  let s ← uncount address client conf.item.type k
    { s with attached := Function.update s.attached client ((s.attached client).erase c) }
  let s ← dropClass c k s
  dropConf c s

/-- The assertions of the loop hold of the items that stay, too. -/
def detachLoop (client : ι) (types : MaskitemType → Bool) : List ℕ → State ι → Option (State ι)
  | [], s => some s
  | c :: rest, s => do
    let conf ← s.confs.cell c
    let k ← conf.item.classPtr
    let cls ← s.classes.cell k
    guard (attachable conf.item.type = true ∧ 0 < conf.refs ∧ 0 < cls.refs)
    let s ← if types conf.item.type = true then detachOne address client c s else some s
    detachLoop client types rest s

def detachConf (client : ι) (types : MaskitemType → Bool) (s : State ι) : Option (State ι) :=
  detachLoop address client types (s.attached client) s

end Attach

section Clear

variable {ι : Type}

/-- `conf->active = 0`, off the list -/
def unlist (type : MaskitemType) (c : ℕ) (s : State ι) : Option (State ι) := do
  let conf ← s.confs.cell c
  some { s with
    confs := s.confs.put c (some { conf with active := false })
    lists := Function.update s.lists type ((s.lists type).erase c) }

/-- `if (!conf->ref_count)` -/
def freeUnheld (c : ℕ) (s : State ι) : Option (State ι) := do
  let conf ← s.confs.cell c
  if conf.refs = 0 then confFree c s else some s

def clearItem (type : MaskitemType) (s : State ι) (c : ℕ) : Option (State ι) := do
  let s ← unlist type c s
  let conf ← s.confs.cell c
  if conf.item.type = .server ∨ conf.item.type = .oper then freeUnheld c s
  else if conf.item.type = .xline then
    if conf.item.holdUntil = 0 then confFree c s else some s
  else confFree c s

def clearList (s : State ι) (type : MaskitemType) : Option (State ι) :=
  (s.lists type).foldlM (clearItem type) s

/-- All but the class at the tail, which is the first that was made. -/
def classMarkForDeletion (s : State ι) : State ι :=
  { s with classes := ⟨fun k => if k ∈ s.classList.dropLast then
      (s.classes.cell k).map fun cls => { cls with active := false }
    else s.classes.cell k, s.classes.next⟩ }

/-- Temporary items and those of the database stay in the table. -/
def clearAddress (type : MaskitemType) (s : State ι) (c : ℕ) : Option (State ι) := do
  let conf ← s.confs.cell c
  if conf.item.holdUntil ≠ 0 ∨ conf.item.isConfDatabase = true then some s
  else do
    let s ← unlist type c s
    freeUnheld c s

def clearTable (s : State ι) (type : MaskitemType) : Option (State ι) :=
  (s.lists type).foldlM (clearAddress type) s

def clearOutAddressConf (s : State ι) : Option (State ι) := addressItems.foldlM clearTable s

def clearOutOldConf (s : State ι) : Option (State ι) := do
  let s ← freeItems.foldlM clearList s
  clearOutAddressConf (classMarkForDeletion s)

def deleteMarked (s : State ι) (k : ℕ) : Option (State ι) := do
  let cls ← s.classes.cell k
  if cls.active = false ∧ cls.refs = 0 then classFree k s else some s

def classDeleteMarked (s : State ι) : Option (State ι) := s.classList.foldlM deleteMarked s

end Clear

section Read

variable {ι : Type} [DecidableEq ι] (address : ι → CidrLimits.Ip)

/-- A class block of the file. -/
structure ClassBlock where
  name : CStr
  limits : CidrLimits.Limits

/-- An item of the file, with the class it asks for. -/
structure Entry where
  type : MaskitemType
  className : CStr
  exemptLimits : Bool

/-- The file: the classes are picked up in a first pass. -/
structure ConfFile where
  classes : List ClassBlock
  entries : List Entry

def cidrType : MaskitemType → Option CidrLimits.ConfType
  | .client => some .client
  | .oper => some .oper
  | .server => some .server
  | _ => none

/-- What the counting of address blocks reads. -/
def cidrItem (s : State ι) (c : ℕ) : Option (CidrLimits.MaskItem ℕ) := do
  let conf ← s.confs.cell c
  let type ← cidrType conf.item.type
  let k ← conf.item.classPtr
  some ⟨c, type, k, conf.item.exemptLimits⟩

def cidrWorld (s : State ι) : CidrLimits.World ι ℕ where
  classes := fun k => ((s.classes.cell k).map fun cls => cls.item.cidr).getD .blank
  confs := fun client => (s.attached client).filterMap (cidrItem s)
  localClients := s.localClients

/-- The end of a class block: the class is made unless there is one of the name. -/
def classEntry (s : State ι) (b : ClassBlock) : Option (State ι) :=
  if b.name = [] then some s
  else do
    let (k, s) := match classFind b.name false s with
      | some k => (k, s)
      | none => (s.classes.next, classMake s)
    let cls ← s.classes.cell k
    let cidr := if CidrLimits.rebuilds cls.item.cidr b.limits
      then CidrLimits.rebuildCidrList address k (cidrWorld s) else cls.item.cidr
    some { s with classes := s.classes.put k (some
      { cls with active := true, item := ⟨b.name, cidr.setLimits b.limits⟩ }) }

/-- `conf_add_class_to_conf` -/
def confAddClass (className : CStr) (s : State ι) : ℕ :=
  (classFind className true s).getD classDefault

def readEntry (s : State ι) (e : Entry) : State ι :=
  confMake ⟨e.type, if attachable e.type = true then some (confAddClass e.className s) else none,
    0, false, e.exemptLimits⟩ s

def readConf (file : ConfFile) (s : State ι) : Option (State ι) := do
  let s ← file.classes.foldlM (classEntry address) s
  classDeleteMarked (file.entries.foldl readEntry s)

/-- `read_conf_files` when the server runs; nothing is done when the file cannot be opened. -/
def rehash (file : Option ConfFile) (s : State ι) : Option (State ι) :=
  match file with
  | none => some s
  | some file => do
    let s ← clearOutOldConf s
    readConf address file s

end Read

section Runs

variable {ι : Type} [DecidableEq ι] (address : ι → CidrLimits.Ip)

/-- `class_init` -/
def classInit : State ι :=
  { confs := Store.empty
    classes := ⟨Function.update (fun _ => none) classDefault
      (some ⟨0, true, "default".toList, CidrLimits.ClassItem.blank⟩), classDefault + 1⟩
    lists := fun _ => []
    classList := [classDefault]
    attached := fun _ => []
    clients := []
    localClients := [] }

/-- The types of the items that commands and the databases make. -/
def isBan : MaskitemType → Bool
  | .kline | .dline | .gline | .xline | .cresv | .nresv => true
  | _ => false

/-- A connection is made; an item that the configuration has is attached; a client registers;
items of some types are detached; a connection is closed; the file is read again; a ban is set
by a command or read from a database; a ban is taken away or expires. -/
inductive Op (ι : Type) where
  | connect (client : ι)
  | attach (client : ι) (conf : ℕ)
  | register (client : ι)
  | detach (client : ι) (types : MaskitemType → Bool)
  | exit (client : ι)
  | rehash (file : Option ConfFile)
  | ban (type : MaskitemType) (holdUntil : ℤ) (database : Bool)
  | lift (conf : ℕ)

/-- The item is one that the callers of `attach_conf` come upon. -/
def found (s : State ι) (c : ℕ) : Bool :=
  [MaskitemType.client, .oper, .server].any fun type => decide (c ∈ s.lists type)

/-- The ban is taken off its list or out of the table, and freed. -/
def lift (c : ℕ) (s : State ι) : Option (State ι) :=
  match s.confs.cell c with
  | none => some s
  | some conf =>
    if isBan conf.item.type = true ∧ c ∈ s.lists conf.item.type then confFree c s else some s

/-- `exit_client` as far as `close_connection` -/
def exit (client : ι) (s : State ι) : Option (State ι) := do
  let s ← detachConf address client (fun _ => true) s
  some { s with clients := s.clients.erase client, localClients := s.localClients.erase client }

def apply (s : State ι) : Op ι → Option (State ι)
  | .connect client =>
    if client ∈ s.clients then some s else some { s with clients := client :: s.clients }
  | .attach client c =>
    if client ∈ s.clients ∧ found s c = true then (attachConf address client c s).map Prod.fst
    else some s
  | .register client =>
    if client ∈ s.clients then some { s with localClients := client :: s.localClients } else some s
  | .detach client types => detachConf address client types s
  | .exit client => exit address client s
  | .rehash file => rehash address file s
  | .ban type holdUntil database =>
    if isBan type = true then some (confMake ⟨type, none, holdUntil, database, false⟩ s) else some s
  | .lift c => lift c s

/-- The server starts with a file and does the operations, unless one of them goes wrong. -/
def run (file : ConfFile) (ops : List (Op ι)) : Option (State ι) := do
  let s ← readConf address file classInit
  ops.foldlM (apply address) s

end Runs

end IrcdHybrid.ConfItems
