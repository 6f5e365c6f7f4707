import IrcdHybrid.KeyCounts
import IrcdHybrid.Netmask
import Mathlib.Data.Fintype.Basic

/-!
Limits on the number of clients of a class from one block of addresses. The counts are kept by
block, for the length of the blocks at the time, and are counted up when an auth block is
attached and down when it is detached. A rehash may change the length and switch the limits on
and off while clients are attached.
-/

namespace IrcdHybrid.CidrLimits

open Netmask KeyCounts

inductive Ip where
  | v4 (addr : BitVec 32)
  | v6 (addr : In6Addr)

/-- `mask_addr` for the first family. -/
def maskAddr4 (addr : BitVec 32) (bits : ℕ) : BitVec 32 := addr &&& leading 32 bits

/-- `mask_addr` for the second; with 128 bits the byte that is masked lies behind the address. -/
def maskAddr6 (addr : In6Addr) (bits : ℕ) : In6Addr := fun i =>
  if i.val < bits / 8 then addr i
  else if i.val = bits / 8 then addr i &&& leading 8 (bits % 8)
  else 0

/-- What the limits of a class are kept in. -/
structure ClassItem where
  listIpv4 : List (BitVec 32 × ℕ)
  listIpv6 : List (In6Addr × ℕ)
  cidrBitlenIpv4 : ℕ
  cidrBitlenIpv6 : ℕ
  numberPerCidr : ℕ

/-- What `MyCalloc` leaves. -/
def ClassItem.blank : ClassItem := ⟨[], [], 0, 0, 0⟩

section Limits

variable {κ : Type*}

/-- The walk over the blocks: the first that is hit is counted up unless it is full, and a block
that is not there is made. -/
def limitReached (overRule : Bool) (perCidr : ℕ) (hit : κ → Bool) (mask : κ)
    (list : List (κ × ℕ)) : Option (List (κ × ℕ)) :=
  if (number hit list).any (fun n => !overRule && decide (perCidr ≤ n)) then none
  else some (countUp hit mask list)

end Limits

/-- `none` when the limit is reached. -/
def cidrLimitReached (overRule : Bool) (ip : Ip) (c : ClassItem) : Option ClassItem :=
  if c.numberPerCidr = 0 then some c
  else
    match ip with
    | .v4 addr =>
      if c.cidrBitlenIpv4 = 0 then some c
      else
        (limitReached overRule c.numberPerCidr (fun mask => matchIpv4 addr mask c.cidrBitlenIpv4)
          (maskAddr4 addr c.cidrBitlenIpv4) c.listIpv4).map fun l => { c with listIpv4 := l }
    | .v6 addr =>
      if c.cidrBitlenIpv6 > 0 then
        (limitReached overRule c.numberPerCidr (fun mask => matchIpv6 addr mask c.cidrBitlenIpv6)
          (maskAddr6 addr c.cidrBitlenIpv6) c.listIpv6).map fun l => { c with listIpv6 := l }
      else some c

def removeFromCidrCheck (ip : Ip) (c : ClassItem) : ClassItem :=
  if c.numberPerCidr = 0 then c
  else
    match ip with
    | .v4 addr =>
      if c.cidrBitlenIpv4 = 0 then c
      else { c with
        listIpv4 := countDown (fun mask => matchIpv4 addr mask c.cidrBitlenIpv4) c.listIpv4 }
    | .v6 addr =>
      if c.cidrBitlenIpv6 > 0 then { c with
        listIpv6 := countDown (fun mask => matchIpv6 addr mask c.cidrBitlenIpv6) c.listIpv6 }
      else c

inductive ConfType where
  | client
  | oper
  | server
  deriving DecidableEq

/-- A configuration item and the class it is in. -/
structure MaskItem (κ : Type*) where
  ptr : ℕ
  type : ConfType
  classPtr : κ
  exemptLimits : Bool
  deriving DecidableEq

/-- The classes, the items each connection is attached to, the latest first, and
`local_client_list`. -/
structure World (ι κ : Type*) where
  classes : κ → ClassItem
  confs : ι → List (MaskItem κ)
  localClients : List ι

inductive Attached where
  | already
  | tooMany
  | ok
  deriving DecidableEq

/-- The limits in a class block; the grammar keeps the lengths within the addresses. -/
structure Limits where
  cidrBitlenIpv4 : ℕ
  cidrBitlenIpv6 : ℕ
  numberPerCidr : ℕ
  ipv4_le : cidrBitlenIpv4 ≤ 32
  ipv6_le : cidrBitlenIpv6 ≤ 128

def ClassItem.setLimits (c : ClassItem) (new : Limits) : ClassItem :=
  { c with
    cidrBitlenIpv4 := new.cidrBitlenIpv4
    cidrBitlenIpv6 := new.cidrBitlenIpv6
    numberPerCidr := new.numberPerCidr }

section Conf

variable {ι κ : Type*} [DecidableEq ι] [DecidableEq κ] (address : ι → Ip)

def attachConf (client : ι) (conf : MaskItem κ) (w : World ι κ) : World ι κ × Attached :=
  if conf ∈ w.confs client then (w, .already)
  else
    let attached := fun c : ClassItem =>
      ({ w with
          classes := Function.update w.classes conf.classPtr c
          confs := Function.update w.confs client (conf :: w.confs client) }, Attached.ok)
    if conf.type = .client then
      match cidrLimitReached conf.exemptLimits (address client) (w.classes conf.classPtr) with
      | none => (w, .tooMany)
      | some c => attached c
    else attached (w.classes conf.classPtr)

def detachConf (client : ι) (types : ConfType → Bool) (w : World ι κ) : World ι κ :=
  { w with
    classes := ((w.confs client).filter (fun conf => types conf.type)).foldl
      (fun classes conf =>
        if conf.type = .client then
          Function.update classes conf.classPtr
            (removeFromCidrCheck (address client) (classes conf.classPtr))
        else classes) w.classes
    confs := Function.update w.confs client
      ((w.confs client).filter (fun conf => !types conf.type)) }

/-- Whether the item attached first is an auth block of the class. -/
def tailIn (w : World ι κ) (k : κ) (client : ι) : Bool :=
  (w.confs client).getLast?.any (fun conf => conf.type == .client && conf.classPtr == k)

/-- `rebuild_cidr_list`. -/
def rebuildCidrList (k : κ) (w : World ι κ) : ClassItem :=
  (w.localClients.filter (tailIn w k)).foldl
    (fun c client => (cidrLimitReached true (address client) c).getD c)
    { (w.classes k) with listIpv4 := [], listIpv6 := [] }

/-- Whether `class_entry` has the counts rebuilt. -/
def rebuilds (c : ClassItem) (new : Limits) : Bool :=
  (c.numberPerCidr != 0 && new.numberPerCidr != 0) &&
  ((c.cidrBitlenIpv4 != 0 && new.cidrBitlenIpv4 != 0) ||
    (c.cidrBitlenIpv6 != 0 && new.cidrBitlenIpv6 != 0)) &&
  (c.cidrBitlenIpv4 != new.cidrBitlenIpv4 || c.cidrBitlenIpv6 != new.cidrBitlenIpv6)

/-- `class_entry`: the counts are rebuilt before the new values are stored. -/
def classEntry (k : κ) (new : Limits) (w : World ι κ) : World ι κ :=
  let c := if rebuilds (w.classes k) new then rebuildCidrList address k w else w.classes k
  { w with classes := Function.update w.classes k (c.setLimits new) }

/-- A client registers with an auth block, which either fails or puts him on the list of local
clients; other items are attached and detached; a connection is closed; a class block is read;
`class_make` starts a class, in a place that no client is attached to. -/
inductive Op (ι κ : Type*) where
  | register (client : ι) (conf : MaskItem κ)
  | attach (client : ι) (conf : MaskItem κ)
  | detach (client : ι) (types : ConfType → Bool)
  | close (client : ι)
  | reread (k : κ) (new : Limits)
  | make (k : κ)

def register (client : ι) (conf : MaskItem κ) (w : World ι κ) : World ι κ :=
  let out := attachConf address client conf w
  if out.2 = .ok then { out.1 with localClients := client :: w.localClients } else out.1

/-- `close_connection`, where the client has left the list of local clients. -/
def close (client : ι) (w : World ι κ) : World ι κ :=
  { (detachConf address client (fun _ => true) w) with localClients := w.localClients.erase client }

def apply (w : World ι κ) : Op ι κ → World ι κ
  | .register client conf => register address client conf w
  | .attach client conf => (attachConf address client conf w).1
  | .detach client types => detachConf address client types w
  | .close client => close address client w
  | .reread k new => classEntry address k new w
  | .make k => { w with classes := Function.update w.classes k ClassItem.blank }

def start : World ι κ := ⟨fun _ => ClassItem.blank, fun _ => [], []⟩

/-- The clients attached to the class through an auth block. -/
def attachedTo (w : World ι κ) (k : κ) : List ι :=
  w.localClients.filter (fun client =>
    (w.confs client).any (fun conf => conf.type == .client && conf.classPtr == k))

/-- What the callers see to: auth blocks are attached once, when a client registers, and
detached only when his connection is closed. -/
def Called (w : World ι κ) : Op ι κ → Prop
  | .register client conf => conf.type = .client ∧ client ∉ w.localClients ∧ w.confs client = []
  | .attach _ conf => conf.type ≠ .client
  | .detach _ types => types .client = false
  | .close _ => True
  | .reread _ _ => True
  | .make k => attachedTo w k = []

end Conf

def isV4 : Ip → Bool
  | .v4 _ => true
  | .v6 _ => false

def lies4 (bits : ℕ) (ip : Ip) (mask : BitVec 32) : Bool :=
  match ip with
  | .v4 addr => matchIpv4 addr mask bits
  | .v6 _ => false

def lies6 (bits : ℕ) (ip : Ip) (mask : In6Addr) : Bool :=
  match ip with
  | .v4 _ => false
  | .v6 addr => matchIpv6 addr mask bits

/-- Distinct blocks, each with the number of addresses in it, and each address in one. -/
structure BlocksExact {κ : Type*} (list : List (κ × ℕ)) (masked : κ → Prop)
    (lies : Ip → κ → Bool) (family : Ip → Bool) (ips : List Ip) : Prop where
  nodup : (list.map Prod.fst).Nodup
  masked : ∀ e ∈ list, masked e.1
  pos : ∀ e ∈ list, 0 < e.2
  number : ∀ e ∈ list, e.2 = ips.countP (fun ip => lies ip e.1)
  covered : ∀ ip ∈ ips, family ip = true → ∃ e ∈ list, lies ip e.1 = true

/-- Where the limits of a class are on, its blocks are those of the clients attached to it. -/
structure ClassExact (c : ClassItem) (ips : List Ip) : Prop where
  ipv4 : c.numberPerCidr ≠ 0 → c.cidrBitlenIpv4 ≠ 0 →
    BlocksExact c.listIpv4 (fun mask => maskAddr4 mask c.cidrBitlenIpv4 = mask)
      (lies4 c.cidrBitlenIpv4) isV4 ips
  ipv6 : c.numberPerCidr ≠ 0 → c.cidrBitlenIpv6 ≠ 0 →
    BlocksExact c.listIpv6 (fun mask => maskAddr6 mask c.cidrBitlenIpv6 = mask)
      (lies6 c.cidrBitlenIpv6) (fun ip => !isV4 ip) ips

section Runs

variable {ι κ : Type*} [DecidableEq ι] [DecidableEq κ] (address : ι → Ip)

def Exact (w : World ι κ) : Prop :=
  ∀ k, ClassExact (w.classes k) ((attachedTo w k).map address)

inductive Reaches (allowed : World ι κ → Op ι κ → Prop) : World ι κ → Prop where
  | start : Reaches allowed start
  | step (w : World ι κ) (op : Op ι κ) (hw : Reaches allowed w) (hop : allowed w op) :
    Reaches allowed (apply address w op)

/-- A family of addresses comes through the reading of a class block: its limit is off
afterwards, or it was on with the same length, or no client of the family is attached and no
block is left from before. -/
def Keeps {β : Type*} (c : ClassItem) (new : Limits) (bits newBits : ℕ) (list : List β)
    (absent : Bool) : Prop :=
  new.numberPerCidr = 0 ∨ newBits = 0 ∨ (c.numberPerCidr ≠ 0 ∧ bits = newBits) ∨
    (absent = true ∧ (list = [] ∨ rebuilds c new = true))

def Harmless (w : World ι κ) : Op ι κ → Prop
  | .reread k new =>
    let c := w.classes k
    let ips := (attachedTo w k).map address
    Keeps c new c.cidrBitlenIpv4 new.cidrBitlenIpv4 c.listIpv4 (ips.all fun ip => !isV4 ip) ∧
    Keeps c new c.cidrBitlenIpv6 new.cidrBitlenIpv6 c.listIpv6 (ips.all isV4)
  | _ => True

end Runs

def key4 (bits : ℕ) : Ip → Option (BitVec 32)
  | .v4 addr => some (maskAddr4 addr bits)
  | .v6 _ => none

def key6 (bits : ℕ) : Ip → Option In6Addr
  | .v4 _ => none
  | .v6 addr => some (maskAddr6 addr bits)

theorem leading_zero : leading 8 0 = 0 := by decide

theorem maskAddr4_maskAddr4 (addr : BitVec 32) (bits : ℕ) :
    maskAddr4 (maskAddr4 addr bits) bits = maskAddr4 addr bits := by
  unfold maskAddr4
  rw [BitVec.and_assoc, BitVec.and_self]

theorem maskAddr6_maskAddr6 (addr : In6Addr) (bits : ℕ) :
    maskAddr6 (maskAddr6 addr bits) bits = maskAddr6 addr bits := by
  funext i
  unfold maskAddr6
  by_cases h : i.val < bits / 8
  · rw [if_pos h, if_pos h]
  · rw [if_neg h, if_neg h]
    by_cases h' : i.val = bits / 8
    · rw [if_pos h', if_pos h', BitVec.and_assoc, BitVec.and_self]
    · rw [if_neg h', if_neg h']

theorem matchIpv4_maskAddr4 (addr mask : BitVec 32) (bits : ℕ) :
    matchIpv4 addr mask bits = (mask == maskAddr4 addr bits) := by
  unfold matchIpv4 maskAddr4
  rw [Bool.eq_iff_iff, beq_iff_eq, beq_iff_eq]
  exact eq_comm

/-- An address lies in a block of the second family if it has the same leading bits. -/
theorem matchIpv6_maskAddr6 (addr other : In6Addr) (bits : ℕ) :
    matchIpv6 addr (maskAddr6 other bits) bits = true ↔
      maskAddr6 other bits = maskAddr6 addr bits := by
  have hbyte : ∀ (a : In6Addr) (n : ℕ) (hn : n < 16), byteAt a n = a ⟨n, hn⟩ :=
    fun a n hn => dif_pos hn
  unfold matchIpv6
  rw [Bool.and_eq_true, List.all_eq_true, Bool.or_eq_true, beq_iff_eq, beq_iff_eq]
  constructor
  · intro ⟨hbytes, hlast⟩
    funext i
    by_cases hi : i.val < bits / 8
    · have hb := hbytes i.val (List.mem_range.mpr hi)
      rw [beq_iff_eq, hbyte _ _ i.isLt, hbyte _ _ i.isLt] at hb
      show maskAddr6 other bits i = maskAddr6 addr bits i
      rw [← hb]
      unfold maskAddr6
      rw [if_pos hi]
    · by_cases hi' : i.val = bits / 8
      · unfold maskAddr6
        rw [if_neg hi, if_neg hi, if_pos hi', if_pos hi']
        rcases hlast with hzero | heq
        · rw [hzero, leading_zero]
          simp
        · rw [← hi', hbyte _ _ i.isLt, hbyte _ _ i.isLt] at heq
          unfold maskAddr6 at heq
          rw [if_neg hi, if_pos hi'] at heq
          exact heq.symm
      · unfold maskAddr6
        rw [if_neg hi, if_neg hi, if_neg hi', if_neg hi']
  · intro heq
    rw [heq]
    constructor
    · intro i hi
      rw [List.mem_range] at hi
      rw [beq_iff_eq]
      unfold byteAt
      by_cases h16 : i < 16
      · rw [dif_pos h16, dif_pos h16]
        unfold maskAddr6
        rw [if_pos hi]
      · rw [dif_neg h16, dif_neg h16]
    · by_cases hzero : bits % 8 = 0
      · exact Or.inl hzero
      · right
        unfold byteAt
        by_cases h16 : bits / 8 < 16
        · rw [dif_pos h16, dif_pos h16]
          unfold maskAddr6
          rw [if_neg (Nat.lt_irrefl _), if_pos rfl]
        · rw [dif_neg h16, dif_neg h16]
          simp

section Family

variable {κ : Type*} [DecidableEq κ]

/-- An address lies in the block of another if they have the same key. -/
def Keyed (key : Ip → Option κ) (lies : Ip → κ → Bool) : Prop :=
  ∀ ip other k, key other = some k → (lies ip k = true ↔ key ip = some k)

theorem keyed4 (bits : ℕ) : Keyed (key4 bits) (lies4 bits) := by
  intro ip other k hk
  cases ip with
  | v4 addr =>
    show matchIpv4 addr k bits = true ↔ some (maskAddr4 addr bits) = some k
    rw [matchIpv4_maskAddr4, beq_iff_eq, Option.some.injEq]
    exact eq_comm
  | v6 addr => simp [lies4, key4]

theorem keyed6 (bits : ℕ) : Keyed (key6 bits) (lies6 bits) := by
  intro ip other k hk
  cases other with
  | v4 addr => exact absurd hk (by simp [key6])
  | v6 other =>
    obtain rfl : maskAddr6 other bits = k := Option.some.inj hk
    cases ip with
    | v4 addr => simp [lies6, key6]
    | v6 addr =>
      show matchIpv6 addr (maskAddr6 other bits) bits = true ↔ _
      rw [matchIpv6_maskAddr6]
      show _ ↔ some (maskAddr6 addr bits) = some (maskAddr6 other bits)
      rw [Option.some.injEq]
      exact eq_comm

variable {key : Ip → Option κ} {lies : Ip → κ → Bool} {l l' : List (κ × ℕ)} {ips : List Ip}
  {ip : Ip} {k : κ}

theorem exists_of_entry (h : Counts l (ips.filterMap key)) (e : κ × ℕ) (he : e ∈ l) :
    ∃ other ∈ ips, key other = some e.1 := by
  have hpos : 0 < (ips.filterMap key).count e.1 := h.count e he ▸ h.pos e he
  exact List.mem_filterMap.mp (List.count_pos_iff.mp hpos)

theorem hits_of_counts (hkeyed : Keyed key lies) (h : Counts l (ips.filterMap key))
    (hk : key ip = some k) : Hits (lies ip) k l := by
  intro e he
  obtain ⟨other, _, hother⟩ := exists_of_entry h e he
  rw [Bool.eq_iff_iff, hkeyed ip other e.1 hother, hk, Option.some.injEq, beq_iff_eq]
  exact eq_comm

theorem limitReached_counts (hkeyed : Keyed key lies) (overRule : Bool) (perCidr : ℕ)
    (h : Counts l (ips.filterMap key)) (hk : key ip = some k)
    (hl : limitReached overRule perCidr (lies ip) k l = some l') :
    Counts l' ((ip :: ips).filterMap key) := by
  unfold limitReached at hl
  split at hl
  · exact absurd hl (by simp)
  · obtain rfl := Option.some.inj hl
    rw [List.filterMap_cons_some hk]
    exact h.countUp (hits_of_counts hkeyed h hk)

theorem countDown_counts (hkeyed : Keyed key lies) (h : Counts l ((ip :: ips).filterMap key))
    (hk : key ip = some k) : Counts (countDown (lies ip) l) (ips.filterMap key) := by
  have hdown := h.countDown (hits_of_counts hkeyed h hk)
  rwa [List.filterMap_cons_some hk, List.erase_cons_head] at hdown

theorem blocksExact_of_counts (hkeyed : Keyed key lies) (masked : κ → Prop) (family : Ip → Bool)
    (hmasked : ∀ other k, key other = some k → masked k)
    (hfamily : ∀ ip, family ip = true → ∃ k, key ip = some k)
    (h : Counts l (ips.filterMap key)) : BlocksExact l masked lies family ips := by
  refine ⟨h.nodup, fun e he => ?_, h.pos, fun e he => ?_, fun ip hip hfam => ?_⟩
  · obtain ⟨other, _, hother⟩ := exists_of_entry h e he
    exact hmasked other e.1 hother
  · obtain ⟨other, _, hother⟩ := exists_of_entry h e he
    rw [h.count e he, List.count, List.countP_filterMap]
    apply List.countP_congr
    intro ip _
    rw [hkeyed ip other e.1 hother]
    cases key ip with
    | none => simp
    | some k => simp
  · obtain ⟨k, hk⟩ := hfamily ip hfam
    obtain ⟨e, he, hek⟩ := List.mem_map.mp (h.mem k (List.mem_filterMap.mpr ⟨ip, hip, hk⟩))
    exact ⟨e, he, (hkeyed ip ip e.1 (hek ▸ hk)).mpr (hek ▸ hk)⟩

end Family

/-- The counts of a class for the addresses attached to it, in each family with a limit. -/
structure ClassCounts (c : ClassItem) (ips : List Ip) : Prop where
  ipv4 : c.numberPerCidr ≠ 0 → c.cidrBitlenIpv4 ≠ 0 →
    Counts c.listIpv4 (ips.filterMap (key4 c.cidrBitlenIpv4))
  ipv6 : c.numberPerCidr ≠ 0 → c.cidrBitlenIpv6 ≠ 0 →
    Counts c.listIpv6 (ips.filterMap (key6 c.cidrBitlenIpv6))

theorem ClassCounts.exact (c : ClassItem) (ips : List Ip) (h : ClassCounts c ips) :
    ClassExact c ips := by
  constructor
  · intro hper hbits
    apply blocksExact_of_counts (keyed4 c.cidrBitlenIpv4) _ _ _ _ (h.ipv4 hper hbits)
    · intro other k hk
      cases other with
      | v4 addr =>
        obtain rfl := Option.some.inj hk
        exact maskAddr4_maskAddr4 addr _
      | v6 addr => exact absurd hk (by simp [key4])
    · intro ip hip
      cases ip with
      | v4 addr => exact ⟨_, rfl⟩
      | v6 addr => exact absurd hip (by simp [isV4])
  · intro hper hbits
    apply blocksExact_of_counts (keyed6 c.cidrBitlenIpv6) _ _ _ _ (h.ipv6 hper hbits)
    · intro other k hk
      cases other with
      | v4 addr => exact absurd hk (by simp [key6])
      | v6 addr =>
        obtain rfl := Option.some.inj hk
        exact maskAddr6_maskAddr6 addr _
    · intro ip hip
      cases ip with
      | v4 addr => exact absurd hip (by simp [isV4])
      | v6 addr => exact ⟨_, rfl⟩

theorem ClassCounts.perm (c : ClassItem) (ips ips' : List Ip) (h : ClassCounts c ips)
    (hp : ips.Perm ips') : ClassCounts c ips' :=
  ⟨fun hper hbits => (h.ipv4 hper hbits).perm (hp.filterMap _),
    fun hper hbits => (h.ipv6 hper hbits).perm (hp.filterMap _)⟩

theorem classCounts_blank (ips : List Ip) : ClassCounts ClassItem.blank ips :=
  ⟨fun h => absurd rfl h, fun h => absurd rfl h⟩

/-- The settings of a class, without its counts. -/
def ClassItem.settings (c : ClassItem) : ℕ × ℕ × ℕ :=
  (c.cidrBitlenIpv4, c.cidrBitlenIpv6, c.numberPerCidr)

theorem cidrLimitReached_counts (overRule : Bool) (ip : Ip) (c c' : ClassItem) (ips : List Ip)
    (h : ClassCounts c ips) (hc : cidrLimitReached overRule ip c = some c') :
    ClassCounts c' (ip :: ips) ∧ c'.settings = c.settings := by
  unfold cidrLimitReached at hc
  by_cases hper : c.numberPerCidr = 0
  · rw [if_pos hper] at hc
    obtain rfl := Option.some.inj hc
    exact ⟨⟨fun h => absurd hper h, fun h => absurd hper h⟩, rfl⟩
  · rw [if_neg hper] at hc
    cases ip with
    | v4 addr =>
      dsimp only at hc
      have h6 : ∀ l, ((Ip.v4 addr :: l).filterMap (key6 c.cidrBitlenIpv6)) =
          l.filterMap (key6 c.cidrBitlenIpv6) := fun l => List.filterMap_cons_none rfl
      by_cases hbits : c.cidrBitlenIpv4 = 0
      · rw [if_pos hbits] at hc
        obtain rfl := Option.some.inj hc
        exact ⟨⟨fun _ h => absurd hbits h, fun hp hb => (h6 ips).symm ▸ h.ipv6 hp hb⟩, rfl⟩
      · rw [if_neg hbits] at hc
        obtain ⟨l, hl, rfl⟩ := Option.map_eq_some_iff.mp hc
        refine ⟨⟨fun _ _ => ?_, fun hp hb => (h6 ips).symm ▸ h.ipv6 hp hb⟩, rfl⟩
        exact limitReached_counts (keyed4 c.cidrBitlenIpv4) overRule c.numberPerCidr
          (h.ipv4 hper hbits) (rfl : key4 c.cidrBitlenIpv4 (.v4 addr) = some _) hl
    | v6 addr =>
      dsimp only at hc
      have h4 : ∀ l, ((Ip.v6 addr :: l).filterMap (key4 c.cidrBitlenIpv4)) =
          l.filterMap (key4 c.cidrBitlenIpv4) := fun l => List.filterMap_cons_none rfl
      by_cases hbits : c.cidrBitlenIpv6 > 0
      · rw [if_pos hbits] at hc
        obtain ⟨l, hl, rfl⟩ := Option.map_eq_some_iff.mp hc
        refine ⟨⟨fun hp hb => (h4 ips).symm ▸ h.ipv4 hp hb, fun _ hb => ?_⟩, rfl⟩
        exact limitReached_counts (keyed6 c.cidrBitlenIpv6) overRule c.numberPerCidr
          (h.ipv6 hper hb) (rfl : key6 c.cidrBitlenIpv6 (.v6 addr) = some _) hl
      · rw [if_neg hbits] at hc
        obtain rfl := Option.some.inj hc
        refine ⟨⟨fun hp hb => (h4 ips).symm ▸ h.ipv4 hp hb, fun _ hb => ?_⟩, rfl⟩
        exact absurd (Nat.pos_of_ne_zero hb) hbits

theorem removeFromCidrCheck_counts (ip : Ip) (c : ClassItem) (ips : List Ip)
    (h : ClassCounts c (ip :: ips)) : ClassCounts (removeFromCidrCheck ip c) ips := by
  unfold removeFromCidrCheck
  by_cases hper : c.numberPerCidr = 0
  · rw [if_pos hper]
    exact ⟨fun h => absurd hper h, fun h => absurd hper h⟩
  · rw [if_neg hper]
    cases ip with
    | v4 addr =>
      dsimp only
      have h6 : c.numberPerCidr ≠ 0 → c.cidrBitlenIpv6 ≠ 0 →
          Counts c.listIpv6 (ips.filterMap (key6 c.cidrBitlenIpv6)) := by
        intro hp hb
        have hall := h.ipv6 hp hb
        rwa [List.filterMap_cons_none rfl] at hall
      by_cases hbits : c.cidrBitlenIpv4 = 0
      · rw [if_pos hbits]
        exact ⟨fun _ h => absurd hbits h, h6⟩
      · rw [if_neg hbits]
        refine ⟨fun _ _ => ?_, h6⟩
        exact countDown_counts (keyed4 c.cidrBitlenIpv4) (h.ipv4 hper hbits)
          (rfl : key4 c.cidrBitlenIpv4 (.v4 addr) = some _)
    | v6 addr =>
      dsimp only
      have h4 : c.numberPerCidr ≠ 0 → c.cidrBitlenIpv4 ≠ 0 →
          Counts c.listIpv4 (ips.filterMap (key4 c.cidrBitlenIpv4)) := by
        intro hp hb
        have hall := h.ipv4 hp hb
        rwa [List.filterMap_cons_none rfl] at hall
      by_cases hbits : c.cidrBitlenIpv6 > 0
      · rw [if_pos hbits]
        refine ⟨h4, fun _ hb => ?_⟩
        exact countDown_counts (keyed6 c.cidrBitlenIpv6) (h.ipv6 hper hb)
          (rfl : key6 c.cidrBitlenIpv6 (.v6 addr) = some _)
      · rw [if_neg hbits]
        exact ⟨h4, fun _ hb => absurd (Nat.pos_of_ne_zero hb) hbits⟩

/-- With the limits overruled, a walk over addresses counts them all in. -/
theorem foldl_counts (ips done : List Ip) (c : ClassItem) (h : ClassCounts c done) :
    let c' := ips.foldl (fun c ip => (cidrLimitReached true ip c).getD c) c
    ClassCounts c' (ips ++ done) ∧ c'.settings = c.settings := by
  induction ips generalizing c done with
  | nil => exact ⟨h, rfl⟩
  | cons ip ips ih =>
    have hsome : ∃ c', cidrLimitReached true ip c = some c' := by
      have hlimit : ∀ {κ : Type} (per : ℕ) (hit : κ → Bool) (mask : κ) (l : List (κ × ℕ)),
          limitReached true per hit mask l = some (countUp hit mask l) := by
        intro κ per hit mask l
        unfold limitReached
        rw [if_neg]
        simp
      unfold cidrLimitReached
      split
      · exact ⟨c, rfl⟩
      · split
        · split
          · exact ⟨c, rfl⟩
          · rw [hlimit]
            exact ⟨_, rfl⟩
        · split
          · rw [hlimit]
            exact ⟨_, rfl⟩
          · exact ⟨c, rfl⟩
    obtain ⟨c', hc'⟩ := hsome
    obtain ⟨hcounts, hsettings⟩ := cidrLimitReached_counts true ip c c' done h hc'
    obtain ⟨hrest, hrest'⟩ := ih (ip :: done) c' hcounts
    rw [List.foldl_cons, hc', Option.getD_some]
    exact ⟨ClassCounts.perm _ _ _ hrest List.perm_middle, hrest'.trans hsettings⟩

end IrcdHybrid.CidrLimits
