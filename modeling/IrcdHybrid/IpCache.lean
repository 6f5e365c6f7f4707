import IrcdHybrid.CidrLimits
import IrcdHybrid.Entries

/-!
The cache of addresses. An entry counts the registered clients of an address, and the connects
that came from it, each soon after the one before. It is there from the first time the address
is looked for until it has no clients and the last connect is long ago.
-/

namespace IrcdHybrid.IpCache

open Netmask CidrLimits Entries
open Function

deriving instance DecidableEq for Ip

structure IpEntry where
  ip : Ip
  count : ℕ
  connectionCount : ℕ
  lastAttempt : ℕ
  deriving DecidableEq

abbrev Table := ℕ → List IpEntry

def IP_HASH_SIZE : ℕ := 0x1000

/-- The words of an address as a little-endian host reads them. -/
def word (addr : In6Addr) (i : ℕ) : BitVec 32 :=
  byteAt addr (4 * i + 3) ++ byteAt addr (4 * i + 2) ++ byteAt addr (4 * i + 1) ++
    byteAt addr (4 * i)

def hashAddress : Ip → ℕ
  | .v4 ip => (((ip >>> 12) + ip) &&& BitVec.ofNat 32 (IP_HASH_SIZE - 1)).toNat
  | .v6 addr =>
    let hash := word addr 0 ^^^ word addr 3
    let hash := hash ^^^ (hash >>> 16)
    let hash := hash ^^^ (hash >>> 8)
    (hash &&& BitVec.ofNat 32 (IP_HASH_SIZE - 1)).toNat

/-- What `mp_pool_get` and the copy of the address leave. -/
def newEntry (addr : Ip) : IpEntry := ⟨addr, 0, 0, 0⟩

def findOrAddAddress (t : Table) (addr : Ip) : IpEntry × Table :=
  match (t (hashAddress addr)).find? (fun e => decide (e.ip = addr)) with
  | some e => (e, t)
  | none =>
    (newEntry addr, update t (hashAddress addr) (newEntry addr :: t (hashAddress addr)))

/-- A write through the pointer that was found. -/
def write (t : Table) (addr : Ip) (f : IpEntry → IpEntry) : Table :=
  update t (hashAddress addr)
    ((change (fun e => decide (e.ip = addr)) (fun e => some (f e)) (t (hashAddress addr))).getD
      (t (hashAddress addr)))

/-- There was no connect from the address for the throttle time. -/
def idle (throttleTime now : ℕ) (e : IpEntry) : Bool :=
  decide ((throttleTime : ℤ) ≤ (now : ℤ) - e.lastAttempt)

/-- The loop of `ipcache_remove_address`, which goes on behind an entry that stays. -/
def removeLoop (throttleTime now : ℕ) (addr : Ip) : List IpEntry → List IpEntry
  | [] => []
  | e :: l =>
    if e.ip = addr then
      let e := { e with count := e.count - 1 }
      if e.count = 0 ∧ idle throttleTime now e = true then l
      else e :: removeLoop throttleTime now addr l
    else e :: removeLoop throttleTime now addr l

def removeAddress (throttleTime now : ℕ) (t : Table) (addr : Ip) : Table :=
  update t (hashAddress addr) (removeLoop throttleTime now addr (t (hashAddress addr)))

def removeExpiredEntries (throttleTime now : ℕ) (t : Table) : Table := fun k =>
  (t k).filter fun e => !(decide (e.count = 0) && idle throttleTime now e)

/-- What `find_dline_conf` finds. -/
inductive Dline
  | exempt
  | dline
  deriving DecidableEq

inductive Verdict
  | allowed
  | bannedClient
  | tooFast
  deriving DecidableEq

def confConnectAllowed (throttleTime throttleCount now : ℕ) (t : Table) (addr : Ip)
    (conf : Option Dline) : Verdict × Table :=
  match conf with
  | some .exempt => (.allowed, t)
  | some .dline => (.bannedClient, t)
  | none =>
    let (e, t) := findOrAddAddress t addr
    if (now : ℤ) - e.lastAttempt < throttleTime then
      if throttleCount ≤ e.connectionCount then (.tooFast, t)
      else (.allowed, write t addr fun e =>
        { e with connectionCount := e.connectionCount + 1, lastAttempt := now })
    else (.allowed, write t addr fun e => { e with connectionCount := 1, lastAttempt := now })

def entry (t : Table) (addr : Ip) : Option IpEntry :=
  lookup IpEntry.ip addr (t (hashAddress addr))

/-- Every address has one entry at most, in its bucket. -/
structure Wf (t : Table) : Prop where
  keyed : ∀ k, Keyed IpEntry.ip (t k)
  hash : ∀ k, ∀ e ∈ t k, hashAddress e.ip = k

theorem wf_empty : Wf (fun _ => []) := ⟨fun _ => List.nodup_nil, by simp⟩

theorem entry_of_mem (t : Table) (ht : Wf t) (k : ℕ) (e : IpEntry) (he : e ∈ t k) :
    entry t e.ip = some e := by
  unfold entry
  rw [ht.hash k e he]
  exact lookup_of_mem IpEntry.ip _ (ht.keyed k) e he

section Buckets

variable (t : Table) (ht : Wf t)

include ht

/-- One bucket is another, with the entry of one address changed. -/
theorem update_changed (addr : Ip) (f : IpEntry → Option IpEntry) (e : IpEntry) (l : List IpEntry)
    (hf : ∀ e', f e = some e' → e'.ip = e.ip)
    (h : Changed IpEntry.ip addr f e (t (hashAddress addr)) l) :
    Wf (update t (hashAddress addr) l) ∧ ∀ a, entry (update t (hashAddress addr) l) a =
      if a = addr then f e else entry t a := by
  have he := lookup_mem IpEntry.ip _ _ e h.entry
  refine ⟨⟨?_, ?_⟩, ?_⟩
  · intro k
    by_cases hk : k = hashAddress addr
    · rw [hk, update_self]
      exact h.keyed
    · rw [update_of_ne hk]
      exact ht.keyed k
  · intro k d hd
    by_cases hk : k = hashAddress addr
    · rw [hk, update_self] at hd
      rw [hk]
      rcases h.mem d hd with heq | ⟨hd, _⟩
      · rw [hf d heq]
        exact ht.hash _ e he
      · exact ht.hash _ d hd
    · rw [update_of_ne hk] at hd
      exact ht.hash k d hd
  · intro a
    unfold entry
    by_cases hk : hashAddress a = hashAddress addr
    · rw [hk, update_self, h.lookup_eq]
    · have ha : a ≠ addr := fun heq => hk (heq ▸ rfl)
      rw [update_of_ne hk, if_neg ha]

theorem findOrAdd_entry (addr : Ip) :
    Wf (findOrAddAddress t addr).2 ∧
      (findOrAddAddress t addr).1 = (entry t addr).getD (newEntry addr) ∧
      ∀ a, entry (findOrAddAddress t addr).2 a =
        if a = addr then some ((entry t addr).getD (newEntry addr)) else entry t a := by
  unfold findOrAddAddress
  cases hfind : (t (hashAddress addr)).find? (fun e => decide (e.ip = addr)) with
  | some e =>
    have hentry : entry t addr = some e := hfind
    refine ⟨ht, by rw [hentry]; rfl, ?_⟩
    intro a
    by_cases ha : a = addr
    · rw [if_pos ha, ha, hentry]
      rfl
    · rw [if_neg ha]
  | none =>
    have hentry : entry t addr = none := hfind
    dsimp only
    refine ⟨⟨?_, ?_⟩, by rw [hentry]; rfl, ?_⟩
    · intro k
      by_cases hk : k = hashAddress addr
      · rw [hk, update_self]
        exact keyed_cons IpEntry.ip _ _ (ht.keyed _) hentry
      · rw [update_of_ne hk]
        exact ht.keyed k
    · intro k e he
      by_cases hk : k = hashAddress addr
      · rw [hk, update_self] at he
        rw [hk]
        rcases List.mem_cons.mp he with rfl | he
        · rfl
        · exact ht.hash _ e he
      · rw [update_of_ne hk] at he
        exact ht.hash k e he
    · intro a
      unfold entry
      by_cases hk : hashAddress a = hashAddress addr
      · rw [hk, update_self, lookup_cons]
        by_cases ha : a = addr
        · rw [if_pos ha, ha, if_pos (show (newEntry addr).ip = addr from rfl),
            show lookup IpEntry.ip addr _ = none from hentry]
          rfl
        · rw [if_neg ha, if_neg (fun heq => ha heq.symm)]
      · have ha : a ≠ addr := fun heq => hk (heq ▸ rfl)
        rw [update_of_ne hk, if_neg ha]

theorem write_entry (addr : Ip) (f : IpEntry → IpEntry) (e : IpEntry)
    (hf : ∀ e, (f e).ip = e.ip) (he : entry t addr = some e) :
    Wf (write t addr f) ∧ ∀ a, entry (write t addr f) a =
      if a = addr then some (f e) else entry t a := by
  unfold write
  cases hchange : change (fun e => decide (e.ip = addr)) (fun e => some (f e))
      (t (hashAddress addr)) with
  | none =>
    have hnone := (change_eq_none IpEntry.ip addr _ _).mp hchange
    rw [show lookup IpEntry.ip addr _ = some e from he] at hnone
    cases hnone
  | some l =>
    obtain ⟨e₀, hchanged⟩ := change_some IpEntry.ip addr _ _ l (ht.keyed _)
      (fun a b hab => by rw [← Option.some.inj hab]; exact hf a) hchange
    obtain rfl : e = e₀ := Option.some.inj (he.symm.trans hchanged.entry)
    exact update_changed t ht addr _ e l
      (fun e' heq => by rw [← Option.some.inj heq]; exact hf e) hchanged

/-- An entry counts one client less, and goes when it is the last and the entry is idle. -/
def release (throttleTime now : ℕ) (e : IpEntry) : Option IpEntry :=
  if e.count - 1 = 0 ∧ idle throttleTime now e = true then none
  else some { e with count := e.count - 1 }

omit ht in
theorem removeLoop_other (throttleTime now : ℕ) (addr : Ip) (l : List IpEntry)
    (h : ∀ e ∈ l, e.ip ≠ addr) : removeLoop throttleTime now addr l = l := by
  induction l with
  | nil => rfl
  | cons e l ih =>
    unfold removeLoop
    rw [if_neg (h e List.mem_cons_self), ih (fun d hd => h d (List.mem_cons_of_mem e hd))]

omit ht in
/-- An address is not there twice, so that the loop changes one entry. -/
theorem removeLoop_change (throttleTime now : ℕ) (addr : Ip) (l : List IpEntry)
    (h : Keyed IpEntry.ip l) : removeLoop throttleTime now addr l =
      (change (fun e => decide (e.ip = addr)) (release throttleTime now) l).getD l := by
  induction l with
  | nil => rfl
  | cons e l ih =>
    obtain ⟨hnot, hl⟩ := List.nodup_cons.mp h
    unfold removeLoop change
    by_cases he : e.ip = addr
    · have hrest : removeLoop throttleTime now addr l = l := by
        apply removeLoop_other
        intro d hd heq
        exact hnot (he.trans heq.symm ▸ List.mem_map_of_mem hd)
      rw [if_pos he, hrest, if_pos (decide_eq_true he)]
      unfold release idle
      dsimp only
      split <;> rfl
    · rw [if_neg he, if_neg (by simpa using he), ih hl]
      cases change (fun e => decide (e.ip = addr)) (release throttleTime now) l <;> rfl

theorem removeAddress_entry (throttleTime now : ℕ) (addr : Ip) (e : IpEntry)
    (he : entry t addr = some e) :
    Wf (removeAddress throttleTime now t addr) ∧
      ∀ a, entry (removeAddress throttleTime now t addr) a =
        if a = addr then release throttleTime now e else entry t a := by
  have hip : ∀ d d', release throttleTime now d = some d' → d'.ip = d.ip := by
    intro d d' h
    unfold release at h
    split at h
    · cases h
    · rw [← Option.some.inj h]
  unfold removeAddress
  rw [removeLoop_change throttleTime now addr _ (ht.keyed _)]
  cases hchange : change (fun e => decide (e.ip = addr)) (release throttleTime now)
      (t (hashAddress addr)) with
  | none =>
    have hnone := (change_eq_none IpEntry.ip addr _ _).mp hchange
    rw [show lookup IpEntry.ip addr _ = some e from he] at hnone
    cases hnone
  | some l =>
    obtain ⟨e₀, hchanged⟩ := change_some IpEntry.ip addr _ _ l (ht.keyed _) hip hchange
    obtain rfl : e = e₀ := Option.some.inj (he.symm.trans hchanged.entry)
    exact update_changed t ht addr _ e l (hip e) hchanged

theorem removeExpired_entry (throttleTime now : ℕ) :
    Wf (removeExpiredEntries throttleTime now t) ∧
      ∀ a, entry (removeExpiredEntries throttleTime now t) a =
        (entry t a).filter fun e => !(decide (e.count = 0) && idle throttleTime now e) := by
  have hkeyed : ∀ k, Keyed IpEntry.ip (removeExpiredEntries throttleTime now t k) := fun k =>
    (ht.keyed k).sublist (List.filter_sublist.map IpEntry.ip)
  refine ⟨⟨hkeyed, ?_⟩, ?_⟩
  · intro k e he
    exact ht.hash k e (List.mem_filter.mp he).1
  · intro a
    unfold entry
    cases hfind : lookup IpEntry.ip a (t (hashAddress a)) with
    | none =>
      rw [lookup_none] at hfind
      apply (lookup_none IpEntry.ip a _).mpr
      intro e he
      exact hfind e (List.mem_filter.mp he).1
    | some e =>
      have hmem := lookup_mem IpEntry.ip a _ e hfind
      obtain rfl := lookup_key IpEntry.ip a _ e hfind
      by_cases hstay : (!(decide (e.count = 0) && idle throttleTime now e)) = true
      · rw [Option.filter_some, if_pos hstay]
        exact lookup_of_mem IpEntry.ip _ (hkeyed _) e (List.mem_filter.mpr ⟨hmem, hstay⟩)
      · rw [Option.filter_some, if_neg hstay]
        apply (lookup_none IpEntry.ip _ _).mpr
        intro d hd heq
        obtain ⟨hd, hpass⟩ := List.mem_filter.mp hd
        have hsame := lookup_of_mem IpEntry.ip _ (ht.keyed _) d hd
        rw [heq, hfind] at hsame
        rw [← Option.some.inj hsame] at hpass
        exact hstay hpass

end Buckets

end IrcdHybrid.IpCache
