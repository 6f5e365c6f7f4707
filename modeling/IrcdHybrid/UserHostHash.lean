import IrcdHybrid.BanMask
import IrcdHybrid.Entries
import IrcdHybrid.MemberInvariant
import Mathlib.Algebra.Group.Prod
import Mathlib.Algebra.Order.Group.Nat

/-!
The hash of hosts with the users on each, and how many clients there are of each. Whoever is
looked for moves its host to the front of the bucket. Names and hosts are without case, and a
tilde before the name is no part of it.
-/

namespace IrcdHybrid.UserHostHash

open CString BanMask MemberLists MemberInvariant Entries Sjoin
open Function

structure NameHost where
  name : CStr
  icount : ℕ
  gcount : ℕ
  lcount : ℕ

structure UserHost where
  host : CStr
  list : List NameHost

abbrev Table := ℕ → List UserHost

/-- All of them, the local ones, and those without a tilde of them. -/
abbrev Counts := ℕ × ℕ × ℕ

def NameHost.counts (n : NameHost) : Counts := (n.gcount, n.lcount, n.icount)

def hostIs (host : CStr) (u : UserHost) : Bool := decide (irccmp host u.host = 0)

def nameIs (user : CStr) (n : NameHost) : Bool := decide (irccmp user n.name = 0)

def hasIdent (user : CStr) : Bool := user.head? != some '~'

def withoutTilde : CStr → CStr
  | [] => []
  | c :: user => if c = '~' then user else c :: user

def NameHost.up (hasident global : Bool) (n : NameHost) : NameHost :=
  { n with
    gcount := n.gcount + 1
    lcount := if global then n.lcount else n.lcount + 1
    icount := if !global && hasident then n.icount + 1 else n.icount }

/-- No count goes below zero. -/
def NameHost.down (hasident global : Bool) (n : NameHost) : NameHost :=
  { n with
    gcount := n.gcount - 1
    lcount := if global then n.lcount else n.lcount - 1
    icount := if !global && hasident then n.icount - 1 else n.icount }

def newName (user : CStr) (hasident global : Bool) : NameHost :=
  ⟨strlcpy user (USERLEN + 1), if !global && hasident then 1 else 0, 1, if global then 0 else 1⟩

/-- The list of a host in `add_user_host`. -/
def addName (user : CStr) (hasident global : Bool) (list : List NameHost) : List NameHost :=
  (change (nameIs user) (fun n => some (n.up hasident global)) list).getD
    (newName user hasident global :: list)

/-- And in `delete_user_host`. -/
def deleteName (user : CStr) (hasident global : Bool) (list : List NameHost) :
    Option (List NameHost) :=
  change (nameIs user) (fun n =>
    let n := n.down hasident global
    if n.gcount = 0 ∧ n.lcount = 0 then none else some n) list

section Hash

variable (hashfXorKey : BitVec 32)

/-- `hash_find_userhost`, and what is then done with the host, or with its place. -/
def atUserhost (t : Table) (host : CStr) (f : UserHost → Option UserHost) : Option Table :=
  (changeFront (hostIs host) f (t (strhash hashfXorKey host))).map
    (update t (strhash hashfXorKey host))

def hashAddUserhost (t : Table) (u : UserHost) : Table :=
  update t (strhash hashfXorKey u.host) (u :: t (strhash hashfXorKey u.host))

def addUserHost (t : Table) (user host : CStr) (global : Bool) : Table :=
  let hasident := hasIdent user
  let user := withoutTilde user
  match atUserhost hashfXorKey t host
      (fun u => some { u with list := addName user hasident global u.list }) with
  | some t => t
  | none =>
    hashAddUserhost hashfXorKey t ⟨strlcpy host (HOSTLEN + 1), addName user hasident global []⟩

def deleteUserHost (t : Table) (user host : CStr) (global : Bool) : Table :=
  let hasident := hasIdent user
  let user := withoutTilde user
  (atUserhost hashfXorKey t host (fun u =>
    match deleteName user hasident global u.list with
    | none => some u
    | some list => if list = [] then none else some { u with list := list })).getD t

/-- `count_user_host`: what is not found leaves the counts as they were. -/
def countUserHost (t : Table) (user host : CStr) (counts : Counts) : Counts × Table :=
  match (t (strhash hashfXorKey host)).find? (hostIs host) with
  | none => (counts, t)
  | some u =>
    (match u.list.find? (nameIs user) with
      | none => counts
      | some n => n.counts,
      (atUserhost hashfXorKey t host some).getD t)

end Hash

def nameKey (n : NameHost) : CStr := fold n.name

def hostKey (u : UserHost) : CStr := fold u.host

theorem nameIs_eq (user : CStr) : nameIs user = fun n => decide (nameKey n = fold user) := by
  funext n
  unfold nameIs nameKey fold
  rw [decide_eq_decide, irccmp_eq_zero_iff]
  exact eq_comm

theorem hostIs_eq (host : CStr) : hostIs host = fun u => decide (hostKey u = fold host) := by
  funext u
  unfold hostIs hostKey fold
  rw [decide_eq_decide, irccmp_eq_zero_iff]
  exact eq_comm

/-- What one client counts. -/
def weight (hasident global : Bool) : Counts :=
  (1, if global then 0 else 1, if !global && hasident then 1 else 0)

def readName (list : List NameHost) (k : CStr) : Counts :=
  ((lookup nameKey k list).map NameHost.counts).getD 0

/-- Every name is there once, and has a client. -/
structure Good (list : List NameHost) : Prop where
  keyed : Keyed nameKey list
  pos : ∀ n ∈ list, 0 < n.gcount

theorem up_counts (hasident global : Bool) (n : NameHost) :
    (n.up hasident global).counts = n.counts + weight hasident global := by
  unfold NameHost.up NameHost.counts weight
  cases hasident <;> cases global <;> rfl

theorem down_counts (hasident global : Bool) (n : NameHost) :
    (n.down hasident global).counts = n.counts - weight hasident global := by
  unfold NameHost.down NameHost.counts weight
  cases hasident <;> cases global <;> rfl

theorem addName_good (user : CStr) (hasident global : Bool) (list : List NameHost)
    (h : Good list) (hlen : user.length ≤ USERLEN) :
    Good (addName user hasident global list) ∧ addName user hasident global list ≠ [] ∧
      ∀ k, readName (addName user hasident global list) k =
        readName list k + if k = fold user then weight hasident global else 0 := by
  have hname : nameKey (newName user hasident global) = fold user := by
    unfold nameKey newName
    rw [strlcpy_of_le user USERLEN hlen]
  unfold addName
  rw [nameIs_eq]
  cases hchange : change (fun n => decide (nameKey n = fold user))
      (fun n => some (n.up hasident global)) list with
  | none =>
    have hnone := (change_eq_none nameKey _ _ list).mp hchange
    refine ⟨⟨keyed_cons nameKey _ list h.keyed (by rw [hname]; exact hnone), ?_⟩, by simp, ?_⟩
    · intro n hn
      rcases List.mem_cons.mp hn with rfl | hn
      · exact Nat.one_pos
      · exact h.pos n hn
    · intro k
      unfold readName
      rw [Option.getD_none, lookup_cons, hname]
      by_cases hk : k = fold user
      · rw [if_pos hk.symm, if_pos hk, hk, hnone]
        exact (zero_add _).symm
      · rw [if_neg (fun heq => hk heq.symm), if_neg hk, add_zero]
  | some list' =>
    obtain ⟨n, hn⟩ := change_some nameKey (fold user) _ list list' h.keyed
      (fun a b hab => by rw [← Option.some.inj hab]; rfl) hchange
    refine ⟨⟨hn.keyed, ?_⟩, ?_, ?_⟩
    · intro m hm
      rcases hn.mem m hm with heq | ⟨hm, _⟩
      · rw [← Option.some.inj heq]
        exact Nat.succ_pos _
      · exact h.pos m hm
    · intro hnil
      have hnone := hn.lookup_eq (fold user)
      rw [Option.getD_some] at hnil
      rw [hnil, if_pos rfl] at hnone
      cases hnone
    · intro k
      unfold readName
      rw [Option.getD_some, hn.lookup_eq]
      by_cases hk : k = fold user
      · rw [if_pos hk, if_pos hk, hk, hn.entry]
        exact up_counts hasident global n
      · rw [if_neg hk, if_neg hk, add_zero]

theorem deleteName_good (user : CStr) (hasident global : Bool) (list : List NameHost)
    (h : Good list) (hle : weight hasident global ≤ readName list (fold user))
    (hlast : (readName list (fold user) - weight hasident global).1 = 0 →
      readName list (fold user) - weight hasident global = 0) :
    ∃ list', deleteName user hasident global list = some list' ∧ Good list' ∧
      ∀ k, readName list' k =
        if k = fold user then readName list k - weight hasident global else readName list k := by
  unfold deleteName
  rw [nameIs_eq]
  cases hchange : change (fun n => decide (nameKey n = fold user)) (fun n =>
      let n := n.down hasident global
      if n.gcount = 0 ∧ n.lcount = 0 then none else some n) list with
  | none =>
    have hnone := (change_eq_none nameKey _ _ list).mp hchange
    unfold readName at hle
    rw [hnone] at hle
    exact absurd hle.1 (by simp [weight])
  | some list' =>
    obtain ⟨n, hn⟩ := change_some nameKey (fold user) _ list list' h.keyed
      (fun a b hab => by
        dsimp only at hab
        split at hab
        · cases hab
        · rw [← Option.some.inj hab]; rfl) hchange
    have hcounts : readName list (fold user) - weight hasident global =
        (n.down hasident global).counts := by
      unfold readName
      rw [hn.entry, down_counts]
      rfl
    rw [hcounts] at hlast
    refine ⟨list', rfl, ⟨hn.keyed, ?_⟩, ?_⟩
    · intro m hm
      rcases hn.mem m hm with heq | ⟨hm, _⟩
      · dsimp only at heq
        split at heq
        · cases heq
        · next hkeep =>
          rw [← Option.some.inj heq]
          apply Nat.pos_of_ne_zero
          intro hzero
          exact hkeep ⟨hzero, congrArg (fun c : Counts => c.2.1) (hlast hzero)⟩
      · exact h.pos m hm
    · intro k
      by_cases hk : k = fold user
      · rw [if_pos hk, hk, hcounts]
        unfold readName
        rw [hn.lookup_eq, if_pos rfl]
        dsimp only
        split
        · next hdrop =>
          exact (hlast hdrop.1).symm
        · rfl
      · unfold readName
        rw [if_neg hk, hn.lookup_eq, if_neg hk]

section Hash

variable (hashfXorKey : BitVec 32)

/-- What is kept of a user on a host. -/
def read (t : Table) (user host : CStr) : Counts :=
  ((lookup hostKey (fold host) (t (strhash hashfXorKey host))).map
    fun u => readName u.list (fold user)).getD 0

/-- Every host is in its bucket, once, and has a user. -/
structure Wf (t : Table) : Prop where
  keyed : ∀ k, Keyed hostKey (t k)
  hash : ∀ k, ∀ u ∈ t k, strhash hashfXorKey u.host = k
  good : ∀ k, ∀ u ∈ t k, Good u.list ∧ u.list ≠ []

theorem wf_empty : Wf hashfXorKey (fun _ => []) :=
  ⟨fun _ => List.nodup_nil, by simp, by simp⟩

theorem strhash_fold (a b : CStr) (h : fold a = fold b) :
    strhash hashfXorKey a = strhash hashfXorKey b :=
  strhash_congr hashfXorKey a b ((irccmp_eq_zero_iff a b).mpr h)

theorem countUserHost_read (t : Table) (user host : CStr) :
    (countUserHost hashfXorKey t user host 0).1 = read hashfXorKey t user host := by
  unfold countUserHost read lookup
  rw [hostIs_eq]
  cases (t (strhash hashfXorKey host)).find? (fun u => decide (hostKey u = fold host)) with
  | none => rfl
  | some u =>
    dsimp only [Option.map_some, Option.getD_some]
    unfold readName lookup
    rw [nameIs_eq]
    cases u.list.find? (fun n => decide (nameKey n = fold user)) <;> rfl

variable (t : Table) (ht : Wf hashfXorKey t)

include ht

/-- What becomes of the table when a host is found and changed, or taken out. -/
theorem atUserhost_some (host : CStr) (f : UserHost → Option UserHost) (t' : Table)
    (hhost : ∀ u u', f u = some u' → u'.host = u.host)
    (hgood : ∀ u, lookup hostKey (fold host) (t (strhash hashfXorKey host)) = some u →
      ∀ u', f u = some u' → Good u'.list ∧ u'.list ≠ [])
    (h : atUserhost hashfXorKey t host f = some t') :
    ∃ u, lookup hostKey (fold host) (t (strhash hashfXorKey host)) = some u ∧
      Wf hashfXorKey t' ∧ ∀ user' host', read hashfXorKey t' user' host' =
        if fold host' = fold host then
          ((f u).map fun u => readName u.list (fold user')).getD 0
        else read hashfXorKey t user' host' := by
  unfold atUserhost at h
  rw [hostIs_eq] at h
  obtain ⟨l, hl, rfl⟩ := Option.map_eq_some_iff.mp h
  obtain ⟨u, hu⟩ := changeFront_some hostKey (fold host) f _ l (ht.keyed _)
    (fun a b hab => congrArg fold (hhost a b hab)) hl
  have hfrom := lookup_mem hostKey _ _ u hu.entry
  refine ⟨u, hu.entry, ⟨?_, ?_, ?_⟩, ?_⟩
  · intro k
    by_cases hk : k = strhash hashfXorKey host
    · rw [hk, update_self]
      exact hu.keyed
    · rw [update_of_ne hk]
      exact ht.keyed k
  · intro k v hv
    by_cases hk : k = strhash hashfXorKey host
    · rw [hk, update_self] at hv
      rcases hu.mem v hv with heq | ⟨hv, _⟩
      · rw [hhost u v heq, hk]
        exact ht.hash _ u hfrom
      · rw [hk]
        exact ht.hash _ v hv
    · rw [update_of_ne hk] at hv
      exact ht.hash k v hv
  · intro k v hv
    by_cases hk : k = strhash hashfXorKey host
    · rw [hk, update_self] at hv
      rcases hu.mem v hv with heq | ⟨hv, _⟩
      · exact hgood u hu.entry v heq
      · exact ht.good _ v hv
    · rw [update_of_ne hk] at hv
      exact ht.good k v hv
  · intro user' host'
    unfold read
    by_cases hk : strhash hashfXorKey host' = strhash hashfXorKey host
    · rw [hk, update_self, hu.lookup_eq]
      by_cases hfold : fold host' = fold host
      · rw [if_pos hfold, if_pos hfold]
      · rw [if_neg hfold, if_neg hfold]
    · have hfold : fold host' ≠ fold host := fun heq => hk (strhash_fold hashfXorKey _ _ heq)
      rw [update_of_ne hk, if_neg hfold]

omit ht in
theorem atUserhost_none (host : CStr) (f : UserHost → Option UserHost)
    (h : atUserhost hashfXorKey t host f = none) :
    lookup hostKey (fold host) (t (strhash hashfXorKey host)) = none := by
  unfold atUserhost at h
  rw [hostIs_eq] at h
  exact (changeFront_eq_none hostKey _ f _).mp (Option.map_eq_none_iff.mp h)

theorem addUserHost_read (user host : CStr) (global : Bool)
    (huser : (withoutTilde user).length ≤ USERLEN) (hhost : host.length ≤ HOSTLEN) :
    Wf hashfXorKey (addUserHost hashfXorKey t user host global) ∧ ∀ user' host',
      read hashfXorKey (addUserHost hashfXorKey t user host global) user' host' =
        read hashfXorKey t user' host' +
          if fold host' = fold host ∧ fold user' = fold (withoutTilde user) then
            weight (hasIdent user) global
          else 0 := by
  unfold addUserHost
  dsimp only
  cases hat : atUserhost hashfXorKey t host (fun u => some
      { u with list := addName (withoutTilde user) (hasIdent user) global u.list }) with
  | some t' =>
    obtain ⟨u, hu, hwf, hread⟩ := atUserhost_some hashfXorKey t ht host _ t'
      (fun u u' h => by rw [← Option.some.inj h])
      (fun u hu u' h => by
        have hmem := lookup_mem hostKey _ _ u hu
        have hadd := addName_good (withoutTilde user) (hasIdent user) global u.list
          (ht.good _ u hmem).1 huser
        rw [← Option.some.inj h]
        exact ⟨hadd.1, hadd.2.1⟩) hat
    refine ⟨hwf, ?_⟩
    intro user' host'
    dsimp only
    rw [hread]
    by_cases hfold : fold host' = fold host
    · have hmem := lookup_mem hostKey _ _ u hu
      have hadd := addName_good (withoutTilde user) (hasIdent user) global u.list
        (ht.good _ u hmem).1 huser
      have hold : read hashfXorKey t user' host' = readName u.list (fold user') := by
        unfold read
        rw [strhash_fold hashfXorKey _ _ hfold, hfold, hu]
        rfl
      rw [if_pos hfold, hold]
      simp only [hfold, true_and]
      exact hadd.2.2 (fold user')
    · rw [if_neg hfold, if_neg (fun h => hfold h.1), add_zero]
  | none =>
    have hnone := atUserhost_none hashfXorKey t host _ hat
    have hnil : Good ([] : List NameHost) := ⟨List.nodup_nil, by simp⟩
    have hadd := addName_good (withoutTilde user) (hasIdent user) global [] hnil huser
    dsimp only
    rw [strlcpy_of_le host HOSTLEN hhost]
    unfold hashAddUserhost
    dsimp only
    refine ⟨⟨?_, ?_, ?_⟩, ?_⟩
    · intro k
      by_cases hk : k = strhash hashfXorKey host
      · rw [hk, update_self]
        exact keyed_cons hostKey _ _ (ht.keyed _) hnone
      · rw [update_of_ne hk]
        exact ht.keyed k
    · intro k u hu
      by_cases hk : k = strhash hashfXorKey host
      · rw [hk, update_self] at hu
        rcases List.mem_cons.mp hu with rfl | hu
        · exact hk.symm
        · rw [hk]
          exact ht.hash _ u hu
      · rw [update_of_ne hk] at hu
        exact ht.hash k u hu
    · intro k u hu
      by_cases hk : k = strhash hashfXorKey host
      · rw [hk, update_self] at hu
        rcases List.mem_cons.mp hu with rfl | hu
        · exact ⟨hadd.1, hadd.2.1⟩
        · exact ht.good _ u hu
      · rw [update_of_ne hk] at hu
        exact ht.good k u hu
    · intro user' host'
      unfold read
      by_cases hk : strhash hashfXorKey host' = strhash hashfXorKey host
      · rw [hk, update_self, lookup_cons]
        by_cases hfold : fold host' = fold host
        · rw [if_pos (show hostKey ⟨host, _⟩ = fold host' from hfold.symm), hfold, hnone]
          simp only [true_and]
          exact hadd.2.2 (fold user')
        · rw [if_neg (show hostKey ⟨host, _⟩ ≠ fold host' from fun heq => hfold heq.symm),
            if_neg (fun h => hfold h.1), add_zero]
      · have hfold : fold host' ≠ fold host := fun heq => hk (strhash_fold hashfXorKey _ _ heq)
        rw [update_of_ne hk, if_neg (fun h => hfold h.1), add_zero]

theorem deleteUserHost_read (user host : CStr) (global : Bool)
    (hle : weight (hasIdent user) global ≤ read hashfXorKey t (withoutTilde user) host)
    (hlast : (read hashfXorKey t (withoutTilde user) host - weight (hasIdent user) global).1 = 0 →
      read hashfXorKey t (withoutTilde user) host - weight (hasIdent user) global = 0) :
    Wf hashfXorKey (deleteUserHost hashfXorKey t user host global) ∧ ∀ user' host',
      read hashfXorKey (deleteUserHost hashfXorKey t user host global) user' host' =
        if fold host' = fold host ∧ fold user' = fold (withoutTilde user) then
          read hashfXorKey t user' host' - weight (hasIdent user) global
        else read hashfXorKey t user' host' := by
  have hdelete : ∀ u, lookup hostKey (fold host) (t (strhash hashfXorKey host)) = some u →
      ∃ list, deleteName (withoutTilde user) (hasIdent user) global u.list = some list ∧
        Good list ∧ ∀ k, readName list k = if k = fold (withoutTilde user) then
          readName u.list k - weight (hasIdent user) global else readName u.list k := by
    intro u hu
    have hread : read hashfXorKey t (withoutTilde user) host =
        readName u.list (fold (withoutTilde user)) := by
      unfold read
      rw [hu]
      rfl
    rw [hread] at hle hlast
    exact deleteName_good _ _ _ u.list (ht.good _ u (lookup_mem hostKey _ _ u hu)).1 hle hlast
  unfold deleteUserHost
  dsimp only
  cases hat : atUserhost hashfXorKey t host (fun u =>
      match deleteName (withoutTilde user) (hasIdent user) global u.list with
      | none => some u
      | some list => if list = [] then none else some { u with list := list }) with
  | none =>
    have hnone := atUserhost_none hashfXorKey t host _ hat
    unfold read at hle
    rw [hnone] at hle
    exact absurd hle.1 (by simp [weight])
  | some t' =>
    obtain ⟨u, hu, hwf, hread⟩ := atUserhost_some hashfXorKey t ht host _ t'
      (fun u u' h => by
        split at h
        · rw [Option.some.inj h]
        · split at h
          · cases h
          · rw [← Option.some.inj h])
      (fun u hu u' h => by
        obtain ⟨list, hlist, hgood, _⟩ := hdelete u hu
        rw [hlist] at h
        dsimp only at h
        split at h
        · cases h
        · next hne =>
          rw [← Option.some.inj h]
          exact ⟨hgood, hne⟩) hat
    obtain ⟨list, hlist, _, hnames⟩ := hdelete u hu
    refine ⟨hwf, ?_⟩
    intro user' host'
    rw [Option.getD_some, hread]
    by_cases hfold : fold host' = fold host
    · have hold : read hashfXorKey t user' host' = readName u.list (fold user') := by
        unfold read
        rw [strhash_fold hashfXorKey _ _ hfold, hfold, hu]
        rfl
      rw [if_pos hfold, hold, hlist]
      simp only [hfold, true_and]
      rw [← hnames (fold user')]
      split
      · next hnil =>
        rw [hnil]
        rfl
      · rfl
    · rw [if_neg hfold, if_neg (fun h => hfold h.1)]

theorem countUserHost_table (user host : CStr) (counts : Counts) :
    Wf hashfXorKey (countUserHost hashfXorKey t user host counts).2 ∧ ∀ user' host',
      read hashfXorKey (countUserHost hashfXorKey t user host counts).2 user' host' =
        read hashfXorKey t user' host' := by
  unfold countUserHost
  split
  · exact ⟨ht, fun _ _ => rfl⟩
  · dsimp only
    cases hat : atUserhost hashfXorKey t host some with
    | none => exact ⟨ht, fun _ _ => rfl⟩
    | some t' =>
      obtain ⟨u, hu, hwf, hread⟩ := atUserhost_some hashfXorKey t ht host some t'
        (fun u u' h => by rw [Option.some.inj h])
        (fun u hu u' h => by
          rw [← Option.some.inj h]
          exact ht.good _ u (lookup_mem hostKey _ _ u hu)) hat
      refine ⟨hwf, ?_⟩
      intro user' host'
      rw [Option.getD_some, hread]
      by_cases hfold : fold host' = fold host
      · unfold read
        rw [if_pos hfold, strhash_fold hashfXorKey _ _ hfold, hfold, hu]
      · rw [if_neg hfold]

end Hash

end IrcdHybrid.UserHostHash
