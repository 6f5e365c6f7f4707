import IrcdHybrid.MemberInvariant
import IrcdHybrid.PairedLists
import Mathlib.Data.Set.Insert

/-!
Who watches which nick (`watch.c`). A nick that is watched has an entry in a hash table, with
the clients that watch it; a client has the list of its entries. Both sides say the same, and an
entry is there as long as somebody watches its nick.
-/

namespace IrcdHybrid.WatchTable

open CString Sjoin MemberLists MemberInvariant Index PairedLists Function

def NICKLEN : ℕ := 12

structure Watch where
  nick : CStr
  watchedBy : List ℕ
  lasttime : ℤ

inductive Status where
  | unknown
  | server
  | client
  deriving DecidableEq, Repr

/-- The entries at their addresses, the table of entries, and the local connections with their
entries. -/
structure State where
  hashfXorKey : BitVec 32
  watch : ℕ → Watch
  watchTable : ℕ → List ℕ
  watches : ℕ → List ℕ
  status : ℕ → Option Status

/-- What a notice says of the client that comes or goes. -/
structure Person where
  name : CStr
  username : CStr
  host : CStr
  info : CStr

inductive Reply where
  | logon
  | logoff
  deriving DecidableEq, Repr

structure Notice where
  numeric : Reply
  person : Person
  lasttime : ℤ

def watchFindHash (s : State) (name : CStr) : Option ℕ :=
  (s.watchTable (strhash s.hashfXorKey name)).find?
    fun w => decide (irccmp (s.watch w).nick name = 0)

/-- The calls of `sendto_one_numeric`. -/
def watchCheckHash (now : ℤ) (person : Person) (reply : Reply) (s : State) :
    State × List (ℕ × Notice) :=
  match watchFindHash s person.name with
  | none => (s, [])
  | some w =>
    let watch := { s.watch w with lasttime := now }
    ({ s with watch := update s.watch w watch },
      watch.watchedBy.map fun client => (client, ⟨reply, person, watch.lasttime⟩))

def modifyWatch (w : ℕ) (f : Watch → Watch) (s : State) : State :=
  { s with watch := update s.watch w (f (s.watch w)) }

/-- Both lists get the other's node. -/
def attach (w client : ℕ) (s : State) : State :=
  let s := modifyWatch w (fun watch => { watch with watchedBy := client :: watch.watchedBy }) s
  { s with watches := update s.watches client (w :: s.watches client) }

/-- `new` is what the pool gives. -/
def watchAddToHashTable (now : ℤ) (new : ℕ) (nick : CStr) (client : ℕ) (s : State) : State :=
  match watchFindHash s nick with
  | none =>
    let s := modifyWatch new (fun _ => ⟨strlcpy nick (NICKLEN + 1), [], now⟩) s
    let hashv := strhash s.hashfXorKey (s.watch new).nick
    attach new client { s with watchTable := update s.watchTable hashv (new :: s.watchTable hashv) }
  | some w => if client ∈ (s.watch w).watchedBy then s else attach w client s

/-- An entry that nobody watches is taken out of the table. -/
def dropUnwatched (w : ℕ) (s : State) : State :=
  if (s.watch w).watchedBy = [] then
    let hashv := strhash s.hashfXorKey (s.watch w).nick
    { s with watchTable := update s.watchTable hashv ((s.watchTable hashv).erase w) }
  else s

def leaveWatch (w client : ℕ) (s : State) : State :=
  modifyWatch w (fun watch => { watch with watchedBy := watch.watchedBy.erase client }) s

def leaveClient (w client : ℕ) (s : State) : State :=
  { s with watches := update s.watches client ((s.watches client).erase w) }

def watchDelFromHashTable (nick : CStr) (client : ℕ) (s : State) : State :=
  match watchFindHash s nick with
  | none => s
  | some w =>
    if client ∈ (s.watch w).watchedBy then
      dropUnwatched w (leaveClient w client (leaveWatch w client s))
    else s

def watchDelWatchList (client : ℕ) (s : State) : State :=
  walk (fun s => s.watches client)
    (fun s w => leaveClient w client (dropUnwatched w (leaveWatch w client s)))
    (s.watches client).length s (s.watches client).head?

/-- Of `exit_client`, for a local connection; only a registered client has something to watch. -/
def exitClient (now : ℤ) (person : Person) (client : ℕ) (s : State) : State × List (ℕ × Notice) :=
  match s.status client with
  | some .client =>
    let s := watchDelWatchList client s
    let (s, notices) := watchCheckHash now person .logoff s
    ({ s with status := update s.status client none }, notices)
  | _ => ({ s with status := update s.status client none }, [])

inductive Op where
  | connect (client : ℕ)
  | register (client : ℕ) (status : Status)
  | add (now : ℤ) (new : ℕ) (nick : CStr) (client : ℕ)
  | del (nick : CStr) (client : ℕ)
  | delList (client : ℕ)
  | check (now : ℤ) (person : Person) (reply : Reply)
  | exit (now : ℤ) (person : Person) (client : ℕ)

def step (s : State) : Op → State
  | .connect client =>
    { s with watches := update s.watches client []
             status := update s.status client (some .unknown) }
  | .register client status => { s with status := update s.status client (some status) }
  | .add now new nick client => watchAddToHashTable now new nick client s
  | .del nick client => watchDelFromHashTable nick client s
  | .delList client => watchDelWatchList client s
  | .check now person reply => (watchCheckHash now person reply s).1
  | .exit now person client => (exitClient now person client s).1

/-- A connection is new, or not registered yet; nicks to watch are valid, for clients that are
registered; and the pool gives what is not in the table. -/
def Allowed (s : State) : Op → Prop
  | .connect client => s.status client = none
  | .register client _ => s.status client = some .unknown
  | .add _ new nick client => s.status client = some .client ∧ nick.length ≤ NICKLEN ∧
      ∀ k, new ∉ s.watchTable k
  | _ => True

/-- Who watches which nick, as the commands say. -/
def watchers (r : Set (ℕ × CStr)) : Op → Set (ℕ × CStr)
  | .add _ _ nick client => insert (client, fold nick) r
  | .del nick client => r \ {(client, fold nick)}
  | .delList client | .exit _ _ client => {x ∈ r | x.1 ≠ client}
  | _ => r

inductive Reached : State → Set (ℕ × CStr) → Prop where
  | start (xorKey : BitVec 32) :
      Reached ⟨xorKey, fun _ => ⟨[], [], 0⟩, fun _ => [], fun _ => [], fun _ => none⟩ ∅
  | step (s : State) (r : Set (ℕ × CStr)) (op : Op) (h : Reached s r) (hop : Allowed s op) :
      Reached (step s op) (watchers r op)

def watchedBy (s : State) (w : ℕ) : List ℕ := (s.watch w).watchedBy

def nickOf (s : State) (w : ℕ) : CStr := (s.watch w).nick

/-- The bucket of an entry, if somebody watches it. -/
def bucketOf (s : State) (w : ℕ) : Option ℕ :=
  if watchedBy s w = [] then none else some (strhash s.hashfXorKey (nickOf s w))

structure Inv (s : State) (r : Set (ℕ × CStr)) : Prop where
  paired : Paired s.watches (watchedBy s)
  table : Indexes (bucketOf s) s.watchTable
  shared : ∀ w w', watchedBy s w ≠ [] → watchedBy s w' ≠ [] →
    fold (nickOf s w) = fold (nickOf s w') → w = w'
  relation : ∀ p f, (p, f) ∈ r ↔ ∃ w ∈ s.watches p, fold (nickOf s w) = f
  status : ∀ p, s.watches p ≠ [] → s.status p = some .client

section Inv

variable (s : State) (r : Set (ℕ × CStr)) (h : Inv s r)

include h

theorem watched_of_mem (w p : ℕ) (hw : w ∈ s.watches p) : watchedBy s w ≠ [] :=
  List.ne_nil_of_mem ((h.paired.mem_iff p w).mp hw)

/-- The one entry that folds to the same nick is found, if there is one. -/
theorem watchFindHash_eq (name : CStr) (w : ℕ) :
    watchFindHash s name = some w ↔ watchedBy s w ≠ [] ∧ fold (nickOf s w) = fold name := by
  have hsame : ∀ v, decide (irccmp (s.watch v).nick name = 0) = true ↔
      fold (nickOf s v) = fold name := fun v => by
    rw [decide_eq_true_iff, irccmp_eq_zero_iff]
    rfl
  have hkey : ∀ v, bucketOf s v = some (strhash s.hashfXorKey (nickOf s v)) ↔
      watchedBy s v ≠ [] := fun v => by
    unfold bucketOf
    split
    · next hnil => simp [hnil]
    · next hne => simp [hne]
  constructor
  · intro hfind
    unfold watchFindHash at hfind
    have hp := List.find?_some hfind
    have hmem := (h.table _).2 w |>.mp (List.mem_of_find?_eq_some hfind)
    refine ⟨fun hnil => ?_, (hsame w).mp hp⟩
    unfold bucketOf at hmem
    rw [if_pos hnil] at hmem
    simp at hmem
  · rintro ⟨hne, hfold⟩
    have hhash : strhash s.hashfXorKey name = strhash s.hashfXorKey (nickOf s w) :=
      strhash_congr _ _ _ ((irccmp_eq_zero_iff _ _).mpr hfold.symm)
    unfold watchFindHash
    rw [hhash]
    refine find_eq_some (bucketOf s) s.watchTable w _ h.table _ ((hsame w).mpr hfold)
      ((hkey w).mpr hne) fun v hv hp => ?_
    have hvne : watchedBy s v ≠ [] := by
      intro hnil
      unfold bucketOf at hv
      rw [if_pos hnil] at hv
      simp at hv
    exact h.shared v w hvne hne (((hsame v).mp hp).trans hfold.symm)

theorem watchFindHash_none (name : CStr) (hnone : watchFindHash s name = none) (w : ℕ)
    (hw : watchedBy s w ≠ []) : fold (nickOf s w) ≠ fold name := by
  intro hfold
  rw [(watchFindHash_eq s r h name w).mpr ⟨hw, hfold⟩] at hnone
  simp at hnone

end Inv

def detach (w client : ℕ) (s : State) : State :=
  dropUnwatched w (leaveClient w client (leaveWatch w client s))

theorem detach_comm (w client : ℕ) (s : State) :
    leaveClient w client (dropUnwatched w (leaveWatch w client s)) = detach w client s := by
  unfold detach dropUnwatched leaveClient
  dsimp only
  split <;> rfl

section Detach

variable (w client : ℕ) (s : State)

theorem detach_watches : (detach w client s).watches = unlinked s.watches client w := by
  unfold detach dropUnwatched
  split <;> rfl

theorem detach_watchedBy : watchedBy (detach w client s) = unlinked (watchedBy s) w client := by
  have hsame : watchedBy (detach w client s) = watchedBy (leaveWatch w client s) := by
    unfold detach dropUnwatched
    split <;> rfl
  rw [hsame]
  funext v
  unfold unlinked watchedBy leaveWatch modifyWatch
  by_cases hv : v = w
  · subst hv
    simp
  · simp [hv]

theorem detach_nickOf : nickOf (detach w client s) = nickOf s := by
  have hsame : nickOf (detach w client s) = nickOf (leaveWatch w client s) := by
    unfold detach dropUnwatched
    split <;> rfl
  rw [hsame]
  funext v
  unfold nickOf leaveWatch modifyWatch
  by_cases hv : v = w
  · subst hv
    simp
  · simp [hv]

theorem detach_key : (detach w client s).hashfXorKey = s.hashfXorKey := by
  unfold detach dropUnwatched
  split <;> rfl

theorem detach_status : (detach w client s).status = s.status := by
  unfold detach dropUnwatched
  split <;> rfl

theorem detach_table (hindexes : Indexes (bucketOf s) s.watchTable) (hw : watchedBy s w ≠ []) :
    Indexes (bucketOf (detach w client s)) (detach w client s).watchTable := by
  have hbucket : bucketOf s w = some (strhash s.hashfXorKey (nickOf s w)) := if_neg hw
  have hother : ∀ v, v ≠ w → bucketOf (detach w client s) v = bucketOf s v := by
    intro v hv
    unfold bucketOf
    rw [detach_watchedBy, detach_nickOf, detach_key]
    unfold unlinked
    rw [update_of_ne hv]
  have hself : watchedBy (detach w client s) w = (watchedBy s w).erase client := by
    rw [detach_watchedBy]
    exact update_self ..
  have hleft : ((leaveClient w client (leaveWatch w client s)).watch w).watchedBy =
      (watchedBy s w).erase client := by
    unfold leaveClient leaveWatch modifyWatch
    dsimp only
    rw [update_self]
    rfl
  have hnick : ((leaveClient w client (leaveWatch w client s)).watch w).nick = nickOf s w := by
    unfold leaveClient leaveWatch modifyWatch
    dsimp only
    rw [update_self]
    rfl
  by_cases hnil : (watchedBy s w).erase client = []
  · have htable : (detach w client s).watchTable =
        update s.watchTable (strhash s.hashfXorKey (nickOf s w))
          ((s.watchTable (strhash s.hashfXorKey (nickOf s w))).erase w) := by
      unfold detach dropUnwatched
      rw [if_pos (hleft.trans hnil), hnick]
      rfl
    have hkey : bucketOf (detach w client s) = update (bucketOf s) w none := by
      funext v
      by_cases hv : v = w
      · subst hv
        rw [update_self]
        exact if_pos (hself.trans hnil)
      · rw [update_of_ne hv, hother v hv]
    rw [htable, hkey]
    exact indexes_delete (bucketOf s) s.watchTable w _ hindexes hbucket
  · have htable : (detach w client s).watchTable = s.watchTable := by
      unfold detach dropUnwatched
      rw [if_neg fun heq => hnil (hleft.symm.trans heq)]
      rfl
    have hkey : bucketOf (detach w client s) = bucketOf s := by
      funext v
      by_cases hv : v = w
      · subst hv
        rw [hbucket]
        unfold bucketOf
        rw [if_neg fun heq => hnil (hself.symm.trans heq), detach_nickOf, detach_key]
      · exact hother v hv
    rw [htable, hkey]
    exact hindexes

theorem detach_inv (r : Set (ℕ × CStr)) (h : Inv s r) (hw : w ∈ s.watches client) :
    Inv (detach w client s) (r \ {(client, fold (nickOf s w))}) := by
  have hne := watched_of_mem s r h w client hw
  have hsub : ∀ v, watchedBy (detach w client s) v ≠ [] → watchedBy s v ≠ [] := by
    intro v hv hnil
    rw [detach_watchedBy] at hv
    unfold unlinked at hv
    by_cases hvw : v = w
    · subst hvw
      exact hne hnil
    · rw [update_of_ne hvw] at hv
      exact hv hnil
  have hmem := fun p v => mem_unlinked h.paired.left_nodup client p w v
  refine ⟨?_, detach_table w client s h.table hne, fun v v' hv hv' => ?_, fun p f => ?_,
    fun p hp => ?_⟩
  · rw [detach_watches, detach_watchedBy]
    exact h.paired.unlink client w
  · rw [detach_nickOf]
    exact h.shared v v' (hsub v hv) (hsub v' hv')
  · rw [detach_watches, detach_nickOf, Set.mem_sdiff, Set.mem_singleton_iff, h.relation,
      Prod.mk.injEq]
    constructor
    · rintro ⟨⟨v, hv, hf⟩, hnot⟩
      refine ⟨v, (hmem p v).mpr ⟨hv, fun heq => hnot ⟨heq.1, ?_⟩⟩, hf⟩
      rw [← hf, heq.2]
    · rintro ⟨v, hv, hf⟩
      obtain ⟨hv, hnot⟩ := (hmem p v).mp hv
      refine ⟨⟨v, hv, hf⟩, fun heq => hnot ⟨heq.1, ?_⟩⟩
      exact h.shared v w (watched_of_mem s r h v p hv) hne (hf.trans heq.2)
  · rw [detach_status]
    refine h.status p fun hnil => hp ?_
    rw [detach_watches]
    refine List.eq_nil_iff_forall_not_mem.mpr fun v hv => ?_
    have hold := ((hmem p v).mp hv).1
    rw [hnil] at hold
    exact List.not_mem_nil hold

end Detach

section Attach

variable (s : State) (r : Set (ℕ × CStr)) (h : Inv s r) (w client : ℕ) (nick : CStr)

include h

theorem linked_inv (s' : State) (hw : w ∉ s.watches client)
    (hwatches : s'.watches = linked s.watches client w)
    (hby : watchedBy s' = linked (watchedBy s) w client)
    (hnick : ∀ v, watchedBy s v ≠ [] → nickOf s' v = nickOf s v)
    (hself : fold (nickOf s' w) = fold nick)
    (hone : ∀ v, watchedBy s v ≠ [] → fold (nickOf s v) = fold nick → v = w)
    (htable : Indexes (bucketOf s') s'.watchTable) (hstatus : s'.status = s.status)
    (hclient : s.status client = some .client) : Inv s' (insert (client, fold nick) r) := by
  have hcases : ∀ v, watchedBy s' v ≠ [] → v = w ∨ watchedBy s v ≠ [] := by
    intro v hv
    by_cases hvw : v = w
    · exact Or.inl hvw
    · rw [hby] at hv
      unfold linked at hv
      rw [update_of_ne hvw] at hv
      exact Or.inr hv
  have hfold : ∀ v v', watchedBy s v ≠ [] → v' = w → fold (nickOf s' v) = fold (nickOf s' v') →
      v = w := by
    intro v v' hv hv' heq
    rw [hnick v hv, hv', hself] at heq
    exact hone v hv heq
  refine ⟨?_, htable, fun v v' hv hv' heq => ?_, fun p f => ?_, fun p hp => ?_⟩
  · rw [hwatches, hby]
    exact h.paired.link client w hw
  · rcases hcases v hv with hvw | hvs
    · rcases hcases v' hv' with hvw' | hvs'
      · rw [hvw, hvw']
      · rw [hvw, hfold v' v hvs' hvw heq.symm]
    · rcases hcases v' hv' with hvw' | hvs'
      · rw [hvw', hfold v v' hvs hvw' heq]
      · rw [hnick v hvs, hnick v' hvs'] at heq
        exact h.shared v v' hvs hvs' heq
  · rw [Set.mem_insert_iff, h.relation, Prod.mk.injEq]
    constructor
    · rintro (⟨rfl, rfl⟩ | ⟨v, hv, hf⟩)
      · exact ⟨w, by rw [hwatches, mem_linked]; exact Or.inr ⟨rfl, rfl⟩, hself⟩
      · refine ⟨v, by rw [hwatches, mem_linked]; exact Or.inl hv, ?_⟩
        rw [hnick v (watched_of_mem s r h v p hv), hf]
    · rintro ⟨v, hv, hf⟩
      rw [hwatches, mem_linked] at hv
      rcases hv with hv | ⟨rfl, rfl⟩
      · rw [hnick v (watched_of_mem s r h v p hv)] at hf
        exact Or.inr ⟨v, hv, hf⟩
      · exact Or.inl ⟨rfl, hf.symm.trans hself⟩
  · rw [hstatus]
    by_cases hpc : p = client
    · rw [hpc]
      exact hclient
    · refine h.status p fun hnil => hp ?_
      rw [hwatches]
      unfold linked
      rw [update_of_ne hpc, hnil]

theorem not_watched (new : ℕ) (hnew : ∀ k, new ∉ s.watchTable k) : watchedBy s new = [] := by
  by_contra hne
  have hmem := (h.table (strhash s.hashfXorKey (nickOf s new))).2 new
  exact hnew _ (hmem.mpr (if_neg hne))

theorem attach_inv (hw : w ∉ s.watches client) (hne : watchedBy s w ≠ [])
    (hfold : fold (nickOf s w) = fold nick) (hclient : s.status client = some .client) :
    Inv (attach w client s) (insert (client, fold nick) r) := by
  have hby : watchedBy (attach w client s) = linked (watchedBy s) w client := by
    funext v
    unfold watchedBy attach modifyWatch linked
    by_cases hv : v = w
    · subst hv
      simp
    · simp [hv]
  have hnick : nickOf (attach w client s) = nickOf s := by
    funext v
    unfold nickOf attach modifyWatch
    by_cases hv : v = w
    · subst hv
      simp
    · simp [hv]
  have hkey : bucketOf (attach w client s) = bucketOf s := by
    funext v
    unfold bucketOf
    rw [hby, hnick]
    unfold linked
    by_cases hv : v = w
    · subst hv
      rw [update_self, if_neg (List.cons_ne_nil _ _), if_neg hne]
      rfl
    · rw [update_of_ne hv]
      rfl
  refine linked_inv s r h w client nick _ hw rfl hby (fun v _ => by rw [hnick]) (by rw [hnick, hfold])
    (fun v hv heq => h.shared v w hv hne (heq.trans hfold.symm)) ?_ rfl hclient
  rw [hkey]
  exact h.table

theorem attach_new_inv (now : ℤ) (new : ℕ) (hnew : ∀ k, new ∉ s.watchTable k)
    (hnone : watchFindHash s nick = none) (hlen : nick.length ≤ NICKLEN)
    (hclient : s.status client = some .client) :
    Inv (watchAddToHashTable now new nick client s) (insert (client, fold nick) r) := by
  have hunwatched := not_watched s r h new hnew
  have hw : new ∉ s.watches client := fun hmem => watched_of_mem s r h new client hmem hunwatched
  have hstored : strlcpy nick (NICKLEN + 1) = nick := strlcpy_of_le nick NICKLEN hlen
  unfold watchAddToHashTable
  rw [hnone, hstored]
  dsimp only
  generalize hs' : attach new client _ = s'
  have hby : watchedBy s' = linked (watchedBy s) new client := by
    funext v
    subst hs'
    unfold watchedBy attach modifyWatch linked
    by_cases hv : v = new
    · subst hv
      simpa [watchedBy] using hunwatched.symm
    · simp [hv]
  have hnick : nickOf s' = update (nickOf s) new nick := by
    funext v
    subst hs'
    unfold nickOf attach modifyWatch
    by_cases hv : v = new
    · subst hv
      simp
    · simp [hv]
  have hkey : bucketOf s' = update (bucketOf s) new (some (strhash s.hashfXorKey nick)) := by
    have hxor : s'.hashfXorKey = s.hashfXorKey := by
      subst hs'
      rfl
    funext v
    unfold bucketOf
    rw [hby, hnick, hxor]
    unfold linked
    by_cases hv : v = new
    · subst hv
      rw [update_self, update_self, update_self, if_neg (List.cons_ne_nil _ _)]
    · rw [update_of_ne hv, update_of_ne hv, update_of_ne hv]
  have htable : s'.watchTable = update s.watchTable (strhash s.hashfXorKey nick)
      (new :: s.watchTable (strhash s.hashfXorKey nick)) := by
    subst hs'
    unfold attach modifyWatch
    dsimp only
    rw [update_self]
  refine linked_inv s r h new client nick s' hw (by subst hs'; rfl) hby (fun v hv => ?_) ?_
    (fun v hv heq => absurd heq (watchFindHash_none s r h nick hnone v hv)) ?_ (by subst hs'; rfl)
    hclient
  · have hne : v ≠ new := fun heq => hv (heq ▸ hunwatched)
    rw [hnick, update_of_ne hne]
  · rw [hnick, update_self]
  · rw [hkey, htable]
    exact indexes_insert (bucketOf s) s.watchTable new _ h.table (if_pos hunwatched)

end Attach

section Operations

variable (s : State) (r : Set (ℕ × CStr)) (h : Inv s r) (client : ℕ)

include h

theorem watchAdd_inv (now : ℤ) (new : ℕ) (nick : CStr) (hnew : ∀ k, new ∉ s.watchTable k)
    (hlen : nick.length ≤ NICKLEN) (hclient : s.status client = some .client) :
    Inv (watchAddToHashTable now new nick client s) (insert (client, fold nick) r) := by
  cases hfind : watchFindHash s nick with
  | none => exact attach_new_inv s r h client nick now new hnew hfind hlen hclient
  | some w =>
    obtain ⟨hne, hfold⟩ := (watchFindHash_eq s r h nick w).mp hfind
    unfold watchAddToHashTable
    rw [hfind]
    dsimp only
    split
    · next hmem =>
      have hold : (client, fold nick) ∈ r :=
        (h.relation _ _).mpr ⟨w, (h.paired.mem_iff client w).mpr hmem, hfold⟩
      rwa [Set.insert_eq_of_mem hold]
    · next hnot =>
      have hw : w ∉ s.watches client := fun hmem => hnot ((h.paired.mem_iff client w).mp hmem)
      exact attach_inv s r h w client nick hw hne hfold hclient

theorem watchDel_inv (nick : CStr) :
    Inv (watchDelFromHashTable nick client s) (r \ {(client, fold nick)}) := by
  have hkeep : (client, fold nick) ∉ r → r \ {(client, fold nick)} = r := fun hnot =>
    Set.sdiff_singleton_eq_self hnot
  unfold watchDelFromHashTable
  cases hfind : watchFindHash s nick with
  | none =>
    rw [hkeep fun hmem => ?_]
    · exact h
    · obtain ⟨w, hw, hf⟩ := (h.relation _ _).mp hmem
      exact watchFindHash_none s r h nick hfind w (watched_of_mem s r h w client hw) hf
  | some w =>
    obtain ⟨hne, hfold⟩ := (watchFindHash_eq s r h nick w).mp hfind
    dsimp only
    split
    · next hmem =>
      rw [← hfold]
      exact detach_inv w client s r h ((h.paired.mem_iff client w).mpr hmem)
    · next hnot =>
      rw [hkeep fun hmem => ?_]
      · exact h
      · obtain ⟨v, hv, hf⟩ := (h.relation _ _).mp hmem
        have hvw := h.shared v w (watched_of_mem s r h v client hv) hne (hf.trans hfold.symm)
        exact hnot ((h.paired.mem_iff client w).mp (hvw ▸ hv))

/-- All that the client watches is taken off, one after the other. -/
theorem watchDelWatchList_inv :
    Inv (watchDelWatchList client s) {x ∈ r | x.1 ≠ client} ∧
      (watchDelWatchList client s).watches client = [] ∧
      (watchDelWatchList client s).status = s.status := by
  have hbody : (fun s w => leaveClient w client (dropUnwatched w (leaveWatch w client s))) =
      fun s w => detach w client s := by
    funext s w
    exact detach_comm w client s
  obtain ⟨hwalk, ⟨r', hinv, hrest, hstatus⟩, hnil⟩ :=
    walk_eq_foldl (fun s : State => s.watches client) (fun s w => detach w client s)
      (fun t => ∃ r', Inv t r' ∧ (∀ p f, p ≠ client → ((p, f) ∈ r' ↔ (p, f) ∈ r)) ∧
        t.status = s.status)
      (fun t w ⟨r', hinv, hrest, hstatus⟩ hw => by
        refine ⟨_, detach_inv w client t r' hinv hw, fun p f hp => ?_,
          (detach_status w client t).trans hstatus⟩
        rw [Set.mem_sdiff, Set.mem_singleton_iff, Prod.mk.injEq, ← hrest p f hp]
        exact and_iff_left fun heq => hp heq.1)
      (fun t w _ _ => by
        rw [detach_watches]
        exact update_self ..)
      s ⟨r, h, fun _ _ _ => Iff.rfl, rfl⟩
  have hset : r' = {x ∈ r | x.1 ≠ client} := by
    ext ⟨p, f⟩
    rw [Set.mem_sep_iff]
    by_cases hp : p = client
    · subst hp
      refine iff_of_false (fun hmem => ?_) fun hmem => hmem.2 rfl
      obtain ⟨w, hw, -⟩ := (hinv.relation p f).mp hmem
      rw [hnil] at hw
      exact List.not_mem_nil hw
    · rw [hrest p f hp]
      exact (and_iff_left hp).symm
  unfold watchDelWatchList
  rw [hbody, hwalk, ← hset]
  exact ⟨hinv, hnil, hstatus⟩

theorem watchCheck_inv (now : ℤ) (person : Person) (reply : Reply) :
    Inv (watchCheckHash now person reply s).1 r := by
  unfold watchCheckHash
  cases hfind : watchFindHash s person.name with
  | none => exact h
  | some w =>
    have hby : watchedBy { s with watch := update s.watch w { s.watch w with lasttime := now } } =
        watchedBy s := by
      funext v
      unfold watchedBy
      by_cases hv : v = w
      · subst hv
        simp
      · simp [hv]
    have hnick : nickOf { s with watch := update s.watch w { s.watch w with lasttime := now } } =
        nickOf s := by
      funext v
      unfold nickOf
      by_cases hv : v = w
      · subst hv
        simp
      · simp [hv]
    have hkey : bucketOf { s with watch := update s.watch w { s.watch w with lasttime := now } } =
        bucketOf s := by
      funext v
      unfold bucketOf
      rw [hby, hnick]
    refine ⟨?_, ?_, fun v v' hv hv' heq => ?_, fun p f => ?_, h.status⟩
    · rw [hby]
      exact h.paired
    · rw [hkey]
      exact h.table
    · rw [hby] at hv hv'
      rw [hnick] at heq
      exact h.shared v v' hv hv' heq
    · rw [hnick]
      exact h.relation p f

theorem watchCheck_told (now : ℤ) (person : Person) (reply : Reply) :
    ((watchCheckHash now person reply s).2.map Prod.fst).Nodup ∧
      ∀ p notice, (p, notice) ∈ (watchCheckHash now person reply s).2 ↔
        (p, fold person.name) ∈ r ∧ notice = ⟨reply, person, now⟩ := by
  unfold watchCheckHash
  cases hfind : watchFindHash s person.name with
  | none =>
    refine ⟨List.nodup_nil, fun p notice => iff_of_false List.not_mem_nil fun hmem => ?_⟩
    obtain ⟨w, hw, hf⟩ := (h.relation _ _).mp hmem.1
    exact watchFindHash_none s r h _ hfind w (watched_of_mem s r h w p hw) hf
  | some w =>
    obtain ⟨hne, hfold⟩ := (watchFindHash_eq s r h _ w).mp hfind
    have hwatcher : ∀ p, p ∈ (s.watch w).watchedBy ↔ (p, fold person.name) ∈ r := by
      intro p
      rw [h.relation]
      constructor
      · exact fun hp => ⟨w, (h.paired.mem_iff p w).mpr hp, hfold⟩
      · rintro ⟨v, hv, hf⟩
        have hvw := h.shared v w (watched_of_mem s r h v p hv) hne (hf.trans hfold.symm)
        exact (h.paired.mem_iff p w).mp (hvw ▸ hv)
    refine ⟨?_, fun p notice => ?_⟩
    · dsimp only
      rw [List.map_map]
      have hid : (Prod.fst ∘ fun client : ℕ => (client, (⟨reply, person, now⟩ : Notice))) = id := rfl
      rw [hid, List.map_id]
      exact h.paired.right_nodup w
    · dsimp only
      rw [List.mem_map, ← hwatcher p]
      constructor
      · rintro ⟨q, hq, heq⟩
        obtain ⟨rfl, rfl⟩ := Prod.mk.inj heq
        exact ⟨hq, rfl⟩
      · rintro ⟨hp, rfl⟩
        exact ⟨p, hp, rfl⟩

theorem status_inv (hnil : s.watches client = []) (status : Option Status) :
    Inv { s with status := update s.status client status } r := by
  refine ⟨h.paired, h.table, h.shared, h.relation, fun p hp => ?_⟩
  have hne : p ≠ client := fun heq => hp (heq ▸ hnil)
  exact (update_of_ne hne _ _).trans (h.status p hp)

theorem watches_nil (hclient : s.status client ≠ some .client) : s.watches client = [] := by
  by_contra hne
  exact hclient (h.status client hne)

theorem exit_inv (now : ℤ) (person : Person) :
    Inv (exitClient now person client s).1 {x ∈ r | x.1 ≠ client} ∧
      (exitClient now person client s).1.watches client = [] := by
  by_cases hclient : s.status client = some .client
  · obtain ⟨hinv, hnil, -⟩ := watchDelWatchList_inv s r h client
    have hchecked := watchCheck_inv _ _ hinv now person .logoff
    have hwatches : (watchCheckHash now person .logoff (watchDelWatchList client s)).1.watches =
        (watchDelWatchList client s).watches := by
      unfold watchCheckHash
      split <;> rfl
    have hnil' : (watchCheckHash now person .logoff (watchDelWatchList client s)).1.watches client =
        [] := by
      rw [hwatches, hnil]
    unfold exitClient
    rw [hclient]
    exact ⟨status_inv _ _ hchecked client hnil' none, hnil'⟩
  · have hnil := watches_nil s r h client hclient
    have hset : {x ∈ r | x.1 ≠ client} = r := by
      refine Set.sep_eq_self_iff_mem_true.mpr fun x hx heq => ?_
      obtain ⟨w, hw, -⟩ := (h.relation x.1 x.2).mp hx
      rw [heq, hnil] at hw
      exact List.not_mem_nil hw
    have hexit : (exitClient now person client s).1 =
        { s with status := update s.status client none } := by
      unfold exitClient
      cases hs : s.status client with
      | none => rfl
      | some status =>
        cases status with
        | unknown => rfl
        | server => rfl
        | client => exact absurd hs hclient
    rw [hexit, hset]
    exact ⟨status_inv s r h client hnil none, hnil⟩

theorem step_inv (op : Op) (hop : Allowed s op) : Inv (step s op) (watchers r op) := by
  cases op with
  | connect client =>
    have hnil := watches_nil s r h client (by rw [show s.status client = none from hop]; simp)
    have hsame : update s.watches client [] = s.watches := update_eq_self_iff.mpr hnil.symm
    dsimp only [step]
    rw [hsame]
    exact status_inv s r h client hnil _
  | register client status =>
    have hnil := watches_nil s r h client
      (by rw [show s.status client = some .unknown from hop]; simp)
    exact status_inv s r h client hnil _
  | add now new nick client => exact watchAdd_inv s r h client now new nick hop.2.2 hop.2.1 hop.1
  | del nick client => exact watchDel_inv s r h client nick
  | delList client => exact (watchDelWatchList_inv s r h client).1
  | check now person reply => exact watchCheck_inv s r h now person reply
  | exit now person client => exact (exit_inv s r h client now person).1

end Operations

theorem reached_inv (s : State) (r : Set (ℕ × CStr)) (h : Reached s r) : Inv s r := by
  induction h with
  | start xorKey =>
    exact ⟨paired_empty, fun _ => ⟨List.nodup_nil, fun _ => by simp [bucketOf, watchedBy]⟩,
      fun _ _ hw => absurd rfl hw, fun _ _ => by simp, fun _ hp => absurd rfl hp⟩
  | step s r op _ hop ih => exact step_inv s r ih op hop

/-- After every run a client is on the list of an entry exactly when the entry is on his, and
nothing is on a list twice; an entry is in the table, in the bucket of its nick, exactly while
somebody watches it, and nicks that fold to the same share one. Whom the commands have made a
watcher of a nick is told of it, once, and nobody else; and who leaves is on no list. -/
theorem watch_symmetric (s : State) (r : Set (ℕ × CStr)) (h : Reached s r) :
    (∀ p w, w ∈ s.watches p ↔ p ∈ (s.watch w).watchedBy) ∧
    (∀ p, (s.watches p).Nodup) ∧ (∀ w, (s.watch w).watchedBy.Nodup) ∧
    (∀ k, (s.watchTable k).Nodup ∧ ∀ w, w ∈ s.watchTable k ↔
      (s.watch w).watchedBy ≠ [] ∧ k = strhash s.hashfXorKey (s.watch w).nick) ∧
    (∀ w w', (s.watch w).watchedBy ≠ [] → (s.watch w').watchedBy ≠ [] →
      irccmp (s.watch w).nick (s.watch w').nick = 0 → w = w') ∧
    (∀ p nick, (p, fold nick) ∈ r ↔ ∃ w ∈ s.watches p, irccmp (s.watch w).nick nick = 0) ∧
    (∀ now person reply, ((watchCheckHash now person reply s).2.map Prod.fst).Nodup ∧
      ∀ p notice, (p, notice) ∈ (watchCheckHash now person reply s).2 ↔
        (p, fold person.name) ∈ r ∧ notice = ⟨reply, person, now⟩) ∧
    ∀ now person p, (exitClient now person p s).1.watches p = [] := by
  have hinv := reached_inv s r h
  refine ⟨hinv.paired.mem_iff, hinv.paired.left_nodup, hinv.paired.right_nodup,
    fun k => ⟨(hinv.table k).1, fun w => ?_⟩, fun w w' hw hw' hcmp => ?_, fun p nick => ?_,
    watchCheck_told s r hinv, fun now person p => (exit_inv s r hinv p now person).2⟩
  · rw [(hinv.table k).2 w]
    unfold bucketOf
    split
    · next hnil => exact iff_of_false (by simp) fun hboth => hboth.1 hnil
    · next hne =>
      rw [Option.some.injEq, eq_comm]
      exact (and_iff_right hne).symm
  · exact hinv.shared w w' hw hw' ((irccmp_eq_zero_iff _ _).mp hcmp)
  · rw [hinv.relation]
    simp only [irccmp_eq_zero_iff]
    rfl

/-- Client 1 watches Bob. -/
def oneWatcher : State :=
  [Op.connect 1, .register 1 .client, .add 100 7 "Bob".toList 1].foldl step
    ⟨0, fun _ => ⟨[], [], 0⟩, fun _ => [], fun _ => [], fun _ => none⟩

theorem oneWatcher_reached : Reached oneWatcher (insert (1, fold "Bob".toList) ∅) := by
  refine Reached.step _ _ (.add 100 7 "Bob".toList 1) (Reached.step _ _ (.register 1 .client)
    (Reached.step _ _ (.connect 1) (Reached.start 0) rfl) rfl) ⟨rfl, by decide, fun k => ?_⟩
  exact List.not_mem_nil

theorem watch_symmetric_bob :
    (1, ⟨.logon, ⟨"bOB".toList, [], [], []⟩, 200⟩) ∈
      (watchCheckHash 200 ⟨"bOB".toList, [], [], []⟩ .logon oneWatcher).2 :=
  (((watch_symmetric _ _ oneWatcher_reached).2.2.2.2.2.2.1 200 ⟨"bOB".toList, [], [], []⟩
    .logon).2 1 _).mpr ⟨Set.mem_insert_iff.mpr (Or.inl (by decide)), rfl⟩

end IrcdHybrid.WatchTable
