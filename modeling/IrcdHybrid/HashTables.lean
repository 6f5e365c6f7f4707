import IrcdHybrid.MemberInvariant
import IrcdHybrid.NameTables
import Mathlib.Data.Set.Insert

/-!
The tables of `hash.c` that find clients by name, clients by identifier and channels by name.
Whatever is added, taken out and looked for, each table is the map from the keys of what has
been added and not yet taken out, and its chains hold just that.
-/

namespace IrcdHybrid.HashTables

open CString MemberLists MemberInvariant HashChains NameTables Function

inductive Status where
  | connecting
  | handshake
  | me
  | unknown
  | server
  | client
  deriving DecidableEq, Repr

structure Client where
  name : CStr
  id : CStr
  status : Status

/-- The objects at their addresses, which are below `top`, and the tables. A channel is its
name. -/
structure State where
  hashfXorKey : BitVec 32
  client : ℕ → Client
  channel : ℕ → CStr
  clientTable : Chains ℕ ℕ
  idTable : Chains ℕ ℕ
  channelTable : Chains ℕ ℕ
  top : ℕ

def isServer (s : State) (p : ℕ) : Bool := (s.client p).status == .server

def isMe (s : State) (p : ℕ) : Bool := (s.client p).status == .me

def hashOf (s : State) (key : CStr) : ℕ := strhash s.hashfXorKey key

def hashAddClient (s : State) (p : ℕ) : State :=
  { s with clientTable := s.clientTable.add (hashOf s (s.client p).name) p }

def hashAddChannel (s : State) (p : ℕ) : State :=
  { s with channelTable := s.channelTable.add (hashOf s (s.channel p)) p }

def hashAddId (s : State) (p : ℕ) : State :=
  { s with idTable := s.idTable.add (hashOf s (s.client p).id) p }

def hashDelId (s : State) (p : ℕ) : State :=
  { s with idTable := s.idTable.del s.top (hashOf s (s.client p).id) p }

def hashDelClient (s : State) (p : ℕ) : State :=
  { s with clientTable := s.clientTable.del s.top (hashOf s (s.client p).name) p }

def hashDelChannel (s : State) (p : ℕ) : State :=
  { s with channelTable := s.channelTable.del s.top (hashOf s (s.channel p)) p }

def hashFindClient (s : State) (name : CStr) : Option ℕ × State :=
  let (found, table) := s.clientTable.find s.top (hashOf s name)
    (fun p => decide (irccmp name (s.client p).name = 0))
  (found, { s with clientTable := table })

def hashFindId (s : State) (name : CStr) : Option ℕ × State :=
  let (found, table) := s.idTable.find s.top (hashOf s name)
    (fun p => decide (name = (s.client p).id))
  (found, { s with idTable := table })

def IRC_MAXSID : ℕ := 3

/-- A digit first, and as long as the identifier of a server. -/
def sidForm (name : CStr) : Bool := startsWithDigit name && decide (name.length = IRC_MAXSID)

def hashFindServer (s : State) (name : CStr) : Option ℕ × State :=
  if sidForm name then hashFindId s name
  else
    let (found, table) := s.clientTable.find s.top (hashOf s name)
      (fun p => (isServer s p || isMe s p) && decide (irccmp name (s.client p).name = 0))
    (found, { s with clientTable := table })

def hashFindChannel (s : State) (name : CStr) : Option ℕ × State :=
  let (found, table) := s.channelTable.find s.top (hashOf s name)
    (fun p => decide (irccmp name (s.channel p) = 0))
  (found, { s with channelTable := table })

/-- The table finds what is in use by its key; `canon` is the same for keys that are compared as
equal. -/
structure Implements (canon : CStr → CStr) (xorKey : BitVec 32) (top : ℕ) (key : ℕ → CStr)
    (live : Set ℕ) (t : Chains ℕ ℕ) : Prop where
  table : Table t (fun p => strhash xorKey (key p)) top
  mem_iff : ∀ p, p ∈ live ↔ ¬ Off t p
  distinct : ∀ p ∈ live, ∀ q ∈ live, canon (key p) = canon (key q) → p = q

/-- Each chain has what belongs there, each object once. -/
def Chained (xorKey : BitVec 32) (key : ℕ → CStr) (live : Set ℕ) (t : Chains ℕ ℕ) : Prop :=
  ∀ k, ∃ l, Spells t.next (t.head k) l ∧ l.Nodup ∧
    ∀ p, p ∈ l ↔ p ∈ live ∧ strhash xorKey (key p) = k

/-- What is found comes first in its chain, and that is all. -/
def Fronted (k : ℕ) (found : Option ℕ) (t t' : Chains ℕ ℕ) : Prop :=
  ∀ k' l, Spells t.next (t.head k') l →
    Spells t'.next (t'.head k') (if k' = k then toFront found l else l)

section Implements

variable (canon : CStr → CStr) (xorKey : BitVec 32) (top : ℕ) (key : ℕ → CStr) (live : Set ℕ)
  (t : Chains ℕ ℕ)

theorem implements_empty : Implements canon xorKey top key ∅ empty where
  table := table_empty _ top
  mem_iff _ := iff_of_false (Set.notMem_empty _) (fun h => h rfl)
  distinct _ hp := absurd hp (Set.notMem_empty _)

variable (h : Implements canon xorKey top key live t)

include h

theorem implements_chained : Chained xorKey key live t := by
  intro k
  obtain ⟨l, hspells, hnodup, hmem⟩ := table_chain t _ top h.table k
  exact ⟨l, hspells, hnodup, fun p => by rw [hmem, h.mem_iff]⟩

theorem implements_add (p : ℕ) (hlt : p < top) (hp : p ∉ live)
    (hnew : ∀ q ∈ live, canon (key p) ≠ canon (key q)) :
    Implements canon xorKey top key (insert p live) (t.add (strhash xorKey (key p)) p) := by
  have hoff : Off t p := by
    by_contra hon
    exact hp ((h.mem_iff p).mpr hon)
  obtain ⟨htable, hiff⟩ := table_add t _ top h.table p hoff hlt
  refine ⟨htable, fun q => ?_, fun q hq r hr heq => ?_⟩
  · rw [hiff, Set.mem_insert_iff, h.mem_iff]
    tauto
  · rcases Set.mem_insert_iff.mp hq with hqp | hq
    · rcases Set.mem_insert_iff.mp hr with hrp | hr
      · rw [hqp, hrp]
      · rw [hqp] at heq
        exact absurd heq (hnew r hr)
    · rcases Set.mem_insert_iff.mp hr with hrp | hr
      · rw [hrp] at heq
        exact absurd heq.symm (hnew q hq)
      · exact h.distinct q hq r hr heq

theorem implements_del (p : ℕ) :
    Implements canon xorKey top key (live \ {p}) (t.del top (strhash xorKey (key p)) p) := by
  obtain ⟨htable, hiff, -⟩ := table_del t _ top h.table p
  refine ⟨htable, fun q => ?_, fun q hq r hr => h.distinct q hq.1 r hr.1⟩
  rw [hiff, Set.mem_sdiff, Set.mem_singleton_iff, h.mem_iff]
  tauto

theorem implements_find (k : ℕ) (wanted : ℕ → Bool) :
    Implements canon xorKey top key live (t.find top k wanted).2 ∧
      Fronted k (t.find top k wanted).1 t (t.find top k wanted).2 := by
  obtain ⟨htable, hiff⟩ := table_find t _ top h.table k wanted
  exact ⟨⟨htable, fun q => by rw [hiff, h.mem_iff], h.distinct⟩, table_front t _ top h.table k wanted⟩

/-- The object with the key is found if it is wanted, and nothing else is. -/
theorem implements_found (name : CStr) (wanted : ℕ → Bool)
    (hhash : ∀ a b, canon a = canon b → strhash xorKey a = strhash xorKey b)
    (hwanted : ∀ p, wanted p = true → canon name = canon (key p)) (p : ℕ) :
    (t.find top (strhash xorKey name) wanted).1 = some p ↔ p ∈ live ∧ wanted p = true := by
  obtain ⟨hsound, hcomplete⟩ := table_found t _ top h.table (strhash xorKey name) wanted
  have hlive : ∀ q, ¬ Off t q ↔ q ∈ live := fun q => (h.mem_iff q).symm
  constructor
  · intro hp
    obtain ⟨hon, -, hw⟩ := hsound p hp
    exact ⟨(hlive p).mp hon, hw⟩
  · rintro ⟨hp, hw⟩
    cases hfind : (t.find top (strhash xorKey name) wanted).1 with
    | none =>
      have hno := hcomplete hfind p ((hlive p).mpr hp) (hhash _ _ (hwanted p hw)).symm
      rw [hw] at hno
      simp at hno
    | some q =>
      obtain ⟨hon, -, hq⟩ := hsound q hfind
      have heq := (hwanted q hq).symm.trans (hwanted p hw)
      rw [h.distinct q ((hlive q).mp hon) p hp heq]

theorem implements_rename (key' : ℕ → CStr) (hsame : ∀ p ∈ live, key' p = key p) :
    Implements canon xorKey top key' live t := by
  refine ⟨table_rename t _ top h.table _ fun p hp => ?_, h.mem_iff, fun p hp q hq heq => ?_⟩
  · rw [hsame p ((h.mem_iff p).mpr hp)]
  · rw [hsame p hp, hsame q hq] at heq
    exact h.distinct p hp q hq heq

end Implements

/-- What is done with the tables, and what becomes of the objects meanwhile. -/
inductive Op where
  | addClient (p : ℕ)
  | delClient (p : ℕ)
  | addId (p : ℕ)
  | delId (p : ℕ)
  | addChannel (p : ℕ)
  | delChannel (p : ℕ)
  | findClient (name : CStr)
  | findId (name : CStr)
  | findServer (name : CStr)
  | findChannel (name : CStr)
  | setName (p : ℕ) (name : CStr)
  | setId (p : ℕ) (id : CStr)
  | setStatus (p : ℕ) (status : Status)
  | nameChannel (p : ℕ) (name : CStr)

def modifyClient (s : State) (p : ℕ) (f : Client → Client) : State :=
  { s with client := update s.client p (f (s.client p)) }

def step (s : State) : Op → State
  | .addClient p => hashAddClient s p
  | .delClient p => hashDelClient s p
  | .addId p => hashAddId s p
  | .delId p => hashDelId s p
  | .addChannel p => hashAddChannel s p
  | .delChannel p => hashDelChannel s p
  | .findClient name => (hashFindClient s name).2
  | .findId name => (hashFindId s name).2
  | .findServer name => (hashFindServer s name).2
  | .findChannel name => (hashFindChannel s name).2
  | .setName p name => modifyClient s p fun c => { c with name := name }
  | .setId p id => modifyClient s p fun c => { c with id := id }
  | .setStatus p status => modifyClient s p fun c => { c with status := status }
  | .nameChannel p name => { s with channel := update s.channel p name }

/-- What has been added to each table and not taken out since. -/
structure Live where
  named : Set ℕ
  identified : Set ℕ
  channels : Set ℕ

def Live.step (live : Live) : Op → Live
  | .addClient p => { live with named := insert p live.named }
  | .delClient p => { live with named := live.named \ {p} }
  | .addId p => { live with identified := insert p live.identified }
  | .delId p => { live with identified := live.identified \ {p} }
  | .addChannel p => { live with channels := insert p live.channels }
  | .delChannel p => { live with channels := live.channels \ {p} }
  | _ => live

/-- Keys are distinct: what is added is not in the table, nor is anything of its key, and what is
in a table keeps its key. -/
def Allowed (s : State) (live : Live) : Op → Prop
  | .addClient p => p < s.top ∧ p ∉ live.named ∧
      ∀ q ∈ live.named, irccmp (s.client p).name (s.client q).name ≠ 0
  | .addId p => p < s.top ∧ p ∉ live.identified ∧
      ∀ q ∈ live.identified, (s.client p).id ≠ (s.client q).id
  | .addChannel p => p < s.top ∧ p ∉ live.channels ∧
      ∀ q ∈ live.channels, irccmp (s.channel p) (s.channel q) ≠ 0
  | .setName p _ => p ∉ live.named
  | .setId p _ => p ∉ live.identified
  | .nameChannel p _ => p ∉ live.channels
  | _ => True

/-- The states that runs come to, from empty tables and whatever objects. -/
inductive Reached : State → Live → Prop where
  | start (xorKey : BitVec 32) (client : ℕ → Client) (channel : ℕ → CStr) (top : ℕ) :
      Reached ⟨xorKey, client, channel, empty, empty, empty, top⟩ ⟨∅, ∅, ∅⟩
  | step (s : State) (live : Live) (op : Op) (h : Reached s live) (hop : Allowed s live op) :
      Reached (step s op) (live.step op)

/-- Every table is a map. -/
structure Good (s : State) (live : Live) : Prop where
  client : Implements (List.map toUpper) s.hashfXorKey s.top (fun p => (s.client p).name)
    live.named s.clientTable
  id : Implements (fun key => key) s.hashfXorKey s.top (fun p => (s.client p).id) live.identified s.idTable
  channel : Implements (List.map toUpper) s.hashfXorKey s.top s.channel live.channels
    s.channelTable

section Modify

variable {α : Type*} (s : State) (p : ℕ) (f : Client → Client) (g : Client → α)

theorem modifyClient_other (live : Set ℕ) (hp : p ∉ live) :
    ∀ q ∈ live, g ((modifyClient s p f).client q) = g (s.client q) := by
  intro q hq
  have hne : q ≠ p := fun heq => hp (heq ▸ hq)
  exact congrArg g (update_of_ne hne _ _)

theorem modifyClient_same (hg : ∀ c, g (f c) = g c) (q : ℕ) :
    g ((modifyClient s p f).client q) = g (s.client q) := by
  unfold modifyClient
  dsimp only
  by_cases hq : q = p
  · rw [hq, update_self, hg]
  · rw [update_of_ne hq]

end Modify

theorem good_step (s : State) (live : Live) (op : Op) (h : Good s live) (hop : Allowed s live op) :
    Good (step s op) (live.step op) := by
  obtain ⟨hclient, hid, hchannel⟩ := h
  cases op with
  | addClient p =>
    refine ⟨implements_add _ _ _ _ _ _ hclient p hop.1 hop.2.1 fun q hq heq => ?_, hid, hchannel⟩
    exact hop.2.2 q hq ((irccmp_eq_zero_iff _ _).mpr heq)
  | delClient p => exact ⟨implements_del _ _ _ _ _ _ hclient p, hid, hchannel⟩
  | addId p =>
    exact ⟨hclient, implements_add _ _ _ _ _ _ hid p hop.1 hop.2.1 hop.2.2, hchannel⟩
  | delId p => exact ⟨hclient, implements_del _ _ _ _ _ _ hid p, hchannel⟩
  | addChannel p =>
    refine ⟨hclient, hid, implements_add _ _ _ _ _ _ hchannel p hop.1 hop.2.1 fun q hq heq => ?_⟩
    exact hop.2.2 q hq ((irccmp_eq_zero_iff _ _).mpr heq)
  | delChannel p => exact ⟨hclient, hid, implements_del _ _ _ _ _ _ hchannel p⟩
  | findClient name => exact ⟨(implements_find _ _ _ _ _ _ hclient _ _).1, hid, hchannel⟩
  | findId name => exact ⟨hclient, (implements_find _ _ _ _ _ _ hid _ _).1, hchannel⟩
  | findServer name =>
    dsimp only [step, hashFindServer]
    split
    · exact ⟨hclient, (implements_find _ _ _ _ _ _ hid _ _).1, hchannel⟩
    · exact ⟨(implements_find _ _ _ _ _ _ hclient _ _).1, hid, hchannel⟩
  | findChannel name => exact ⟨hclient, hid, (implements_find _ _ _ _ _ _ hchannel _ _).1⟩
  | setName p name =>
    dsimp only [step]
    exact ⟨implements_rename _ _ _ _ _ _ hclient _ (modifyClient_other s p _ Client.name _ hop),
      implements_rename _ _ _ _ _ _ hid _
        fun q _ => modifyClient_same s p _ Client.id (by intro c; rfl) q, hchannel⟩
  | setId p id =>
    dsimp only [step]
    exact ⟨implements_rename _ _ _ _ _ _ hclient _
      fun q _ => modifyClient_same s p _ Client.name (by intro c; rfl) q,
      implements_rename _ _ _ _ _ _ hid _ (modifyClient_other s p _ Client.id _ hop), hchannel⟩
  | setStatus p status =>
    dsimp only [step]
    exact ⟨implements_rename _ _ _ _ _ _ hclient _
      fun q _ => modifyClient_same s p _ Client.name (by intro c; rfl) q,
      implements_rename _ _ _ _ _ _ hid _
        fun q _ => modifyClient_same s p _ Client.id (by intro c; rfl) q, hchannel⟩
  | nameChannel p name =>
    refine ⟨hclient, hid, implements_rename _ _ _ _ _ _ hchannel _ fun q hq => ?_⟩
    have hne : q ≠ p := fun heq => hop (heq ▸ hq)
    exact update_of_ne hne _ _

theorem reached_good (s : State) (live : Live) (h : Reached s live) : Good s live := by
  induction h with
  | start xorKey client channel top =>
    exact ⟨implements_empty .., implements_empty .., implements_empty ..⟩
  | step s live op _ hop ih => exact good_step s live op ih hop

section Finds

variable (s : State) (live : Live) (h : Good s live) (name : CStr) (p : ℕ)

include h

theorem hashFindClient_eq :
    (hashFindClient s name).1 = some p ↔ p ∈ live.named ∧ irccmp name (s.client p).name = 0 := by
  refine (implements_found _ _ _ _ _ _ h.client name _ (fun a b hab => strhash_congr _ a b
    ((irccmp_eq_zero_iff a b).mpr hab)) (fun q hq => ?_) p).trans ?_
  · exact (irccmp_eq_zero_iff _ _).mp (of_decide_eq_true hq)
  rw [decide_eq_true_iff]

theorem hashFindId_eq :
    (hashFindId s name).1 = some p ↔ p ∈ live.identified ∧ name = (s.client p).id := by
  refine (implements_found _ _ _ _ _ _ h.id name _ (fun a b hab => congrArg _ hab)
    (fun q hq => of_decide_eq_true hq) p).trans ?_
  rw [decide_eq_true_iff]

/-- What looks like the identifier of a server is looked for as an identifier, whoever has it. -/
theorem hashFindServer_eq :
    (hashFindServer s name).1 = some p ↔
      if sidForm name then p ∈ live.identified ∧ name = (s.client p).id
      else p ∈ live.named ∧ ((isServer s p || isMe s p) = true ∧
        irccmp name (s.client p).name = 0) := by
  unfold hashFindServer
  split
  · exact hashFindId_eq s live h name p
  · refine (implements_found _ _ _ _ _ _ h.client name _ (fun a b hab => strhash_congr _ a b
      ((irccmp_eq_zero_iff a b).mpr hab)) (fun q hq => ?_) p).trans ?_
    · rw [Bool.and_eq_true, decide_eq_true_iff] at hq
      exact (irccmp_eq_zero_iff _ _).mp hq.2
    · rw [Bool.and_eq_true, decide_eq_true_iff]

theorem hashFindChannel_eq :
    (hashFindChannel s name).1 = some p ↔ p ∈ live.channels ∧ irccmp name (s.channel p) = 0 := by
  refine (implements_found _ _ _ _ _ _ h.channel name _ (fun a b hab => strhash_congr _ a b
    ((irccmp_eq_zero_iff a b).mpr hab)) (fun q hq => ?_) p).trans ?_
  · exact (irccmp_eq_zero_iff _ _).mp (of_decide_eq_true hq)
  rw [decide_eq_true_iff]

end Finds

/-- After every run of additions, deletions and lookups of distinct keys, each lookup returns the
live object with the key, and each chain is the live objects that belong there, each once; a
successful lookup moves what it finds to the front of its chain and changes nothing else.
`hash_find_server` takes a name of the form of a server's identifier for an identifier, whatever
has it, and any other for the name of a server or of this one. -/
theorem hash_tables (s : State) (live : Live) (h : Reached s live) :
    (∀ name p, (hashFindClient s name).1 = some p ↔
      p ∈ live.named ∧ irccmp name (s.client p).name = 0) ∧
    (∀ name p, (hashFindId s name).1 = some p ↔
      p ∈ live.identified ∧ name = (s.client p).id) ∧
    (∀ name p, (hashFindServer s name).1 = some p ↔
      if sidForm name then p ∈ live.identified ∧ name = (s.client p).id
      else p ∈ live.named ∧ (isServer s p || isMe s p) = true ∧
        irccmp name (s.client p).name = 0) ∧
    (∀ name p, (hashFindChannel s name).1 = some p ↔
      p ∈ live.channels ∧ irccmp name (s.channel p) = 0) ∧
    (Chained s.hashfXorKey (fun p => (s.client p).name) live.named s.clientTable ∧
      Chained s.hashfXorKey (fun p => (s.client p).id) live.identified s.idTable ∧
      Chained s.hashfXorKey s.channel live.channels s.channelTable) ∧
    ∀ name,
      Fronted (hashOf s name) (hashFindClient s name).1 s.clientTable
        (hashFindClient s name).2.clientTable ∧
      Fronted (hashOf s name) (hashFindId s name).1 s.idTable (hashFindId s name).2.idTable ∧
      (if sidForm name then (hashFindServer s name).2 = (hashFindId s name).2
        else Fronted (hashOf s name) (hashFindServer s name).1 s.clientTable
          (hashFindServer s name).2.clientTable) ∧
      Fronted (hashOf s name) (hashFindChannel s name).1 s.channelTable
        (hashFindChannel s name).2.channelTable := by
  have hgood := reached_good s live h
  refine ⟨hashFindClient_eq s live hgood, hashFindId_eq s live hgood, hashFindServer_eq s live hgood,
    hashFindChannel_eq s live hgood, ⟨implements_chained _ _ _ _ _ _ hgood.client,
      implements_chained _ _ _ _ _ _ hgood.id, implements_chained _ _ _ _ _ _ hgood.channel⟩,
    fun name => ⟨(implements_find _ _ _ _ _ _ hgood.client _ _).2,
      (implements_find _ _ _ _ _ _ hgood.id _ _).2, ?_,
      (implements_find _ _ _ _ _ _ hgood.channel _ _).2⟩⟩
  unfold hashFindServer
  by_cases hsid : sidForm name = true
  · rw [if_pos hsid, if_pos hsid]
  · rw [if_neg hsid, if_neg hsid]
    exact (implements_find _ _ _ _ _ _ hgood.client _ _).2

/-- Nothing is in a table yet; whoever is looked at is called Bob, and has an identifier as short as
that of a server. -/
def noTables : State :=
  ⟨0, fun _ => ⟨"Bob".toList, "1AB".toList, .client⟩, fun _ => [], empty, empty, empty, 2⟩

theorem noTables_reached : Reached noTables ⟨∅, ∅, ∅⟩ := Reached.start _ _ _ _

theorem hash_tables_bob :
    (hashFindClient (step noTables (.addClient 1)) "bOB".toList).1 = some 1 := by
  have hop : Allowed noTables ⟨∅, ∅, ∅⟩ (.addClient 1) :=
    ⟨by decide, Set.notMem_empty 1, fun q hq => absurd hq (Set.notMem_empty q)⟩
  exact ((hash_tables _ _ (Reached.step _ _ _ noTables_reached hop)).1 _ 1).mpr
    ⟨Set.mem_insert 1 ∅, by decide⟩

/-- A client that is no server is found as one. -/
theorem hashFindServer_client :
    Reached (step noTables (.addId 0)) (Live.step ⟨∅, ∅, ∅⟩ (.addId 0)) ∧
      (hashFindServer (step noTables (.addId 0)) "1AB".toList).1 = some 0 ∧
      isServer (step noTables (.addId 0)) 0 = false ∧
      isMe (step noTables (.addId 0)) 0 = false := by
  have hop : Allowed noTables ⟨∅, ∅, ∅⟩ (.addId 0) :=
    ⟨by decide, Set.notMem_empty 0, fun q hq => absurd hq (Set.notMem_empty q)⟩
  exact ⟨Reached.step _ _ _ noTables_reached hop, by decide +kernel, rfl, rfl⟩

end IrcdHybrid.HashTables
