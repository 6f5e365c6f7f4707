import IrcdHybrid.MemberInvariant
import IrcdHybrid.SlotRing
import Mathlib.Data.List.Find
import Mathlib.Data.Set.Insert

/-!
The nick history (`whowas.c`). Records are in an array that is filled round and round; each is on
the hash chain of its nick and, while the client it was made for is online, on that client's own
list. The slot that is taken next must leave both lists first, and so must the records of a
client that exits.
-/

namespace IrcdHybrid.WhowasRing

open CString MemberInvariant Index SlotRing Function
open MemberLists (strhash NICKNAMEHISTORYLENGTH)

def NICKLEN : ℕ := 12
def ACCOUNTLEN : ℕ := NICKLEN
def USERLEN : ℕ := 40
def HOSTLEN : ℕ := 63
def HOSTIPLEN : ℕ := 45
def REALLEN : ℕ := 150

/-- A slot; one that was never used has no `hashv`. -/
structure Whowas where
  hashv : Option ℕ
  shide : Bool
  logoff : ℤ
  account : CStr
  name : CStr
  username : CStr
  hostname : CStr
  sockhost : CStr
  realname : CStr
  servername : CStr
  online : Option ℕ

/-- What is noted of a client, and of its server. -/
structure Client where
  account : CStr
  name : CStr
  username : CStr
  host : CStr
  sockhost : CStr
  info : CStr
  servername : CStr
  hiddenServer : Bool

/-- The array, the hash chains and the clients' own lists, by the numbers of the slots. -/
structure State where
  hashfXorKey : BitVec 32
  whowas : ℕ → Whowas
  whowasNext : ℕ
  whowashash : ℕ → List ℕ
  own : ℕ → List ℕ

def record (xorKey : BitVec 32) (now : ℤ) (client : ℕ) (c : Client) (online : Bool) : Whowas where
  hashv := some (strhash xorKey c.name)
  shide := c.hiddenServer
  logoff := now
  account := strlcpy c.account (ACCOUNTLEN + 1)
  name := strlcpy c.name (NICKLEN + 1)
  username := strlcpy c.username (USERLEN + 1)
  hostname := strlcpy c.host (HOSTLEN + 1)
  sockhost := strlcpy c.sockhost (HOSTIPLEN + 1)
  realname := strlcpy c.info (REALLEN + 1)
  servername := strlcpy c.servername (HOSTLEN + 1)
  online := if online then some client else none

/-- What was in the slot is taken off its lists. -/
def unlinkSlot (i : ℕ) (s : State) : State :=
  match (s.whowas i).hashv with
  | none => s
  | some hashv =>
    let s :=
      match (s.whowas i).online with
      | none => s
      | some client => { s with own := update s.own client ((s.own client).erase i) }
    { s with whowashash := update s.whowashash hashv ((s.whowashash hashv).erase i) }

def linkSlot (i : ℕ) (who : Whowas) (s : State) : State :=
  let s := { s with whowas := update s.whowas i who }
  let s :=
    match who.online with
    | none => s
    | some client => { s with own := update s.own client (i :: s.own client) }
  match who.hashv with
  | none => s
  | some hashv =>
    { s with whowashash := update s.whowashash hashv (i :: s.whowashash hashv) }

def whowasAddHistory (now : ℤ) (client : ℕ) (c : Client) (online : Bool) (s : State) : State :=
  let i := s.whowasNext
  let s := { s with
    whowasNext := if s.whowasNext + 1 = NICKNAMEHISTORYLENGTH then 0 else s.whowasNext + 1 }
  linkSlot i (record s.hashfXorKey now client c online) (unlinkSlot i s)

/-- The body of the loop of `whowas_off_history`. -/
def offSlot (client : ℕ) (s : State) (i : ℕ) : State := { s with
  whowas := update s.whowas i { s.whowas i with online := none }
  own := update s.own client ((s.own client).erase i) }

def whowasOffHistory (client : ℕ) (s : State) : State :=
  walk (fun s => s.own client) (offSlot client) (s.own client).length s (s.own client).head?

def whowasGetHistory (now timelimit : ℤ) (nick : CStr) (s : State) : Option ℕ :=
  let timelimit := now - timelimit
  match (s.whowashash (strhash s.hashfXorKey nick)).find? (fun i =>
      !decide ((s.whowas i).logoff < timelimit) &&
        decide (irccmp nick (s.whowas i).name = 0)) with
  | none => none
  | some i => (s.whowas i).online

inductive Op where
  | enter (client : ℕ)
  | nick (now : ℤ) (client : ℕ) (c : Client)
  | exit (now : ℤ) (client : ℕ) (c : Client)

def step (s : State) : Op → State
  | .enter client => { s with own := update s.own client [] }
  | .nick now client c => whowasAddHistory now client c true s
  | .exit now client c => whowasOffHistory client (whowasAddHistory now client c false s)

/-- Addresses of clients that are online are not given again, and their nicks are valid. -/
def Allowed (live : Set ℕ) : Op → Prop
  | .enter client => client ∉ live
  | .nick _ client c | .exit _ client c => client ∈ live ∧ c.name.length ≤ NICKLEN

/-- A client that exits is no longer pointed to. -/
def forget (client : ℕ) (who : Whowas) : Whowas :=
  if who.online = some client then { who with online := none } else who

/-- All that was ever noted, the newest first. -/
def history (s : State) (h : List Whowas) : Op → List Whowas
  | .enter _ => h
  | .nick now client c => record s.hashfXorKey now client c true :: h
  | .exit now client c => (record s.hashfXorKey now client c false :: h).map (forget client)

def clients (live : Set ℕ) : Op → Set ℕ
  | .enter client => insert client live
  | .nick _ _ _ => live
  | .exit _ client _ => live \ {client}

inductive Reached : State → List Whowas → Set ℕ → Prop where
  | start (xorKey : BitVec 32) (who : Whowas) (hwho : who.hashv = none) :
      Reached ⟨xorKey, fun _ => who, 0, fun _ => [], fun _ => []⟩ [] ∅
  | step (s : State) (h : List Whowas) (live : Set ℕ) (op : Op) (hreached : Reached s h live)
      (hop : Allowed live op) : Reached (step s op) (history s h op) (clients live op)

abbrev SIZE : ℕ := NICKNAMEHISTORYLENGTH

/-- The slot of a record. -/
def slotOf (e : ℕ × Whowas) : ℕ := e.1 % SIZE

/-- The slots of the records with the property, the newest first. -/
def slots (wanted : Whowas → Bool) (l : List (ℕ × Whowas)) : List ℕ :=
  (l.filter fun e => wanted e.2).map slotOf

def hashedTo (k : ℕ) (who : Whowas) : Bool := decide (who.hashv = some k)

def onlineAs (client : ℕ) (who : Whowas) : Bool := decide (who.online = some client)

structure Inv (s : State) (h : List Whowas) (live : Set ℕ) : Prop where
  next : s.whowasNext = h.length % SIZE
  slot : ∀ e ∈ held SIZE h, s.whowas (slotOf e) = e.2
  free : ∀ i, h.length ≤ i → i < SIZE → (s.whowas i).hashv = none
  hashv : ∀ who ∈ h, who.hashv = some (strhash s.hashfXorKey who.name)
  chain : ∀ k, s.whowashash k = slots (hashedTo k) (held SIZE h)
  own : ∀ p, s.own p = slots (onlineAs p) (held SIZE h)
  online : ∀ who ∈ h, ∀ p, who.online = some p → p ∈ live

theorem size_pos : 0 < SIZE := by decide

theorem slots_nodup (wanted : Whowas → Bool) (h : List Whowas) :
    (slots wanted (held SIZE h)).Nodup :=
  (held_nodup SIZE size_pos h).sublist (List.filter_sublist.map _)

theorem slots_cons (wanted : Whowas → Bool) (m : ℕ) (who : Whowas) (l : List (ℕ × Whowas)) :
    slots wanted ((m, who) :: l) =
      if wanted who then m % SIZE :: slots wanted l else slots wanted l := by
  unfold slots
  rw [List.filter_cons]
  split <;> rfl

/-- Without the slot that is next, the oldest is not there. -/
theorem slots_filter (wanted : Whowas → Bool) (h : List Whowas) :
    (slots wanted (held SIZE h)).filter (fun i => decide (i ≠ h.length % SIZE)) =
      slots wanted ((numbered h).take (SIZE - 1)) := by
  rw [← held_filter SIZE size_pos h]
  unfold slots
  rw [List.filter_map, List.filter_filter, List.filter_filter]
  congr 1
  refine List.filter_congr fun e _ => ?_
  rw [Bool.and_comm]
  rfl

theorem foldl_offSlot (client : ℕ) (l : List ℕ) (s : State) (hl : s.own client = l)
    (hnodup : l.Nodup) : l.foldl (offSlot client) s = { s with
      whowas := fun i => if i ∈ l then { s.whowas i with online := none } else s.whowas i
      own := update s.own client [] } := by
  induction l generalizing s with
  | nil =>
    have hsame : update s.own client [] = s.own := update_eq_self_iff.mpr hl.symm
    rw [hsame]
    simp
  | cons i l ih =>
    obtain ⟨hi, hnodup⟩ := List.nodup_cons.mp hnodup
    have hrest : (offSlot client s i).own client = l := by
      dsimp only [offSlot]
      rw [update_self, hl, List.erase_cons_head]
    rw [List.foldl_cons, ih (offSlot client s i) hrest hnodup]
    dsimp only [offSlot]
    rw [update_idem]
    congr 1
    funext j
    by_cases hj : j = i
    · subst hj
      simp [hi]
    · simp [hj]

theorem unlinkSlot_next (i n : ℕ) (s : State) :
    unlinkSlot i { s with whowasNext := n } = { unlinkSlot i s with whowasNext := n } := by
  unfold unlinkSlot
  dsimp only
  cases (s.whowas i).hashv with
  | none => rfl
  | some hashv => cases (s.whowas i).online <;> rfl

theorem linkSlot_lists (i : ℕ) (who : Whowas) (s : State) :
    (linkSlot i who s).whowas = update s.whowas i who ∧
    (linkSlot i who s).hashfXorKey = s.hashfXorKey ∧
    (linkSlot i who s).whowasNext = s.whowasNext ∧
    (∀ k, (linkSlot i who s).whowashash k =
      if hashedTo k who then i :: s.whowashash k else s.whowashash k) ∧
    ∀ p, (linkSlot i who s).own p = if onlineAs p who then i :: s.own p else s.own p := by
  have hput : ∀ (f : ℕ → List ℕ) (a k : ℕ),
      update f a (i :: f a) k = if decide (some a = some k) then i :: f k else f k := by
    intro f a k
    by_cases hk : k = a
    · subst hk
      simp
    · simp [hk, Ne.symm hk]
  unfold linkSlot hashedTo onlineAs
  cases who.online with
  | none =>
    cases who.hashv with
    | none => exact ⟨rfl, rfl, rfl, fun _ => rfl, fun _ => rfl⟩
    | some hashv => exact ⟨rfl, rfl, rfl, hput s.whowashash hashv, fun _ => rfl⟩
  | some client =>
    cases who.hashv with
    | none => exact ⟨rfl, rfl, rfl, fun _ => rfl, hput s.own client⟩
    | some hashv => exact ⟨rfl, rfl, rfl, hput s.whowashash hashv, hput s.own client⟩

theorem succ_mod_size (n : ℕ) :
    (if n % SIZE + 1 = SIZE then 0 else n % SIZE + 1) = (n + 1) % SIZE := by
  have hlt := Nat.mod_lt n size_pos
  rw [← Nat.mod_add_mod n SIZE 1]
  split
  · next heq => rw [heq, Nat.mod_self]
  · next hne => exact (Nat.mod_eq_of_lt (by omega)).symm

section Inv

variable (s : State) (h : List Whowas) (live : Set ℕ) (hinv : Inv s h live)

include hinv

theorem mem_slots (wanted : Whowas → Bool) (i : ℕ) (hi : i ∈ slots wanted (held SIZE h)) :
    wanted (s.whowas i) = true ∧ (s.whowas i).hashv ≠ none := by
  obtain ⟨e, he, rfl⟩ := List.mem_map.mp hi
  obtain ⟨hheld, hwanted⟩ := List.mem_filter.mp he
  rw [hinv.slot e hheld]
  refine ⟨hwanted, ?_⟩
  have hmem : e.2 ∈ h := by
    have hsnd : e.2 ∈ (held SIZE h).map Prod.snd := List.mem_map_of_mem hheld
    rw [held_snd] at hsnd
    exact List.mem_of_mem_take hsnd
  rw [hinv.hashv e.2 hmem]
  simp

theorem slots_iff (wanted : Whowas → Bool) (e : ℕ × Whowas) (he : e ∈ held SIZE h) :
    slotOf e ∈ slots wanted (held SIZE h) ↔ wanted e.2 = true := by
  constructor
  · intro hmem
    have hwanted := (mem_slots s h live hinv wanted _ hmem).1
    rwa [hinv.slot e he] at hwanted
  · exact fun hwanted => List.mem_map_of_mem (List.mem_filter.mpr ⟨he, hwanted⟩)

theorem unlinkSlot_lists (i : ℕ) :
    (unlinkSlot i s).whowas = s.whowas ∧ (unlinkSlot i s).hashfXorKey = s.hashfXorKey ∧
    (unlinkSlot i s).whowasNext = s.whowasNext ∧
    (∀ k, (unlinkSlot i s).whowashash k = (s.whowashash k).filter fun j => decide (j ≠ i)) ∧
    ∀ p, (unlinkSlot i s).own p = (s.own p).filter fun j => decide (j ≠ i) := by
  have hchain : ∀ k, i ∈ s.whowashash k → (s.whowas i).hashv = some k := by
    intro k hi
    rw [hinv.chain] at hi
    exact of_decide_eq_true (mem_slots s h live hinv _ i hi).1
  have hown : ∀ p, i ∈ s.own p → (s.whowas i).online = some p ∧ (s.whowas i).hashv ≠ none := by
    intro p hi
    rw [hinv.own] at hi
    have hmem := mem_slots s h live hinv _ i hi
    exact ⟨of_decide_eq_true hmem.1, hmem.2⟩
  have hkeep : ∀ l : List ℕ, i ∉ l → l = l.filter fun j => decide (j ≠ i) := fun l hi =>
    (List.filter_eq_self.mpr fun j hj => decide_eq_true (ne_of_mem_of_not_mem hj hi)).symm
  have herase : ∀ l : List ℕ, l.Nodup → l.erase i = l.filter fun j => decide (j ≠ i) :=
    fun l hl => by
      rw [hl.erase_eq_filter]
      refine List.filter_congr fun j _ => ?_
      by_cases hj : j = i <;> simp [hj]
  have hchainNodup : ∀ k, (s.whowashash k).Nodup := fun k => by
    rw [hinv.chain]
    exact slots_nodup _ h
  have hownNodup : ∀ p, (s.own p).Nodup := fun p => by
    rw [hinv.own]
    exact slots_nodup _ h
  unfold unlinkSlot
  cases hhashv : (s.whowas i).hashv with
  | none =>
    refine ⟨rfl, rfl, rfl, fun k => hkeep _ fun hi => ?_, fun p => hkeep _ fun hi => ?_⟩
    · rw [hchain k hi] at hhashv
      simp at hhashv
    · exact (hown p hi).2 hhashv
  | some hashv =>
    have hchains : ∀ k, update s.whowashash hashv ((s.whowashash hashv).erase i) k =
        (s.whowashash k).filter fun j => decide (j ≠ i) := by
      intro k
      by_cases hk : k = hashv
      · rw [hk, update_self]
        exact herase _ (hchainNodup hashv)
      · rw [update_of_ne hk]
        refine hkeep _ fun hi => hk ?_
        rw [hchain k hi] at hhashv
        exact Option.some.inj hhashv
    cases honline : (s.whowas i).online with
    | none =>
      refine ⟨rfl, rfl, rfl, hchains, fun p => hkeep _ fun hi => ?_⟩
      rw [(hown p hi).1] at honline
      simp at honline
    | some client =>
      refine ⟨rfl, rfl, rfl, hchains, fun p => ?_⟩
      dsimp only
      by_cases hp : p = client
      · rw [hp, update_self]
        exact herase _ (hownNodup client)
      · rw [update_of_ne hp]
        refine hkeep _ fun hi => hp ?_
        rw [(hown p hi).1] at honline
        exact Option.some.inj honline

/-- A record more, for a client that is online or for nobody. -/
theorem add_inv (now : ℤ) (client : ℕ) (c : Client) (online : Bool)
    (hclient : client ∈ live) (hlen : c.name.length ≤ NICKLEN) :
    Inv (whowasAddHistory now client c online s) (record s.hashfXorKey now client c online :: h) live := by
  generalize hwho : record s.hashfXorKey now client c online = who
  have hhashv : who.hashv = some (strhash s.hashfXorKey who.name) := by
    subst hwho
    have hname : strlcpy c.name (NICKLEN + 1) = c.name := strlcpy_of_le c.name NICKLEN hlen
    dsimp only [record]
    rw [hname]
  have honline : ∀ p, who.online = some p → p = client := by
    intro p hp
    subst hwho
    dsimp only [record] at hp
    split at hp
    · exact (Option.some.inj hp).symm
    · simp at hp
  have hnew := held_cons SIZE size_pos h who
  have hsub : (numbered h).take (SIZE - 1) ⊆ held SIZE h :=
    (List.take_sublist_take_left (Nat.sub_le SIZE 1)).subset
  obtain ⟨hwhowas, hxor, -, hchain, hown⟩ := unlinkSlot_lists s h live hinv s.whowasNext
  unfold whowasAddHistory
  dsimp only
  rw [unlinkSlot_next, hwho, hinv.next, succ_mod_size]
  rw [hinv.next] at hwhowas hxor hchain hown
  obtain ⟨hwhowas', hxor', hnext', hchain', hown'⟩ := linkSlot_lists (h.length % SIZE) who
    { unlinkSlot (h.length % SIZE) s with whowasNext := (h.length + 1) % SIZE }
  refine ⟨hnext', fun e he => ?_, fun i hi hlt => ?_, fun r hr => ?_, fun k => ?_, fun p => ?_,
    fun r hr p hp => ?_⟩
  · rw [hwhowas', hwhowas]
    rw [hnew] at he
    rcases List.mem_cons.mp he with rfl | he
    · exact update_self ..
    · exact (update_of_ne (take_ne SIZE h e he) _ _).trans (hinv.slot e (hsub he))
  · rw [List.length_cons] at hi
    have hne : i ≠ h.length % SIZE := by
      rw [Nat.mod_eq_of_lt (by omega)]
      omega
    rw [hwhowas', hwhowas, update_of_ne hne]
    exact hinv.free i (by omega) hlt
  · rw [hxor', hxor]
    rcases List.mem_cons.mp hr with rfl | hr
    · exact hhashv
    · exact hinv.hashv r hr
  · rw [hchain', hchain, hnew, slots_cons, hinv.chain, slots_filter]
  · rw [hown', hown, hnew, slots_cons, hinv.own, slots_filter]
  · rcases List.mem_cons.mp hr with rfl | hr
    · rw [honline p hp]
      exact hclient
    · exact hinv.online r hr p hp

theorem whowasOffHistory_eq (client : ℕ) :
    whowasOffHistory client s = { s with
      whowas := fun i => if i ∈ s.own client then { s.whowas i with online := none } else s.whowas i
      own := update s.own client [] } := by
  have hnodup : (s.own client).Nodup := by
    rw [hinv.own]
    exact slots_nodup _ h
  unfold whowasOffHistory
  rw [(walk_eq_foldl (fun s : State => s.own client) (offSlot client) (fun _ => True)
    (fun _ _ _ _ => trivial) (fun _ _ _ _ => update_self ..) s trivial).1]
  exact foldl_offSlot client (s.own client) s rfl hnodup

theorem off_inv (client : ℕ) :
    Inv (whowasOffHistory client s) (h.map (forget client)) (live \ {client}) := by
  have hname : ∀ who, (forget client who).name = who.name ∧
      (forget client who).hashv = who.hashv := fun who => by
    unfold forget
    split <;> exact ⟨rfl, rfl⟩
  have hcleared : ∀ who, onlineAs client (forget client who) = false := fun who => by
    unfold forget onlineAs
    split
    · exact decide_eq_false (by simp)
    · next hne => exact decide_eq_false hne
  have hothers : ∀ p who, p ≠ client → onlineAs p (forget client who) = onlineAs p who := by
    intro p who hp
    unfold forget onlineAs
    split
    · next heq =>
      rw [heq]
      simp [Ne.symm hp]
    · rfl
  have hmap : ∀ wanted : Whowas → Bool, slots wanted (held SIZE (h.map (forget client))) =
      slots (fun who => wanted (forget client who)) (held SIZE h) := by
    intro wanted
    rw [held_map]
    unfold slots
    rw [List.filter_map, List.map_map]
    rfl
  have hslots : ∀ f g : Whowas → Bool, (∀ who, f who = g who) →
      slots f (held SIZE h) = slots g (held SIZE h) := fun f g hfg => by
    rw [funext hfg]
  rw [whowasOffHistory_eq s h live hinv client]
  refine ⟨?_, fun e he => ?_, fun i hi hlt => ?_, fun r hr => ?_, fun k => ?_, fun p => ?_,
    fun r hr p hp => ?_⟩
  · rw [List.length_map]
    exact hinv.next
  · rw [held_map] at he
    obtain ⟨e, hheld, rfl⟩ := List.mem_map.mp he
    have hiff := slots_iff s h live hinv (onlineAs client) e hheld
    rw [← hinv.own client] at hiff
    dsimp only [slotOf] at hiff ⊢
    rw [show s.whowas (e.1 % SIZE) = e.2 from hinv.slot e hheld]
    unfold forget
    by_cases honline : e.2.online = some client
    · rw [if_pos (hiff.mpr (decide_eq_true honline)), if_pos honline]
    · rw [if_neg fun hmem => honline (of_decide_eq_true (hiff.mp hmem)), if_neg honline]
  · rw [List.length_map] at hi
    have hfree := hinv.free i hi hlt
    dsimp only
    split <;> exact hfree
  · obtain ⟨who, hwho, rfl⟩ := List.mem_map.mp hr
    rw [(hname who).1, (hname who).2]
    exact hinv.hashv who hwho
  · rw [hmap]
    refine (hinv.chain k).trans (hslots _ _ fun who => ?_)
    unfold hashedTo
    rw [(hname who).2]
  · rw [hmap]
    dsimp only
    by_cases hp : p = client
    · rw [hp, update_self]
      unfold slots
      rw [List.filter_eq_nil_iff.mpr fun e _ => by simp [hcleared]]
      rfl
    · rw [update_of_ne hp, hinv.own p]
      exact hslots _ _ fun who => (hothers p who hp).symm
  · obtain ⟨who, hwho, rfl⟩ := List.mem_map.mp hr
    have hpc : p ≠ client := by
      rintro rfl
      have hno := hcleared who
      unfold onlineAs at hno
      rw [hp] at hno
      simp at hno
    have hold := hothers p who hpc
    unfold onlineAs at hold
    rw [hp, decide_eq_true rfl] at hold
    exact ⟨hinv.online who hwho p (of_decide_eq_true hold.symm), hpc⟩

theorem enter_inv (client : ℕ) (hclient : client ∉ live) :
    Inv { s with own := update s.own client [] } h (insert client live) := by
  have hnil : s.own client = [] := by
    rw [hinv.own]
    refine List.eq_nil_iff_forall_not_mem.mpr fun i hi => hclient ?_
    obtain ⟨e, he, rfl⟩ := List.mem_map.mp hi
    obtain ⟨hheld, hwanted⟩ := List.mem_filter.mp he
    have hsnd : e.2 ∈ (held SIZE h).map Prod.snd := List.mem_map_of_mem hheld
    rw [held_snd] at hsnd
    exact hinv.online e.2 (List.mem_of_mem_take hsnd) client (of_decide_eq_true hwanted)
  rw [update_eq_self_iff.mpr hnil.symm]
  exact ⟨hinv.next, hinv.slot, hinv.free, hinv.hashv, hinv.chain, hinv.own,
    fun r hr p hp => Set.mem_insert_of_mem client (hinv.online r hr p hp)⟩

theorem step_inv (op : Op) (hop : Allowed live op) :
    Inv (step s op) (history s h op) (clients live op) := by
  cases op with
  | enter client => exact enter_inv s h live hinv client hop
  | nick now client c => exact add_inv s h live hinv now client c true hop.1 hop.2
  | exit now client c =>
    exact off_inv _ _ live (add_inv s h live hinv now client c false hop.1 hop.2) client

end Inv

theorem reached_inv (s : State) (h : List Whowas) (live : Set ℕ) (hreached : Reached s h live) :
    Inv s h live := by
  induction hreached with
  | start xorKey who hwho =>
    exact ⟨rfl, fun e he => absurd he List.not_mem_nil, fun _ _ _ => hwho,
      fun _ hr => absurd hr List.not_mem_nil, fun _ => rfl, fun _ => rfl,
      fun _ hr => absurd hr List.not_mem_nil⟩
  | step s h live op _ hop ih => exact step_inv s h live ih op hop

/-- Recent enough, and of the nick. -/
def matching (limit : ℤ) (nick : CStr) (who : Whowas) : Bool :=
  !decide (who.logoff < limit) && decide (irccmp nick who.name = 0)

section Reached

variable (s : State) (h : List Whowas) (live : Set ℕ) (hinv : Inv s h live)

include hinv

theorem getHistory_eq (now timelimit : ℤ) (nick : CStr) :
    whowasGetHistory now timelimit nick s =
      ((h.take SIZE).find? (matching (now - timelimit) nick)).bind Whowas.online := by
  have hfind : ((held SIZE h).filter fun e => hashedTo (strhash s.hashfXorKey nick) e.2).find?
      ((fun i => matching (now - timelimit) nick (s.whowas i)) ∘ slotOf) =
        (held SIZE h).find? (matching (now - timelimit) nick ∘ Prod.snd) := by
    rw [List.find?_filter]
    refine List.find?_congr fun e he => ?_
    have hmem : e.2 ∈ h := by
      have hsnd : e.2 ∈ (held SIZE h).map Prod.snd := List.mem_map_of_mem he
      rw [held_snd] at hsnd
      exact List.mem_of_mem_take hsnd
    simp only [Function.comp_apply, hinv.slot e he]
    by_cases hnick : irccmp nick e.2.name = 0
    · have hhash : hashedTo (strhash s.hashfXorKey nick) e.2 = true := by
        unfold hashedTo
        rw [hinv.hashv e.2 hmem, strhash_congr _ _ _ hnick]
        exact decide_eq_true rfl
      simp [hhash]
    · simp [matching, hnick]
  have hread : whowasGetHistory now timelimit nick s =
      ((s.whowashash (strhash s.hashfXorKey nick)).find?
        fun i => matching (now - timelimit) nick (s.whowas i)).bind
          fun i => (s.whowas i).online := by
    unfold whowasGetHistory
    have hsame : (fun i => !decide ((s.whowas i).logoff < now - timelimit) &&
        decide (irccmp nick (s.whowas i).name = 0)) =
          fun i => matching (now - timelimit) nick (s.whowas i) := rfl
    dsimp only
    rw [hsame]
    cases (s.whowashash (strhash s.hashfXorKey nick)).find?
      fun i => matching (now - timelimit) nick (s.whowas i) <;> rfl
  rw [hread, hinv.chain]
  unfold slots
  rw [List.find?_map, hfind, ← held_snd, List.find?_map]
  cases hfound : (held SIZE h).find? (matching (now - timelimit) nick ∘ Prod.snd) with
  | none => rfl
  | some e =>
    have hheld := List.mem_of_find?_eq_some hfound
    simp [hinv.slot e hheld]

omit hinv in
theorem mem_slots_iff (wanted : Whowas → Bool) (i : ℕ) :
    i ∈ slots wanted (held SIZE h) ↔ ∃ j < SIZE, ∃ who, h[j]? = some who ∧
      i = (h.length - 1 - j) % SIZE ∧ wanted who = true := by
  unfold slots
  rw [List.mem_map]
  constructor
  · rintro ⟨e, he, rfl⟩
    obtain ⟨hheld, hwanted⟩ := List.mem_filter.mp he
    obtain ⟨j, hj, hwho, hnum⟩ := (mem_take_numbered SIZE h e).mp hheld
    exact ⟨j, hj, e.2, hwho, congrArg (· % SIZE) hnum, hwanted⟩
  · rintro ⟨j, hj, who, hwho, rfl, hwanted⟩
    refine ⟨(h.length - 1 - j, who), List.mem_filter.mpr ⟨?_, hwanted⟩, rfl⟩
    exact (mem_take_numbered SIZE h _).mpr ⟨j, hj, hwho, rfl⟩

end Reached

/-- Every slot below the number of records has one of the last. -/
theorem slot_covered (n i : ℕ) (hi : i < SIZE) (hn : i < n) :
    ∃ j < SIZE, j < n ∧ i = (n - 1 - j) % SIZE := by
  refine ⟨(n - 1 - i) % SIZE, Nat.mod_lt _ size_pos, ?_, ?_⟩
  · have hle := Nat.mod_le (n - 1 - i) SIZE
    omega
  · have hdiv := Nat.div_add_mod (n - 1 - i) SIZE
    have hle := Nat.mod_le (n - 1 - i) SIZE
    have hsum : n - 1 - (n - 1 - i) % SIZE = i + SIZE * ((n - 1 - i) / SIZE) := by omega
    rw [hsum, Nat.add_mul_mod_self_left, Nat.mod_eq_of_lt hi]

/-- After every run of nick changes and exits the array holds the last records, and nothing else;
a slot is on the chain of its nick and on no other, and on the own list of a client exactly when its
record points to that client; only to clients that are online do records point. A lookup answers
with the most recent record of the nick that is recent enough, if its client is still online. -/
theorem whowas_ring (s : State) (h : List Whowas) (live : Set ℕ) (hreached : Reached s h live) :
    (∀ j who, j < SIZE → h[j]? = some who → s.whowas ((h.length - 1 - j) % SIZE) = who) ∧
    (∀ i < SIZE, (s.whowas i).hashv = none ∨
      ∃ j < SIZE, h[j]? = some (s.whowas i) ∧ i = (h.length - 1 - j) % SIZE) ∧
    (∀ k, (s.whowashash k).Nodup ∧ ∀ i, i ∈ s.whowashash k ↔ i < SIZE ∧
      (s.whowas i).hashv ≠ none ∧ strhash s.hashfXorKey (s.whowas i).name = k) ∧
    (∀ p, (s.own p).Nodup ∧ ∀ i, i ∈ s.own p ↔ i < SIZE ∧
      (s.whowas i).hashv ≠ none ∧ (s.whowas i).online = some p) ∧
    (∀ i < SIZE, (s.whowas i).hashv ≠ none → ∀ p, (s.whowas i).online = some p → p ∈ live) ∧
    ∀ now timelimit nick, whowasGetHistory now timelimit nick s =
      ((h.take SIZE).find? (matching (now - timelimit) nick)).bind Whowas.online := by
  have hinv := reached_inv s h live hreached
  have hslot : ∀ j who, j < SIZE → h[j]? = some who →
      s.whowas ((h.length - 1 - j) % SIZE) = who := fun j who hj hwho =>
    hinv.slot (h.length - 1 - j, who) ((mem_take_numbered SIZE h _).mpr ⟨j, hj, hwho, rfl⟩)
  have hused : ∀ i < SIZE, (s.whowas i).hashv = none ∨
      ∃ j < SIZE, h[j]? = some (s.whowas i) ∧ i = (h.length - 1 - j) % SIZE := by
    intro i hi
    by_cases hn : i < h.length
    · obtain ⟨j, hj, hjn, heq⟩ := slot_covered h.length i hi hn
      have hwho := List.getElem?_eq_getElem hjn
      refine Or.inr ⟨j, hj, ?_, heq⟩
      rw [hwho, heq, hslot j _ hj hwho]
    · exact Or.inl (hinv.free i (Nat.le_of_not_lt hn) hi)
  have hlists : ∀ wanted i, i ∈ slots wanted (held SIZE h) ↔ i < SIZE ∧
      (s.whowas i).hashv ≠ none ∧ wanted (s.whowas i) = true := by
    intro wanted i
    constructor
    · intro hi
      have hmem := mem_slots s h live hinv wanted i hi
      obtain ⟨j, -, -, -, rfl, -⟩ := (mem_slots_iff h wanted i).mp hi
      exact ⟨Nat.mod_lt _ size_pos, hmem.2, hmem.1⟩
    · rintro ⟨hi, hhashv, hwanted⟩
      obtain ⟨j, hj, hwho, heq⟩ := (hused i hi).resolve_left hhashv
      exact (mem_slots_iff h wanted i).mpr ⟨j, hj, _, hwho, heq, hwanted⟩
  have hname : ∀ i < SIZE, (s.whowas i).hashv ≠ none →
      (s.whowas i).hashv = some (strhash s.hashfXorKey (s.whowas i).name) := by
    intro i hi hhashv
    obtain ⟨j, -, hwho, -⟩ := (hused i hi).resolve_left hhashv
    exact hinv.hashv _ (List.mem_of_getElem? hwho)
  refine ⟨hslot, hused, fun k => ⟨?_, fun i => ?_⟩, fun p => ⟨?_, fun i => ?_⟩,
    fun i hi hhashv p hp => ?_, getHistory_eq s h live hinv⟩
  · rw [hinv.chain]
    exact slots_nodup _ h
  · rw [hinv.chain, hlists]
    refine and_congr_right fun hi => and_congr_right fun hhashv => ?_
    unfold hashedTo
    rw [decide_eq_true_iff, hname i hi hhashv, Option.some.injEq]
  · rw [hinv.own]
    exact slots_nodup _ h
  · rw [hinv.own, hlists]
    unfold onlineAs
    rw [decide_eq_true_iff]
  · obtain ⟨j, -, hwho, -⟩ := (hused i hi).resolve_left hhashv
    exact hinv.online _ (List.mem_of_getElem? hwho) p hp

/-- Nothing is noted yet. -/
def noHistory : State :=
  ⟨0, fun _ => ⟨none, false, 0, [], [], [], [], [], [], [], none⟩, 0, fun _ => [], fun _ => []⟩

def bob : Client := ⟨[], "Bob".toList, [], [], [], [], [], false⟩

theorem bob_reached : Reached (step (step noHistory (.enter 5)) (.nick 100 5 bob))
    [record 0 100 5 bob true] (insert 5 ∅) :=
  Reached.step _ _ _ (.nick 100 5 bob)
    (Reached.step _ _ _ (.enter 5) (Reached.start 0 _ rfl) (Set.notMem_empty 5))
    ⟨Set.mem_insert 5 ∅, by decide⟩

theorem whowas_ring_bob :
    whowasGetHistory 150 90 "bOB".toList (step (step noHistory (.enter 5)) (.nick 100 5 bob)) =
      some 5 := by
  rw [(whowas_ring _ _ _ bob_reached).2.2.2.2.2 150 90 "bOB".toList]
  have htake : [record 0 100 5 bob true].take SIZE = [record 0 100 5 bob true] :=
    List.take_of_length_le (by decide)
  rw [htake]
  decide +kernel

end IrcdHybrid.WhowasRing
