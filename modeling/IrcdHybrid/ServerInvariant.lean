import IrcdHybrid.NameTables
import IrcdHybrid.RoomHeads
import IrcdHybrid.ServerEvents

/-!
What holds of the lists and hashes of a server at all times. The tree of servers and the
global lists fit together, whatever is in the hashes; and whoever is in a hash is there
under the name it has, as long as no name is changed under it.
-/

namespace IrcdHybrid.ServerInvariant

open CString HashChains ServerLists NameTables RoomHeads MemberLists MemberInvariant
open ServerTree ServerBurst ServerEvents Function

def clientParent (s : Net) (p : ClientPtr) : Option ClientPtr :=
  if isClient s.rooms p then some (s.node p).servptr else none

def serverParent (s : Net) (p : ClientPtr) : Option ClientPtr :=
  if isServer s p then some (s.node p).servptr else none

def nameHash (s : Net) (p : ClientPtr) : ℕ := hashOf s (nameOf s p)

def idHash (s : Net) (p : ClientPtr) : ℕ := hashOf s (idOf s p)

/-- Everybody is in its place in the tree, and is reached over the connection of the one next to the
root that it is behind. -/
structure Placed (s : Net) : Prop where
  good : Good s.rooms
  rootless : s.rooms.clients s.me = none
  listed : Listed s.me (clientParent s) (serverParent s) (fun q => (s.node q).clientList)
    (fun q => (s.node q).serverList) s.globalClientList s.globalServerList
  routed : ∀ p q, clientParent s p = some q ∨ serverParent s p = some q →
    (q = s.me ∧ fromOf s p = p) ∨
      (q ≠ s.me ∧ fromOf s p = fromOf s q ∧ ServerTree.myConnect s p = false)
  own : ∀ p, ServerTree.myConnect s p = true → fromOf s p = p
  unmarked : ∀ p, s.bursted p = false
  dead_nodup : s.deadList.Nodup
  dead_gone : ∀ p ∈ s.deadList, s.rooms.clients p = none

structure Inv (s : Net) : Prop where
  placed : Placed s
  links_nodup : s.localServerList.Nodup
  mem_links : ∀ q, q ∈ s.localServerList ↔
    serverParent s q ≠ none ∧ ServerTree.myConnect s q = true
  opened : ∀ p, known s p = true → (s.node p).closing = false

/-- Whoever is in a hash is there under its name; the identifier of a connection that has not
registered is in none. -/
structure Named (s : Net) : Prop where
  names : Table s.clientTable (nameHash s) s.top
  ids : Table s.idTable (idHash s) s.top
  named : ∀ p, ¬ Off s.clientTable p → (p = s.me ∨ known s p = true) ∧ nameOf s p ≠ []
  ided : ∀ p, ¬ Off s.idTable p → (p = s.me ∨ known s p = true) ∧ idOf s p ≠ []
  pending : ∀ p, isUnknown s p = true → Off s.idTable p
  below : ∀ p, p = s.me ∨ known s p = true → p < s.top

section Status

variable (s : Net) (p : ClientPtr)

theorem isServer_iff : isServer s p = true ↔ ∃ c, s.rooms.clients p = some c ∧ c.status = .server := by
  unfold isServer
  cases s.rooms.clients p with
  | none => simp
  | some c => simp

theorem isUnknown_iff :
    isUnknown s p = true ↔ ∃ c, s.rooms.clients p = some c ∧ c.status = .unknown := by
  unfold isUnknown
  cases s.rooms.clients p with
  | none => simp
  | some c => simp

theorem known_iff : known s p = true ↔ ∃ c, s.rooms.clients p = some c := by
  unfold known
  exact Option.isSome_iff_exists

theorem known_of_isClient (h : isClient s.rooms p = true) : known s p = true := by
  obtain ⟨c, hc, -⟩ := (isClient_iff s.rooms p).mp h
  exact (known_iff s p).mpr ⟨c, hc⟩

theorem known_of_isServer (h : isServer s p = true) : known s p = true := by
  obtain ⟨c, hc, -⟩ := (isServer_iff s p).mp h
  exact (known_iff s p).mpr ⟨c, hc⟩

theorem known_of_isUnknown (h : isUnknown s p = true) : known s p = true := by
  obtain ⟨c, hc, -⟩ := (isUnknown_iff s p).mp h
  exact (known_iff s p).mpr ⟨c, hc⟩

theorem not_server_of_client (h : isClient s.rooms p = true) : isServer s p = false := by
  obtain ⟨c, hc, hstatus⟩ := (isClient_iff s.rooms p).mp h
  unfold isServer
  rw [hc]
  show (c.status == Status.server) = false
  rw [hstatus]
  rfl

theorem unregistered_of_unknown (h : isUnknown s p = true) :
    isClient s.rooms p = false ∧ isServer s p = false := by
  obtain ⟨c, hc, hstatus⟩ := (isUnknown_iff s p).mp h
  unfold isClient isServer
  rw [hc]
  show (c.status == Status.client) = false ∧ (c.status == Status.server) = false
  rw [hstatus]
  exact ⟨rfl, rfl⟩

theorem unregistered_of_none (h : s.rooms.clients p = none) :
    isClient s.rooms p = false ∧ isServer s p = false ∧ known s p = false := by
  unfold isClient isServer known
  rw [h]
  exact ⟨rfl, rfl, rfl⟩

theorem clientParent_ne_none : clientParent s p ≠ none ↔ isClient s.rooms p = true := by
  unfold clientParent
  split
  · next h => exact iff_of_true (by simp) h
  · next h => exact iff_of_false (by simp) h

theorem serverParent_ne_none : serverParent s p ≠ none ↔ isServer s p = true := by
  unfold serverParent
  split
  · next h => exact iff_of_true (by simp) h
  · next h => exact iff_of_false (by simp) h

variable (s' : Net) (hme : s'.me = s.me)

include hme

theorem nameOf_read (hmeName : s'.meName = s.meName)
    (hread : (s'.rooms.clients p).map Client.name = (s.rooms.clients p).map Client.name) :
    nameOf s' p = nameOf s p := by
  unfold nameOf
  rw [hme, hmeName]
  cases hc : s.rooms.clients p <;> cases hc' : s'.rooms.clients p <;> simp_all

theorem idOf_read (hmeId : s'.meId = s.meId)
    (hread : (s'.rooms.clients p).map Client.id = (s.rooms.clients p).map Client.id) :
    idOf s' p = idOf s p := by
  unfold idOf
  rw [hme, hmeId]
  cases hc : s.rooms.clients p <;> cases hc' : s'.rooms.clients p <;> simp_all

end Status

structure SameTree (s s' : Net) : Prop where
  me : s'.me = s.me
  clientParent : clientParent s' = clientParent s
  serverParent : serverParent s' = serverParent s
  clientLists : (fun q => (s'.node q).clientList) = fun q => (s.node q).clientList
  serverLists : (fun q => (s'.node q).serverList) = fun q => (s.node q).serverList
  globalClientList : s'.globalClientList = s.globalClientList
  globalServerList : s'.globalServerList = s.globalServerList
  localServerList : s'.localServerList = s.localServerList
  bursted : s'.bursted = s.bursted
  deadList : s'.deadList = s.deadList
  connection : ∀ p, ServerInvariant.clientParent s p ≠ none ∨ ServerInvariant.serverParent s p ≠ none →
    ServerTree.myConnect s' p = ServerTree.myConnect s p ∧ fromOf s' p = fromOf s p

section Same

variable (s s' : Net)

theorem placed_locals (h : Placed s) (p q : ClientPtr) (hmy : ServerTree.myConnect s p = true)
    (hp : clientParent s p = some q ∨ serverParent s p = some q) : q = s.me := by
  rcases h.routed p q hp with hroot | hother
  · exact hroot.1
  · rw [hmy] at hother
    simp at hother

theorem placed_of_same (h : Placed s) (hsame : SameTree s s') (hgood : Good s'.rooms)
    (hnone : ∀ p, p = s.me ∨ p ∈ s.deadList → s'.rooms.clients p = none)
    (hown : ∀ p, ServerTree.myConnect s' p = true → fromOf s' p = p) : Placed s' := by
  refine ⟨hgood, ?_, ?_, fun p q hp => ?_, hown, ?_, ?_, fun p hp => ?_⟩
  · rw [hsame.me]
    exact hnone _ (Or.inl rfl)
  · rw [hsame.me, hsame.clientParent, hsame.serverParent, hsame.clientLists, hsame.serverLists,
      hsame.globalClientList, hsame.globalServerList]
    exact h.listed
  · rw [hsame.clientParent, hsame.serverParent] at hp
    have hregistered : clientParent s p ≠ none ∨ serverParent s p ≠ none :=
      hp.imp (fun hq => by simp [hq]) (fun hq => by simp [hq])
    have hp' := hsame.connection p hregistered
    rw [hsame.me, hp'.1, hp'.2]
    refine (h.routed p q hp).imp_right fun hother => ⟨hother.1, ?_, hother.2.2⟩
    have hq := (h.listed.parents p q hp).resolve_left hother.1
    rw [(hsame.connection q (Or.inr hq)).2]
    exact hother.2.1
  · rw [hsame.bursted]
    exact h.unmarked
  · rw [hsame.deadList]
    exact h.dead_nodup
  · rw [hsame.deadList] at hp
    exact hnone p (Or.inr hp)

theorem inv_of_same (h : Inv s) (hsame : SameTree s s') (hgood : Good s'.rooms)
    (hnone : ∀ p, p = s.me ∨ p ∈ s.deadList → s'.rooms.clients p = none)
    (hown : ∀ p, ServerTree.myConnect s' p = true → fromOf s' p = p)
    (hopened : ∀ p, known s' p = true → (s'.node p).closing = false) : Inv s' := by
  refine ⟨placed_of_same s s' h.placed hsame hgood hnone hown, ?_, fun q => ?_, hopened⟩
  · rw [hsame.localServerList]
    exact h.links_nodup
  · rw [hsame.localServerList, h.mem_links, hsame.serverParent]
    exact and_congr_right fun hq => by rw [(hsame.connection q (Or.inr hq)).1]

theorem named_of_same (h : Named s) (hme : s'.me = s.me) (hnames : s'.clientTable = s.clientTable)
    (hids : s'.idTable = s.idTable) (htop : s.top ≤ s'.top)
    (hkey : s'.rooms.hashfXorKey = s.rooms.hashfXorKey)
    (hname : ∀ q, ¬ Off s.clientTable q → nameOf s' q = nameOf s q)
    (hid : ∀ q, ¬ Off s.idTable q → idOf s' q = idOf s q)
    (hknown : ∀ q, known s q = true → known s' q = true)
    (hpending : ∀ q, isUnknown s' q = true → Off s.idTable q)
    (hbelow : ∀ q, known s' q = true → q < s'.top) : Named s' := by
  have hhash : hashOf s' = hashOf s := by
    funext name
    unfold hashOf
    rw [hkey]
  refine ⟨?_, ?_, fun q hq => ?_, fun q hq => ?_, fun q hq => ?_, fun q hq => ?_⟩
  · rw [hnames]
    refine table_rename _ _ _ (table_top _ _ _ h.names _ htop) _ fun q hq => ?_
    unfold nameHash
    rw [hhash, hname q hq]
  · rw [hids]
    refine table_rename _ _ _ (table_top _ _ _ h.ids _ htop) _ fun q hq => ?_
    unfold idHash
    rw [hhash, hid q hq]
  · rw [hnames] at hq
    rw [hme, hname q hq]
    exact ⟨(h.named q hq).1.imp_right (hknown q), (h.named q hq).2⟩
  · rw [hids] at hq
    rw [hme, hid q hq]
    exact ⟨(h.ided q hq).1.imp_right (hknown q), (h.ided q hq).2⟩
  · rw [hids]
    exact hpending q hq
  · rw [hme] at hq
    rcases hq with rfl | hq
    · exact Nat.lt_of_lt_of_le (h.below _ (Or.inl rfl)) htop
    · exact hbelow q hq

end Same

section Node

variable (s : Net) (node' : ClientPtr → Node)

theorem node_same (hservptr : ∀ q, isClient s.rooms q = true ∨ isServer s q = true →
      (node' q).servptr = (s.node q).servptr)
    (hclients : ∀ q, (node' q).clientList = (s.node q).clientList)
    (hservers : ∀ q, (node' q).serverList = (s.node q).serverList) :
    SameTree s { s with node := node' } := by
  refine ⟨rfl, ?_, ?_, funext hclients, funext hservers, rfl, rfl, rfl, rfl, rfl,
    fun _ _ => ⟨rfl, rfl⟩⟩
  · funext q
    show (if isClient s.rooms q = true then some (node' q).servptr else none) = _
    unfold clientParent
    split
    · next hq => rw [hservptr q (Or.inl hq)]
    · rfl
  · funext q
    show (if isServer s q = true then some (node' q).servptr else none) = _
    unfold serverParent
    split
    · next hq => rw [hservptr q (Or.inr hq)]
    · rfl

theorem node_named (h : Named s) : Named { s with node := node' } :=
  ⟨h.names, h.ids, h.named, h.ided, h.pending, h.below⟩

theorem modifyNode_same (p : ClientPtr) (f : Node → Node)
    (hservptr : isClient s.rooms p = true ∨ isServer s p = true →
      (f (s.node p)).servptr = (s.node p).servptr)
    (hclients : (f (s.node p)).clientList = (s.node p).clientList)
    (hservers : (f (s.node p)).serverList = (s.node p).serverList) :
    SameTree s (modifyNode s p f) := by
  refine node_same s _ (fun q hq => ?_) (fun q => ?_) (fun q => ?_)
  · by_cases hqp : q = p
    · rw [hqp, update_self]
      exact hservptr (hqp ▸ hq)
    · rw [update_of_ne hqp]
  · by_cases hqp : q = p
    · rw [hqp, update_self, hclients]
    · rw [update_of_ne hqp]
  · by_cases hqp : q = p
    · rw [hqp, update_self, hservers]
    · rw [update_of_ne hqp]

/-- The parts of a node that the lists and the exits depend on are kept. -/
theorem modifyNode_inv (h : Inv s) (p : ClientPtr) (f : Node → Node)
    (hservptr : isClient s.rooms p = true ∨ isServer s p = true →
      (f (s.node p)).servptr = (s.node p).servptr)
    (hclients : (f (s.node p)).clientList = (s.node p).clientList)
    (hservers : (f (s.node p)).serverList = (s.node p).serverList)
    (hclosing : (f (s.node p)).closing = (s.node p).closing) : Inv (modifyNode s p f) := by
  refine inv_of_same s _ h (modifyNode_same s p f hservptr hclients hservers) h.placed.good ?_
    h.placed.own ?_
  · rintro q (rfl | hq)
    · exact h.placed.rootless
    · exact h.placed.dead_gone q hq
  · intro q hq
    show (update s.node p (f (s.node p)) q).closing = false
    by_cases hqp : q = p
    · rw [hqp, update_self, hclosing]
      exact h.opened p (hqp ▸ hq)
    · rw [update_of_ne hqp]
      exact h.opened q hq

end Node

section Rooms

variable (s : Net) (rooms' : MemberLists.State)

/-- Who is what, and over whose connection it is reached. -/
def standing (c : Client) : Status × Bool × ClientPtr := (c.status, c.myConnect, c.fromPtr)

theorem same_standing (h : ∀ p, (rooms'.clients p).map standing = (s.rooms.clients p).map standing)
    (p : ClientPtr) :
    isClient rooms' p = isClient s.rooms p ∧ isServer (onRooms s rooms') p = isServer s p ∧
      isUnknown (onRooms s rooms') p = isUnknown s p ∧ known (onRooms s rooms') p = known s p ∧
      ServerTree.myConnect (onRooms s rooms') p = ServerTree.myConnect s p ∧
      fromOf (onRooms s rooms') p = fromOf s p := by
  have hp := h p
  unfold isServer isUnknown ServerTree.myConnect known isClient MemberLists.myConnect fromOf onRooms
  dsimp only
  cases hc : s.rooms.clients p with
  | none =>
    rw [hc, Option.map_none, Option.map_eq_none_iff] at hp
    simp [hp]
  | some c =>
    rw [hc, Option.map_some, Option.map_eq_some_iff] at hp
    obtain ⟨c', hc', hstanding⟩ := hp
    unfold standing at hstanding
    simp only [Prod.mk.injEq] at hstanding
    rw [hc']
    simp [hstanding.1, hstanding.2.1, hstanding.2.2]

theorem standing_inv (h : Inv s) (hgood : Good rooms')
    (hstanding : ∀ p, (rooms'.clients p).map standing = (s.rooms.clients p).map standing) :
    Inv (onRooms s rooms') := by
  have hp := same_standing s rooms' hstanding
  have hnone : ∀ q, s.rooms.clients q = none → rooms'.clients q = none := by
    intro q hq
    have hq' := hstanding q
    rw [hq, Option.map_none, Option.map_eq_none_iff] at hq'
    exact hq'
  refine inv_of_same s _ h ⟨rfl, ?_, ?_, rfl, rfl, rfl, rfl, rfl, rfl, rfl, fun q _ => (hp q).2.2.2.2⟩
    hgood ?_ (fun q hq => ?_) fun q hq => ?_
  · funext q
    unfold clientParent
    rw [← (hp q).1]
    rfl
  · funext q
    unfold serverParent
    rw [(hp q).2.1]
    rfl
  · rintro q (rfl | hq)
    · exact hnone _ h.placed.rootless
    · exact hnone q (h.placed.dead_gone q hq)
  · rw [(hp q).2.2.2.2.1] at hq
    rw [(hp q).2.2.2.2.2]
    exact h.placed.own q hq
  · rw [(hp q).2.2.2.1] at hq
    exact h.opened q hq

theorem standing_named (h : Named s) (hkey : rooms'.hashfXorKey = s.rooms.hashfXorKey)
    (hstanding : ∀ p, (rooms'.clients p).map standing = (s.rooms.clients p).map standing)
    (hname : ∀ q, ¬ Off s.clientTable q → nameOf (onRooms s rooms') q = nameOf s q)
    (hid : ∀ q, ¬ Off s.idTable q → idOf (onRooms s rooms') q = idOf s q) :
    Named (onRooms s rooms') := by
  have hp := same_standing s rooms' hstanding
  refine named_of_same s _ h rfl rfl rfl (Nat.le_refl _) hkey hname hid (fun q hq => ?_)
    (fun q hq => ?_) (fun q hq => ?_)
  · rw [(hp q).2.2.2.1]
    exact hq
  · rw [(hp q).2.2.1] at hq
    exact h.pending q hq
  · rw [(hp q).2.2.2.1] at hq
    exact h.below q (Or.inr hq)

theorem heads_read (hsame : SameHeads s.rooms rooms') {β : Type} (f : Client → β)
    (g : CStr × CStr × Status × Bool × ClientPtr → β) (hfg : ∀ c, f c = g (head c)) (p : ClientPtr) :
    (rooms'.clients p).map f = (s.rooms.clients p).map f := by
  have hf : f = g ∘ head := funext hfg
  rw [hf, ← Option.map_map, ← Option.map_map, hsame.heads p]

theorem rooms_inv (h : Inv s) (hgood : Good rooms') (hsame : SameHeads s.rooms rooms') :
    Inv (onRooms s rooms') :=
  standing_inv s rooms' h hgood
    (heads_read s rooms' hsame standing (fun x => (x.2.2.1, x.2.2.2.1, x.2.2.2.2)) (fun _ => rfl))

theorem rooms_named (h : Named s) (hsame : SameHeads s.rooms rooms') :
    Named (onRooms s rooms') := by
  refine standing_named s rooms' h hsame.key
    (heads_read s rooms' hsame standing (fun x => (x.2.2.1, x.2.2.2.1, x.2.2.2.2)) (fun _ => rfl))
    (fun q _ => ?_) (fun q _ => ?_)
  · exact nameOf_read s q (onRooms s rooms') rfl rfl
      (heads_read s rooms' hsame Client.name (fun x => x.2.1) (fun _ => rfl) q)
  · exact idOf_read s q (onRooms s rooms') rfl rfl
      (heads_read s rooms' hsame Client.id (fun x => x.1) (fun _ => rfl) q)

theorem modifyClient_of_ne (r : MemberLists.State) (p q : ClientPtr) (f : Client → Client)
    (hq : q ≠ p) : (modifyClient r p f).clients q = r.clients q := update_of_ne hq _ _

theorem modifyClient_self (r : MemberLists.State) (p : ClientPtr) (f : Client → Client) :
    (modifyClient r p f).clients p = (r.clients p).map f := update_self _ _ _

theorem modifyClient_read (p : ClientPtr) (f : Client → Client) {β : Type} (g : Client → β)
    (hg : ∀ c, g (f c) = g c) (q : ClientPtr) :
    ((modifyClient s.rooms p f).clients q).map g = (s.rooms.clients q).map g := by
  by_cases hqp : q = p
  · rw [hqp, modifyClient_self, Option.map_map]
    exact congrArg (fun g => (s.rooms.clients p).map g) (funext hg)
  · rw [modifyClient_of_ne _ _ _ _ hqp]

theorem modifyClient_standing (p : ClientPtr) (f : Client → Client)
    (hf : ∀ c, standing (f c) = standing c) (q : ClientPtr) :
    ((modifyClient s.rooms p f).clients q).map standing = (s.rooms.clients q).map standing :=
  modifyClient_read s p f standing hf q

theorem modifyName_inv (h : Inv s) (p : ClientPtr) (name : CStr) : Inv (modifyName s p name) :=
  standing_inv s _ h ⟨rename_consistent _ h.placed.good.consistent p _, h.placed.good.live⟩
    (modifyClient_standing s p _ fun _ => rfl)

theorem modifyName_named (h : Named s) (p : ClientPtr) (name : CStr) (hoff : Off s.clientTable p) :
    Named (modifyName s p name) := by
  refine standing_named s _ h rfl (modifyClient_standing s p _ fun _ => rfl) (fun q hq => ?_)
    (fun q _ => ?_)
  · have hqp : q ≠ p := by
      rintro rfl
      exact hq hoff
    unfold nameOf onRooms
    dsimp only
    rw [modifyClient_of_ne _ _ _ _ hqp]
  · refine idOf_read s q (modifyName s p name) rfl rfl ?_
    show ((modifyClient s.rooms p _).clients q).map Client.id = _
    refine modifyClient_read s p _ Client.id (fun _ => ?_) q
    rfl

theorem modifyId_inv (h : Inv s) (p : ClientPtr) (id : CStr)
    (hclient : isClient s.rooms p = false) : Inv (modifyId s p id) :=
  standing_inv s _ h (modifyClient_good s.rooms h.placed.good p _ hclient (fun _ => rfl))
    (modifyClient_standing s p _ fun _ => rfl)

theorem modifyId_named (h : Named s) (p : ClientPtr) (id : CStr) (hoff : Off s.idTable p) :
    Named (modifyId s p id) := by
  refine standing_named s _ h rfl (modifyClient_standing s p _ fun _ => rfl) (fun q _ => ?_)
    (fun q hq => ?_)
  · refine nameOf_read s q (modifyId s p id) rfl rfl ?_
    show ((modifyClient s.rooms p _).clients q).map Client.name = _
    refine modifyClient_read s p _ Client.name (fun _ => ?_) q
    rfl
  · have hqp : q ≠ p := by
      rintro rfl
      exact hq hoff
    unfold idOf onRooms
    dsimp only
    rw [modifyClient_of_ne _ _ _ _ hqp]

end Rooms

section Hashes

variable (s : Net) (clientTable idTable : Chains ℕ ClientPtr)

theorem tables_inv (h : Inv s) : Inv { s with clientTable := clientTable, idTable := idTable } :=
  ⟨⟨h.placed.good, h.placed.rootless, h.placed.listed, h.placed.routed, h.placed.own,
    h.placed.unmarked,
    h.placed.dead_nodup, h.placed.dead_gone⟩, h.links_nodup, h.mem_links, h.opened⟩

variable (h : Named s) (p : ClientPtr)

include h

theorem hashDelClient_named :
    Named (hashDelClient s p) ∧
      (∀ q, Off (hashDelClient s p).clientTable q ↔ q = p ∨ Off s.clientTable q) ∧
      Trimmed [p] s.clientTable (hashDelClient s p).clientTable := by
  obtain ⟨htable, hoff, htrimmed⟩ := table_del s.clientTable (nameHash s) s.top h.names p
  exact ⟨⟨htable, h.ids, fun q hq => h.named q (fun hold => hq ((hoff q).mpr (Or.inr hold))),
    h.ided, h.pending, h.below⟩, hoff, htrimmed⟩

theorem hashDelId_named :
    Named (hashDelId s p) ∧ (∀ q, Off (hashDelId s p).idTable q ↔ q = p ∨ Off s.idTable q) ∧
      Trimmed [p] s.idTable (hashDelId s p).idTable := by
  obtain ⟨htable, hoff, htrimmed⟩ := table_del s.idTable (idHash s) s.top h.ids p
  exact ⟨⟨h.names, htable, h.named,
    fun q hq => h.ided q (fun hold => hq ((hoff q).mpr (Or.inr hold))),
    fun q hq => (hoff q).mpr (Or.inr (h.pending q hq)), h.below⟩, hoff, htrimmed⟩

theorem hashAddClient_named (hp : Off s.clientTable p) (hknown : known s p = true)
    (hname : nameOf s p ≠ []) :
    Named (hashAddClient s p) ∧
      ∀ q, Off (hashAddClient s p).clientTable q ↔ q ≠ p ∧ Off s.clientTable q := by
  obtain ⟨htable, hoff⟩ := table_add s.clientTable (nameHash s) s.top h.names p hp
    (h.below p (Or.inr hknown))
  refine ⟨⟨htable, h.ids, fun q hq => ?_, h.ided, h.pending, h.below⟩, hoff⟩
  by_cases hqp : q = p
  · rw [hqp]
    exact ⟨Or.inr hknown, hname⟩
  · exact h.named q (fun hold => hq ((hoff q).mpr ⟨hqp, hold⟩))

theorem hashAddId_named (hp : Off s.idTable p) (hknown : known s p = true) (hid : idOf s p ≠ [])
    (hregistered : isUnknown s p = false) :
    Named (hashAddId s p) ∧ ∀ q, Off (hashAddId s p).idTable q ↔ q ≠ p ∧ Off s.idTable q := by
  obtain ⟨htable, hoff⟩ := table_add s.idTable (idHash s) s.top h.ids p hp
    (h.below p (Or.inr hknown))
  refine ⟨⟨h.names, htable, h.named, fun q hq => ?_, fun q hq => ?_, h.below⟩, hoff⟩
  · by_cases hqp : q = p
    · rw [hqp]
      exact ⟨Or.inr hknown, hid⟩
    · exact h.ided q (fun hold => hq ((hoff q).mpr ⟨hqp, hold⟩))
  · refine (hoff q).mpr ⟨?_, h.pending q hq⟩
    rintro rfl
    rw [show isUnknown s q = true from hq] at hregistered
    exact absurd hregistered (by simp)

/-- Looking for a name, whoever may be meant, only reorders a bucket. -/
theorem findName_named (k : ℕ) (f : ClientPtr → Bool) :
    Named { s with clientTable := (s.clientTable.find s.top k f).2 } ∧
      ∀ q, Off (s.clientTable.find s.top k f).2 q ↔ Off s.clientTable q := by
  obtain ⟨htable, hoff⟩ := table_find s.clientTable (nameHash s) s.top h.names k f
  exact ⟨⟨htable, h.ids, fun q hq => h.named q (fun hold => hq ((hoff q).mpr hold)), h.ided,
    h.pending, h.below⟩, hoff⟩

theorem findId_named (k : ℕ) (f : ClientPtr → Bool) :
    Named { s with idTable := (s.idTable.find s.top k f).2 } ∧
      ∀ q, Off (s.idTable.find s.top k f).2 q ↔ Off s.idTable q := by
  obtain ⟨htable, hoff⟩ := table_find s.idTable (idHash s) s.top h.ids k f
  exact ⟨⟨h.names, htable, h.named, fun q hq => h.ided q (fun hold => hq ((hoff q).mpr hold)),
    fun q hq => (hoff q).mpr (h.pending q hq), h.below⟩, hoff⟩

theorem off_of_none (hp : s.rooms.clients p = none) (hne : p ≠ s.me) :
    Off s.clientTable p ∧ Off s.idTable p := by
  have hnot : ¬ (p = s.me ∨ known s p = true) := by
    rw [(unregistered_of_none s p hp).2.2]
    rintro (hme | hfalse)
    · exact hne hme
    · simp at hfalse
  constructor
  · by_contra hon
    exact hnot (h.named p hon).1
  · by_contra hon
    exact hnot (h.ided p hon).1

end Hashes

theorem frame_inv (s : Net) (h : Inv s) (unknown clients : List ClientPtr)
    (extra : ChannelPtr → Extra) (sent : List (ClientPtr × Line)) :
    Inv { s with
      unknownList := unknown
      localClientList := clients
      extra := extra
      sent := sent } :=
  ⟨⟨h.placed.good, h.placed.rootless, h.placed.listed, h.placed.routed, h.placed.own,
    h.placed.unmarked,
    h.placed.dead_nodup, h.placed.dead_gone⟩, h.links_nodup, h.mem_links, h.opened⟩

theorem frame_named (s : Net) (h : Named s) (unknown clients : List ClientPtr)
    (extra : ChannelPtr → Extra) (sent : List (ClientPtr × Line)) :
    Named { s with
      unknownList := unknown
      localClientList := clients
      extra := extra
      sent := sent } :=
  ⟨h.names, h.ids, h.named, h.ided, h.pending, h.below⟩

end IrcdHybrid.ServerInvariant
