import IrcdHybrid.Departure
import IrcdHybrid.ServerComing

/-!
Exits. One client, with nobody behind it, is taken off every list and out of the
hashes, and nothing else changes. A server takes all that is behind it along: each of
its users is taken off, and each of the servers behind it after what is behind that one.
-/

namespace IrcdHybrid.Exits

open Index HashChains Forest Departure ServerLists NameTables MemberLists MemberInvariant
open ServerTree ServerEvents ServerInvariant ServerComing Function

def without (removed l : List ClientPtr) : List ClientPtr := l.filter (fun p => decide (p ∉ removed))

theorem without_nil (l : List ClientPtr) : without [] l = l := List.filter_eq_self.mpr (by simp)

theorem without_append (removed removed' l : List ClientPtr) :
    without (removed ++ removed') l = without removed' (without removed l) := by
  unfold without
  rw [List.filter_filter]
  refine List.filter_congr fun p _ => ?_
  by_cases hp : p ∈ removed <;> by_cases hp' : p ∈ removed' <;> simp [hp, hp']

theorem without_singleton (p : ClientPtr) (l : List ClientPtr) (h : l.Nodup) :
    without [p] l = l.erase p := by
  rw [h.erase_eq_filter]
  refine List.filter_congr fun q _ => ?_
  by_cases hq : q = p <;> simp [hq]

theorem without_of_not_mem (p : ClientPtr) (l : List ClientPtr) (h : p ∉ l) : without [p] l = l := by
  refine List.filter_eq_self.mpr fun q hq => ?_
  have hne : q ≠ p := by
    rintro rfl
    exact h hq
  simpa using hne

theorem mem_without (removed l : List ClientPtr) (p : ClientPtr) :
    p ∈ without removed l ↔ p ∈ l ∧ p ∉ removed := by
  unfold without
  rw [List.mem_filter, decide_eq_true_iff]

/-- The server that a client or server is behind. -/
def parentOf (s : Net) (p : ClientPtr) : Option ClientPtr :=
  (clientParent s p).or (serverParent s p)

theorem parentOf_eq_some (s : Net) (p q : ClientPtr) :
    parentOf s p = some q ↔
      (isClient s.rooms p = true ∨ isServer s p = true) ∧ (s.node p).servptr = q := by
  unfold parentOf clientParent serverParent
  cases isClient s.rooms p <;> cases isServer s p <;> simp

theorem parentOf_cases (s : Net) (p q : ClientPtr) (h : parentOf s p = some q) :
    clientParent s p = some q ∨ serverParent s p = some q := by
  unfold parentOf at h
  cases hc : clientParent s p with
  | none =>
    rw [hc, Option.none_or] at h
    exact Or.inr h
  | some a =>
    rw [hc, Option.some_or] at h
    exact Or.inl h

structure SameRest (s s' : Net) : Prop where
  me : s'.me = s.me
  meId : s'.meId = s.meId
  meName : s'.meName = s.meName
  meInfo : s'.meInfo = s.meInfo
  localServerList : s'.localServerList = s.localServerList
  localClientList : s'.localClientList = s.localClientList
  unknownList : s'.unknownList = s.unknownList
  top : s'.top = s.top
  bursted : s'.bursted = s.bursted
  extra : s'.extra = s.extra

/-- The line says that somebody quits. -/
def quits : Line → Bool
  | .quit .. => true
  | .quitOf .. => true
  | _ => false

def thinNode (removed : List ClientPtr) (n : Node) : Node :=
  { n with clientList := without removed n.clientList, serverList := without removed n.serverList }

/-- These are gone, each once, and nothing else has changed. -/
structure Exited (removed : List ClientPtr) (s s' : Net) : Prop where
  rooms : Departed removed s.rooms s'.rooms
  node : ∀ q, q ∉ removed → s'.node q = thinNode removed (s.node q)
  globalClientList : s'.globalClientList = without removed s.globalClientList
  globalServerList : s'.globalServerList = without removed s.globalServerList
  deadList : s'.deadList = removed.reverse ++ s.deadList
  nodup : removed.Nodup
  members : ∀ p ∈ removed, known s p = true
  sent : ∃ lines, s'.sent = s.sent ++ lines ∧
    ∀ x ∈ lines, quits x.2 = true → isClient s.rooms x.1 = true
  hashes : Named s → Named s' ∧ Trimmed removed s.clientTable s'.clientTable ∧
    Trimmed removed s.idTable s'.idTable
  rest : SameRest s s'

theorem exited_refl (s : Net) (h : Placed s) : Exited [] s s := by
  refine ⟨departed_refl s.rooms h.good, fun q _ => ?_, (without_nil _).symm, (without_nil _).symm, rfl,
    List.nodup_nil, by simp, ⟨[], (List.append_nil _).symm, by simp⟩,
    fun hn => ⟨hn, trimmed_nil _, trimmed_nil _⟩, ⟨rfl, rfl, rfl, rfl, rfl, rfl, rfl, rfl, rfl, rfl⟩⟩
  unfold thinNode
  rw [without_nil, without_nil]

theorem isClient_of_departed (removed : List ClientPtr) (r r' : MemberLists.State)
    (h : Departed removed r r') (p : ClientPtr) (hp : isClient r' p = true) : isClient r p = true := by
  obtain ⟨c, hc, hstatus⟩ := (isClient_iff r' p).mp hp
  rw [h.clients p] at hc
  split at hc
  · exact absurd hc (by simp)
  · exact (isClient_iff r p).mpr ⟨c, hc, hstatus⟩

theorem exited_status (s s' : Net) (removed : List ClientPtr) (h : Departed removed s.rooms s'.rooms)
    (p : ClientPtr) :
    (p ∈ removed → isClient s'.rooms p = false ∧ isServer s' p = false ∧ isUnknown s' p = false ∧
        known s' p = false ∧ ServerTree.myConnect s' p = false ∧ fromOf s' p = p) ∧
      (p ∉ removed → isClient s'.rooms p = isClient s.rooms p ∧ isServer s' p = isServer s p ∧
        isUnknown s' p = isUnknown s p ∧ known s' p = known s p ∧
        ServerTree.myConnect s' p = ServerTree.myConnect s p ∧ fromOf s' p = fromOf s p) := by
  unfold isClient isServer isUnknown known ServerTree.myConnect MemberLists.myConnect fromOf
  rw [h.clients p]
  constructor
  · intro hp
    rw [if_pos hp]
    exact ⟨rfl, rfl, rfl, rfl, rfl, rfl⟩
  · intro hp
    rw [if_neg hp]
    exact ⟨rfl, rfl, rfl, rfl, rfl, rfl⟩

theorem exited_trans (s s' s'' : Net) (removed removed' : List ClientPtr) (h : Exited removed s s')
    (h' : Exited removed' s' s'') : Exited (removed ++ removed') s s'' := by
  refine ⟨departed_trans _ _ _ _ _ h.rooms h'.rooms, fun q hq => ?_, ?_, ?_, ?_, ?_, fun p hp => ?_, ?_,
    fun hn => ?_, ?_⟩
  · rw [List.mem_append, not_or] at hq
    rw [h'.node q hq.2, h.node q hq.1]
    unfold thinNode
    rw [without_append, without_append]
  · rw [without_append, ← h.globalClientList, ← h'.globalClientList]
  · rw [without_append, ← h.globalServerList, ← h'.globalServerList]
  · rw [h'.deadList, h.deadList, List.reverse_append, List.append_assoc]
  · refine List.nodup_append.mpr ⟨h.nodup, h'.nodup, ?_⟩
    rintro p hp q hq rfl
    have hmem := h'.members p hq
    rw [((exited_status s s' removed h.rooms p).1 hp).2.2.2.1] at hmem
    simp at hmem
  · rcases List.mem_append.mp hp with hp | hp
    · exact h.members p hp
    · have hmem := h'.members p hp
      by_cases hold : p ∈ removed
      · exact h.members p hold
      · rwa [((exited_status s s' removed h.rooms p).2 hold).2.2.2.1] at hmem
  · obtain ⟨lines, hsent, hto⟩ := h.sent
    obtain ⟨lines', hsent', hto'⟩ := h'.sent
    refine ⟨lines ++ lines', by rw [hsent', hsent, List.append_assoc], fun x hx hquit => ?_⟩
    rcases List.mem_append.mp hx with hx | hx
    · exact hto x hx hquit
    · exact isClient_of_departed _ _ _ h.rooms _ (hto' x hx hquit)
  · obtain ⟨hn', hnames, hids⟩ := h.hashes hn
    obtain ⟨hn'', hnames', hids'⟩ := h'.hashes hn'
    exact ⟨hn'', trimmed_trans _ _ _ _ _ hnames hnames', trimmed_trans _ _ _ _ _ hids hids'⟩
  · obtain ⟨h1, h2, h3, h4, h5, h6, h7, h8, h9, h10⟩ := h.rest
    obtain ⟨g1, g2, g3, g4, g5, g6, g7, g8, g9, g10⟩ := h'.rest
    exact ⟨g1.trans h1, g2.trans h2, g3.trans h3, g4.trans h4, g5.trans h5, g6.trans h6, g7.trans h7,
      g8.trans h8, g9.trans h9, g10.trans h10⟩

theorem exited_parents (s s' : Net) (removed : List ClientPtr)
    (hrooms : Departed removed s.rooms s'.rooms)
    (hservptr : ∀ q, q ∉ removed → (s'.node q).servptr = (s.node q).servptr) :
    clientParent s' = cut (clientParent s) removed ∧
      serverParent s' = cut (serverParent s) removed := by
  constructor
  · funext p
    unfold cut clientParent
    by_cases hp : p ∈ removed
    · rw [((exited_status s s' removed hrooms p).1 hp).1, if_pos hp]
      rfl
    · rw [((exited_status s s' removed hrooms p).2 hp).1, hservptr p hp, if_neg hp]
  · funext p
    unfold cut serverParent
    by_cases hp : p ∈ removed
    · rw [((exited_status s s' removed hrooms p).1 hp).2.1, if_pos hp]
      rfl
    · rw [((exited_status s s' removed hrooms p).2 hp).2.1, hservptr p hp, if_neg hp]

theorem exited_parentOf (s s' : Net) (removed : List ClientPtr) (h : Exited removed s s') :
    parentOf s' = cut (parentOf s) removed := by
  obtain ⟨hcp, hsp⟩ := exited_parents s s' removed h.rooms (fun q hq => by rw [h.node q hq]; rfl)
  funext p
  unfold parentOf
  rw [hcp, hsp]
  unfold cut
  split <;> rfl

section One

variable (conf : Conf) (s : Net) (p : ClientPtr) (comment : CString.CStr)

theorem commonLocal_clients (h : Good s.rooms) (q : ClientPtr) (hq : q ∈ commonLocal s p) :
    isClient s.rooms q = true := by
  unfold commonLocal at hq
  refine List.foldlRecOn (motive := fun seen => ∀ q ∈ seen, isClient s.rooms q = true) _ _
    (by simp) (fun seen hseen m _ => ?_) q hq
  split
  · next x hx =>
    split
    · exact hseen
    · intro q hq
      rcases List.mem_append.mp hq with hq | hq
      · exact hseen q hq
      · rw [List.mem_singleton.mp hq]
        exact h.consistent.linked.clients m x hx
  · exact hseen

theorem unlist_client (h : Placed s) (hclient : isClient s.rooms p = true) :
    ∃ lines, (∀ x ∈ lines, isClient s.rooms x.1 = true) ∧ unlist s p comment = { s with
      node := update s.node (s.node p).servptr { s.node (s.node p).servptr with
        clientList := (s.node (s.node p).servptr).clientList.erase p }
      globalClientList := s.globalClientList.erase p
      sent := s.sent ++ lines } := by
  unfold unlist
  rw [if_pos hclient]
  refine ⟨_, fun x hx => ?_, rfl⟩
  obtain ⟨q, hq, rfl⟩ := List.mem_map.mp hx
  have hgood : Good (modifyNode s (s.node p).servptr (fun n =>
      { n with clientList := n.clientList.erase p })).rooms := h.good
  have hq' := commonLocal_clients _ p hgood q hq
  exact hq'

theorem unlist_server (hclient : isClient s.rooms p = false) (hserver : isServer s p = true) :
    unlist s p comment = { s with
      node := update s.node (s.node p).servptr { s.node (s.node p).servptr with
        serverList := (s.node (s.node p).servptr).serverList.erase p }
      globalClientList := s.globalClientList.erase p
      globalServerList := s.globalServerList.erase p } := by
  unfold unlist
  rw [if_neg (by simp [hclient]), if_pos hserver]
  rfl

theorem unlist_spec (h : Placed s) (hne : p ≠ s.me) :
    ∃ lines, (∀ x ∈ lines, isClient s.rooms x.1 = true) ∧ unlist s p comment = { s with
      node := fun q => thinNode [p] (s.node q)
      globalClientList := without [p] s.globalClientList
      globalServerList := without [p] s.globalServerList
      sent := s.sent ++ lines } := by
  have hlisted := h.listed
  have hclients : ∀ q, (s.node p).servptr ≠ q ∨ isClient s.rooms p = false →
      without [p] (s.node q).clientList = (s.node q).clientList := by
    intro q hq
    refine without_of_not_mem p _ fun hmem => ?_
    have hkey := ((hlisted.clients q).2 p).mp hmem
    unfold clientParent at hkey
    split at hkey
    · next hclient =>
      rcases hq with hq | hq
      · exact hq (Option.some.inj hkey)
      · rw [hq] at hclient
        simp at hclient
    · simp at hkey
  have hservers : ∀ q, (s.node p).servptr ≠ q ∨ isServer s p = false →
      without [p] (s.node q).serverList = (s.node q).serverList := by
    intro q hq
    refine without_of_not_mem p _ fun hmem => ?_
    have hkey := ((hlisted.servers q).2 p).mp hmem
    unfold serverParent at hkey
    split at hkey
    · next hserver =>
      rcases hq with hq | hq
      · exact hq (Option.some.inj hkey)
      · rw [hq] at hserver
        simp at hserver
    · simp at hkey
  by_cases hclient : isClient s.rooms p = true
  · have hserver := not_server_of_client s p hclient
    have hnot : p ∉ s.globalServerList := by
      rw [hlisted.mem_servers, serverParent_ne_none, hserver]
      simp [hne]
    obtain ⟨lines, hto, heq⟩ := unlist_client s p comment h hclient
    refine ⟨lines, hto, ?_⟩
    have hnode : (fun q => thinNode [p] (s.node q)) =
        update s.node (s.node p).servptr { s.node (s.node p).servptr with
          clientList := (s.node (s.node p).servptr).clientList.erase p } := by
      funext q
      unfold thinNode
      rw [hservers q (Or.inr hserver)]
      by_cases hq : q = (s.node p).servptr
      · rw [hq, update_self, without_singleton p _ (hlisted.clients _).1]
      · rw [update_of_ne hq, hclients q (Or.inl (Ne.symm hq))]
    rw [heq, hnode, without_singleton p _ hlisted.global_nodup, without_of_not_mem p _ hnot]
  have hclient : isClient s.rooms p = false := by simpa using hclient
  refine ⟨[], by simp, ?_⟩
  by_cases hserver : isServer s p = true
  · have hnode : (fun q => thinNode [p] (s.node q)) =
        update s.node (s.node p).servptr { s.node (s.node p).servptr with
          serverList := (s.node (s.node p).servptr).serverList.erase p } := by
      funext q
      unfold thinNode
      rw [hclients q (Or.inr hclient)]
      by_cases hq : q = (s.node p).servptr
      · rw [hq, update_self, without_singleton p _ (hlisted.servers _).1]
      · rw [update_of_ne hq, hservers q (Or.inl (Ne.symm hq))]
    rw [unlist_server s p comment hclient hserver, hnode, List.append_nil,
      without_singleton p _ hlisted.global_nodup, without_singleton p _ hlisted.servers_nodup]
  have hserver : isServer s p = false := by simpa using hserver
  have hnode : (fun q => thinNode [p] (s.node q)) = s.node := by
    funext q
    unfold thinNode
    rw [hclients q (Or.inr hclient), hservers q (Or.inr hserver)]
  have hclientList : p ∉ s.globalClientList := by
    rw [hlisted.mem_global, clientParent_ne_none, serverParent_ne_none, hclient, hserver]
    simp
  have hserverList : p ∉ s.globalServerList := by
    rw [hlisted.mem_servers, serverParent_ne_none, hserver]
    simp [hne]
  rw [hnode, List.append_nil, without_of_not_mem p _ hclientList, without_of_not_mem p _ hserverList]
  unfold unlist
  rw [if_neg (by simp [hclient]), if_neg (by simp [hserver])]

/-- The tree of servers without one that nothing is behind. -/
theorem listed_without {me : ClientPtr} {clientKey serverKey : ClientPtr → Option ClientPtr}
    {clientList serverList : ClientPtr → List ClientPtr} {clients servers : List ClientPtr}
    (h : Listed me clientKey serverKey clientList serverList clients servers) (hne : p ≠ me)
    (halone : ∀ a, clientKey a ≠ some p ∧ serverKey a ≠ some p) :
    Listed me (cut clientKey [p]) (cut serverKey [p]) (fun a => without [p] (clientList a))
      (fun a => without [p] (serverList a)) (without [p] clients) (without [p] servers) := by
  have hcut : ∀ key : ClientPtr → Option ClientPtr, cut key [p] = update key p none := by
    intro key
    funext a
    unfold cut
    by_cases ha : a = p
    · rw [ha, update_self, if_pos (List.mem_singleton_self p)]
    · rw [update_of_ne ha, if_neg (by simpa using ha)]
  have hlist : ∀ (key : ClientPtr → Option ClientPtr) (lists : ClientPtr → List ClientPtr),
      Indexes key lists → ∀ a, key p ≠ some a → without [p] (lists a) = lists a := by
    intro key lists hindexes a ha
    exact without_of_not_mem p _ fun hmem => ha (((hindexes a).2 p).mp hmem)
  have hlists : ∀ (key : ClientPtr → Option ClientPtr) (lists : ClientPtr → List ClientPtr),
      Indexes key lists → ∀ q, key p = some q →
      (fun a => without [p] (lists a)) = update lists q ((lists q).erase p) := by
    intro key lists hindexes q hq
    funext a
    by_cases ha : a = q
    · rw [ha, update_self, without_singleton p _ (hindexes q).1]
    · rw [update_of_ne ha, hlist key lists hindexes a]
      rw [hq]
      exact fun hsame => ha (Option.some.inj hsame).symm
  have hrest : ∀ (key : ClientPtr → Option ClientPtr) (lists : ClientPtr → List ClientPtr),
      Indexes key lists → key p = none →
      update key p none = key ∧ (fun a => without [p] (lists a)) = lists := by
    intro key lists hindexes hnone
    exact ⟨update_eq_self_iff.mpr hnone.symm,
      funext fun a => hlist key lists hindexes a (by simp [hnone])⟩
  have hservers : serverKey p = none → without [p] servers = servers := by
    intro hnone
    refine without_of_not_mem p _ ?_
    rw [h.mem_servers]
    rintro (rfl | hsome)
    · exact hne rfl
    · exact hsome hnone
  rw [hcut, hcut]
  cases hclient : clientKey p with
  | some q =>
    have hserver : serverKey p = none := h.apart p (by simp [hclient])
    obtain ⟨hkey, hsame⟩ := hrest serverKey serverList h.servers hserver
    rw [hkey, hsame, hlists clientKey clientList h.clients q hclient, hservers hserver,
      without_singleton p _ h.global_nodup]
    exact removeClient me clientKey serverKey clientList serverList clients servers h p q hclient
  | none =>
    obtain ⟨hkey, hsame⟩ := hrest clientKey clientList h.clients hclient
    cases hserver : serverKey p with
    | some q =>
      rw [hkey, hsame, hlists serverKey serverList h.servers q hserver,
        without_singleton p _ h.global_nodup, without_singleton p _ h.servers_nodup]
      exact removeServer me clientKey serverKey clientList serverList clients servers h p q hserver
        halone
    | none =>
      obtain ⟨hkey', hsame'⟩ := hrest serverKey serverList h.servers hserver
      have hclients : p ∉ clients := by
        rw [h.mem_global, hclient, hserver]
        simp
      rw [hkey, hsame, hkey', hsame', hservers hserver, without_of_not_mem p _ hclients]
      exact h

/-- Out of the hashes. -/
def unhash (s : Net) (p : ClientPtr) : Net :=
  let s := if idOf s p ≠ [] then hashDelId s p else s
  if nameOf s p ≠ [] then hashDelClient s p else s

theorem unhash_eq : ∃ clientTable idTable,
    unhash s p = { s with clientTable := clientTable, idTable := idTable } := by
  unfold unhash
  dsimp only
  split
  · split <;> exact ⟨_, _, rfl⟩
  · split <;> exact ⟨_, _, rfl⟩

theorem unhash_named (h : Named s) :
    Named (unhash s p) ∧ Off (unhash s p).clientTable p ∧ Off (unhash s p).idTable p ∧
      Trimmed [p] s.clientTable (unhash s p).clientTable ∧
      Trimmed [p] s.idTable (unhash s p).idTable := by
  -- who has no name is in no bucket, and nothing is lost by taking it out of one
  have hid : (if idOf s p ≠ [] then hashDelId s p else s) = hashDelId s p := by
    by_cases hempty : idOf s p = []
    · have hoff : Off s.idTable p := by
        by_contra hon
        exact (h.ided p hon).2 hempty
      have hsame := table_del_off s.idTable (idHash s) s.top h.ids p (hashOf s (idOf s p)) hoff
      rw [if_neg (by simp [hempty])]
      unfold hashDelId
      rw [hsame]
    · rw [if_pos hempty]
  obtain ⟨hn, hoff, htrimmed⟩ := hashDelId_named s h p
  have hname : (if nameOf (hashDelId s p) p ≠ [] then hashDelClient (hashDelId s p) p
      else hashDelId s p) = hashDelClient (hashDelId s p) p := by
    by_cases hempty : nameOf (hashDelId s p) p = []
    · have hoff : Off (hashDelId s p).clientTable p := by
        by_contra hon
        exact (hn.named p hon).2 hempty
      have hsame := table_del_off _ (nameHash (hashDelId s p)) _ hn.names p
        (hashOf (hashDelId s p) (nameOf (hashDelId s p) p)) hoff
      rw [if_neg (by simp [hempty])]
      unfold hashDelClient
      rw [hsame]
    · rw [if_pos hempty]
  obtain ⟨hn', hoff', htrimmed'⟩ := hashDelClient_named (hashDelId s p) hn p
  unfold unhash
  rw [hid]
  dsimp only
  rw [hname]
  exact ⟨hn', (hoff' p).mpr (Or.inl rfl), (hoff p).mpr (Or.inl rfl), htrimmed', htrimmed⟩

theorem departed_named (s' : Net) (removed : List ClientPtr) (h : Named s)
    (hrooms : Departed removed s.rooms s'.rooms)
    (hme : s'.me = s.me ∧ s'.meId = s.meId ∧ s'.meName = s.meName) (htop : s'.top = s.top)
    (htables : s'.clientTable = s.clientTable ∧ s'.idTable = s.idTable)
    (hoff : ∀ q ∈ removed, Off s.clientTable q ∧ Off s.idTable q) : Named s' := by
  have hhash : hashOf s' = hashOf s := by
    funext name
    unfold hashOf
    rw [hrooms.hashfXorKey]
  have hnames : ∀ q, q ∉ removed → nameOf s' q = nameOf s q ∧ idOf s' q = idOf s q := by
    intro q hq
    unfold nameOf idOf
    rw [hme.1, hme.2.1, hme.2.2, hrooms.clients q, if_neg hq]
    exact ⟨rfl, rfl⟩
  have hstatus := exited_status s s' removed hrooms
  have hin : ∀ q, ¬ Off s.clientTable q ∨ ¬ Off s.idTable q → q ∉ removed := by
    intro q hq hmem
    rcases hq with hq | hq
    · exact hq (hoff q hmem).1
    · exact hq (hoff q hmem).2
  have hknown : ∀ q, known s' q = true → known s q = true := by
    intro q hq
    by_cases hmem : q ∈ removed
    · rw [((hstatus q).1 hmem).2.2.2.1] at hq
      simp at hq
    · rwa [((hstatus q).2 hmem).2.2.2.1] at hq
  refine ⟨?_, ?_, fun q hq => ?_, fun q hq => ?_, fun q hq => ?_, fun q hq => ?_⟩
  · rw [htables.1, htop]
    refine table_rename _ _ _ h.names _ fun q hq => ?_
    unfold nameHash
    rw [hhash, (hnames q (hin q (Or.inl hq))).1]
  · rw [htables.2, htop]
    refine table_rename _ _ _ h.ids _ fun q hq => ?_
    unfold idHash
    rw [hhash, (hnames q (hin q (Or.inr hq))).2]
  · rw [htables.1] at hq
    have hnot := hin q (Or.inl hq)
    rw [hme.1, (hnames q hnot).1, ((hstatus q).2 hnot).2.2.2.1]
    exact h.named q hq
  · rw [htables.2] at hq
    have hnot := hin q (Or.inr hq)
    rw [hme.1, (hnames q hnot).2, ((hstatus q).2 hnot).2.2.2.1]
    exact h.ided q hq
  · rw [htables.2]
    by_cases hmem : q ∈ removed
    · exact (hoff q hmem).2
    · rw [((hstatus q).2 hmem).2.2.1] at hq
      exact h.pending q hq
  · rw [hme.1] at hq
    rw [htop]
    exact h.below q (hq.imp_right (hknown q))

theorem exitOneClient_exited (h : Placed s) (hp : known s p = true)
    (halone : ∀ a, parentOf s a ≠ some p) :
    Placed (ServerTree.exitOneClient conf s p comment) ∧
      Exited [p] s (ServerTree.exitOneClient conf s p comment) := by
  have hlisted := h.listed
  have halone' : ∀ a, clientParent s a ≠ some p ∧ serverParent s a ≠ some p := by
    intro a
    have ha := halone a
    unfold parentOf at ha
    constructor
    · intro hc
      rw [hc] at ha
      exact ha rfl
    · intro hs
      cases hc : clientParent s a with
      | none =>
        rw [hc, Option.none_or, hs] at ha
        exact ha rfl
      | some b =>
        have hnone := hlisted.apart a (by simp [hc])
        rw [hs] at hnone
        simp at hnone
  obtain ⟨c, hc⟩ := (known_iff s p).mp hp
  have hne : p ≠ s.me := by
    rintro rfl
    rw [h.rootless] at hc
    simp at hc
  have hdead : p ∉ s.deadList := by
    intro hmem
    rw [h.dead_gone p hmem] at hc
    simp at hc
  obtain ⟨lines, hto, heq⟩ := unlist_spec s p comment h hne
  generalize hs₁ : unlist s p comment = s₁ at heq
  obtain ⟨clientTable, idTable, hunhash⟩ := unhash_eq s₁ p
  have hr : (ServerTree.exitOneClient conf s p comment).rooms =
      MemberLists.exitOneClient conf.env s.rooms p := by
    have hr₁ : (ServerTree.exitOneClient conf s p comment).rooms =
        MemberLists.exitOneClient conf.env (unhash s₁ p).rooms p := by
      rw [← hs₁]
      rfl
    rw [hr₁, hunhash, heq]
  have hrooms := exitOneClient_departed conf.env s.rooms h.good p
  rw [← hr] at hrooms
  have hfields : ServerTree.exitOneClient conf s p comment = { s with
      rooms := (ServerTree.exitOneClient conf s p comment).rooms
      node := update (fun q => thinNode [p] (s.node q)) p { thinNode [p] (s.node p) with dead := true }
      globalClientList := without [p] s.globalClientList
      globalServerList := without [p] s.globalServerList
      clientTable := (unhash s₁ p).clientTable
      idTable := (unhash s₁ p).idTable
      deadList := p :: s.deadList
      sent := s.sent ++ lines } := by
    have hexit : ServerTree.exitOneClient conf s p comment = { unhash s₁ p with
        rooms := (ServerTree.exitOneClient conf s p comment).rooms
        node := update (unhash s₁ p).node p { (unhash s₁ p).node p with dead := true }
        deadList := p :: (unhash s₁ p).deadList } := by
      rw [← hs₁]
      rfl
    rw [hexit, hunhash, heq]
  generalize ServerTree.exitOneClient conf s p comment = s' at *
  have hnode : s'.node =
      update (fun q => thinNode [p] (s.node q)) p { thinNode [p] (s.node p) with dead := true } := by
    rw [hfields]
  have hlists : s'.globalClientList = without [p] s.globalClientList ∧
      s'.globalServerList = without [p] s.globalServerList ∧ s'.deadList = p :: s.deadList ∧
      s'.sent = s.sent ++ lines ∧ s'.clientTable = (unhash s₁ p).clientTable ∧
      s'.idTable = (unhash s₁ p).idTable := by
    rw [hfields]
    exact ⟨rfl, rfl, rfl, rfl, rfl, rfl⟩
  have hrest : SameRest s s' := by
    rw [hfields]
    exact ⟨rfl, rfl, rfl, rfl, rfl, rfl, rfl, rfl, rfl, rfl⟩
  have hgood : Good s'.rooms := by
    rw [hr]
    exact exitOneClient_good conf.env s.rooms h.good p
  obtain ⟨hgcl, hgsl, hdeads, hsent, hct, hit⟩ := hlists
  have hread : ∀ {β : Type} (g : Node → β) (a : ClientPtr),
      (∀ n : Node, g { n with dead := true } = g n) → g (s'.node a) = g (thinNode [p] (s.node a)) := by
    intro β g a hg
    rw [hnode]
    by_cases ha : a = p
    · rw [ha, update_self, hg]
    · rw [update_of_ne ha]
  have hparents := exited_parents s s' [p] hrooms
    (fun a _ => hread Node.servptr a (fun _ => rfl))
  have hnone : ∀ a, s.rooms.clients a = none → s'.rooms.clients a = none := by
    intro a ha
    rw [hrooms.clients a, ha]
    exact ite_self none
  have hstatus := exited_status s s' [p] hrooms
  refine ⟨⟨hgood, ?_, ?_, fun a b hab => ?_, fun a ha => ?_, ?_, ?_, fun a ha => ?_⟩,
    ⟨hrooms, fun a ha => ?_, hgcl, hgsl, hdeads, List.nodup_singleton p, ?_, ?_,
      fun hn => ?_, hrest⟩⟩
  · rw [hrest.me]
    exact hnone _ h.rootless
  · have hc : (fun a => (s'.node a).clientList) = fun a => without [p] (s.node a).clientList :=
      funext fun a => hread Node.clientList a (fun _ => rfl)
    have hs : (fun a => (s'.node a).serverList) = fun a => without [p] (s.node a).serverList :=
      funext fun a => hread Node.serverList a (fun _ => rfl)
    rw [hrest.me, hparents.1, hparents.2, hc, hs, hgcl, hgsl]
    exact listed_without p hlisted hne halone'
  · rw [hparents.1, hparents.2, cut_eq_some, cut_eq_some] at hab
    have hap : a ∉ [p] := hab.elim And.left And.left
    have hold : clientParent s a = some b ∨ serverParent s a = some b := hab.imp And.right And.right
    have hbp : b ∉ [p] := by
      rw [List.mem_singleton]
      rintro rfl
      exact hold.elim (halone' a).1 (halone' a).2
    rw [((hstatus a).2 hap).2.2.2.2.1, ((hstatus a).2 hap).2.2.2.2.2, ((hstatus b).2 hbp).2.2.2.2.2,
      hrest.me]
    exact h.routed a b hold
  · by_cases hap : a ∈ [p]
    · exact ((hstatus a).1 hap).2.2.2.2.2
    · rw [((hstatus a).2 hap).2.2.2.2.1] at ha
      rw [((hstatus a).2 hap).2.2.2.2.2]
      exact h.own a ha
  · rw [hrest.bursted]
    exact h.unmarked
  · rw [hdeads]
    exact List.nodup_cons.mpr ⟨hdead, h.dead_nodup⟩
  · rw [hdeads] at ha
    rcases List.mem_cons.mp ha with rfl | ha
    · rw [hrooms.clients a, if_pos (List.mem_singleton_self a)]
    · exact hnone a (h.dead_gone a ha)
  · rw [hnode, update_of_ne (by simpa using ha)]
  · intro a ha
    rw [List.mem_singleton.mp ha]
    exact hp
  · exact ⟨lines, hsent, fun x hx _ => hto x hx⟩
  · have hn₁ : Named s₁ := by
      rw [heq]
      exact ⟨hn.names, hn.ids, hn.named, hn.ided, hn.pending, hn.below⟩
    have hsame : s₁.clientTable = s.clientTable ∧ s₁.idTable = s.idTable := by
      rw [heq]
      exact ⟨rfl, rfl⟩
    obtain ⟨hn₂, hoff, hoff', htrimmed, htrimmed'⟩ := unhash_named s₁ p hn₁
    rw [hsame.1] at htrimmed
    rw [hsame.2] at htrimmed'
    rw [hct, hit]
    refine ⟨?_, htrimmed, htrimmed'⟩
    have hu : (unhash s₁ p).rooms = s.rooms ∧ (unhash s₁ p).me = s.me ∧
        (unhash s₁ p).meId = s.meId ∧ (unhash s₁ p).meName = s.meName ∧
        (unhash s₁ p).top = s.top := by
      rw [hunhash, heq]
      exact ⟨rfl, rfl, rfl, rfl, rfl⟩
    refine departed_named (unhash s₁ p) s' [p] hn₂ (by rw [hu.1]; exact hrooms) ?_ ?_ ⟨hct, hit⟩ ?_
    · rw [hu.2.1, hu.2.2.1, hu.2.2.2.1]
      exact ⟨hrest.me, hrest.meId, hrest.meName⟩
    · rw [hu.2.2.2.2]
      exact hrest.top
    · intro a ha
      rw [List.mem_singleton.mp ha]
      exact ⟨hoff, hoff'⟩

end One

end IrcdHybrid.Exits
