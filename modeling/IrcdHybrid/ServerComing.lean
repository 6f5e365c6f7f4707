import IrcdHybrid.ServerInvariant

/-!
How clients and servers come: a client is made, and later is put on the lists as a user
or as a server behind another.
-/

namespace IrcdHybrid.ServerComing

open CString HashChains ServerLists NameTables RoomHeads MemberLists MemberInvariant
open ServerTree ServerBurst ServerEvents ServerInvariant Function

theorem fresh_iff (s : Net) (p : ClientPtr) :
    fresh s p = true ↔ s.rooms.clients p = none ∧ p ≠ s.me ∧ p ∉ s.deadList := by
  unfold fresh
  rw [Bool.and_eq_true, decide_eq_true_iff, Option.isNone_iff_eq_none]

section Make

variable (s : Net) (p : ClientPtr)

theorem lists_nil (h : Placed s) (hne : p ≠ s.me) (hp : isServer s p = false) :
    (s.node p).clientList = [] ∧ (s.node p).serverList = [] := by
  have hkey : serverParent s p = none := by
    unfold serverParent
    rw [hp]
    rfl
  have halone := fun q => unlisted_alone _ _ _ _ _ _ _ h.listed p q hne hkey
  constructor
  · refine List.eq_nil_iff_forall_not_mem.mpr fun q hq => (halone q).1 ?_
    exact ((h.listed.clients p).2 q).mp hq
  · refine List.eq_nil_iff_forall_not_mem.mpr fun q hq => (halone q).2 ?_
    exact ((h.listed.servers p).2 q).mp hq

/-- What `make_client` fills in. -/
def newClient (p : ClientPtr) (link : Option ClientPtr) : Client :=
  ⟨[], [], .unknown, link.isNone, link.getD p, [], Nat.zero_le _⟩

theorem makeClient_fields (link : Option ClientPtr) (s' : Net) (hs' : makeClient s p link = s') :
    s'.rooms = { s.rooms with clients := update s.rooms.clients p (some (newClient p link)) } ∧
      s'.node = update s.node p (blankNode s.me) ∧ s'.me = s.me ∧ s'.meId = s.meId ∧
      s'.meName = s.meName ∧ s'.globalClientList = s.globalClientList ∧
      s'.globalServerList = s.globalServerList ∧ s'.localServerList = s.localServerList ∧
      s'.bursted = s.bursted ∧ s'.deadList = s.deadList ∧ s'.top = max s.top (p + 1) ∧
      s'.clientTable = selfLink s.clientTable p ∧ s'.idTable = selfLink s.idTable p := by
  rw [← hs']
  unfold makeClient
  split <;> exact ⟨rfl, rfl, rfl, rfl, rfl, rfl, rfl, rfl, rfl, rfl, rfl, rfl, rfl⟩

theorem selfLink_off (t : Chains ℕ ClientPtr) (ht : Off t p) : selfLink t p = t := by
  unfold selfLink
  have hnext : update t.next p (some p) = t.next := update_eq_self_iff.mpr ht.symm
  rw [hnext]

theorem makeClient_spec (link : Option ClientPtr) (hnone : s.rooms.clients p = none) :
    (∀ q, q ≠ p → (makeClient s p link).rooms.clients q = s.rooms.clients q) ∧
      (makeClient s p link).rooms.clients p = some (newClient p link) ∧
      isClient (makeClient s p link).rooms = isClient s.rooms ∧
      isServer (makeClient s p link) = isServer s := by
  obtain ⟨hclient, hserver, -⟩ := unregistered_of_none s p hnone
  have hrooms := (makeClient_fields s p link _ rfl).1
  have hother : ∀ q, q ≠ p → (makeClient s p link).rooms.clients q = s.rooms.clients q := by
    intro q hq
    rw [hrooms]
    exact update_of_ne hq _ _
  have hp : (makeClient s p link).rooms.clients p = some (newClient p link) := by
    rw [hrooms]
    exact update_self _ _ _
  refine ⟨hother, hp, ?_, ?_⟩
  · funext q
    by_cases hq : q = p
    · rw [hq, hclient]
      unfold isClient
      rw [hp]
      rfl
    · unfold isClient
      rw [hother q hq]
  · funext q
    by_cases hq : q = p
    · rw [hq, hserver]
      unfold isServer
      rw [hp]
      rfl
    · unfold isServer
      rw [hother q hq]

theorem makeClient_inv (h : Inv s) (link : Option ClientPtr) (hfresh : fresh s p = true) :
    Inv (makeClient s p link) := by
  obtain ⟨hnone, hne, hdead⟩ := (fresh_iff s p).mp hfresh
  obtain ⟨hclient, hserver, -⟩ := unregistered_of_none s p hnone
  obtain ⟨hnil, hnil'⟩ := lists_nil s p h.placed hne hserver
  obtain ⟨hother, hp, hclients, hservers⟩ := makeClient_spec s p link hnone
  obtain ⟨hrooms, hnode, hme, -, -, hgcl, hgsl, hlinks, hbursted, hdeads, -, -, -⟩ :=
    makeClient_fields s p link _ rfl
  generalize makeClient s p link = s' at *
  have hregistered : ∀ q, clientParent s q ≠ none ∨ serverParent s q ≠ none → q ≠ p := by
    rintro q hq rfl
    rw [clientParent_ne_none, serverParent_ne_none, hclient, hserver] at hq
    simp at hq
  refine inv_of_same s s' h ⟨hme, ?_, ?_, ?_, ?_, hgcl, hgsl, hlinks, hbursted, hdeads,
    fun q hq => ?_⟩ ?_ ?_ (fun q hq => ?_) fun q hq => ?_
  · funext q
    unfold clientParent
    rw [hclients, hnode]
    by_cases hq : q = p
    · rw [hq, hclient]
      rfl
    · rw [update_of_ne hq]
  · funext q
    unfold serverParent
    rw [hservers, hnode]
    by_cases hq : q = p
    · rw [hq, hserver]
      rfl
    · rw [update_of_ne hq]
  · funext q
    rw [hnode]
    by_cases hq : q = p
    · rw [hq, update_self, hnil]
      rfl
    · rw [update_of_ne hq]
  · funext q
    rw [hnode]
    by_cases hq : q = p
    · rw [hq, update_self, hnil']
      rfl
    · rw [update_of_ne hq]
  · unfold ServerTree.myConnect MemberLists.myConnect fromOf
    rw [hother q (hregistered q hq)]
    exact ⟨rfl, rfl⟩
  · rw [hrooms]
    exact newClient_good s.rooms h.placed.good p _ hnone rfl
  · rintro q (rfl | hq)
    · rw [hother _ (Ne.symm hne)]
      exact h.placed.rootless
    · have hqp : q ≠ p := by
        rintro rfl
        exact hdead hq
      rw [hother q hqp]
      exact h.placed.dead_gone q hq
  · unfold ServerTree.myConnect MemberLists.myConnect at hq
    unfold fromOf
    by_cases hqp : q = p
    · rw [hqp, hp] at hq
      rw [hqp, hp]
      have hlink : link = none := Option.isNone_iff_eq_none.mp hq
      unfold newClient
      rw [hlink]
      rfl
    · rw [hother q hqp] at hq
      rw [hother q hqp]
      exact h.placed.own q hq
  · rw [hnode]
    by_cases hqp : q = p
    · rw [hqp, update_self]
      rfl
    · rw [update_of_ne hqp]
      unfold known at hq
      rw [hother q hqp] at hq
      exact h.opened q hq

theorem makeClient_named (h : Named s) (link : Option ClientPtr) (hfresh : fresh s p = true) :
    Named (makeClient s p link) ∧ Off (makeClient s p link).clientTable p ∧
      Off (makeClient s p link).idTable p := by
  obtain ⟨hnone, hne, -⟩ := (fresh_iff s p).mp hfresh
  obtain ⟨hoff, hoff'⟩ := off_of_none s h p hnone hne
  obtain ⟨hother, hp, -, -⟩ := makeClient_spec s p link hnone
  obtain ⟨hrooms, -, hme, hmeId, hmeName, -, -, -, -, -, htop, hnames, hids⟩ :=
    makeClient_fields s p link _ rfl
  generalize makeClient s p link = s' at *
  rw [selfLink_off p s.clientTable hoff] at hnames
  rw [selfLink_off p s.idTable hoff'] at hids
  have hne_of_on : ∀ {t : Chains ℕ ClientPtr} {q}, Off t p → ¬ Off t q → q ≠ p := by
    rintro t q ht hq rfl
    exact hq ht
  refine ⟨named_of_same s s' h hme hnames hids ?_ (by rw [hrooms]) (fun q hq => ?_) (fun q hq => ?_)
    (fun q hq => ?_) (fun q hq => ?_) (fun q hq => ?_), ?_, ?_⟩
  · rw [htop]
    exact Nat.le_max_left _ _
  · unfold nameOf
    rw [hme, hmeName, hother q (hne_of_on hoff hq)]
  · unfold idOf
    rw [hme, hmeId, hother q (hne_of_on hoff' hq)]
  · by_cases hqp : q = p
    · unfold known
      rw [hqp, hp]
      rfl
    · unfold known
      rw [hother q hqp]
      exact hq
  · by_cases hqp : q = p
    · rw [hqp]
      exact hoff'
    · unfold isUnknown at hq
      rw [hother q hqp] at hq
      exact h.pending q hq
  · rw [htop]
    by_cases hqp : q = p
    · rw [hqp]
      exact Nat.lt_of_lt_of_le (Nat.lt_succ_self p) (Nat.le_max_right _ _)
    · unfold known at hq
      rw [hother q hqp] at hq
      exact Nat.lt_of_lt_of_le (h.below q (Or.inr hq)) (Nat.le_max_left _ _)
  · rw [hnames]
    exact hoff
  · rw [hids]
    exact hoff'

end Make

section Register

variable (s : Net) (p : ClientPtr)

/-- The rooms when an unknown connection is registered, and who is what then. -/
theorem setStatus_spec (h : Good s.rooms) (status : Status) (hunknown : isUnknown s p = true) :
    Good (setStatus s p status).rooms ∧
      (∀ q, q ≠ p → (setStatus s p status).rooms.clients q = s.rooms.clients q) ∧
      (∀ q, known (setStatus s p status) q = known s q) ∧
      (∀ q, nameOf (setStatus s p status) q = nameOf s q ∧ idOf (setStatus s p status) q = idOf s q ∧
        ServerTree.myConnect (setStatus s p status) q = ServerTree.myConnect s q ∧
        fromOf (setStatus s p status) q = fromOf s q) ∧
      isClient (setStatus s p status).rooms p = (status == .client) ∧
      isServer (setStatus s p status) p = (status == .server) := by
  obtain ⟨c, hc, -⟩ := (isUnknown_iff s p).mp hunknown
  have hself : (setStatus s p status).rooms.clients p = some { c with status := status } := by
    show (modifyClient s.rooms p _).clients p = _
    rw [modifyClient_self, hc]
    rfl
  have hother : ∀ q, q ≠ p → (setStatus s p status).rooms.clients q = s.rooms.clients q :=
    fun q hq => modifyClient_of_ne _ _ _ _ hq
  refine ⟨?_, hother, fun q => ?_, fun q => ?_, ?_, ?_⟩
  · exact modifyClient_good s.rooms h p _ (unregistered_of_unknown s p hunknown).1 (fun _ => rfl)
  · unfold known
    by_cases hq : q = p
    · rw [hq, hself, hc]
      rfl
    · rw [hother q hq]
  · unfold nameOf idOf ServerTree.myConnect MemberLists.myConnect fromOf
    by_cases hq : q = p
    · rw [hq, hself, hc]
      exact ⟨rfl, rfl, rfl, rfl⟩
    · rw [hother q hq]
      exact ⟨rfl, rfl, rfl, rfl⟩
  · unfold isClient
    rw [hself]
  · unfold isServer
    rw [hself]

theorem setStatus_named (h : Named s) (hgood : Good s.rooms) (status : Status)
    (hunknown : isUnknown s p = true) : Named (setStatus s p status) := by
  obtain ⟨-, hother, hknown, hsame, -, -⟩ := setStatus_spec s p hgood status hunknown
  refine named_of_same s _ h rfl rfl rfl (Nat.le_refl _) rfl (fun q _ => (hsame q).1)
    (fun q _ => (hsame q).2.1) (fun q hq => ?_) (fun q hq => ?_) (fun q hq => ?_)
  · rw [hknown q]
    exact hq
  · by_cases hqp : q = p
    · rw [hqp]
      exact h.pending p hunknown
    · unfold isUnknown at hq
      rw [hother q hqp] at hq
      exact h.pending q hq
  · rw [hknown q] at hq
    exact h.below q (Or.inr hq)

/-- A connection is registered, and is put on the lists it belongs on. -/
theorem register_inv (h : Inv s) (status : Status) (hunknown : isUnknown s p = true) (s' : Net)
    (hrooms : s'.rooms = (setStatus s p status).rooms)
    (hclosing : ∀ a, (s'.node a).closing = (s.node a).closing)
    (hfields : s'.me = s.me ∧ s'.bursted = s.bursted ∧ s'.deadList = s.deadList)
    (hlisted : Listed s'.me (clientParent s') (serverParent s') (fun q => (s'.node q).clientList)
      (fun q => (s'.node q).serverList) s'.globalClientList s'.globalServerList)
    (hrouted : ∀ a q, clientParent s' a = some q ∨ serverParent s' a = some q →
      (q = s'.me ∧ fromOf s' a = a) ∨
        (q ≠ s'.me ∧ fromOf s' a = fromOf s' q ∧ ServerTree.myConnect s' a = false))
    (hnodup : s'.localServerList.Nodup)
    (hlinks : ∀ q, q ∈ s'.localServerList ↔
      serverParent s' q ≠ none ∧ ServerTree.myConnect s' q = true) : Inv s' := by
  obtain ⟨hgood, hother, hknown, hsame, -, -⟩ := setStatus_spec s p h.placed.good status hunknown
  obtain ⟨c, hc⟩ := (known_iff s p).mp (known_of_isUnknown s p hunknown)
  have hne_of_none : ∀ q, s.rooms.clients q = none → q ≠ p := by
    rintro q hq rfl
    rw [hc] at hq
    simp at hq
  obtain ⟨hme, hbursted, hdead⟩ := hfields
  refine ⟨⟨?_, ?_, hlisted, hrouted, fun a ha => ?_, ?_, ?_, fun a ha => ?_⟩, hnodup, hlinks,
    fun a ha => ?_⟩
  · rw [hrooms]
    exact hgood
  · rw [hme, hrooms, hother s.me (hne_of_none _ h.placed.rootless)]
    exact h.placed.rootless
  · have hmy : ServerTree.myConnect s a = true := by
      rw [← (hsame a).2.2.1]
      unfold ServerTree.myConnect at ha ⊢
      rwa [hrooms] at ha
    have hfrom : fromOf s' a = fromOf s a := by
      rw [← (hsame a).2.2.2]
      unfold fromOf
      rw [hrooms]
    rw [hfrom]
    exact h.placed.own a hmy
  · rw [hbursted]
    exact h.placed.unmarked
  · rw [hdead]
    exact h.placed.dead_nodup
  · rw [hdead] at ha
    rw [hrooms, hother a (hne_of_none a (h.placed.dead_gone a ha))]
    exact h.placed.dead_gone a ha
  · rw [hclosing a]
    refine h.opened a ?_
    rw [← hknown a]
    unfold known at ha ⊢
    rwa [hrooms] at ha

/-- What the lists depend on when a connection is registered behind `q`. -/
theorem register_parents (h : Good s.rooms) (status : Status) (hunknown : isUnknown s p = true) (s' : Net)
    (hrooms : s'.rooms = (setStatus s p status).rooms)
    (hservptr : ∀ a, (s'.node a).servptr = (s.node a).servptr) :
    clientParent s' = (if status = .client then
        update (clientParent s) p (some (s.node p).servptr) else clientParent s) ∧
      serverParent s' = (if status = .server then
        update (serverParent s) p (some (s.node p).servptr) else serverParent s) := by
  obtain ⟨-, hother, -, -, hpclient, hpserver⟩ := setStatus_spec s p h status hunknown
  obtain ⟨hnclient, hnserver⟩ := unregistered_of_unknown s p hunknown
  have hisServer : isServer s' = isServer (setStatus s p status) := by
    funext a
    unfold isServer
    rw [hrooms]
  constructor
  · funext a
    by_cases ha : a = p
    · unfold clientParent
      rw [ha, hrooms, hpclient, hservptr p]
      cases status <;> simp [hnclient]
    · have hsame : clientParent s' a = clientParent s a := by
        unfold clientParent isClient
        rw [hrooms, hother a ha, hservptr a]
      rw [hsame]
      split
      · rw [update_of_ne ha]
      · rfl
  · funext a
    by_cases ha : a = p
    · unfold serverParent
      rw [ha, hisServer, hpserver, hservptr p]
      cases status <;> simp [hnserver]
    · have hsame : serverParent s' a = serverParent s a := by
        unfold serverParent
        rw [hisServer, hservptr a]
        unfold isServer
        rw [hother a ha]
      rw [hsame]
      split
      · rw [update_of_ne ha]
      · rfl

theorem unknown_unlisted (h : Placed s) (hunknown : isUnknown s p = true) :
    p ≠ s.me ∧ clientParent s p = none ∧ serverParent s p = none := by
  obtain ⟨hclient, hserver⟩ := unregistered_of_unknown s p hunknown
  refine ⟨?_, ?_, ?_⟩
  · rintro rfl
    obtain ⟨c, hc⟩ := (known_iff s s.me).mp (known_of_isUnknown s s.me hunknown)
    rw [h.rootless] at hc
    simp at hc
  · unfold clientParent
    rw [hclient]
    rfl
  · unfold serverParent
    rw [hserver]
    rfl

theorem update_node (q : ClientPtr) (f : Node → Node) (a : ClientPtr) {β : Type} (g : Node → β)
    (hg : g (f (s.node q)) = g (s.node q)) : g (update s.node q (f (s.node q)) a) = g (s.node a) := by
  by_cases ha : a = q
  · rw [ha, update_self, hg]
  · rw [update_of_ne ha]

theorem update_list (q : ClientPtr) (f : Node → Node) (g : Node → List ClientPtr) :
    (fun a => g (update s.node q (f (s.node q)) a)) =
      update (fun a => g (s.node a)) q (g (f (s.node q))) := by
  funext a
  by_cases ha : a = q
  · rw [ha, update_self, update_self]
  · rw [update_of_ne ha, update_of_ne ha]

/-- Where a connection may be put in the tree. -/
def Reached (s : Net) (p : ClientPtr) : Prop :=
  ((s.node p).servptr = s.me ∧ fromOf s p = p) ∨
    ((s.node p).servptr ≠ s.me ∧ serverParent s (s.node p).servptr ≠ none ∧
      fromOf s p = fromOf s (s.node p).servptr ∧ ServerTree.myConnect s p = false)

theorem reached_parent (h : Reached s p) :
    (s.node p).servptr = s.me ∨ serverParent s (s.node p).servptr ≠ none :=
  h.imp And.left fun hother => hother.2.1

/-- Everybody is still reached over the connection of the one next to the root. -/
theorem register_routed (h : Inv s) (status : Status) (hunknown : isUnknown s p = true) (s' : Net)
    (hrooms : s'.rooms = (setStatus s p status).rooms) (hme : s'.me = s.me)
    (hservptr : ∀ a, (s'.node a).servptr = (s.node a).servptr) (hreached : Reached s p)
    (a q : ClientPtr) (ha : clientParent s' a = some q ∨ serverParent s' a = some q) :
    (q = s'.me ∧ fromOf s' a = a) ∨
      (q ≠ s'.me ∧ fromOf s' a = fromOf s' q ∧ ServerTree.myConnect s' a = false) := by
  obtain ⟨hcp, hsp⟩ := register_parents s p h.placed.good status hunknown s' hrooms hservptr
  have hsame : ∀ b, ServerTree.myConnect s' b = ServerTree.myConnect s b ∧
      fromOf s' b = fromOf s b := by
    intro b
    obtain ⟨-, -, hmy, hfrom⟩ := (setStatus_spec s p h.placed.good status hunknown).2.2.2.1 b
    rw [← hmy, ← hfrom]
    unfold ServerTree.myConnect fromOf
    rw [hrooms]
    exact ⟨rfl, rfl⟩
  rw [hme, (hsame a).1, (hsame a).2, (hsame q).2]
  by_cases hap : a = p
  · have hq : (s.node p).servptr = q := by
      rw [← hservptr p, ← hap]
      rcases ha with ha | ha
      · unfold clientParent at ha
        split at ha
        · exact Option.some.inj ha
        · exact absurd ha (by simp)
      · unfold serverParent at ha
        split at ha
        · exact Option.some.inj ha
        · exact absurd ha (by simp)
    rw [← hq, hap]
    exact hreached.imp_right fun hother => ⟨hother.1, hother.2.2⟩
  · refine h.placed.routed a q (ha.imp (fun ha => ?_) (fun ha => ?_))
    · rw [hcp] at ha
      split at ha
      · rwa [update_of_ne hap] at ha
      · exact ha
    · rw [hsp] at ha
      split at ha
      · rwa [update_of_ne hap] at ha
      · exact ha

theorem enlistClient_inv (h : Inv s) (hunknown : isUnknown s p = true)
    (hreached : Reached s p) : Inv (enlistClient (setStatus s p .client) p) := by
  obtain ⟨hne, hclient, hserver⟩ := unknown_unlisted s p h.placed hunknown
  generalize hf : (fun n : Node => { n with clientList := p :: n.clientList }) = f
  have hnode : (enlistClient (setStatus s p .client) p).node =
      update s.node (s.node p).servptr (f (s.node (s.node p).servptr)) := by
    rw [← hf]
    rfl
  have hservptr : ∀ a, ((enlistClient (setStatus s p .client) p).node a).servptr =
      (s.node a).servptr := by
    intro a
    rw [hnode]
    exact update_node s _ f a Node.servptr (by rw [← hf])
  obtain ⟨hcp, hsp⟩ := register_parents s p h.placed.good .client hunknown
    (enlistClient (setStatus s p .client) p) rfl hservptr
  refine register_inv s p h .client hunknown _ rfl (fun a => ?_) ⟨rfl, rfl, rfl⟩ ?_
    (register_routed s p h .client hunknown _ rfl rfl hservptr hreached) h.links_nodup (fun q => ?_)
  · rw [hnode]
    exact update_node s _ f a Node.closing (by rw [← hf])
  · rw [hcp, hsp, hnode, if_pos rfl, if_neg (by decide)]
    have hlists := update_list s (s.node p).servptr f Node.clientList
    have hlists' : (fun a => (update s.node (s.node p).servptr
        (f (s.node (s.node p).servptr)) a).serverList) = fun a => (s.node a).serverList :=
      funext fun a => update_node s _ f a Node.serverList (by rw [← hf])
    rw [hlists, hlists', ← hf]
    exact addClient _ _ _ _ _ _ _ h.placed.listed p _ hclient hserver hne
      (reached_parent s p hreached)
  · have hmy := ((setStatus_spec s p h.placed.good .client hunknown).2.2.2.1 q).2.2.1
    rw [hsp, if_neg (by decide)]
    exact (h.mem_links q).trans (and_congr_right fun _ => by rw [← hmy]; exact Iff.rfl)

/-- A connection becomes a server; `links` are the servers that are linked directly. -/
theorem enlistServer_inv (h : Inv s) (hunknown : isUnknown s p = true)
    (hreached : Reached s p) (links : List ClientPtr)
    (hlinks : links = if ServerTree.myConnect s p then p :: s.localServerList
      else s.localServerList) :
    Inv { enlistServer (setStatus s p .server) p with localServerList := links } := by
  obtain ⟨hne, hclient, hserver⟩ := unknown_unlisted s p h.placed hunknown
  generalize hs' : ({ enlistServer (setStatus s p .server) p with localServerList := links } : Net) = s'
  generalize hf : (fun n : Node => { n with serverList := p :: n.serverList }) = f
  have hfields : s'.rooms = (setStatus s p .server).rooms ∧ s'.me = s.me ∧
      s'.bursted = s.bursted ∧ s'.deadList = s.deadList ∧ s'.localServerList = links ∧
      s'.globalClientList = p :: s.globalClientList ∧
      s'.globalServerList = p :: s.globalServerList := by
    rw [← hs']
    exact ⟨rfl, rfl, rfl, rfl, rfl, rfl, rfl⟩
  obtain ⟨hrooms, hme, hbursted, hdead, hlocals, hgcl, hgsl⟩ := hfields
  have hnode : s'.node = update s.node (s.node p).servptr (f (s.node (s.node p).servptr)) := by
    rw [← hs', ← hf]
    rfl
  have hservptr : ∀ a, (s'.node a).servptr = (s.node a).servptr := by
    intro a
    rw [hnode]
    exact update_node s _ f a Node.servptr (by rw [← hf])
  obtain ⟨hcp, hsp⟩ := register_parents s p h.placed.good .server hunknown s' hrooms hservptr
  have hp : p ∉ s.localServerList := by
    rw [h.mem_links, hserver]
    simp
  refine register_inv s p h .server hunknown s' hrooms (fun a => ?_) ⟨hme, hbursted, hdead⟩ ?_
    (register_routed s p h .server hunknown s' hrooms hme hservptr hreached) ?_ (fun q => ?_)
  · rw [hnode]
    exact update_node s _ f a Node.closing (by rw [← hf])
  · have hlists := update_list s (s.node p).servptr f Node.serverList
    have hlists' : (fun a => (update s.node (s.node p).servptr
        (f (s.node (s.node p).servptr)) a).clientList) = fun a => (s.node a).clientList :=
      funext fun a => update_node s _ f a Node.clientList (by rw [← hf])
    rw [hcp, hsp, hnode, if_pos rfl, if_neg (by decide), hlists, hlists', hme, hgcl, hgsl, ← hf]
    exact addServer _ _ _ _ _ _ _ h.placed.listed p _ hclient hserver hne
      (reached_parent s p hreached)
  · rw [hlocals, hlinks]
    split
    · exact List.nodup_cons.mpr ⟨hp, h.links_nodup⟩
    · exact h.links_nodup
  · have hmy : ServerTree.myConnect s' q = ServerTree.myConnect s q := by
      rw [← ((setStatus_spec s p h.placed.good .server hunknown).2.2.2.1 q).2.2.1]
      unfold ServerTree.myConnect
      rw [hrooms]
    rw [hlocals, hlinks, hsp, if_pos rfl, hmy]
    by_cases hq : q = p
    · rw [hq, update_self]
      cases hcase : ServerTree.myConnect s p <;> simp [hp]
    · rw [update_of_ne hq]
      cases hcase : ServerTree.myConnect s p <;> simp [hq, h.mem_links]

/-- The lists of servers and clients do not touch the hashes. -/
theorem lists_named (s' : Net) (h : Named s) (hrooms : s'.rooms = s.rooms) (hme : s'.me = s.me)
    (hnames : s'.meId = s.meId ∧ s'.meName = s.meName)
    (htables : s'.clientTable = s.clientTable ∧ s'.idTable = s.idTable) (htop : s'.top = s.top) :
    Named s' := by
  refine named_of_same s s' h hme htables.1 htables.2 (Nat.le_of_eq htop.symm) (by rw [hrooms])
    (fun q _ => ?_) (fun q _ => ?_) (fun q hq => ?_) (fun q hq => ?_) (fun q hq => ?_)
  · unfold nameOf
    rw [hme, hnames.2, hrooms]
  · unfold idOf
    rw [hme, hnames.1, hrooms]
  · unfold known at hq ⊢
    rwa [hrooms]
  · unfold isUnknown at hq
    rw [hrooms] at hq
    exact h.pending q hq
  · unfold known at hq
    rw [hrooms] at hq
    rw [htop]
    exact h.below q (Or.inr hq)

end Register

end IrcdHybrid.ServerComing
