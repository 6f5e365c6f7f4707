import IrcdHybrid.ServerSteps

/-!
A connection that becomes a server. It is greeted, put on the lists and in the hashes,
and told of the network; nobody is behind it yet.
-/

namespace IrcdHybrid.LinkEstab

open CString HashChains NameTables RoomHeads ServerLists Forest MemberLists MemberInvariant
open ServerTree ServerBurst ServerEvents ServerInvariant ServerComing Exits Subtree ClientExit
open LinkBurst NetworkTold ServerSteps Function

/-- Only a link itself is reached over it, as long as nobody is behind it. -/
theorem reached_over (s : Net) (h : Placed s) (link : ClientPtr)
    (hleaf : ∀ a, parentOf s a ≠ some link) (q : ClientPtr)
    (hq : isClient s.rooms q = true ∨ isServer s q = true) (hfrom : fromOf s q = link) : q = link := by
  have hranked := ranked_idxOf s h
  generalize hrank : (fun p => if clientParent s p ≠ none then 0
    else s.globalServerList.idxOf p + 1) = rank at hranked
  have hbound : ∀ a, rank a ≤ s.globalServerList.length + 1 := by
    intro a
    rw [← hrank]
    dsimp only
    split
    · omega
    · have hle := List.idxOf_le_length (a := a) (l := s.globalServerList)
      omega
  -- up the tree the ranks grow
  have hup : ∀ d q, s.globalServerList.length + 1 - rank q ≤ d →
      (isClient s.rooms q = true ∨ isServer s q = true) → fromOf s q = link → q = link := by
    intro d
    induction d with
    | zero =>
      intro q hd hq hfrom
      have hparent : parentOf s q = some (s.node q).servptr := (parentOf_eq_some s q _).mpr ⟨hq, rfl⟩
      have hlt := hranked q _ hparent
      have hle := hbound (s.node q).servptr
      omega
    | succ d ih =>
      intro q hd hq hfrom
      have hparent : parentOf s q = some (s.node q).servptr := (parentOf_eq_some s q _).mpr ⟨hq, rfl⟩
      rcases h.routed q _ (parentOf_cases s q _ hparent) with ⟨-, hself⟩ | ⟨hne, hsame, -⟩
      · rw [← hself, hfrom]
      · have hlt := hranked q _ hparent
        have hserver := (parent_hosts s h q _ hparent).resolve_left hne
        have hlink := ih (s.node q).servptr (by omega) (Or.inr hserver) (by rw [← hsame, hfrom])
        rw [hlink] at hparent
        exact absurd hparent (hleaf q)
  exact hup _ q (Nat.le_refl _) hq hfrom

section Greet

variable (conf : Conf) (s : Net) (p : ClientPtr)

def greetLines : List Line :=
  (if (s.node p).outbound then []
    else [.pass conf.password s.meId, .capab, .server s.meName conf.hidden s.meInfo]) ++
    [.svinfo s.meId conf.env.currentTime]

theorem greet_eq : greet conf s p =
    { s with sent := s.sent ++ (greetLines conf s p).map (fun line => (p, line)) } := by
  unfold greet greetLines
  dsimp only
  split
  · rfl
  · unfold sendtoOne
    dsimp only
    rw [List.append_assoc, List.append_assoc, List.append_assoc]
    rfl

/-- The link is greeted and is behind the root from now on. -/
def greeted : Net := modifyNode (greet conf s p) p (fun n => { n with servptr := s.me })

theorem greeted_inv (h : Inv s) (hp : unregistered s p = true) :
    Inv (greeted conf s p) ∧ isUnknown (greeted conf s p) p = true ∧ Reached (greeted conf s p) p ∧
      ServerTree.myConnect (greeted conf s p) p = true := by
  obtain ⟨hunknown, hmy⟩ := unregistered_iff s p hp
  unfold greeted
  rw [greet_eq]
  have h₁ := frame_inv s h s.unknownList s.localClientList s.extra
    (s.sent ++ (greetLines conf s p).map (fun line => (p, line)))
  have h₂ := unknownNode_inv _ p h₁ hunknown (fun n => { n with servptr := s.me }) rfl rfl rfl
  refine ⟨h₂, hunknown, ?_, hmy⟩
  refine reached_own _ p h₂ hmy ?_
  show (update s.node p { s.node p with servptr := s.me } p).servptr = s.me
  rw [update_self]

theorem greeted_named (h : Named s) : Named (greeted conf s p) := by
  unfold greeted
  rw [greet_eq]
  exact ⟨h.names, h.ids, h.named, h.ided, h.pending, h.below⟩

end Greet

section Linked

variable (conf : Conf) (s : Net) (p : ClientPtr)

/-- The state in which the new link is told of the network. -/
def linked : Net :=
  let s := linkServer (greeted conf s p) p
  sendtoServer s (some p) (.sid s.meId (nameOf s p) 2 (idOf s p) (s.node p).hidden
    (s.node p).profile.info)

theorem serverEstab_eq (hleaf : (!conf.hub && decide (s.localServerList ≠ [])) = false)
    (hopened : (s.node p).closing = false) : serverEstab conf s p = tellNetwork (linked conf s p) p := by
  unfold serverEstab
  rw [hleaf, if_neg (by simp : ¬ (false = true))]
  have hclosing : ((greeted conf s p).node p).closing = false := by
    unfold greeted
    rw [greet_eq]
    show (update s.node p { s.node p with servptr := s.me } p).closing = false
    rw [update_self]
    exact hopened
  have hgreeted : modifyNode (greet conf s p) p (fun n => { n with servptr := s.me }) =
      greeted conf s p := rfl
  dsimp only
  rw [hgreeted, hclosing, if_neg (by simp : ¬ (false = true))]
  rfl

/-- The lists with the new server in front. -/
def enlisted : Net :=
  { enlistServer (setStatus (greeted conf s p) p .server) p with
    localServerList := p :: s.localServerList
    unknownList := s.unknownList.erase p }

theorem greeted_fields : (greeted conf s p).rooms = s.rooms ∧ (greeted conf s p).me = s.me ∧
    (greeted conf s p).node = update s.node p { s.node p with servptr := s.me } ∧
    (greeted conf s p).localServerList = s.localServerList ∧
    (greeted conf s p).unknownList = s.unknownList ∧
    (greeted conf s p).clientTable = s.clientTable ∧ (greeted conf s p).idTable = s.idTable ∧
    (greeted conf s p).sent = s.sent ++ (greetLines conf s p).map (fun line => (p, line)) := by
  unfold greeted
  rw [greet_eq]
  exact ⟨rfl, rfl, rfl, rfl, rfl, rfl, rfl, rfl⟩

theorem linkServer_eq : linkServer (greeted conf s p) p =
    hashAddId (hashAddClient (enlisted conf s p) p) p := by
  obtain ⟨hrooms, hme, hnode, hlinks, hunknown, -, -, -⟩ := greeted_fields conf s p
  have hservptr : ((greeted conf s p).node p).servptr = (greeted conf s p).me := by
    rw [hnode, update_self, hme]
  have hmodify : enlistServer (setStatus (greeted conf s p) p .server) p =
      modifyNode { setStatus (greeted conf s p) p .server with
        globalClientList := p :: (greeted conf s p).globalClientList
        globalServerList := p :: (greeted conf s p).globalServerList } (greeted conf s p).me
        (fun n => { n with serverList := p :: n.serverList }) := by
    rw [← hservptr]
    rfl
  unfold enlisted
  rw [hmodify, ← hlinks, ← hunknown]
  rfl

section

variable (h : Inv s) (hp : unregistered s p = true)

include h hp

theorem enlisted_inv : Inv (enlisted conf s p) := by
  obtain ⟨h₁, hunknown, hreached, hmy⟩ := greeted_inv conf s p h hp
  obtain ⟨-, -, -, hlinks, -, -, -, -⟩ := greeted_fields conf s p
  have h₂ := enlistServer_inv (greeted conf s p) p h₁ hunknown hreached (p :: s.localServerList)
    (by rw [hmy, if_pos rfl, hlinks])
  exact frame_inv _ h₂ (s.unknownList.erase p) (greeted conf s p).localClientList
    (greeted conf s p).extra (greeted conf s p).sent

theorem linked_inv : Inv (linked conf s p) := by
  have h₁ := enlisted_inv conf s p h hp
  have h₂ : Inv (linkServer (greeted conf s p) p) := by
    rw [linkServer_eq]
    exact tables_inv (enlisted conf s p) (hashAddClient (enlisted conf s p) p).clientTable
      (hashAddId (hashAddClient (enlisted conf s p) p) p).idTable h₁
  exact frame_inv _ h₂ _ _ _ _

/-- In the new state the link is a server, and who else is what has not changed. -/
theorem linked_status (q : ClientPtr) :
    isClient (linked conf s p).rooms q = isClient s.rooms q ∧
      (isServer (linked conf s p) q = true ↔ q = p ∨ isServer s q = true) ∧
      fromOf (linked conf s p) q = fromOf s q ∧ nameOf (linked conf s p) q = nameOf s q ∧
      idOf (linked conf s p) q = idOf s q := by
  obtain ⟨h₁, hunknown, -, -⟩ := greeted_inv conf s p h hp
  obtain ⟨hrooms, hme, -, -, -, -, -, -⟩ := greeted_fields conf s p
  obtain ⟨-, hother, -, hsame, hclient, hserver⟩ :=
    setStatus_spec (greeted conf s p) p h₁.placed.good .server hunknown
  have hlinked : (linked conf s p).rooms = (setStatus (greeted conf s p) p .server).rooms := rfl
  have hnames := hsame q
  have hgreeted : fromOf (greeted conf s p) q = fromOf s q ∧
      nameOf (greeted conf s p) q = nameOf s q ∧ idOf (greeted conf s p) q = idOf s q := by
    unfold fromOf nameOf idOf
    rw [hrooms, hme]
    unfold greeted
    rw [greet_eq]
    exact ⟨rfl, rfl, rfl⟩
  refine ⟨?_, ?_, hnames.2.2.2.trans hgreeted.1, hnames.1.trans hgreeted.2.1,
    hnames.2.1.trans hgreeted.2.2⟩
  · rw [hlinked]
    by_cases hq : q = p
    · have hold := (unregistered_of_unknown _ p hunknown).1
      rw [hrooms] at hold
      rw [hq, hclient, hold]
      rfl
    · unfold isClient
      rw [hother q hq, hrooms]
  · by_cases hq : q = p
    · rw [hq]
      exact iff_of_true hserver (Or.inl rfl)
    · have hsrv : isServer (linked conf s p) q = isServer s q := by
        unfold isServer
        rw [hlinked, hother q hq, hrooms]
      rw [hsrv]
      exact (or_iff_right hq).symm

theorem linked_parents (a : ClientPtr) :
    parentOf (linked conf s p) a ≠ some p := by
  obtain ⟨h₁, hunknown, -, -⟩ := greeted_inv conf s p h hp
  have hnode : ∀ b, ((linked conf s p).node b).servptr = ((greeted conf s p).node b).servptr := by
    intro b
    have heq : (linked conf s p).node = (linkServer (greeted conf s p) p).node := rfl
    rw [heq, linkServer_eq]
    show ((enlistServer (setStatus (greeted conf s p) p .server) p).node b).servptr = _
    exact update_node (greeted conf s p) _ (fun n => { n with serverList := p :: n.serverList }) b
      Node.servptr rfl
  obtain ⟨hcp, hsp⟩ := register_parents (greeted conf s p) p h₁.placed.good .server hunknown
    (linked conf s p) rfl hnode
  obtain ⟨hne, hclient, hserver⟩ := unknown_unlisted (greeted conf s p) p h₁.placed hunknown
  have halone := unlisted_alone _ _ _ _ _ _ _ h₁.placed.listed p a hne hserver
  intro ha
  rcases parentOf_cases _ a p ha with hc | hs
  · rw [hcp, if_neg (by simp)] at hc
    exact halone.1 hc
  · rw [hsp, if_pos rfl] at hs
    by_cases hap : a = p
    · obtain ⟨-, hme, hnodes, -⟩ := greeted_fields conf s p
      rw [hap, update_self, hnodes, update_self] at hs
      rw [hme] at hne
      exact hne (Option.some.inj hs).symm
    · rw [update_of_ne hap] at hs
      exact halone.2 hs

theorem linked_told :
    ∃ items, tellNetwork (linked conf s p) p =
        told (linked conf s p) p (linked conf s p).bursted items ∧
      Complete (linked conf s p) p items := by
  have hinv := linked_inv conf s p h hp
  obtain ⟨-, hmy⟩ := unregistered_iff s p hp
  refine tellNetwork_told (linked conf s p) hinv.placed p ?_ ?_ ?_
  · exact (linked_status conf s p h hp p).2.1.mpr (Or.inl rfl)
  · rw [(linked_status conf s p h hp p).2.2.1]
    exact h.placed.own p hmy
  · exact reached_over (linked conf s p) hinv.placed p (linked_parents conf s p h hp)

theorem tellNetwork_inv :
    Inv (tellNetwork (linked conf s p) p) := by
  obtain ⟨items, heq, -⟩ := linked_told conf s p h hp
  rw [heq]
  exact frame_inv _ (linked_inv conf s p h hp) _ _ _ _

end

/-- The hashes take the connection if it was in no bucket of names before. -/
theorem enlisted_hashable (h : Inv s) (hn : Named s) (hp : unregistered s p = true)
    (hoff : Off s.clientTable p) (hname : nameOf s p ≠ []) (hid : idOf s p ≠ []) :
    Hashable (enlisted conf s p) p := by
  obtain ⟨h₁, hunknown, -, -⟩ := greeted_inv conf s p h hp
  obtain ⟨-, -, -, -, -, hct, -, -⟩ := greeted_fields conf s p
  have hn₁ := greeted_named conf s p hn
  have hn₂ := setStatus_named (greeted conf s p) p hn₁ h₁.placed.good .server hunknown
  obtain ⟨-, -, hknown, -, -, -⟩ :=
    setStatus_spec (greeted conf s p) p h₁.placed.good .server hunknown
  obtain ⟨-, -, -, hnames, hids⟩ := linked_status conf s p h hp p
  refine ⟨lists_named _ _ hn₂ rfl rfl ⟨rfl, rfl⟩ ⟨rfl, rfl⟩ rfl, ?_, hn₁.pending p hunknown,
    (hknown p).trans (known_of_isUnknown _ p hunknown),
    registered _ p h₁.placed.good .server (by simp) hunknown, ?_, ?_⟩
  · show Off (greeted conf s p).clientTable p
    rw [hct]
    exact hoff
  · show nameOf (linked conf s p) p ≠ []
    rw [hnames]
    exact hname
  · show idOf (linked conf s p) p ≠ []
    rw [hids]
    exact hid

theorem linked_named (h : Inv s) (hn : Named s) (hp : unregistered s p = true)
    (hoff : Off s.clientTable p) (hname : nameOf s p ≠ []) (hid : idOf s p ≠ []) :
    Named (linked conf s p) := by
  have hadded := hashAdd_named _ p (enlisted_hashable conf s p h hn hp hoff hname hid)
  rw [← linkServer_eq] at hadded
  exact lists_named _ _ hadded rfl rfl ⟨rfl, rfl⟩ ⟨rfl, rfl⟩ rfl

end Linked

section Estab

variable (conf : Conf) (s : Net) (p : ClientPtr) (h : Inv s) (hp : unregistered s p = true)

include h hp

theorem serverEstab_inv : Inv (serverEstab conf s p) := by
  have hknown := known_of_isUnknown s p (unregistered_iff s p hp).1
  by_cases hleaf : (!conf.hub && decide (s.localServerList ≠ [])) = true
  · unfold serverEstab
    rw [if_pos hleaf]
    exact exitClient_inv conf s p _ h hknown
  · rw [serverEstab_eq conf s p (by simpa using hleaf) (h.opened p hknown)]
    exact tellNetwork_inv conf s p h hp

theorem serverEstab_named (hn : Named s) (hoff : Off s.clientTable p) (hname : nameOf s p ≠ [])
    (hid : idOf s p ≠ []) : Named (serverEstab conf s p) := by
  have hknown := known_of_isUnknown s p (unregistered_iff s p hp).1
  by_cases hleaf : (!conf.hub && decide (s.localServerList ≠ [])) = true
  · unfold serverEstab
    rw [if_pos hleaf]
    exact exitClient_named conf s p _ h hknown hn
  · rw [serverEstab_eq conf s p (by simpa using hleaf) (h.opened p hknown)]
    obtain ⟨items, heq, -⟩ := linked_told conf s p h hp
    rw [heq]
    exact lists_named _ _ (linked_named conf s p h hn hp hoff hname hid) rfl rfl ⟨rfl, rfl⟩
      ⟨rfl, rfl⟩ rfl

end Estab

end IrcdHybrid.LinkEstab
