import IrcdHybrid.Exits

/-!
The recursion down a tree of servers. Below a server are its users and the servers
behind it with all that is below them; each is taken off after everything below it, and
so nobody ever is behind one that is gone.
-/

namespace IrcdHybrid.Subtree

open Index HashChains Forest Departure ServerLists NameTables MemberLists MemberInvariant
open ServerTree ServerEvents ServerInvariant ServerComing Exits Function

/-- The server of a client or server has the greater rank. -/
def Ranked (rank : ClientPtr → ℕ) (s : Net) : Prop :=
  ∀ a b, parentOf s a = some b → rank a < rank b

def hosts (s : Net) (p : ClientPtr) : Prop := p = s.me ∨ isServer s p = true

section Tree

variable (s : Net) (h : Placed s)

include h

omit h in
theorem parentOf_client (p q : ClientPtr) (hp : clientParent s p = some q) :
    parentOf s p = some q := by
  unfold parentOf
  rw [hp, Option.some_or]

theorem parentOf_server (p q : ClientPtr) (hp : serverParent s p = some q) :
    parentOf s p = some q := by
  unfold parentOf
  cases hc : clientParent s p with
  | none => rw [Option.none_or, hp]
  | some b =>
    have hnone := h.listed.apart p (by simp [hc])
    rw [hp] at hnone
    simp at hnone

theorem parent_hosts (p q : ClientPtr) (hp : parentOf s p = some q) : hosts s q :=
  (h.listed.parents p q (parentOf_cases s p q hp)).imp_right (serverParent_ne_none s q).mp

theorem client_not_hosts (p : ClientPtr) (hp : clientParent s p ≠ none) : ¬ hosts s p := by
  rintro (rfl | hserver)
  · exact hp h.listed.root.1
  · exact (serverParent_ne_none s p).mpr hserver (h.listed.apart p hp)

theorem client_leaf (p : ClientPtr) (hp : clientParent s p ≠ none) (c : ClientPtr) :
    ¬ Below (parentOf s) c p :=
  not_below _ c p fun q hq => client_not_hosts s h p hp (parent_hosts s h q p hq)

theorem ranked_idxOf :
    Ranked (fun p => if clientParent s p ≠ none then 0 else s.globalServerList.idxOf p + 1) s := by
  intro a b hab
  have hb : clientParent s b = none := by
    by_contra hne
    exact client_not_hosts s h b hne (parent_hosts s h a b hab)
  dsimp only
  rw [if_neg (by simp [hb] : ¬ clientParent s b ≠ none)]
  by_cases ha : clientParent s a = none
  · rw [if_neg (by simp [ha])]
    have hserver := (parentOf_cases s a b hab).resolve_left (by simp [ha])
    have hlt := idxOf_lt _ _ _ _ _ _ _ h.listed a b hserver
    omega
  · rw [if_pos ha]
    omega

end Tree

theorem ranked_exited (rank : ClientPtr → ℕ) (s s' : Net) (removed : List ClientPtr)
    (h : Ranked rank s) (hexited : Exited removed s s') : Ranked rank s' := by
  intro a b hab
  rw [exited_parentOf s s' removed hexited, cut_eq_some] at hab
  exact h a b hab.2

theorem hosts_exited (s s' : Net) (removed : List ClientPtr) (hexited : Exited removed s s')
    (p : ClientPtr) (hp : p ∉ removed) (h : hosts s p) : hosts s' p := by
  refine h.imp (fun hme => ?_) (fun hserver => ?_)
  · rw [hexited.rest.me]
    exact hme
  · rw [((exited_status s s' removed hexited.rooms p).2 hp).2.1]
    exact hserver

section Recurse

variable (conf : Conf) (comment : CString.CStr) (rank : ClientPtr → ℕ) (source : ClientPtr)

/-- What the walks along the lists of a server keep. -/
def Walked (s : Net) : Prop := Placed s ∧ Ranked rank s ∧ hosts s source

theorem client_removed (s : Net) (h : Walked rank source s) (a : ClientPtr)
    (ha : a ∈ (s.node source).clientList) :
    ∃ l, Exited l s (ServerTree.exitOneClient conf s a comment) ∧
      Walked rank source (ServerTree.exitOneClient conf s a comment) ∧
      ((ServerTree.exitOneClient conf s a comment).node source).clientList =
        (s.node source).clientList.erase a ∧ IsTree (parentOf s) l a := by
  obtain ⟨hplaced, hranked, hhosts⟩ := h
  have hkey : clientParent s a = some source := ((hplaced.listed.clients source).2 a).mp ha
  have hnotHosts := client_not_hosts s hplaced a (by simp [hkey])
  have hne : source ≠ a := by
    rintro rfl
    exact hnotHosts hhosts
  have hknown := known_of_isClient s a ((clientParent_ne_none s a).mp (by simp [hkey]))
  obtain ⟨hplaced', hexited⟩ := exitOneClient_exited conf s a comment hplaced hknown
    (fun b hb => hnotHosts (parent_hosts s hplaced b a hb))
  have hnot : source ∉ [a] := by simpa using hne
  refine ⟨[a], hexited, ⟨hplaced', ranked_exited rank _ _ _ hranked hexited,
    hosts_exited _ _ _ hexited source hnot hhosts⟩, ?_, fun c => ?_⟩
  · rw [hexited.node source hnot]
    exact without_singleton a _ (hplaced.listed.clients source).1
  · rw [List.mem_singleton]
    exact (or_iff_left (client_leaf s hplaced a (by simp [hkey]) c)).symm

/-- One of the servers behind a server, once everything below it is gone. -/
theorem server_removed (s s' : Net) (h : Walked rank source s) (a : ClientPtr)
    (ha : a ∈ (s.node source).serverList) (l : List ClientPtr) (hexited : Exited l s s')
    (hplaced' : Placed s') (hl : ∀ c, c ∈ l ↔ Below (parentOf s) c a) :
    ∃ l, Exited l s (ServerTree.exitOneClient conf s' a comment) ∧
      Walked rank source (ServerTree.exitOneClient conf s' a comment) ∧
      ((ServerTree.exitOneClient conf s' a comment).node source).serverList =
        (s.node source).serverList.erase a ∧ IsTree (parentOf s) l a := by
  obtain ⟨hplaced, hranked, hhosts⟩ := h
  have hkey : serverParent s a = some source := ((hplaced.listed.servers source).2 a).mp ha
  have hparent := parentOf_server s hplaced a source hkey
  have hlt := hranked a source hparent
  have hself : a ∉ l := by
    rw [hl]
    intro hbelow
    exact Nat.lt_irrefl _ (rank_lt (parentOf s) rank hranked a a hbelow)
  have hknown := known_of_isServer s a ((serverParent_ne_none s a).mp (by simp [hkey]))
  rw [← ((exited_status s s' l hexited.rooms a).2 hself).2.2.2.1] at hknown
  obtain ⟨hplaced'', hexited'⟩ := exitOneClient_exited conf s' a comment hplaced' hknown
    (by
      intro b hb
      rw [exited_parentOf s s' l hexited, cut_eq_some] at hb
      exact hb.1 ((hl b).mpr (Relation.TransGen.single hb.2)))
  have hall := exited_trans _ _ _ _ _ hexited hexited'
  have hup : source ∉ l := by
    rw [hl]
    intro hbelow
    have hback := rank_lt (parentOf s) rank hranked source a hbelow
    omega
  have hnot : source ∉ l ++ [a] := by
    rw [List.mem_append, List.mem_singleton, not_or]
    refine ⟨hup, ?_⟩
    rintro rfl
    exact Nat.lt_irrefl _ hlt
  refine ⟨l ++ [a], hall, ⟨hplaced'', ranked_exited rank _ _ _ hranked hall,
    hosts_exited _ _ _ hall source hnot hhosts⟩, ?_, fun c => ?_⟩
  · -- the other servers behind `source` are not below this one
    have hothers : without l (s.node source).serverList = (s.node source).serverList := by
      refine List.filter_eq_self.mpr fun b hb => decide_eq_true ?_
      rw [hl]
      intro hbelow
      have hb' := parentOf_server s hplaced b source (((hplaced.listed.servers source).2 b).mp hb)
      obtain ⟨q, hq, hrest⟩ := Relation.TransGen.head'_iff.mp hbelow
      rw [show q = source from Option.some.inj (hq.symm.trans hb')] at hrest
      rcases Relation.reflTransGen_iff_eq_or_transGen.mp hrest with hsame | habove
      · rw [hsame] at hlt
        exact Nat.lt_irrefl _ hlt
      · exact hup ((hl source).mpr habove)
    rw [hall.node source hnot]
    show without (l ++ [a]) (s.node source).serverList = _
    rw [without_append, hothers, without_singleton a _ (hplaced.listed.servers source).1]
  · rw [List.mem_append, List.mem_singleton, hl c, or_comm]

/-- Everything below a server is removed, and nothing else. -/
theorem recurseRemoveClients_exited (depth : ℕ) (s : Net) (h : Walked rank source s)
    (hdepth : rank source ≤ depth) :
    ∃ l, Exited l s (ServerTree.recurseRemoveClients conf comment depth s source) ∧
      Placed (ServerTree.recurseRemoveClients conf comment depth s source) ∧
      ∀ c, c ∈ l ↔ Below (parentOf s) c source := by
  induction depth generalizing s source with
  | zero =>
    refine ⟨[], exited_refl s h.1, h.1, fun c => ?_⟩
    refine iff_of_false (by simp) fun hbelow => ?_
    have hlt := rank_lt (parentOf s) rank h.2.1 c source hbelow
    omega
  | succ depth ih =>
    obtain ⟨l, hexited, hwalked, -, hl⟩ := walk_removes parentOf (fun s s' l => Exited l s s')
      (Walked rank source) (fun s => (s.node source).clientList)
      (fun s p => ServerTree.exitOneClient conf s p comment) (fun s hs => exited_refl s hs.1)
      (fun s s' s'' l l' => exited_trans s s' s'' l l') exited_parentOf
      (client_removed conf comment rank source) s h
    obtain ⟨l', hexited', hwalked', -, hl'⟩ := walk_removes parentOf (fun s s' l => Exited l s s')
      (Walked rank source) (fun s => (s.node source).serverList)
      (fun s p => ServerTree.exitOneClient conf
        (ServerTree.recurseRemoveClients conf comment depth s p) p comment)
      (fun s hs => exited_refl s hs.1) (fun s s' s'' l l' => exited_trans s s' s'' l l')
      exited_parentOf
      (by
        intro t ht a ha
        have hkey : serverParent t a = some source := ((ht.1.listed.servers source).2 a).mp ha
        have hlt := ht.2.1 a source (parentOf_server t ht.1 a source hkey)
        have hserver := (serverParent_ne_none t a).mp (by simp [hkey])
        obtain ⟨below, hgone, hplaced, hbelow⟩ := ih a t ⟨ht.1, ht.2.1, Or.inr hserver⟩ (by omega)
        exact server_removed conf comment rank source t _ ht a ha below hgone hplaced hbelow)
      _ hwalked
    refine ⟨l ++ l', exited_trans _ _ _ _ _ hexited hexited', hwalked'.1, fun c => ?_⟩
    -- the first walk takes the users out, the second one the servers and what is below them
    have hplaced := h.1
    have husers : ∀ c, c ∈ l ↔ clientParent s c = some source := by
      intro c
      rw [hl c]
      constructor
      · rintro ⟨a, ha, rfl | hbelow⟩
        · exact ((hplaced.listed.clients source).2 c).mp ha
        · have hkey := ((hplaced.listed.clients source).2 a).mp ha
          exact absurd hbelow (client_leaf s hplaced a (by simp [hkey]) c)
      · exact fun hc => ⟨c, ((hplaced.listed.clients source).2 c).mpr hc, Or.inl rfl⟩
    have hclosed : Closed (parentOf s) l := by
      intro c p hc hp
      have hkey := (husers p).mp hp
      exact absurd (parent_hosts s hplaced c p hc) (client_not_hosts s hplaced p (by simp [hkey]))
    have hup : source ∉ l := by
      rw [husers]
      intro hkey
      exact client_not_hosts s hplaced source (by simp [hkey]) h.2.2
    have hservers : ∀ a, serverParent s a = some source → a ∉ l := by
      intro a ha hmem
      have hnone := hplaced.listed.apart a (by simp [(husers a).mp hmem])
      rw [ha] at hnone
      simp at hnone
    have hlist : ∀ a, a ∈ without l (s.node source).serverList ↔ serverParent s a = some source := by
      intro a
      rw [mem_without, (hplaced.listed.servers source).2 a]
      exact and_iff_left_of_imp (hservers a)
    have hbelow := fun a => below_cut (parentOf s) l hclosed c a
    have hnode : ((walk (fun s => (s.node source).clientList)
        (fun s p => ServerTree.exitOneClient conf s p comment) (s.node source).clientList.length s
        (s.node source).clientList.head?).node source).serverList =
        without l (s.node source).serverList := by
      rw [hexited.node source hup]
      rfl
    have hl'' := hl' c
    rw [hnode, exited_parentOf _ _ _ hexited] at hl''
    rw [List.mem_append, husers c, hl'', below_iff]
    constructor
    · rintro (huser | ⟨a, ha, rfl | hlow⟩)
      · exact Or.inl (parentOf_client s c source huser)
      · exact Or.inl (parentOf_server s hplaced c source ((hlist c).mp ha))
      · exact Or.inr ⟨a, parentOf_server s hplaced a source ((hlist a).mp ha), ((hbelow a).mp hlow).1⟩
    · rintro (hparent | ⟨a, ha, hlow⟩)
      · rcases parentOf_cases s c source hparent with huser | hserver
        · exact Or.inl huser
        · exact Or.inr ⟨c, (hlist c).mpr hserver, Or.inl rfl⟩
      · rcases parentOf_cases s a source ha with huser | hserver
        · exact absurd hlow (client_leaf s hplaced a (by simp [huser]) c)
        · by_cases hc : c ∈ l
          · exact Or.inl ((husers c).mp hc)
          · exact Or.inr ⟨a, (hlist a).mpr hserver, Or.inr ((hbelow a).mpr ⟨hlow, hc⟩)⟩

end Recurse

end IrcdHybrid.Subtree
