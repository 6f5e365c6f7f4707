import IrcdHybrid.Subtree

/-!
`exit_client`, of a client, a server or a connection that never registered. What is
said to the links about a server that splits is the SQUIT alone; what holds at all times
holds again when all who were behind it are gone.
-/

namespace IrcdHybrid.ClientExit

open Index HashChains Forest Departure ServerLists NameTables MemberLists MemberInvariant
open ServerTree ServerEvents ServerInvariant ServerComing Exits Subtree Function

theorem placed_sent (s : Net) (h : Placed s) (sent : List (ClientPtr × Line)) :
    Placed { s with sent := sent } :=
  ⟨h.good, h.rootless, h.listed, h.routed, h.own, h.unmarked, h.dead_nodup, h.dead_gone⟩

section Close

variable (s : Net) (p : ClientPtr) (comment : CString.CStr)

theorem closeLocal_spec :
    ∃ lines clients unknown, (∀ x ∈ lines, quits x.2 = false) ∧
      (isServer s p = true → clients = s.localClientList ∧ unknown = s.unknownList) ∧
      closeLocal s p comment = { s with
      node := update s.node p { s.node p with closing := true }
      localClientList := clients
      localServerList := if isServer s p then s.localServerList.erase p else s.localServerList
      unknownList := unknown
      sent := s.sent ++ lines } := by
  obtain ⟨clients, unknown, hother, hlists⟩ : ∃ clients unknown,
      (isServer s p = true → clients = s.localClientList ∧ unknown = s.unknownList) ∧
      (if isClient s.rooms p then
          { modifyNode s p (fun n => { n with closing := true }) with
            localClientList := s.localClientList.erase p }
        else if isServer s p then
          { modifyNode s p (fun n => { n with closing := true }) with
            localServerList := s.localServerList.erase p }
        else
          { modifyNode s p (fun n => { n with closing := true }) with
            unknownList := s.unknownList.erase p }) = { s with
        node := update s.node p { s.node p with closing := true }
        localClientList := clients
        localServerList := if isServer s p then s.localServerList.erase p else s.localServerList
        unknownList := unknown } := by
    by_cases hclient : isClient s.rooms p = true
    · rw [if_pos hclient, not_server_of_client s p hclient]
      exact ⟨_, _, by simp, rfl⟩
    · rw [if_neg hclient]
      by_cases hserver : isServer s p = true
      · rw [if_pos hserver, if_pos hserver]
        exact ⟨s.localClientList, s.unknownList, fun _ => ⟨rfl, rfl⟩, rfl⟩
      · rw [if_neg hserver, if_neg hserver]
        exact ⟨_, _, fun hs => absurd hs hserver, rfl⟩
  generalize hs₁ : ({ s with
    node := update s.node p { s.node p with closing := true }
    localClientList := clients
    localServerList := if isServer s p then s.localServerList.erase p else s.localServerList
    unknownList := unknown } : Net) = s₁ at hlists
  have hclose : closeLocal s p comment =
      if (s₁.node p).dead then s₁
      else
        sendtoOne (if isServer s₁ p && !(s₁.node p).squit then
          sendtoOne s₁ p (.squit (some s₁.meId) s₁.meId comment) else s₁) p
          (.error ((if isServer s₁ p && !(s₁.node p).squit then
            sendtoOne s₁ p (.squit (some s₁.meId) s₁.meId comment) else s₁).node p).profile.host
              comment) := by
    rw [← hlists]
    rfl
  rw [hclose]
  split
  · refine ⟨[], clients, unknown, by simp, hother, ?_⟩
    rw [← hs₁, List.append_nil]
  · split
    · refine ⟨[(p, .squit (some s₁.meId) s₁.meId comment), (p, .error (s₁.node p).profile.host comment)],
        clients, unknown, ?_, hother, ?_⟩
      · rintro x hx
        rcases List.mem_cons.mp hx with rfl | hx
        · rfl
        · rw [List.mem_singleton.mp hx]
          rfl
      · rw [← hs₁]
        unfold sendtoOne
        dsimp only
        rw [List.append_assoc]
        rfl
    · refine ⟨[(p, .error (s₁.node p).profile.host comment)], clients, unknown, ?_, hother, ?_⟩
      · rintro x hx
        rw [List.mem_singleton.mp hx]
        rfl
      · rw [← hs₁]
        rfl

end Close

section Rest

variable (conf : Conf) (comment : CString.CStr) (p : ClientPtr)

theorem serverTree_exited (depth : ℕ) (split : CString.CStr) (s : Net) (h : Placed s)
    (hserver : isServer s p = true) (hdepth : s.globalServerList.length ≤ depth) :
    ∃ removed, Exited removed s (ServerTree.exitOneClient conf
        (ServerTree.recurseRemoveClients conf split depth s p) p comment) ∧
      Placed (ServerTree.exitOneClient conf
        (ServerTree.recurseRemoveClients conf split depth s p) p comment) ∧
      ∀ q, q ∈ removed ↔ q = p ∨ Below (parentOf s) q p := by
  have hranked := ranked_idxOf s h
  generalize hrank : (fun q => if clientParent s q ≠ none then 0
    else s.globalServerList.idxOf q + 1) = rank at hranked
  have hmem : p ∈ s.globalServerList :=
    (h.listed.mem_servers p).mpr (Or.inr ((serverParent_ne_none s p).mpr hserver))
  have hclient : clientParent s p = none := by
    by_contra hne
    exact client_not_hosts s h p hne (Or.inr hserver)
  have hle : rank p ≤ depth := by
    have hlt := List.idxOf_lt_length_iff.mpr hmem
    rw [← hrank]
    dsimp only
    rw [if_neg (by simp [hclient])]
    omega
  obtain ⟨l, hexited, hplaced, hl⟩ :=
    recurseRemoveClients_exited conf split rank p depth s ⟨h, hranked, Or.inr hserver⟩ hle
  have hself : p ∉ l := by
    rw [hl]
    intro hbelow
    exact Nat.lt_irrefl _ (rank_lt (parentOf s) rank hranked p p hbelow)
  have hknown := known_of_isServer s p hserver
  rw [← ((exited_status _ _ l hexited.rooms p).2 hself).2.2.2.1] at hknown
  obtain ⟨hplaced', hexited'⟩ := exitOneClient_exited conf _ p comment hplaced hknown
    (by
      intro b hb
      rw [exited_parentOf _ _ l hexited, cut_eq_some] at hb
      exact hb.1 ((hl b).mpr (Relation.TransGen.single hb.2)))
  refine ⟨l ++ [p], exited_trans _ _ _ _ _ hexited hexited', hplaced', fun q => ?_⟩
  rw [List.mem_append, List.mem_singleton, hl q, or_comm]

theorem known_ne_me (s : Net) (h : Placed s) (q : ClientPtr) (hq : known s q = true) : q ≠ s.me := by
  rintro rfl
  obtain ⟨c, hc⟩ := (known_iff s s.me).mp hq
  rw [h.rootless] at hc
  simp at hc

theorem leaf_of_not_server (s : Net) (h : Placed s) (hknown : known s p = true)
    (hserver : isServer s p = false) (a : ClientPtr) : parentOf s a ≠ some p := by
  intro ha
  rcases parent_hosts s h a p ha with hme | hs
  · exact known_ne_me s h p hknown hme
  · rw [hserver] at hs
    simp at hs

theorem exitRest_exited (s : Net) (h : Placed s) (hknown : known s p = true) :
    ∃ lines removed, (isServer s p = true → ∀ x ∈ lines, quits x.2 = false) ∧
      Exited removed { s with sent := s.sent ++ lines } (exitRest conf s p comment) ∧
      Placed (exitRest conf s p comment) ∧
      ∀ q, q ∈ removed ↔ q = p ∨ Below (parentOf s) q p := by
  unfold exitRest
  by_cases hserver : isServer s p = true
  · rw [if_pos hserver]
    dsimp only
    obtain ⟨lines, hlines, heq⟩ : ∃ lines, (∀ x ∈ lines, quits x.2 = false) ∧
        (if (s.node p).squit then s else sendtoServer s none (.squit none (idOf s p) comment)) =
          { s with sent := s.sent ++ lines } := by
      split
      · refine ⟨[], by simp, ?_⟩
        rw [List.append_nil]
      · refine ⟨_, fun x hx => ?_, rfl⟩
        obtain ⟨q, -, rfl⟩ := List.mem_map.mp hx
        rfl
    rw [heq]
    obtain ⟨removed, hexited, hplaced, hmem⟩ := serverTree_exited conf comment p
      s.globalServerList.length (splitComment conf s p) { s with sent := s.sent ++ lines }
      (placed_sent s h _) hserver (Nat.le_refl _)
    exact ⟨lines, removed, fun _ => hlines, hexited, hplaced, hmem⟩
  · have hserver : isServer s p = false := by simpa using hserver
    rw [if_neg (by simp [hserver])]
    dsimp only
    obtain ⟨lines, heq⟩ : ∃ lines,
        (if isClient s.rooms p && !(s.node p).killed then
          sendtoServer s (some (fromOf s p)) (.quitOf (idOf s p) comment) else s) =
          { s with sent := s.sent ++ lines } := by
      split
      · exact ⟨_, rfl⟩
      · refine ⟨[], ?_⟩
        rw [List.append_nil]
    rw [heq]
    have hleaf := leaf_of_not_server p s h hknown hserver
    obtain ⟨hplaced, hexited⟩ := exitOneClient_exited conf { s with sent := s.sent ++ lines } p comment
      (placed_sent s h _) hknown hleaf
    refine ⟨lines, [p], fun hfalse => ?_, hexited, hplaced, fun q => ?_⟩
    · rw [hserver] at hfalse
      simp at hfalse
    · rw [List.mem_singleton]
      exact (or_iff_left (not_below _ q p hleaf)).symm

end Rest

/-- What is no longer so when a connection is closed. -/
structure Shut (s s₀ : Net) (p : ClientPtr) : Prop where
  rooms : s₀.rooms = s.rooms
  node : ∀ q, q ≠ p → s₀.node q = s.node q
  self : ∃ b, s₀.node p = { s.node p with closing := b }
  globalClientList : s₀.globalClientList = s.globalClientList
  globalServerList : s₀.globalServerList = s.globalServerList
  localServerList : s₀.localServerList =
    if ServerTree.myConnect s p && isServer s p then s.localServerList.erase p else s.localServerList
  deadList : s₀.deadList = s.deadList
  sent : ∃ lines, s₀.sent = s.sent ++ lines ∧
    (isServer s p = true → ∀ x ∈ lines, quits x.2 = false)
  clientTable : s₀.clientTable = s.clientTable
  idTable : s₀.idTable = s.idTable
  names : s₀.me = s.me ∧ s₀.meId = s.meId ∧ s₀.meName = s.meName ∧ s₀.meInfo = s.meInfo
  rest : s₀.top = s.top ∧ s₀.bursted = s.bursted ∧ s₀.extra = s.extra
  others : isServer s p = true →
    s₀.localClientList = s.localClientList ∧ s₀.unknownList = s.unknownList

section Shut

variable (s s₀ : Net) (p : ClientPtr) (hshut : Shut s s₀ p)

include hshut

theorem shut_read {β : Type} (g : Node → β) (hg : ∀ n b, g { n with closing := b } = g n)
    (q : ClientPtr) : g (s₀.node q) = g (s.node q) := by
  by_cases hq : q = p
  · obtain ⟨b, hb⟩ := hshut.self
    rw [hq, hb, hg]
  · rw [hshut.node q hq]

theorem shut_parents : clientParent s₀ = clientParent s ∧ serverParent s₀ = serverParent s ∧
    parentOf s₀ = parentOf s := by
  have hc : clientParent s₀ = clientParent s := by
    funext q
    unfold clientParent
    rw [hshut.rooms, shut_read s s₀ p hshut Node.servptr (fun _ _ => rfl) q]
  have hs : serverParent s₀ = serverParent s := by
    funext q
    unfold serverParent isServer
    rw [hshut.rooms, shut_read s s₀ p hshut Node.servptr (fun _ _ => rfl) q]
  refine ⟨hc, hs, ?_⟩
  funext q
  unfold parentOf
  rw [hc, hs]

theorem shut_placed (h : Placed s) : Placed s₀ := by
  obtain ⟨hc, hs, -⟩ := shut_parents s s₀ p hshut
  have hlists : (fun q => (s₀.node q).clientList) = (fun q => (s.node q).clientList) ∧
      (fun q => (s₀.node q).serverList) = fun q => (s.node q).serverList :=
    ⟨funext (shut_read s s₀ p hshut Node.clientList (fun _ _ => rfl)),
      funext (shut_read s s₀ p hshut Node.serverList (fun _ _ => rfl))⟩
  have hconnection : ∀ q, ServerTree.myConnect s₀ q = ServerTree.myConnect s q ∧
      fromOf s₀ q = fromOf s q := by
    intro q
    unfold ServerTree.myConnect fromOf
    rw [hshut.rooms]
    exact ⟨rfl, rfl⟩
  refine ⟨?_, ?_, ?_, fun a q ha => ?_, fun a ha => ?_, ?_, ?_, ?_⟩
  · rw [hshut.rooms]
    exact h.good
  · rw [hshut.rooms, hshut.names.1]
    exact h.rootless
  · rw [hshut.names.1, hc, hs, hlists.1, hlists.2, hshut.globalClientList, hshut.globalServerList]
    exact h.listed
  · rw [hc, hs] at ha
    rw [hshut.names.1, (hconnection a).1, (hconnection a).2, (hconnection q).2]
    exact h.routed a q ha
  · rw [(hconnection a).1] at ha
    rw [(hconnection a).2]
    exact h.own a ha
  · rw [hshut.rest.2.1]
    exact h.unmarked
  · rw [hshut.deadList]
    exact h.dead_nodup
  · rw [hshut.deadList, hshut.rooms]
    exact h.dead_gone

theorem shut_named (h : Named s) : Named s₀ :=
  lists_named s s₀ h hshut.rooms hshut.names.1 ⟨hshut.names.2.1, hshut.names.2.2.1⟩
    ⟨hshut.clientTable, hshut.idTable⟩ hshut.rest.1

end Shut

/-- An exit shuts the connection and then takes off the client and everything below it. -/
theorem exitClient_exited (conf : Conf) (s : Net) (p : ClientPtr) (comment : CString.CStr)
    (h : Inv s) (hknown : known s p = true) :
    ∃ s₀ removed, Shut s s₀ p ∧ Exited removed s₀ (exitClient conf s p comment) ∧
      Placed (exitClient conf s p comment) ∧ ∀ q, q ∈ removed ↔ q = p ∨ Below (parentOf s) q p := by
  unfold exitClient
  by_cases hmy : ServerTree.myConnect s p = true
  · rw [if_pos hmy, if_neg (by simp [h.opened p hknown])]
    obtain ⟨lines, clients, unknown, hlines, hother, heq⟩ := closeLocal_spec s p comment
    generalize hs₁ : closeLocal s p comment = s₁ at heq
    have hshut : ∀ lines', (isServer s p = true → ∀ x ∈ lines', quits x.2 = false) →
        Shut s { s₁ with sent := s₁.sent ++ lines' } p := by
      intro lines' hlines'
      rw [heq]
      refine ⟨rfl, fun q hq => update_of_ne hq _ _, ⟨true, update_self _ _ _⟩, rfl, rfl, ?_, rfl,
        ⟨lines ++ lines', by rw [List.append_assoc], fun hserver x hx => ?_⟩, rfl, rfl,
        ⟨rfl, rfl, rfl, rfl⟩, ⟨rfl, rfl, rfl⟩, hother⟩
      · dsimp only
        rw [hmy, Bool.true_and]
      · rcases List.mem_append.mp hx with hx | hx
        · exact hlines x hx
        · exact hlines' hserver x hx
    have hshut₁ : Shut s s₁ p := by
      have hnil := hshut [] (by simp)
      rwa [List.append_nil] at hnil
    have hplaced₁ := shut_placed s s₁ p hshut₁ h.placed
    have hrooms : isServer s₁ p = isServer s p ∧ known s₁ p = known s p := by
      unfold isServer known
      rw [hshut₁.rooms]
      exact ⟨rfl, rfl⟩
    obtain ⟨lines', removed, hlines', hexited, hplaced, hmem⟩ :=
      exitRest_exited conf comment p s₁ hplaced₁ (hrooms.2.trans hknown)
    rw [hrooms.1] at hlines'
    rw [(shut_parents s s₁ p hshut₁).2.2] at hmem
    exact ⟨_, removed, hshut lines' hlines', hexited, hplaced, hmem⟩
  · have hmy' : ServerTree.myConnect s p = false := by simpa using hmy
    rw [if_neg hmy]
    obtain ⟨lines, removed, hlines, hexited, hplaced, hmem⟩ :=
      exitRest_exited conf comment p s h.placed hknown
    refine ⟨{ s with sent := s.sent ++ lines }, removed,
      ⟨rfl, fun _ _ => rfl, ⟨(s.node p).closing, rfl⟩, rfl, rfl, ?_, rfl,
      ⟨lines, rfl, hlines⟩, rfl, rfl, ⟨rfl, rfl, rfl, rfl⟩, ⟨rfl, rfl, rfl⟩,
      fun _ => ⟨rfl, rfl⟩⟩, hexited, hplaced, hmem⟩
    rw [hmy', Bool.false_and]
    rfl

section After

variable (conf : Conf) (s : Net) (p : ClientPtr) (comment : CString.CStr) (h : Inv s)
  (hknown : known s p = true)

include h

/-- No connection of the server's own is below another client or server. -/
theorem below_remote (q : ClientPtr) (hp : known s p = true) (hq : Below (parentOf s) q p) :
    ServerTree.myConnect s q = false := by
  obtain ⟨r, hr, hrest⟩ := Relation.TransGen.head'_iff.mp hq
  by_contra hmy
  have hme := placed_locals s h.placed q r (by simpa using hmy) (parentOf_cases s q r hr)
  rw [hme] at hrest
  rcases Relation.reflTransGen_iff_eq_or_transGen.mp hrest with hsame | habove
  · exact known_ne_me s h.placed p hp hsame
  · obtain ⟨r', hr', -⟩ := Relation.TransGen.head'_iff.mp habove
    have hroot := h.placed.listed.root
    rcases parentOf_cases s s.me r' hr' with hc | hs
    · rw [hroot.1] at hc
      simp at hc
    · rw [hroot.2] at hs
      simp at hs

include hknown

theorem exitClient_inv : Inv (exitClient conf s p comment) := by
  obtain ⟨s₀, removed, hshut, hexited, hplaced, hmem⟩ := exitClient_exited conf s p comment h hknown
  generalize exitClient conf s p comment = s' at *
  have hparents := exited_parents s₀ s' removed hexited.rooms
    (fun q hq => by rw [hexited.node q hq]; rfl)
  have hserver : ∀ q, serverParent s' q ≠ none ↔ q ∉ removed ∧ serverParent s q ≠ none := by
    intro q
    rw [hparents.2, (shut_parents s s₀ p hshut).2.1]
    unfold cut
    by_cases hq : q ∈ removed <;> simp [hq]
  have hmy : ∀ q, q ∉ removed → ServerTree.myConnect s' q = ServerTree.myConnect s q := by
    intro q hq
    rw [((exited_status s₀ s' removed hexited.rooms q).2 hq).2.2.2.2.1]
    unfold ServerTree.myConnect
    rw [hshut.rooms]
  have hremote : ∀ q, q ∈ removed → q ≠ p → ServerTree.myConnect s q = false := fun q hq hne =>
    below_remote s p h q hknown (((hmem q).mp hq).resolve_left hne)
  have hself : p ∈ removed := (hmem p).mpr (Or.inl rfl)
  refine ⟨hplaced, ?_, fun q => ?_, fun q hq => ?_⟩
  · rw [hexited.rest.localServerList, hshut.localServerList]
    split
    · exact h.links_nodup.erase p
    · exact h.links_nodup
  · have hold : q ∈ s'.localServerList ↔ q ≠ p ∧ q ∈ s.localServerList := by
      rw [hexited.rest.localServerList, hshut.localServerList]
      split
      · exact h.links_nodup.mem_erase_iff
      · next hnot =>
        refine (and_iff_right_of_imp ?_).symm
        rintro hq rfl
        obtain ⟨hs, hm⟩ := (h.mem_links q).mp hq
        rw [serverParent_ne_none] at hs
        rw [hm, hs] at hnot
        exact hnot rfl
    rw [hold, h.mem_links, hserver]
    constructor
    · rintro ⟨hne, hs, hm⟩
      have hnot : q ∉ removed := by
        intro hq
        rw [hremote q hq hne] at hm
        simp at hm
      exact ⟨⟨hnot, hs⟩, (hmy q hnot).trans hm⟩
    · rintro ⟨⟨hnot, hs⟩, hm⟩
      refine ⟨?_, hs, (hmy q hnot).symm.trans hm⟩
      rintro rfl
      exact hnot hself
  · have hnot : q ∉ removed := by
      intro hmem'
      rw [((exited_status s₀ s' removed hexited.rooms q).1 hmem').2.2.2.1] at hq
      simp at hq
    have hne : q ≠ p := by
      rintro rfl
      exact hnot hself
    rw [((exited_status s₀ s' removed hexited.rooms q).2 hnot).2.2.2.1] at hq
    unfold known at hq
    rw [hshut.rooms] at hq
    rw [hexited.node q hnot, hshut.node q hne]
    exact h.opened q hq

theorem exitClient_named (hn : Named s) : Named (exitClient conf s p comment) := by
  obtain ⟨s₀, removed, hshut, hexited, -, -⟩ := exitClient_exited conf s p comment h hknown
  exact (hexited.hashes (shut_named s s₀ p hshut hn)).1

end After

end IrcdHybrid.ClientExit
