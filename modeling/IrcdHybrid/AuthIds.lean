import IrcdHybrid.AuthRuns

/-!
How the requests of the resolver are told apart. A request that was sent has an identifier that no other
one has, so an answer is taken for the question it answers; it is sent twice at most.
-/

namespace IrcdHybrid.AuthIds

open CString DnsNames DnsMessages AuthRequests AuthSteps AuthRuns Function

/-- No two are the same, but for zeros. -/
def Distinct (l : List ℕ) : Prop := (l.filter (· ≠ 0)).Nodup

theorem distinct_cons (n : ℕ) (l : List ℕ) : Distinct (n :: l) ↔ (n ≠ 0 → n ∉ l) ∧ Distinct l := by
  unfold Distinct
  by_cases hn : n = 0
  · subst hn
    simp
  · rw [List.filter_cons_of_pos (by simpa using hn), List.nodup_cons, List.mem_filter]
    simp [hn]

theorem distinct_middle (kept rest : List ℕ) (n : ℕ) :
    Distinct (kept ++ n :: rest) ↔ (n ≠ 0 → n ∉ kept ++ rest) ∧ Distinct (kept ++ rest) := by
  rw [← distinct_cons]
  exact (List.perm_middle.filter _).nodup_iff

theorem distinct_sublist {l l' : List ℕ} (h : Distinct l) (hsub : l'.Sublist l) : Distinct l' :=
  h.sublist (hsub.filter _)

/-- How far a request has got. -/
structure Tried (now : ℕ) (r : Request) : Prop where
  id : r.id < 65536
  sentat : r.sentat ≤ now
  sends : r.retries = 2 ∧ r.timeout = 4 ∧ r.sends ≤ 1 ∨ r.retries = 1 ∧ r.timeout = 8 ∧ r.sends ≤ 2

structure Told (now : ℕ) (requests : List Request) : Prop where
  distinct : Distinct (ids requests)
  tried : ∀ r ∈ requests, Tried now r

theorem told_sublist {now : ℕ} {requests requests' : List Request} (h : Told now requests)
    (hsub : requests'.Sublist requests) : Told now requests' :=
  ⟨distinct_sublist h.distinct (hsub.map _), fun r hr => h.tried r (hsub.subset hr)⟩

/-- A question is sent, under a new identifier, or is not. -/
theorem queryName_spec (pick : Pick) (used : List ℕ) (name : CStr) (type : ℕ) (r : Request)
    (hpick : Fresh pick) (hused : used.length < 65536) : queryName pick used name type r = r ∨
      ∃ id, id < 65536 ∧ id ∉ used ∧
        queryName pick used name type r = { r with id := id, sends := r.sends + 1 } := by
  unfold queryName
  split
  · exact Or.inl rfl
  · exact Or.inr ⟨pick used, (hpick used hused).1, (hpick used hused).2, rfl⟩

theorem resendQuery_spec (pick : Pick) (used : List ℕ) (r : Request) (hpick : Fresh pick)
    (hused : used.length < 65536) : resendQuery pick used r = r ∨
      ∃ id, id < 65536 ∧ id ∉ used ∧ resendQuery pick used r = { r with id := id, sends := r.sends + 1 } := by
  unfold resendQuery
  split
  · split
    · exact queryName_spec pick used _ _ r hpick hused
    · exact Or.inl rfl
  · split
    · exact queryName_spec pick used _ _ r hpick hused
    · exact Or.inl rfl

theorem told_new (now : ℕ) (requests others : List Request) (h : Told now requests)
    (hothers : requests.Sublist others) (pick : Pick) (hpick : Fresh pick)
    (hused : others.length + 1 < 65536) (r : Request) (hr : r.id = 0 ∧ r.retries = 2 ∧ r.sends = 0 ∧
      r.timeout = 4 ∧ r.sentat = now) (name : CStr) (type : ℕ) :
    Told now (queryName pick (ids (r :: others)) name type r :: requests) := by
  obtain ⟨hid, hretries, hsends, htimeout, hsentat⟩ := hr
  have hlen : (ids (r :: others)).length < 65536 := by
    simpa [ids] using hused
  rcases queryName_spec pick (ids (r :: others)) name type r hpick hlen with heq | ⟨id, hlt, hfree, heq⟩
  · rw [heq]
    refine ⟨?_, fun r' hr' => ?_⟩
    · rw [ids, List.map_cons, distinct_cons]
      exact ⟨fun hne => absurd hid hne, h.distinct⟩
    · rcases List.mem_cons.mp hr' with rfl | hr'
      · exact ⟨by omega, hsentat.le, Or.inl ⟨hretries, htimeout, by omega⟩⟩
      · exact h.tried r' hr'
  · rw [heq]
    refine ⟨?_, fun r' hr' => ?_⟩
    · rw [ids, List.map_cons, distinct_cons]
      refine ⟨fun _ hmem => hfree ?_, h.distinct⟩
      rw [ids, List.map_cons]
      exact List.mem_cons_of_mem _ ((hothers.map Request.id).subset hmem)
    · rcases List.mem_cons.mp hr' with rfl | hr'
      · exact ⟨hlt, hsentat.le, Or.inl ⟨hretries, htimeout, by simp [hsends]⟩⟩
      · exact h.tried r' hr'

theorem dnsCallback_requests (s : State) (p : ClientPtr) (found : Option (Addr × CStr × ℕ)) :
    (authDnsCallback s p found).requests = s.requests ∧ (authDnsCallback s p found).now = s.now := by
  rcases dnsCallback_spec s p found with ⟨-, heq⟩ | ⟨c, c', -, heq, -⟩
  · rw [heq]
    exact ⟨rfl, rfl⟩
  · rw [heq]
    exact ⟨(release_shape s p c').2.2.1, (release_shape s p c').1⟩

theorem resReadreply_told (s : State) (h : Told s.now s.requests) (pick : Pick) (hpick : Fresh pick)
    (hused : s.requests.length + 1 < 65536) (msg : Packet) :
    Told (resReadreply s pick msg).now (resReadreply s pick msg).requests := by
  have hgone := told_sublist h (List.eraseP_sublist (p := fun r => decide (r.id = idOf msg)))
  have hcallback : ∀ said p found, Told
      (authDnsCallback { s with requests := remRequest s (idOf msg), said := said } p found).now
      (authDnsCallback { s with requests := remRequest s (idOf msg), said := said } p found).requests := by
    intro said p found
    obtain ⟨hrequests, hnow⟩ :=
      dnsCallback_requests { s with requests := remRequest s (idOf msg), said := said } p found
    rw [hrequests, hnow]
    exact hgone
  unfold resReadreply
  split
  · exact h
  split
  · exact h
  simp only
  split
  · exact hcallback s.said _ _
  split
  · exact hcallback s.said _ _
  next found hfound =>
  cases found with
  | addr a => exact hcallback _ _ _
  | name hostbuf =>
    simp only [hear]
    split
    · exact hcallback _ _ _
    · exact told_new s.now _ s.requests hgone List.eraseP_sublist pick hpick hused _
        ⟨rfl, rfl, rfl, rfl, rfl⟩ _ _

theorem told_again (now : ℕ) (kept rest : List Request) (r : Request) (h : Told now (kept ++ r :: rest))
    (hretry : r.retries - 1 ≠ 0) (pick : Pick) (hpick : Fresh pick)
    (hused : (kept ++ r :: rest).length < 65536) (r' : Request)
    (hr' : r' = { r with retries := r.retries - 1, sentat := now, timeout := r.timeout + r.timeout }) :
    Told now (kept ++ [resendQuery pick (ids (kept ++ r' :: rest)) r'] ++ rest) ∧
      now < (resendQuery pick (ids (kept ++ r' :: rest)) r').sentat +
        (resendQuery pick (ids (kept ++ r' :: rest)) r').timeout := by
  have hold := h.tried r (by simp)
  have hlen : (ids (kept ++ r' :: rest)).length < 65536 := by
    simpa [ids] using hused
  have hdistinct := h.distinct
  simp only [ids, List.map_append, List.map_cons] at hdistinct
  rw [distinct_middle] at hdistinct
  have hother : ∀ q, q ∈ kept ++ rest → Tried now q := by
    intro q hq
    refine h.tried q ?_
    rw [List.mem_append] at hq ⊢
    exact hq.imp_right (List.mem_cons_of_mem r)
  have hbuild : ∀ q : Request, (q.id ≠ 0 → q.id ∉ ids kept ++ ids rest) → Tried now q →
      Told now (kept ++ [q] ++ rest) := by
    intro q hfree hq
    rw [List.append_assoc, List.singleton_append]
    refine ⟨?_, fun k hk => ?_⟩
    · simp only [ids, List.map_append, List.map_cons]
      exact (distinct_middle _ _ _).mpr ⟨hfree, hdistinct.2⟩
    · rw [List.mem_append, List.mem_cons] at hk
      rcases hk with hk | rfl | hk
      · exact hother k (List.mem_append_left _ hk)
      · exact hq
      · exact hother k (List.mem_append_right _ hk)
  have htwice : r'.retries = 1 ∧ r'.timeout = 8 ∧ r'.sends ≤ 1 := by
    rw [hr']
    rcases hold.sends with ⟨hretries, htimeout, hsends⟩ | ⟨hretries, -, -⟩
    · exact ⟨by simp [hretries], by simp [htimeout], hsends⟩
    · omega
  have hsentat : r'.sentat = now := by rw [hr']
  have hid : r'.id = r.id := by rw [hr']
  rcases resendQuery_spec pick (ids (kept ++ r' :: rest)) r' hpick hlen with heq | ⟨id, hlt, hfree, heq⟩
  · rw [heq]
    refine ⟨hbuild r' (by rw [hid]; exact hdistinct.1) ⟨by rw [hid]; exact hold.id, hsentat.le,
      Or.inr ⟨htwice.1, htwice.2.1, by omega⟩⟩, by omega⟩
  · rw [heq]
    refine ⟨hbuild _ (fun _ hmem => hfree ?_) ⟨hlt, hsentat.le, Or.inr ⟨htwice.1, htwice.2.1, ?_⟩⟩, ?_⟩
    · simp only [ids, List.map_append, List.map_cons, List.mem_append, List.mem_cons] at hmem ⊢
      exact hmem.imp_right Or.inr
    · simp only
      omega
    · simp only
      omega

theorem timeoutQueryList_told (pick : Pick) (hpick : Fresh pick) (rest : List Request) (s : State)
    (kept : List Request) (h : Told s.now (kept ++ rest)) (hused : (kept ++ rest).length < 65536)
    (hyoung : ∀ r ∈ kept, s.now < r.sentat + r.timeout) :
    (timeoutQueryList pick s kept rest).now = s.now ∧
      Told s.now (timeoutQueryList pick s kept rest).requests ∧
      ∀ r ∈ (timeoutQueryList pick s kept rest).requests, s.now < r.sentat + r.timeout := by
  induction rest generalizing s kept with
  | nil =>
    rw [List.append_nil] at h
    exact ⟨rfl, h, hyoung⟩
  | cons r rest ih =>
    simp only [timeoutQueryList]
    split
    · next hearly =>
      refine ih s _ ?_ ?_ fun k hk => ?_
      · rwa [List.append_assoc, List.singleton_append]
      · rwa [List.append_assoc, List.singleton_append]
      · rcases List.mem_append.mp hk with hk | hk
        · exact hyoung k hk
        · rwa [List.mem_singleton.mp hk]
    split
    · have hnow := (dnsCallback_requests s r.ctx none).2
      have hsub : (kept ++ rest).Sublist (kept ++ r :: rest) :=
        (List.sublist_cons_self r rest).append_left kept
      have hgone := ih (authDnsCallback s r.ctx none) kept (by rw [hnow]; exact told_sublist h hsub)
        (hsub.length_le.trans_lt hused) (by rwa [hnow])
      rwa [hnow] at hgone
    · next hretry =>
      obtain ⟨htold, hlate⟩ := told_again s.now kept rest r h hretry pick hpick hused _ rfl
      refine ih s _ htold ?_ fun k hk => ?_
      · simpa using hused
      · rcases List.mem_append.mp hk with hk | hk
        · exact hyoung k hk
        · rwa [List.mem_singleton.mp hk]

theorem timeoutAuthQueries_requests (pending : List ClientPtr) (s s' : State)
    (h : timeoutAuthQueries s pending = some s') : s'.requests.Sublist s.requests ∧ s'.now = s.now := by
  induction pending generalizing s with
  | nil =>
    rw [← Option.some.inj h]
    exact ⟨List.Sublist.refl _, rfl⟩
  | cons p rest ih =>
    cases hc : s.clients p with
    | none =>
      simp only [timeoutAuthQueries, hc] at h
      rw [← Option.some.inj h]
      exact ⟨List.Sublist.refl _, rfl⟩
    | some c =>
      simp only [timeoutAuthQueries, hc] at h
      split at h
      · rw [← Option.some.inj h]
        exact ⟨List.Sublist.refl _, rfl⟩
      · obtain ⟨t, ht, hrest⟩ := Option.bind_eq_some_iff.mp h
        obtain ⟨c', requests, rfl, -, hsub⟩ := timeoutAuth_face s t p c ht
        obtain ⟨hnow, -, hrequests, -⟩ := release_shape { s with requests := requests } p c'
        obtain ⟨hless, hsame⟩ := ih _ hrest
        rw [hrequests] at hless
        exact ⟨hless.trans hsub, hsame.trans hnow⟩

theorem tried_later {now now' : ℕ} (h : now ≤ now') {r : Request} (hr : Tried now r) : Tried now' r :=
  ⟨hr.id, hr.sentat.trans h, hr.sends⟩

theorem step_told (s s' : State) (e : Event) (h : Told s.now s.requests) (he : Possible s e)
    (hstep : step s e = some s') : Told s'.now s'.requests := by
  have hrelease : ∀ p c', s' = releaseAuthClient s p c' → Told s'.now s'.requests := by
    rintro p c' rfl
    obtain ⟨hnow, -, hrequests, -⟩ := release_shape s p c'
    rwa [hnow, hrequests]
  cases e with
  | start p pick ip ident opened =>
    rw [← Option.some.inj hstep]
    exact told_new s.now s.requests s.requests h (List.Sublist.refl _) pick he.2.1 he.2.2 _
      ⟨rfl, rfl, rfl, rfl, rfl⟩ _ _
  | identFailed p =>
    obtain ⟨c, hc, -⟩ := he
    simp only [step, hc] at hstep
    obtain ⟨c', heq, -⟩ := authError_spec s s' p c hstep
    exact hrelease p c' heq
  | identReply p reply =>
    obtain ⟨c, hc, -⟩ := he
    simp only [step, hc] at hstep
    obtain ⟨c', heq, -⟩ := readAuthReply_spec s s' p c reply hstep
    exact hrelease p c' heq
  | reply pick msg => exact Option.some.inj hstep ▸ resReadreply_told s h pick he.1 he.2 msg
  | queryTimer pick =>
    obtain ⟨hnow, htold, -⟩ := timeoutQueryList_told pick he.1 s.requests s [] h
      ((Nat.lt_succ_self _).trans he.2) (by simp)
    rw [← Option.some.inj hstep, hnow]
    exact htold
  | authTimer =>
    obtain ⟨hsub, hnow⟩ := timeoutAuthQueries_requests s.pending s s' hstep
    rw [hnow]
    exact told_sublist h hsub
  | leave p =>
    obtain ⟨c, hc, -⟩ := he
    simp only [step, hc] at hstep
    obtain ⟨c', -, -, hnow, -, hsub, -⟩ := deleteAuth_face s s' p c hstep
    rw [hnow]
    exact told_sublist h hsub
  | time now =>
    rw [← Option.some.inj hstep]
    exact ⟨h.distinct, fun r hr => tried_later he (h.tried r hr)⟩

theorem reached_told (s : State) (h : Reached s) : Told s.now s.requests := by
  induction h with
  | refl => exact ⟨List.nodup_nil, fun r hr => by simp [start] at hr⟩
  | tail _ hnext ih =>
    obtain ⟨e, he, hstep⟩ := hnext
    exact step_told _ _ e ih he hstep

/-- The first request with an identifier is the only one, unless it is 0. -/
theorem findId_of_distinct (requests : List Request) (h : Distinct (ids requests)) (r : Request)
    (hr : r ∈ requests) (hne : r.id ≠ 0) : requests.find? (fun r' => r'.id = r.id) = some r := by
  induction requests with
  | nil => simp at hr
  | cons r' requests ih =>
    rw [ids, List.map_cons, distinct_cons] at h
    rw [List.find?_cons]
    rcases List.mem_cons.mp hr with rfl | hr
    · simp
    · have hother : r'.id ≠ r.id := by
        intro heq
        exact h.1 (heq ▸ hne) (List.mem_map.mpr ⟨r, hr, heq.symm⟩)
      simpa [hother] using ih h.2 hr

/-- An answer is for the request with its identifier, and nothing is asked more than twice. -/
theorem answer_found (s : State) (h : Reached s) : ∀ r ∈ s.requests,
    (r.id ≠ 0 → r.id < 65536 ∧ findId s r.id = some r) ∧
      (r.retries = 1 ∨ r.retries = 2) ∧ r.sends + r.retries ≤ 3 ∧ r.timeout * r.retries = 8 ∧
      r.sentat ≤ s.now := by
  obtain ⟨hdistinct, htried⟩ := reached_told s h
  intro r hr
  obtain ⟨hid, hsentat, hsends⟩ := htried r hr
  refine ⟨fun hne => ⟨hid, findId_of_distinct s.requests hdistinct r hr hne⟩, ?_⟩
  rcases hsends with ⟨hretries, htimeout, hsends⟩ | ⟨hretries, htimeout, hsends⟩
  · exact ⟨Or.inr hretries, by omega, by rw [hretries, htimeout], hsentat⟩
  · exact ⟨Or.inl hretries, by omega, by rw [hretries, htimeout], hsentat⟩

theorem answer_found_alice : ∃ r, findId (aliceCame true) 1 = some r ∧ r.ctx = 1 := by
  obtain ⟨r, hr, hid, hctx⟩ : ∃ r, r ∈ (aliceCame true).requests ∧ r.id = 1 ∧ r.ctx = 1 :=
    ⟨_, List.mem_cons_self, rfl, rfl⟩
  have hfound := ((answer_found (aliceCame true) (aliceCame_reached true) r hr).1 (by omega)).2
  rw [hid] at hfound
  exact ⟨r, hfound, hctx⟩

end IrcdHybrid.AuthIds
