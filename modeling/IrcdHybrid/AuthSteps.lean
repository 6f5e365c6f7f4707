import IrcdHybrid.AuthRequests

/-!
What is kept while connections are let in. A connection waits in the list as long as one of its two
questions is open, for the second one there is one request, and when both are done it is let in once.
-/

namespace IrcdHybrid.AuthSteps

open CString DnsNames DnsMessages AuthRequests Function

/-- The flags of a connection fit together. -/
structure ClientOk (c : Client) : Prop where
  waits : c.closing = false → (c.inAuth = true ↔ c.dnsPending = true ∨ c.doingAuth = true)
  once : c.closing = false → c.finished = if c.inAuth then 0 else 1
  gone : c.closing = true → c.inAuth = false ∧ c.fdOpen = false ∧ c.finished ≤ 1
  socket : c.fdOpen = true → c.doingAuth = true

def asked (requests : List Request) : List ClientPtr := requests.map Request.ctx

structure Sound (s : State) : Prop where
  pendingNodup : s.pending.Nodup
  pendingIff : ∀ p, p ∈ s.pending ↔ ∃ c, s.clients p = some c ∧ c.inAuth = true
  ok : ∀ p c, s.clients p = some c → ClientOk c
  askedNodup : (asked s.requests).Nodup
  askedIff : ∀ p, p ∈ asked s.requests ↔
    ∃ c, s.clients p = some c ∧ c.closing = false ∧ c.dnsPending = true

section Requests

variable (requests : List Request)

/-- Of a list with one request for each, the first with an identifier is the one for its client. -/
theorem eraseP_eq_filter (q : Request → Bool) (h : (asked requests).Nodup) (r : Request)
    (hr : requests.find? q = some r) :
    requests.eraseP q = requests.filter fun r' => r'.ctx ≠ r.ctx := by
  induction requests with
  | nil => simp at hr
  | cons r' requests ih =>
    rw [asked, List.map_cons, List.nodup_cons] at h
    rw [List.find?_cons] at hr
    cases hq : q r' with
    | true =>
      rw [hq] at hr
      obtain rfl : r' = r := Option.some.inj hr
      rw [List.eraseP_cons_of_pos hq, List.filter_cons_of_neg (by simp)]
      refine (List.filter_eq_self.mpr fun k hk => ?_).symm
      have hne : k.ctx ≠ r'.ctx := fun heq => h.1 (List.mem_map.mpr ⟨k, hk, heq⟩)
      simpa using hne
    | false =>
      rw [hq] at hr
      have hmem := List.mem_of_find?_eq_some hr
      have hne : r'.ctx ≠ r.ctx := fun heq => h.1 (List.mem_map.mpr ⟨r, hmem, heq.symm⟩)
      rw [List.eraseP_cons_of_neg (by simp [hq]), List.filter_cons_of_pos (by simpa using hne),
        ih h.2 hr]

theorem asked_filter (p q : ClientPtr) :
    q ∈ asked (requests.filter fun r => r.ctx ≠ p) ↔ q ∈ asked requests ∧ q ≠ p := by
  simp only [asked, List.mem_map, List.mem_filter, decide_eq_true_eq]
  constructor
  · rintro ⟨r, ⟨hr, hne⟩, rfl⟩
    exact ⟨⟨r, hr, rfl⟩, hne⟩
  · rintro ⟨⟨r, hr, rfl⟩, hne⟩
    exact ⟨r, ⟨hr, hne⟩, rfl⟩

theorem asked_filter_nodup (p : ClientPtr) (h : (asked requests).Nodup) :
    (asked (requests.filter fun r => r.ctx ≠ p)).Nodup :=
  h.sublist (List.filter_sublist.map _)

@[simp] theorem queryName_ctx (pick : Pick) (ids : List ℕ) (name : CStr) (type : ℕ) (r : Request) :
    (queryName pick ids name type r).ctx = r.ctx := by
  unfold queryName
  split <;> rfl

@[simp] theorem resendQuery_ctx (pick : Pick) (ids : List ℕ) (r : Request) :
    (resendQuery pick ids r).ctx = r.ctx := by
  unfold resendQuery
  split
  · split
    · exact queryName_ctx ..
    · rfl
  · split
    · exact queryName_ctx ..
    · rfl

end Requests

section Update

variable {s : State} (h : Sound s) (p : ClientPtr) (c' : Client)

include h

/-- One connection changes, with its place in the list and its request. -/
theorem sound_set (now : ℕ) (pending : List ClientPtr) (requests : List Request) (said : List Fact)
    (hok : ClientOk c') (hpending : pending.Nodup) (hothers : ∀ q, q ≠ p → (q ∈ pending ↔ q ∈ s.pending))
    (hin : p ∈ pending ↔ c'.inAuth = true) (hasked : (asked requests).Nodup)
    (hothers' : ∀ q, q ≠ p → (q ∈ asked requests ↔ q ∈ asked s.requests))
    (hask : p ∈ asked requests ↔ c'.closing = false ∧ c'.dnsPending = true) :
    Sound ⟨now, update s.clients p (some c'), pending, requests, said⟩ := by
  refine ⟨hpending, fun q => ?_, fun q c hc => ?_, hasked, fun q => ?_⟩
  · by_cases hq : q = p
    · subst hq
      simp [hin]
    · show q ∈ pending ↔ ∃ c, update s.clients p (some c') q = some c ∧ _
      rw [hothers q hq, h.pendingIff q, update_of_ne hq]
  · have hc : update s.clients p (some c') q = some c := hc
    by_cases hq : q = p
    · rw [hq, update_self] at hc
      rw [← Option.some.inj hc]
      exact hok
    · rw [update_of_ne hq] at hc
      exact h.ok q c hc
  · by_cases hq : q = p
    · subst hq
      simp [hask]
    · show q ∈ asked requests ↔ ∃ c, update s.clients p (some c') q = some c ∧ _
      rw [hothers' q hq, h.askedIff q, update_of_ne hq]

end Update

section Release

variable {s : State} (h : Sound s) {p : ClientPtr} {c₀ : Client} (hc₀ : s.clients p = some c₀)
  (hin : c₀.inAuth = true)

include h hc₀ hin

theorem open_of_inAuth : c₀.closing = false := by
  by_contra hnot
  have hgone := (h.ok p c₀ hc₀).gone (by simpa using hnot)
  rw [hin] at hgone
  simp at hgone

/-- A question of a connection that waits is done; if it was the last one, the connection is let in. -/
theorem release_sound (c : Client) (hclosing : c.closing = c₀.closing) (hinAuth : c.inAuth = c₀.inAuth)
    (hfinished : c.finished = c₀.finished) (hsocket : c.fdOpen = true → c.doingAuth = true)
    (now : ℕ) (requests : List Request) (said : List Fact) (hasked : (asked requests).Nodup)
    (hothers : ∀ q, q ≠ p → (q ∈ asked requests ↔ q ∈ asked s.requests))
    (hask : p ∈ asked requests ↔ c.dnsPending = true) :
    Sound (releaseAuthClient ⟨now, s.clients, s.pending, requests, said⟩ p c) := by
  have hopen := open_of_inAuth h hc₀ hin
  have hfirst := (h.ok p c₀ hc₀).once hopen
  rw [hin, if_pos rfl] at hfirst
  have hmem : p ∈ s.pending := (h.pendingIff p).mpr ⟨c₀, hc₀, hin⟩
  unfold releaseAuthClient setClient
  split
  · next hwaits =>
    refine sound_set h p c now s.pending requests said ⟨fun _ => ?_, fun _ => ?_, fun hgone => ?_, hsocket⟩
      h.pendingNodup (fun q _ => Iff.rfl) ?_ hasked hothers ?_
    · rw [hinAuth, hin]
      rw [Bool.or_eq_true] at hwaits
      simpa using hwaits.symm
    · rw [hinAuth, hin, hfinished, hfirst]
      rfl
    · rw [hclosing, hopen] at hgone
      simp at hgone
    · rw [hinAuth, hin]
      simpa using hmem
    · rw [hclosing, hopen]
      simpa using hask
  · next hdone =>
    simp only [Bool.or_eq_true, not_or, Bool.not_eq_true] at hdone
    rw [hinAuth, hin, if_pos rfl]
    refine sound_set h p _ now _ requests said ⟨fun _ => ?_, fun _ => ?_, fun hgone => ?_, hsocket⟩
      (h.pendingNodup.erase p) (fun q hq => List.mem_erase_of_ne hq) ?_ hasked hothers ?_
    · simp [hdone]
    · show c.finished + 1 = 1
      rw [hfinished, hfirst]
    · have hgone : c.closing = true := hgone
      rw [hclosing, hopen] at hgone
      simp at hgone
    · simpa using h.pendingNodup.not_mem_erase
    · show _ ↔ c.closing = false ∧ c.dnsPending = true
      rw [hclosing, hopen]
      simpa using hask

end Release

section Callback

variable {s : State} (h : Sound s) {p : ClientPtr}

include h

theorem asked_spec (hp : p ∈ asked s.requests) :
    ∃ c, s.clients p = some c ∧ c.inAuth = true ∧ c.dnsPending = true := by
  obtain ⟨c, hc, hopen, hdns⟩ := (h.askedIff p).mp hp
  exact ⟨c, hc, ((h.ok p c hc).waits hopen).mpr (Or.inl hdns), hdns⟩

theorem dnsCallback_sound (hp : p ∈ asked s.requests) (requests : List Request) (said : List Fact)
    (hasked : (asked requests).Nodup)
    (hothers : ∀ q, q ≠ p → (q ∈ asked requests ↔ q ∈ asked s.requests)) (hgone : p ∉ asked requests)
    (found : Option (Addr × CStr × ℕ)) :
    Sound (authDnsCallback ⟨s.now, s.clients, s.pending, requests, said⟩ p found) := by
  obtain ⟨c, hc, hin, -⟩ := asked_spec h hp
  have hrelease : ∀ c' : Client, c'.closing = c.closing → c'.inAuth = c.inAuth →
      c'.finished = c.finished → c'.fdOpen = c.fdOpen → c'.doingAuth = c.doingAuth →
      c'.dnsPending = false →
      Sound (releaseAuthClient ⟨s.now, s.clients, s.pending, requests, said⟩ p c') := by
    intro c' h1 h2 h3 h4 h5 h6
    refine release_sound h hc hin c' h1 h2 h3 ?_ s.now requests said hasked hothers ?_
    · rw [h4, h5]
      exact (h.ok p c hc).socket
    · simp [hgone, h6]
  unfold authDnsCallback
  simp only [hc]
  cases found with
  | none => exact hrelease _ rfl rfl rfl rfl rfl rfl
  | some found =>
    simp only
    split
    · exact hrelease _ rfl rfl rfl rfl rfl rfl
    split
    · exact hrelease _ rfl rfl rfl rfl rfl rfl
    split
    · exact hrelease _ rfl rfl rfl rfl rfl rfl
    · exact hrelease _ rfl rfl rfl rfl rfl rfl

end Callback

theorem authDnsCallback_requests (s : State) (p : ClientPtr) (found : Option (Addr × CStr × ℕ))
    (requests : List Request) :
    { authDnsCallback s p found with requests := requests } =
      authDnsCallback { s with requests := requests } p found := by
  have hrelease : ∀ c, { releaseAuthClient s p c with requests := requests } =
      releaseAuthClient { s with requests := requests } p c := by
    intro c
    unfold releaseAuthClient setClient
    split
    · rfl
    · split <;> rfl
  unfold authDnsCallback
  cases s.clients p with
  | none => rfl
  | some c =>
    cases found with
    | none => exact hrelease _
    | some found =>
      simp only
      split
      · exact hrelease _
      split
      · exact hrelease _
      split
      · exact hrelease _
      · exact hrelease _

theorem asked_middle (kept rest : List Request) (r : Request) (p : ClientPtr) :
    p ∈ asked (kept ++ r :: rest) ↔ p = r.ctx ∨ p ∈ asked (kept ++ rest) := by
  simp only [asked, List.map_append, List.map_cons, List.mem_append, List.mem_cons]
  tauto

theorem asked_middle_nodup (kept rest : List Request) (r : Request)
    (h : (asked (kept ++ r :: rest)).Nodup) :
    (asked (kept ++ rest)).Nodup ∧ r.ctx ∉ asked (kept ++ rest) := by
  simp only [asked, List.map_append, List.map_cons] at h ⊢
  rw [List.perm_middle.nodup_iff, List.nodup_cons] at h
  exact ⟨h.2, h.1⟩

theorem sound_requests (s : State) (h : Sound s) (requests : List Request)
    (hasked : asked requests = asked s.requests) : Sound { s with requests := requests } :=
  ⟨h.pendingNodup, h.pendingIff, h.ok, by rw [hasked]; exact h.askedNodup,
    fun p => by rw [hasked]; exact h.askedIff p⟩

theorem timeoutQueryList_sound (pick : Pick) (rest : List Request) (s : State) (kept : List Request)
    (h : Sound { s with requests := kept ++ rest }) : Sound (timeoutQueryList pick s kept rest) := by
  induction rest generalizing s kept with
  | nil => simpa [timeoutQueryList] using h
  | cons r rest ih =>
    simp only [timeoutQueryList]
    split
    · refine ih s (kept ++ [r]) ?_
      rwa [List.append_assoc, List.singleton_append]
    split
    · obtain ⟨hnodup, hnot⟩ := asked_middle_nodup kept rest r h.askedNodup
      refine ih _ kept ?_
      rw [authDnsCallback_requests]
      refine dnsCallback_sound (s := { s with requests := kept ++ r :: rest }) h ?_ _ s.said hnodup
        (fun q hq => ?_) hnot none
      · exact (asked_middle kept rest r r.ctx).mpr (Or.inl rfl)
      · rw [asked_middle]
        simp [hq]
    · refine ih s _ ?_
      have hsame := sound_requests _ h (kept ++ [resendQuery pick (ids (kept ++
        { r with retries := r.retries - 1, sentat := s.now, timeout := r.timeout + r.timeout } :: rest))
        { r with retries := r.retries - 1, sentat := s.now, timeout := r.timeout + r.timeout }] ++ rest)
        (by simp [asked])
      exact hsame

section Events

variable {s : State} (h : Sound s)

include h

theorem resReadreply_sound (pick : Pick) (msg : Packet) : Sound (resReadreply s pick msg) := by
  unfold resReadreply
  split
  · exact h
  split
  · exact h
  next r hr =>
  have hmem := List.mem_of_find?_eq_some hr
  have hasked : r.ctx ∈ asked s.requests := List.mem_map.mpr ⟨r, hmem, rfl⟩
  have hrem : remRequest s (idOf msg) = s.requests.filter fun r' => r'.ctx ≠ r.ctx :=
    eraseP_eq_filter s.requests _ h.askedNodup r hr
  have hnodup := asked_filter_nodup s.requests r.ctx h.askedNodup
  have hothers : ∀ q, q ≠ r.ctx →
      (q ∈ asked (s.requests.filter fun r' => r'.ctx ≠ r.ctx) ↔ q ∈ asked s.requests) := by
    intro q hq
    rw [asked_filter]
    simp [hq]
  have hgone : r.ctx ∉ asked (s.requests.filter fun r' => r'.ctx ≠ r.ctx) := by
    rw [asked_filter]
    simp
  rw [hrem]
  simp only
  have hcallback := fun said found =>
    dnsCallback_sound h hasked _ said hnodup hothers hgone found
  split
  · exact hcallback s.said none
  split
  · exact hcallback s.said none
  next found hfound =>
  cases found with
  | addr a => exact hcallback _ _
  | name hostbuf =>
    simp only [hear]
    split
    · exact hcallback _ _
    · unfold gethostByname
      refine ⟨h.pendingNodup, h.pendingIff, h.ok, ?_, fun q => ?_⟩
      · simp only [asked, List.map_cons, queryName_ctx, makeRequest]
        exact List.nodup_cons.mpr ⟨hgone, hnodup⟩
      · rw [← h.askedIff q]
        simp only [asked, List.map_cons, queryName_ctx, makeRequest, List.mem_cons]
        by_cases hq : q = r.ctx
        · rw [hq]
          exact iff_of_true (Or.inl rfl) hasked
        · rw [or_iff_right hq]
          exact hothers q hq

theorem startAuth_sound (p : ClientPtr) (pick : Pick) (ip : Addr) (ident opened : Bool)
    (hnew : s.clients p = none) : Sound (startAuth s p pick ip ident opened) := by
  have hpending : p ∉ s.pending := by
    rw [h.pendingIff]
    simp [hnew]
  have hasked : p ∉ asked s.requests := by
    rw [h.askedIff]
    simp [hnew]
  refine sound_set h p _ s.now (s.pending ++ [p]) _ s.said ⟨fun _ => by simp, fun _ => rfl,
    fun hgone => by simp at hgone, fun hopen => ?_⟩ ?_ (fun q hq => ?_) (by simp) ?_ (fun q hq => ?_) ?_
  · have hopen : (ident && opened) = true := hopen
    rw [Bool.and_eq_true] at hopen
    exact hopen.1
  · exact (List.perm_append_singleton p s.pending).nodup_iff.mpr
      (List.nodup_cons.mpr ⟨hpending, h.pendingNodup⟩)
  · rw [List.mem_append, List.mem_singleton]
    exact or_iff_left hq
  · simp only [asked, List.map_cons, queryName_ctx, makeRequest]
    exact List.nodup_cons.mpr ⟨hasked, h.askedNodup⟩
  · simp only [asked, List.map_cons, queryName_ctx, makeRequest, List.mem_cons]
    exact or_iff_right hq
  · simp [asked, makeRequest]

section Ident

variable {p : ClientPtr} {c : Client} (hc : s.clients p = some c)

include hc

theorem socket_spec (hfd : c.fdOpen = true) : c.inAuth = true ∧ c.closing = false := by
  have hok := h.ok p c hc
  have hopen : c.closing = false := by
    by_contra hnot
    have hgone := (hok.gone (by simpa using hnot)).2.1
    rw [hfd] at hgone
    simp at hgone
  exact ⟨(hok.waits hopen).mpr (Or.inr (hok.socket hfd)), hopen⟩

theorem ident_sound (hfd : c.fdOpen = true) (c' : Client) (hclosing : c'.closing = c.closing)
    (hinAuth : c'.inAuth = c.inAuth) (hfinished : c'.finished = c.finished)
    (hsocket : c'.fdOpen = false) (hdns : c'.dnsPending = c.dnsPending) :
    Sound (releaseAuthClient s p c') := by
  obtain ⟨hin, hopen⟩ := socket_spec h hc hfd
  refine release_sound h hc hin c' hclosing hinAuth hfinished (by simp [hsocket]) s.now s.requests s.said
    h.askedNodup (fun q _ => Iff.rfl) ?_
  rw [h.askedIff p]
  simp [hc, hopen, hdns]

theorem authError_sound (hfd : c.fdOpen = true) :
    ∃ s', authError s p c = some s' ∧ Sound s' := by
  have hclose : closeAuthFd c = some { c with fdOpen := false } := if_pos hfd
  unfold authError
  rw [hclose]
  exact ⟨_, rfl, ident_sound h hc hfd _ rfl rfl rfl rfl rfl⟩

theorem readAuthReply_sound (hfd : c.fdOpen = true) (reply : Option CStr) :
    ∃ s', readAuthReply s p c reply = some s' ∧ Sound s' := by
  have hclose : closeAuthFd c = some { c with fdOpen := false } := if_pos hfd
  unfold readAuthReply
  rw [hclose]
  refine ⟨_, rfl, ?_⟩
  cases reply.bind checkIdentReply with
  | none => exact ident_sound h hc hfd _ rfl rfl rfl rfl rfl
  | some username =>
    simp only
    split
    · exact ident_sound h hc hfd _ rfl rfl rfl rfl rfl
    · exact ident_sound h hc hfd _ rfl rfl rfl rfl rfl

end Ident

/-- A question of a connection cannot be given up. -/
def Stuck (c : Client) : Prop := c.doingAuth = true ∧ c.fdOpen = false

omit h in
theorem closeAuth_stuck (c : Client) (hstuck : Stuck c) :
    (if c.doingAuth then closeAuthFd c else some c) = none := by
  unfold closeAuthFd
  rw [if_pos hstuck.1, hstuck.2]
  rfl

omit h in
theorem closeAuth_free (c : Client) (hok : ClientOk c) (hfree : ¬ Stuck c) :
    (if c.doingAuth then closeAuthFd c else some c) = some { c with fdOpen := false } := by
  by_cases hdoing : c.doingAuth = true
  · have hfd : c.fdOpen = true := by
      by_contra hnot
      exact hfree ⟨hdoing, by simpa using hnot⟩
    rw [if_pos hdoing]
    exact if_pos hfd
  · have hfd : c.fdOpen = false := by
      by_contra hnot
      exact hdoing (hok.socket (by simpa using hnot))
    rw [if_neg hdoing, ← hfd]

/-- A connection that waits too long is let in, unless there is no socket to be closed. -/
theorem timeoutAuth_spec {p : ClientPtr} {c : Client} (hc : s.clients p = some c) (hin : c.inAuth = true) :
    (Stuck c → timeoutAuth s p c = none) ∧ (¬ Stuck c → ∃ s', timeoutAuth s p c = some s' ∧ Sound s' ∧
      s'.pending = s.pending.erase p ∧ s'.now = s.now ∧ ∀ q, q ≠ p → s'.clients q = s.clients q) := by
  unfold timeoutAuth
  refine ⟨fun hstuck => by simp only [closeAuth_stuck c hstuck, Option.map_none], fun hfree => ?_⟩
  simp only [closeAuth_free c (h.ok p c hc) hfree, Option.map_some]
  refine ⟨_, rfl, ?_⟩
  generalize hc' : ({ c with fdOpen := false, doingAuth := false, dnsPending := false } : Client) = c'
  have hflags : c'.closing = c.closing ∧ c'.inAuth = c.inAuth ∧ c'.finished = c.finished ∧
      c'.fdOpen = false ∧ c'.dnsPending = false ∧ c'.doingAuth = false := by
    rw [← hc']
    exact ⟨rfl, rfl, rfl, rfl, rfl, rfl⟩
  obtain ⟨h1, h2, h3, h4, h5, h6⟩ := hflags
  have hshape : ∀ s₀ : State, (releaseAuthClient s₀ p c').pending = s₀.pending.erase p ∧
      (releaseAuthClient s₀ p c').now = s₀.now ∧
      ∀ q, q ≠ p → (releaseAuthClient s₀ p c').clients q = s₀.clients q := by
    intro s₀
    unfold releaseAuthClient setClient
    rw [h5, h6, h2, hin]
    exact ⟨rfl, rfl, fun q hq => update_of_ne hq _ _⟩
  have hsound := fun requests hasked hothers hask =>
    release_sound h hc hin c' h1 h2 h3 (by simp [h4]) s.now requests s.said hasked hothers hask
  cases hdns : c.dnsPending with
  | true =>
    rw [if_pos rfl]
    refine ⟨hsound _ (asked_filter_nodup s.requests p h.askedNodup) (fun q hq => ?_) ?_, hshape _⟩
    · rw [asked_filter]
      simp [hq]
    · rw [asked_filter]
      simp [h5]
  | false =>
    rw [if_neg (by simp)]
    refine ⟨hsound s.requests h.askedNodup (fun q _ => Iff.rfl) ?_, hshape _⟩
    rw [h.askedIff p]
    simp [hc, hdns, h5]

theorem deleteAuth_spec {p : ClientPtr} {c : Client} (hc : s.clients p = some c) (hopen : c.closing = false) :
    (Stuck c → deleteAuth s p c = none) ∧
      (¬ Stuck c → ∃ s', deleteAuth s p c = some s' ∧ Sound s') := by
  have hok := h.ok p c hc
  unfold deleteAuth
  refine ⟨fun hstuck => by simp only [closeAuth_stuck c hstuck, Option.map_none], fun hfree => ?_⟩
  simp only [closeAuth_free c hok hfree, Option.map_some]
  refine ⟨_, rfl, ?_⟩
  have hclient : ClientOk { c with fdOpen := false, inAuth := false, closing := true } := by
    refine ⟨fun hnot => by simp at hnot, fun hnot => by simp at hnot, fun _ => ⟨rfl, rfl, ?_⟩,
      fun hnot => by simp at hnot⟩
    show c.finished ≤ 1
    rw [hok.once hopen]
    split <;> omega
  have hset := fun pending requests hpending hothers hin hasked hothers' hask =>
    sound_set h p { c with fdOpen := false, inAuth := false, closing := true } s.now pending requests
      s.said hclient hpending hothers hin hasked hothers' hask
  have hpending : ∀ pending, pending = (if c.inAuth then s.pending.erase p else s.pending) →
      pending.Nodup ∧ (∀ q, q ≠ p → (q ∈ pending ↔ q ∈ s.pending)) ∧ p ∉ pending := by
    rintro pending rfl
    split
    · exact ⟨h.pendingNodup.erase p, fun q hq => List.mem_erase_of_ne hq,
        h.pendingNodup.not_mem_erase⟩
    · next hout =>
      refine ⟨h.pendingNodup, fun q _ => Iff.rfl, ?_⟩
      rw [h.pendingIff p]
      simpa [hc] using hout
  have hrequests : ∀ requests, requests = (if c.dnsPending then s.requests.filter fun r => r.ctx ≠ p
      else s.requests) → (asked requests).Nodup ∧
        (∀ q, q ≠ p → (q ∈ asked requests ↔ q ∈ asked s.requests)) ∧ p ∉ asked requests := by
    rintro requests rfl
    split
    · refine ⟨asked_filter_nodup s.requests p h.askedNodup, fun q hq => ?_, ?_⟩
      · rw [asked_filter]
        simp [hq]
      · rw [asked_filter]
        simp
    · next hout =>
      refine ⟨h.askedNodup, fun q _ => Iff.rfl, ?_⟩
      rw [h.askedIff p]
      simpa [hc, hopen] using hout
  have hall : ∀ pending requests, pending = (if c.inAuth then s.pending.erase p else s.pending) →
      requests = (if c.dnsPending then s.requests.filter fun r => r.ctx ≠ p else s.requests) →
      Sound ⟨s.now, update s.clients p (some { c with fdOpen := false, inAuth := false, closing := true }),
        pending, requests, s.said⟩ := by
    intro pending requests hp hr
    obtain ⟨hp1, hp2, hp3⟩ := hpending pending hp
    obtain ⟨hr1, hr2, hr3⟩ := hrequests requests hr
    exact hset pending requests hp1 hp2 (by simpa using hp3) hr1 hr2 (by simpa using hr3)
  have hgoal := hall _ _ rfl rfl
  cases hin : c.inAuth with
  | true =>
    cases hdns : c.dnsPending with
    | true => simpa [hin, hdns, removeRequests, setClient] using hgoal
    | false => simpa [hin, hdns, removeRequests, setClient] using hgoal
  | false =>
    cases hdns : c.dnsPending with
    | true => simpa [hin, hdns, removeRequests, setClient] using hgoal
    | false => simpa [hin, hdns, removeRequests, setClient] using hgoal

end Events

end IrcdHybrid.AuthSteps
