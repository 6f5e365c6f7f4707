import IrcdHybrid.AuthRuns

/-!
What a connection may be called when it is let in. Its host name was said by a name server to be the
name of its address, and then to have that address; its user name is the plain part of what an ident
server said.
-/

namespace IrcdHybrid.AuthNames

open CString DnsNames DnsMessages AuthRequests AuthSteps AuthRuns Function
open BanMask (HOSTLEN)

/-- It was said that the address has the name, and that the name has the address. -/
structure Confirmed (said : List Fact) (ip : Addr) (host : CStr) : Prop where
  reverse : Fact.ptr ip host ∈ said
  forward : Fact.addr host ip ∈ said
  named : host ≠ []
  fits : host.length ≤ HOSTLEN
  shown : Shown host

structure Plain (username : CStr) : Prop where
  named : username ≠ []
  fits : username.length ≤ USERLEN
  ends : ∀ c ∈ username, identEnd c = false
  first : username.head? ≠ some '~' ∧ username.head? ≠ some '^'

/-- A request asks for the name of an address, or for the address of the name it was said to have. -/
def Asks (said : List Fact) (ip : Addr) (r : Request) : Prop :=
  r.type = T_PTR ∧ r.addr = some ip ∨
    r.type ≠ T_PTR ∧ r.namelength = r.name.length ∧ Shown r.name ∧
      ∃ full, Fact.ptr ip full ∈ said ∧ r.name = full.take RFC1035_MAX_DOMAIN_LENGTH

structure Named (s : State) : Prop where
  hosts : ∀ p c host, s.clients p = some c → c.host = some host → Confirmed s.said c.ip host
  users : ∀ p c username, s.clients p = some c → c.username = some username → Plain username
  asks : ∀ r ∈ s.requests, ∃ c, s.clients r.ctx = some c ∧ Asks s.said c.ip r

theorem readAnswers_kind (msg : Packet) (type an current : ℕ) (found : Found)
    (h : readAnswers msg type an current = some found) :
    (∃ a, found = .addr a ∧ type ≠ T_PTR) ∨ ∃ name, found = .name name ∧ type = T_PTR ∧ Shown name := by
  induction an generalizing current with
  | zero => simp [readAnswers] at h
  | succ an ih =>
    simp only [readAnswers] at h
    split at h
    · simp at h
    split at h
    · simp at h
    split at h
    · simp at h
    split at h
    · split at h
      · simp at h
      · next htype =>
        simp only [not_or, not_not] at htype
        refine Or.inl ⟨_, (Option.some.inj h).symm, ?_⟩
        rw [htype.1]
        decide
    split at h
    · split at h
      · simp at h
      · next htype =>
        simp only [not_or, not_not] at htype
        refine Or.inl ⟨_, (Option.some.inj h).symm, ?_⟩
        rw [htype.1]
        decide
    split at h
    · split at h
      · simp at h
      · next htype =>
        obtain ⟨⟨name, n⟩, hname, heq⟩ := Option.map_eq_some_iff.mp h
        exact Or.inr ⟨name, heq.symm, not_not.mp htype, (shown_dnExpand _ _ _ _ _ hname).1⟩
    split at h
    · exact ih _ h
    · simp at h

theorem takeWhile_all (username : CStr) (q : Char → Bool) :
    ∀ c ∈ username.takeWhile fun c => !q c, q c = false := by
  intro c hc
  simpa using List.mem_takeWhile_imp hc

/-- What is left of an ident reply has neither its end nor its start marks. -/
theorem plain_checkIdentReply (reply username : CStr) (h : checkIdentReply reply = some username)
    (hne : username ≠ []) : Plain (strlcpy username (USERLEN + 1)) := by
  unfold checkIdentReply at h
  split at h
  · next replyType osType info _ =>
    simp only [Option.ite_none_left_eq_some] at h
    obtain ⟨-, -, -, -, h⟩ := h
    have heq := Option.some.inj h
    cases username with
    | nil => simp at hne
    | cons d username =>
      have hends : ∀ c ∈ d :: username, identEnd c = false := by
        rw [← heq]
        exact takeWhile_all _ identEnd
      have hfirst : d ≠ '~' ∧ d ≠ '^' := by
        generalize info.dropWhile BanMask.isSpace = rest at heq
        have hhead := List.head?_dropWhile_not (fun c => decide (c = '~') || decide (c = '^')) rest
        cases hdrop : rest.dropWhile fun c => decide (c = '~') || decide (c = '^') with
        | nil =>
          rw [hdrop] at heq
          simp at heq
        | cons e tail =>
          rw [hdrop] at heq hhead
          rw [List.takeWhile_cons] at heq
          split at heq
          · obtain rfl : e = d := (List.cons.inj heq).1
            simpa using hhead
          · simp at heq
      refine ⟨?_, ?_, fun c hc => hends c (List.mem_of_mem_take hc), ?_⟩
      · simp [strlcpy, USERLEN]
      · rw [strlcpy, List.length_take]
        exact Nat.min_le_left ..
      · simp [strlcpy, USERLEN, hfirst]
  · simp at h

def SameQuestion (r r' : Request) : Prop :=
  r'.type = r.type ∧ r'.addr = r.addr ∧ r'.name = r.name ∧ r'.namelength = r.namelength ∧ r'.ctx = r.ctx

theorem asks_question {said : List Fact} {ip : Addr} {r r' : Request} (h : SameQuestion r r')
    (hasks : Asks said ip r) : Asks said ip r' := by
  obtain ⟨htype, haddr, hname, hlength, -⟩ := h
  unfold Asks
  rwa [htype, haddr, hname, hlength]

theorem queryName_question (pick : Pick) (ids : List ℕ) (name : CStr) (type : ℕ) (r : Request) :
    SameQuestion r (queryName pick ids name type r) := by
  unfold queryName
  split <;> exact ⟨rfl, rfl, rfl, rfl, rfl⟩

theorem resendQuery_question (pick : Pick) (ids : List ℕ) (r : Request) :
    SameQuestion r (resendQuery pick ids r) := by
  unfold resendQuery
  split
  · split
    · exact queryName_question ..
    · exact ⟨rfl, rfl, rfl, rfl, rfl⟩
  · split
    · exact queryName_question ..
    · exact ⟨rfl, rfl, rfl, rfl, rfl⟩

section Kept

variable {s : State} (h : Named s)

include h

/-- One connection changes, and gets no name but one that it may have. -/
theorem named_set (s' : State) (p : ClientPtr) (c c' : Client) (hc : s.clients p = some c)
    (hip : c'.ip = c.ip) (hhost : ∀ host, c'.host = some host → Confirmed s.said c.ip host)
    (huser : ∀ username, c'.username = some username → Plain username)
    (hclients : s'.clients = update s.clients p (some c')) (hsaid : s'.said = s.said)
    (hrequests : s'.requests.Sublist s.requests) : Named s' := by
  have hcase : ∀ q d, s'.clients q = some d → s.clients q = some d ∨ q = p ∧ d = c' := by
    intro q d hd
    rw [hclients] at hd
    by_cases hq : q = p
    · rw [hq, update_self] at hd
      exact Or.inr ⟨hq, (Option.some.inj hd).symm⟩
    · rw [update_of_ne hq] at hd
      exact Or.inl hd
  refine ⟨fun q d host hd hhost' => ?_, fun q d username hd huser' => ?_, fun r hr => ?_⟩
  · rw [hsaid]
    rcases hcase q d hd with hd | ⟨rfl, rfl⟩
    · exact h.hosts q d host hd hhost'
    · rw [hip]
      exact hhost host hhost'
  · rcases hcase q d hd with hd | ⟨rfl, rfl⟩
    · exact h.users q d username hd huser'
    · exact huser username huser'
  · obtain ⟨d, hd, hasks⟩ := h.asks r (hrequests.subset hr)
    rw [hsaid, hclients]
    by_cases hq : r.ctx = p
    · rw [hq] at hd ⊢
      obtain rfl : c = d := Option.some.inj (hc.symm.trans hd)
      exact ⟨c', update_self .., by rwa [hip]⟩
    · exact ⟨d, by rw [update_of_ne hq, hd], hasks⟩

theorem named_release (p : ClientPtr) (c c' : Client) (hc : s.clients p = some c) (hip : c'.ip = c.ip)
    (hhost : ∀ host, c'.host = some host → Confirmed s.said c.ip host)
    (huser : ∀ username, c'.username = some username → Plain username) :
    Named (releaseAuthClient s p c') := by
  obtain ⟨d, hdip, -, hdhost, hduser, hclients⟩ := release_clients s p c'
  obtain ⟨-, -, hrequests, hsaid⟩ := release_shape s p c'
  refine named_set h _ p c d hc (hdip.trans hip) (fun host hd => hhost host ?_)
    (fun username hd => huser username ?_) hclients hsaid (by rw [hrequests])
  · rwa [← hdhost]
  · rwa [← hduser]

theorem named_face (p : ClientPtr) (c c' : Client) (hc : s.clients p = some c) (hface : SameFace c c') :
    Named (releaseAuthClient s p c') := by
  obtain ⟨hip, -, hhost, huser⟩ := hface
  exact named_release h p c c' hc hip (fun host hd => h.hosts p c host hc (hhost ▸ hd))
    fun username hd => h.users p c username hc (huser ▸ hd)

theorem named_requests (requests : List Request)
    (hrequests : ∀ r' ∈ requests, ∃ r ∈ s.requests, SameQuestion r r') :
    Named { s with requests := requests } := by
  refine ⟨h.hosts, h.users, fun r' hr' => ?_⟩
  obtain ⟨r, hr, hsame⟩ := hrequests r' hr'
  obtain ⟨c, hc, hasks⟩ := h.asks r hr
  exact ⟨c, by rw [hsame.2.2.2.2, hc], asks_question hsame hasks⟩

theorem named_said (said : List Fact) (hsaid : s.said ⊆ said) : Named { s with said := said } := by
  refine ⟨fun p c host hc hhost => ?_, h.users, fun r hr => ?_⟩
  · obtain ⟨h1, h2, h3, h4, h5⟩ := h.hosts p c host hc hhost
    exact ⟨hsaid h1, hsaid h2, h3, h4, h5⟩
  · obtain ⟨c, hc, hasks⟩ := h.asks r hr
    refine ⟨c, hc, hasks.imp_right ?_⟩
    rintro ⟨htype, hlength, hshown, full, hfull, hname⟩
    exact ⟨htype, hlength, hshown, full, hsaid hfull, hname⟩

end Kept

theorem dnsCallback_named {s : State} (h : Named s) (p : ClientPtr) (found : Option (Addr × CStr × ℕ))
    (hfound : ∀ c name namelength, s.clients p = some c → found = some (c.ip, name, namelength) →
      name ≠ [] → namelength ≤ HOSTLEN → Confirmed s.said c.ip (strlcpy name (HOSTLEN + 1))) :
    Named (authDnsCallback s p found) := by
  rcases dnsCallback_spec s p found with ⟨-, heq⟩ | ⟨c, c', hc, heq, hip, -, huser, -, hhost⟩
  · rwa [heq]
  rw [heq]
  refine named_release h p c c' hc hip (fun host hd => ?_)
    fun username hd => h.users p c username hc (huser ▸ hd)
  rcases hhost with hhost | ⟨name, namelength, hf, hne, hfits, hhost⟩
  · exact h.hosts p c host hc (hhost ▸ hd)
  · obtain rfl : strlcpy name (HOSTLEN + 1) = host := Option.some.inj (hhost.symm.trans hd)
    exact hfound c name namelength hc hf hne hfits

theorem dnsCallback_none_named {s : State} (h : Named s) (p : ClientPtr) :
    Named (authDnsCallback s p none) :=
  dnsCallback_named h p none fun _ _ _ _ hfound => by simp at hfound

/-- The answer to a second question makes the name a confirmed one. -/
theorem confirmed_answer {said : List Fact} {ip : Addr} {r : Request} (hasks : Asks said ip r)
    (htype : r.type ≠ T_PTR) (hne : r.name ≠ []) (hfits : r.namelength ≤ HOSTLEN) :
    Confirmed (.addr r.name ip :: said) ip (strlcpy r.name (HOSTLEN + 1)) := by
  rcases hasks with ⟨hptr, -⟩ | ⟨-, hlength, hshown, full, hfull, hname⟩
  · exact absurd hptr htype
  · rw [hlength] at hfits
    rw [strlcpy_of_le r.name HOSTLEN hfits]
    have hwhole : full.length ≤ RFC1035_MAX_DOMAIN_LENGTH := by
      by_contra hlong
      have hlen : r.name.length = min RFC1035_MAX_DOMAIN_LENGTH full.length := by
        rw [hname, List.length_take]
      rw [Nat.min_eq_left (by omega)] at hlen
      simp only [HOSTLEN, RFC1035_MAX_DOMAIN_LENGTH] at hlen hfits
      omega
    rw [List.take_of_length_le hwhole] at hname
    exact ⟨List.mem_cons_of_mem _ (hname ▸ hfull), List.mem_cons_self, hne, hfits, hshown⟩

theorem resReadreply_named {s : State} (h : Named s) (pick : Pick) (msg : Packet) :
    Named (resReadreply s pick msg) := by
  unfold resReadreply
  split
  · exact h
  split
  · exact h
  next r hr =>
  obtain ⟨c, hc, hasks⟩ := h.asks r (List.mem_of_find?_eq_some hr)
  have hgone : Named { s with requests := remRequest s (idOf msg) } :=
    named_requests h _ fun r' hr' => ⟨r', List.eraseP_subset hr', rfl, rfl, rfl, rfl, rfl⟩
  simp only
  split
  · exact dnsCallback_none_named hgone r.ctx
  split
  · exact dnsCallback_none_named hgone r.ctx
  next found hfound =>
  rcases readAnswers_kind msg _ _ _ found hfound with ⟨a, rfl, htype⟩ | ⟨hostbuf, rfl, htype, hshown⟩
  · simp only [hear]
    refine dnsCallback_named (named_said hgone _ (List.subset_cons_self ..)) r.ctx _ ?_
    intro d name namelength hd hf hne hfits
    obtain rfl : c = d := Option.some.inj (hc.symm.trans hd)
    obtain ⟨rfl, rfl, rfl⟩ : a = c.ip ∧ r.name = name ∧ r.namelength = namelength := by
      simpa using hf
    exact confirmed_answer hasks htype hne hfits
  · have haddr : r.addr = some c.ip := by
      rcases hasks with ⟨-, haddr⟩ | ⟨hnot, -⟩
      · exact haddr
      · exact absurd htype hnot
    simp only [hear, haddr, Option.map_some, Option.toList_some, List.singleton_append]
    have hheard : Named { s with requests := remRequest s (idOf msg), said := .ptr c.ip hostbuf :: s.said } :=
      named_said hgone _ (List.subset_cons_self ..)
    split
    · exact dnsCallback_none_named hheard r.ctx
    · unfold gethostByname
      refine ⟨hheard.hosts, hheard.users, fun r' hr' => ?_⟩
      rcases List.mem_cons.mp hr' with rfl | hr'
      · refine ⟨c, by simpa [makeRequest] using hc, asks_question (queryName_question ..) (Or.inr ⟨?_, rfl, ?_, ?_⟩)⟩
        · simp only
          split <;> decide
        · exact fun d hd => hshown d (List.mem_of_mem_take (List.mem_of_mem_take hd))
        · exact ⟨hostbuf, List.mem_cons_self, List.take_take.trans (by rfl)⟩
      · exact hheard.asks r' hr'

theorem timeoutQueryList_named (pick : Pick) (rest : List Request) (s : State) (kept : List Request)
    (h : Named { s with requests := kept ++ rest }) : Named (timeoutQueryList pick s kept rest) := by
  induction rest generalizing s kept with
  | nil => simpa [timeoutQueryList] using h
  | cons r rest ih =>
    simp only [timeoutQueryList]
    split
    · refine ih s _ ?_
      rwa [List.append_assoc, List.singleton_append]
    split
    · refine ih _ kept ?_
      rw [authDnsCallback_requests]
      refine dnsCallback_none_named (named_requests h _ fun r' hr' => ?_) r.ctx
      refine ⟨r', ?_, rfl, rfl, rfl, rfl, rfl⟩
      rw [List.mem_append] at hr' ⊢
      exact hr'.imp_right (List.mem_cons_of_mem r)
    · refine ih s _ (named_requests h _ fun r' hr' => ?_)
      rw [List.append_assoc, List.singleton_append, List.mem_append, List.mem_cons] at hr'
      rcases hr' with hr' | rfl | hr'
      · exact ⟨r', List.mem_append_left _ hr', rfl, rfl, rfl, rfl, rfl⟩
      · refine ⟨r, List.mem_append_right _ List.mem_cons_self, ?_⟩
        exact resendQuery_question pick _ { r with
          retries := r.retries - 1, sentat := s.now, timeout := r.timeout + r.timeout }
      · exact ⟨r', List.mem_append_right _ (List.mem_cons_of_mem r hr'), rfl, rfl, rfl, rfl, rfl⟩

theorem timeoutAuthQueries_named (pending : List ClientPtr) (s s' : State) (h : Named s)
    (hs' : timeoutAuthQueries s pending = some s') : Named s' := by
  induction pending generalizing s with
  | nil => rwa [← Option.some.inj hs']
  | cons p rest ih =>
    cases hc : s.clients p with
    | none =>
      simp only [timeoutAuthQueries, hc] at hs'
      rwa [← Option.some.inj hs']
    | some c =>
      simp only [timeoutAuthQueries, hc] at hs'
      split at hs'
      · rwa [← Option.some.inj hs']
      · obtain ⟨t, ht, hrest⟩ := Option.bind_eq_some_iff.mp hs'
        obtain ⟨c', requests, rfl, hface, hsub⟩ := timeoutAuth_face s t p c ht
        have hfewer : Named { s with requests := requests } :=
          named_requests h _ fun r hr => ⟨r, hsub.subset hr, rfl, rfl, rfl, rfl, rfl⟩
        exact ih _ (named_face hfewer p c c' hc hface) hrest

theorem startAuth_named {s : State} (h : Named s) (p : ClientPtr) (pick : Pick) (ip : Addr)
    (ident opened : Bool) (hnew : s.clients p = none) : Named (startAuth s p pick ip ident opened) := by
  have hclients : (startAuth s p pick ip ident opened).clients p =
      some ⟨ip, none, none, true, true, ident, ident && opened, s.now + CONNECTTIMEOUT, false, 0⟩ :=
    update_self ..
  have hothers : ∀ q, q ≠ p → (startAuth s p pick ip ident opened).clients q = s.clients q :=
    fun q hq => update_of_ne hq _ _
  refine ⟨fun q c host hc hhost => ?_, fun q c username hc huser => ?_, fun r hr => ?_⟩
  · by_cases hq : q = p
    · rw [hq, hclients] at hc
      rw [← Option.some.inj hc] at hhost
      simp at hhost
    · rw [hothers q hq] at hc
      exact h.hosts q c host hc hhost
  · by_cases hq : q = p
    · rw [hq, hclients] at hc
      rw [← Option.some.inj hc] at huser
      simp at huser
    · rw [hothers q hq] at hc
      exact h.users q c username hc huser
  · rcases List.mem_cons.mp hr with rfl | hr
    · refine ⟨_, by simpa [makeRequest] using hclients, ?_⟩
      exact asks_question (queryName_question ..) (Or.inl ⟨rfl, rfl⟩)
    · obtain ⟨c, hc, hasks⟩ := h.asks r hr
      have hq : r.ctx ≠ p := by
        intro hq
        rw [hq, hnew] at hc
        simp at hc
      exact ⟨c, by rw [hothers r.ctx hq, hc], hasks⟩

theorem step_named (s s' : State) (e : Event) (h : Named s) (he : Possible s e)
    (hstep : step s e = some s') : Named s' := by
  cases e with
  | start p pick ip ident opened =>
    exact Option.some.inj hstep ▸ startAuth_named h p pick ip ident opened he.1
  | identFailed p =>
    obtain ⟨c, hc, -⟩ := he
    simp only [step, hc] at hstep
    obtain ⟨c', rfl, hface⟩ := authError_spec s s' p c hstep
    exact named_face h p c c' hc hface
  | identReply p reply =>
    obtain ⟨c, hc, -⟩ := he
    simp only [step, hc] at hstep
    obtain ⟨c', rfl, hip, -, hhost, huser⟩ := readAuthReply_spec s s' p c reply hstep
    refine named_release h p c c' hc hip (fun host hd => h.hosts p c host hc (hhost ▸ hd))
      fun username hd => ?_
    rcases huser with huser | ⟨text, username', htext, hne, huser⟩
    · exact h.users p c username hc (huser ▸ hd)
    · rw [← Option.some.inj (huser.symm.trans hd)]
      exact plain_checkIdentReply text username' htext hne
  | reply pick msg => exact Option.some.inj hstep ▸ resReadreply_named h pick msg
  | queryTimer pick => exact Option.some.inj hstep ▸ timeoutQueryList_named pick s.requests s [] h
  | authTimer => exact timeoutAuthQueries_named s.pending s s' h hstep
  | leave p =>
    obtain ⟨c, hc, -⟩ := he
    simp only [step, hc] at hstep
    obtain ⟨c', ⟨hip, -, hhost, huser⟩, hclients, -, -, hrequests, hsaid⟩ := deleteAuth_face s s' p c hstep
    exact named_set h s' p c c' hc hip (fun host hd => h.hosts p c host hc (hhost ▸ hd))
      (fun username hd => h.users p c username hc (huser ▸ hd)) hclients hsaid hrequests
  | time now =>
    exact Option.some.inj hstep ▸ ⟨h.hosts, h.users, h.asks⟩

theorem reached_named (s : State) (h : Reached s) : Named s := by
  induction h with
  | refl =>
    refine ⟨fun p c host hc => ?_, fun p c username hc => ?_, fun r hr => ?_⟩
    · simp [start] at hc
    · simp [start] at hc
    · simp [start] at hr
  | tail _ hnext ih =>
    obtain ⟨e, he, hstep⟩ := hnext
    exact step_named _ _ e ih he hstep

/-- A host name is confirmed both ways, and a user name is plain, in every state that is reached. -/
theorem names_confirmed (s : State) (h : Reached s) (p : ClientPtr) (c : Client)
    (hc : s.clients p = some c) : (∀ host, c.host = some host → Confirmed s.said c.ip host) ∧
      ∀ username, c.username = some username → Plain username :=
  ⟨fun host => (reached_named s h).hosts p c host hc, fun username => (reached_named s h).users p c username hc⟩

def packetOf (bytes : List ℕ) : Packet :=
  ⟨bytes.length, fun i => bytes.getD i 0 % 256, fun _ => Nat.mod_lt _ (Nat.succ_pos 255)⟩

/-- The name of the address is `a`. -/
def reverseReply : Packet :=
  packetOf [1, 0, 129, 128, 0, 0, 0, 1, 0, 0, 0, 0, 0, 0, 12, 0, 1, 0, 0, 0, 0, 0, 3, 1, 97, 0]

/-- The address of the name is that of this host. -/
def forwardReply : Packet :=
  packetOf [2, 0, 129, 128, 0, 0, 0, 1, 0, 0, 0, 0, 0, 0, 1, 0, 1, 0, 0, 0, 0, 0, 4, 127, 0, 0, 1]

theorem nsNameUnpack_root (bytes : List ℕ) (src : ℕ) (h : bytes[src]? = some 0) :
    nsNameUnpack (packetOf bytes) src NS_MAXCDNAME = some ([0], 1) := by
  have hsrc : src < bytes.length := (List.getElem?_eq_some_iff.mp h).1
  rw [nsNameUnpack, if_neg (by simpa [packetOf] using hsrc), unpackGo]
  simp [packetOf, h]

theorem dnExpand_root (bytes : List ℕ) (src : ℕ) (h : bytes[src]? = some 0) :
    dnExpand (packetOf bytes) src HOSTBUF = some ([], 1) := by
  rw [dnExpand, nsNameUnpack_root bytes src h]
  decide

theorem reverse_answer : procAnswer T_PTR reverseReply = some (.name ['a']) := by
  have hroot : dnExpand reverseReply 12 HOSTBUF = some ([], 1) := dnExpand_root _ 12 rfl
  have hunpack : nsNameUnpack reverseReply 23 NS_MAXCDNAME = some ([1, 97, 0], 3) := by
    simp [nsNameUnpack, unpackGo, reverseReply, packetOf, labelType, labellen, Packet.bytes]
    decide
  have hname : dnExpand reverseReply 23 HOSTBUF = some (['a'], 3) := by
    rw [dnExpand, hunpack]
    decide
  have hlen : reverseReply.len = 26 := rfl
  have hcount : ancount reverseReply = 1 ∧ qdcount reverseReply = 0 ∧ get16 reverseReply 13 = T_PTR := by
    decide
  rw [procAnswer, hcount.1, hcount.2.1, skipQuestions, HFIXEDSZ, readAnswers, hroot]
  simp [hlen, hcount.2.2, hname, T_PTR, T_A, T_AAAA, ANSWER_FIXED_SIZE]

theorem forward_answer : procAnswer T_A forwardReply = some (.addr loopback) := by
  have hroot : dnExpand forwardReply 12 HOSTBUF = some ([], 1) := dnExpand_root _ 12 rfl
  have hcount : ancount forwardReply = 1 ∧ qdcount forwardReply = 0 ∧ get16 forwardReply 13 = T_A ∧
      get16 forwardReply 21 = 4 ∧ forwardReply.bytes 23 4 = [127, 0, 0, 1] := by
    decide
  have hlen : forwardReply.len = 27 := rfl
  rw [procAnswer, hcount.1, hcount.2.1, skipQuestions, HFIXEDSZ, readAnswers, hroot]
  simp [hlen, hcount.2.2, T_A, ANSWER_FIXED_SIZE, loopback]

def aliceIdent : State :=
  (readAuthReply (aliceCame true) 1 ⟨loopback, none, none, true, true, true, true, 30, false, 0⟩
    (some "6193, 23 : USERID : UNIX : ~alice\r\n".toList)).getD start

def aliceAsked : State := resReadreply aliceIdent firstFree reverseReply

def aliceNamed : State := resReadreply aliceAsked firstFree forwardReply

theorem aliceAsked_eq : aliceAsked =
    gethostByname { aliceIdent with requests := [], said := [.ptr loopback ['a']] } 1 firstFree
      aliceIdent.requests [] ['a'] T_A := by
  have hfind : findId aliceIdent (idOf reverseReply) =
      some { makeRequest start 1 with id := 1, type := T_PTR, sends := 1, addr := some loopback } := rfl
  rw [aliceAsked, resReadreply, if_neg (by decide), hfind]
  simp only [makeRequest]
  rw [if_neg (by decide), reverse_answer]
  rfl

theorem aliceNamed_reached : Reached aliceNamed := by
  have hident : Reached aliceIdent :=
    (aliceCame_reached true).tail ⟨.identReply 1 (some "6193, 23 : USERID : UNIX : ~alice\r\n".toList),
      ⟨_, rfl, rfl⟩, rfl⟩
  have hasked : Reached aliceAsked :=
    hident.tail ⟨.reply firstFree reverseReply, ⟨firstFree_fresh, by decide⟩, rfl⟩
  have hone : aliceAsked.requests.length + 1 < 65536 := by
    rw [aliceAsked_eq]
    decide
  exact hasked.tail ⟨.reply firstFree forwardReply, ⟨firstFree_fresh, hone⟩, rfl⟩

theorem aliceNamed_client : ∃ c, aliceNamed.clients 1 = some c ∧ c.ip = loopback ∧
    c.host = some ['a'] ∧ c.username = some "alice".toList := by
  have hfind : findId aliceAsked (idOf forwardReply) =
      some { makeRequest start 1 with id := 2, type := T_A, sends := 1, name := ['a'], namelength := 1 } := by
    rw [aliceAsked_eq]
    rfl
  rw [aliceNamed, resReadreply, if_neg (by decide), hfind]
  simp only [makeRequest]
  rw [if_neg (by decide), forward_answer, aliceAsked_eq]
  exact ⟨_, rfl, rfl, rfl, rfl⟩

theorem names_confirmed_alice :
    Confirmed aliceNamed.said loopback ['a'] ∧ Plain "alice".toList := by
  obtain ⟨c, hc, hip, hhost, huser⟩ := aliceNamed_client
  obtain ⟨hconfirmed, hplain⟩ := names_confirmed aliceNamed aliceNamed_reached 1 c hc
  exact ⟨hip ▸ hconfirmed ['a'] hhost, hplain _ huser⟩

end IrcdHybrid.AuthNames
