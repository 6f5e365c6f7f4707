import IrcdHybrid.AuthSteps
import Mathlib.Data.List.Perm.Subperm
import Mathlib.Logic.Relation

/-!
Runs in which connections come, are asked about, and leave. Each is let in once; a host name that one
gets was said by a name server to belong to its address, and to have it.
-/

namespace IrcdHybrid.AuthRuns

open CString DnsNames DnsMessages AuthRequests AuthSteps Function
open BanMask (HOSTLEN)

/-- A connection keeps its address and the time until which it waits. -/
structure Kept (s s' : State) : Prop where
  now : s.now ≤ s'.now
  pending : s'.pending.Sublist s.pending
  back : ∀ q c', s'.clients q = some c' → ∃ c, s.clients q = some c ∧ c'.ip = c.ip ∧ c'.timeout = c.timeout
  stays : ∀ q c, s.clients q = some c → ∃ c', s'.clients q = some c'

theorem Kept.refl (s : State) : Kept s s :=
  ⟨le_rfl, List.Sublist.refl _, fun _ c' h => ⟨c', h, rfl, rfl⟩, fun _ c h => ⟨c, h⟩⟩

theorem Kept.trans {s s' s'' : State} (h : Kept s s') (h' : Kept s' s'') : Kept s s'' := by
  refine ⟨h.now.trans h'.now, h'.pending.trans h.pending, fun q c'' hc'' => ?_, fun q c hc => ?_⟩
  · obtain ⟨c', hc', hip', htimeout'⟩ := h'.back q c'' hc''
    obtain ⟨c, hc, hip, htimeout⟩ := h.back q c' hc'
    exact ⟨c, hc, hip'.trans hip, htimeout'.trans htimeout⟩
  · obtain ⟨c', hc'⟩ := h.stays q c hc
    exact h'.stays q c' hc'

theorem kept_set (s s' : State) (p : ClientPtr) (c c' : Client) (hc : s.clients p = some c)
    (hip : c'.ip = c.ip) (htimeout : c'.timeout = c.timeout) (hnow : s'.now = s.now)
    (hpending : s'.pending.Sublist s.pending) (hclients : s'.clients = update s.clients p (some c')) :
    Kept s s' := by
  refine ⟨hnow.ge, hpending, fun q d hd => ?_, fun q d hd => ?_⟩
  · rw [hclients] at hd
    by_cases hq : q = p
    · subst hq
      rw [update_self] at hd
      rw [← Option.some.inj hd]
      exact ⟨c, hc, hip, htimeout⟩
    · rw [update_of_ne hq] at hd
      exact ⟨d, hd, rfl, rfl⟩
  · rw [hclients]
    by_cases hq : q = p
    · subst hq
      exact ⟨c', update_self ..⟩
    · exact ⟨d, by rw [update_of_ne hq, hd]⟩

theorem release_clients (s : State) (p : ClientPtr) (c : Client) : ∃ c', c'.ip = c.ip ∧
    c'.timeout = c.timeout ∧ c'.host = c.host ∧ c'.username = c.username ∧
    (releaseAuthClient s p c).clients = update s.clients p (some c') := by
  unfold releaseAuthClient setClient
  split
  · exact ⟨c, rfl, rfl, rfl, rfl, rfl⟩
  · refine ⟨{ c with inAuth := false, finished := c.finished + 1 }, rfl, rfl, rfl, rfl, ?_⟩
    split <;> rfl

theorem release_shape (s : State) (p : ClientPtr) (c : Client) :
    (releaseAuthClient s p c).now = s.now ∧ (releaseAuthClient s p c).pending.Sublist s.pending ∧
      (releaseAuthClient s p c).requests = s.requests ∧ (releaseAuthClient s p c).said = s.said := by
  unfold releaseAuthClient setClient
  split
  · exact ⟨rfl, List.Sublist.refl _, rfl, rfl⟩
  · split
    · exact ⟨rfl, List.erase_sublist, rfl, rfl⟩
    · exact ⟨rfl, List.Sublist.refl _, rfl, rfl⟩

theorem release_kept (s : State) (p : ClientPtr) (c c' : Client) (hc : s.clients p = some c)
    (hip : c'.ip = c.ip) (htimeout : c'.timeout = c.timeout) : Kept s (releaseAuthClient s p c') := by
  obtain ⟨d, hdip, hdtimeout, -, -, hclients⟩ := release_clients s p c'
  obtain ⟨hnow, hpending, -, -⟩ := release_shape s p c'
  exact kept_set s _ p c d hc (hdip.trans hip) (hdtimeout.trans htimeout) hnow hpending hclients

def SameFlags (c c' : Client) : Prop :=
  c'.doingAuth = c.doingAuth ∧ c'.fdOpen = c.fdOpen ∧ c'.closing = c.closing

theorem dnsCallback_spec (s : State) (p : ClientPtr) (found : Option (Addr × CStr × ℕ)) :
    s.clients p = none ∧ authDnsCallback s p found = s ∨ ∃ c c', s.clients p = some c ∧
      authDnsCallback s p found = releaseAuthClient s p c' ∧ c'.ip = c.ip ∧ c'.timeout = c.timeout ∧
      c'.username = c.username ∧ SameFlags c c' ∧ (c'.host = c.host ∨ ∃ name namelength,
        found = some (c.ip, name, namelength) ∧ name ≠ [] ∧ namelength ≤ HOSTLEN ∧
        c'.host = some (strlcpy name (HOSTLEN + 1))) := by
  unfold authDnsCallback
  cases hc : s.clients p with
  | none => exact Or.inl ⟨rfl, rfl⟩
  | some c =>
    refine Or.inr ?_
    cases found with
    | none => exact ⟨c, _, rfl, rfl, rfl, rfl, rfl, ⟨rfl, rfl, rfl⟩, Or.inl rfl⟩
    | some found =>
      obtain ⟨addr, name, namelength⟩ := found
      simp only
      split
      · exact ⟨c, _, rfl, rfl, rfl, rfl, rfl, ⟨rfl, rfl, rfl⟩, Or.inl rfl⟩
      next hname =>
      split
      · exact ⟨c, _, rfl, rfl, rfl, rfl, rfl, ⟨rfl, rfl, rfl⟩, Or.inl rfl⟩
      next haddr =>
      split
      · exact ⟨c, _, rfl, rfl, rfl, rfl, rfl, ⟨rfl, rfl, rfl⟩, Or.inl rfl⟩
      next hlen =>
      refine ⟨c, _, rfl, rfl, rfl, rfl, rfl, ⟨rfl, rfl, rfl⟩, Or.inr ⟨name, namelength, ?_, hname, by omega, rfl⟩⟩
      rw [not_not] at haddr
      rw [← haddr]

theorem dnsCallback_kept (s : State) (p : ClientPtr) (found : Option (Addr × CStr × ℕ)) :
    Kept s (authDnsCallback s p found) := by
  rcases dnsCallback_spec s p found with ⟨-, h⟩ | ⟨c, c', hc, h, hip, htimeout, -⟩
  · rw [h]
    exact Kept.refl s
  · rw [h]
    exact release_kept s p c c' hc hip htimeout

theorem kept_requests (s : State) (requests : List Request) (said : List Fact) :
    Kept s { s with requests := requests, said := said } :=
  ⟨le_rfl, List.Sublist.refl _, fun _ c' h => ⟨c', h, rfl, rfl⟩, fun _ c h => ⟨c, h⟩⟩

section Requests

variable {P : State → Prop}
  (hrequests : ∀ s requests said, P s → P { s with requests := requests, said := said })
  (hcallback : ∀ s p found, P s → P (authDnsCallback s p found))

include hrequests hcallback

theorem timeoutQueryList_keeps (pick : Pick) (rest : List Request) (s : State) (kept : List Request)
    (h : P s) : P (timeoutQueryList pick s kept rest) := by
  induction rest generalizing s kept with
  | nil => exact hrequests s kept s.said h
  | cons r rest ih =>
    simp only [timeoutQueryList]
    split
    · exact ih s _ h
    split
    · exact ih _ kept (hcallback s r.ctx none h)
    · exact ih s _ h

theorem resReadreply_keeps (s : State) (pick : Pick) (msg : Packet) (h : P s) :
    P (resReadreply s pick msg) := by
  have hanswered : ∀ requests said p found,
      P (authDnsCallback { s with requests := requests, said := said } p found) :=
    fun requests said p found => hcallback _ p found (hrequests s requests said h)
  unfold resReadreply
  split
  · exact h
  split
  · exact h
  simp only
  split
  · exact hanswered _ s.said _ _
  split
  · exact hanswered _ s.said _ _
  next found hfound =>
  cases found with
  | addr a => exact hanswered _ _ _ _
  | name hostbuf =>
    simp only [hear]
    split
    · exact hanswered _ _ _ _
    · exact hrequests s _ _ h

end Requests

theorem timeoutQueryList_kept (pick : Pick) (rest : List Request) (s : State) (kept : List Request) :
    Kept s (timeoutQueryList pick s kept rest) :=
  timeoutQueryList_keeps (fun s' requests said h => h.trans (kept_requests s' requests said))
    (fun s' p found h => h.trans (dnsCallback_kept s' p found)) pick rest s kept (Kept.refl s)

theorem resReadreply_kept (s : State) (pick : Pick) (msg : Packet) :
    Kept s (resReadreply s pick msg) :=
  resReadreply_keeps (fun s' requests said h => h.trans (kept_requests s' requests said))
    (fun s' p found h => h.trans (dnsCallback_kept s' p found)) s pick msg (Kept.refl s)

theorem closeAuthFd_eq (c c' : Client) (h : closeAuthFd c = some c') :
    c' = { c with fdOpen := false } := by
  unfold closeAuthFd at h
  split at h
  · exact (Option.some.inj h).symm
  · simp at h

/-- Only the socket and what goes with it may have changed. -/
def SameFace (c c' : Client) : Prop :=
  c'.ip = c.ip ∧ c'.timeout = c.timeout ∧ c'.host = c.host ∧ c'.username = c.username

theorem closed_face (c c' : Client)
    (h : (if c.doingAuth then closeAuthFd c else some c) = some c') : SameFace c c' := by
  split at h
  · rw [closeAuthFd_eq c c' h]
    exact ⟨rfl, rfl, rfl, rfl⟩
  · rw [← Option.some.inj h]
    exact ⟨rfl, rfl, rfl, rfl⟩

theorem readAuthReply_spec (s s' : State) (p : ClientPtr) (c : Client) (reply : Option CStr)
    (h : readAuthReply s p c reply = some s') : ∃ c', s' = releaseAuthClient s p c' ∧ c'.ip = c.ip ∧
      c'.timeout = c.timeout ∧ c'.host = c.host ∧ (c'.username = c.username ∨
        ∃ text username, checkIdentReply text = some username ∧ username ≠ [] ∧
          c'.username = some (strlcpy username (USERLEN + 1))) := by
  obtain ⟨d, hd, hs'⟩ := Option.map_eq_some_iff.mp h
  rw [closeAuthFd_eq c d hd] at hs'
  cases hreply : reply.bind checkIdentReply with
  | none =>
    rw [hreply] at hs'
    exact ⟨_, hs'.symm, rfl, rfl, rfl, Or.inl rfl⟩
  | some username =>
    rw [hreply] at hs'
    obtain ⟨text, -, htext⟩ := Option.bind_eq_some_iff.mp hreply
    simp only at hs'
    split at hs'
    · exact ⟨_, hs'.symm, rfl, rfl, rfl, Or.inl rfl⟩
    · next hne => exact ⟨_, hs'.symm, rfl, rfl, rfl, Or.inr ⟨text, username, htext, hne, rfl⟩⟩

theorem authError_spec (s s' : State) (p : ClientPtr) (c : Client) (h : authError s p c = some s') :
    ∃ c', s' = releaseAuthClient s p c' ∧ SameFace c c' := by
  obtain ⟨d, hd, hs'⟩ := Option.map_eq_some_iff.mp h
  rw [closeAuthFd_eq c d hd] at hs'
  exact ⟨_, hs'.symm, rfl, rfl, rfl, rfl⟩

theorem timeoutAuth_face (s s' : State) (p : ClientPtr) (c : Client) (h : timeoutAuth s p c = some s') :
    ∃ c' requests, s' = releaseAuthClient { s with requests := requests } p c' ∧ SameFace c c' ∧
      requests.Sublist s.requests := by
  unfold timeoutAuth at h
  obtain ⟨d, hd, hs'⟩ := Option.map_eq_some_iff.mp h
  have hface := closed_face c d hd
  simp only at hs'
  split at hs'
  · exact ⟨_, _, hs'.symm, hface, List.filter_sublist⟩
  · exact ⟨_, s.requests, hs'.symm, hface, List.Sublist.refl _⟩

theorem deleteAuth_face (s s' : State) (p : ClientPtr) (c : Client) (h : deleteAuth s p c = some s') :
    ∃ c', SameFace c c' ∧ s'.clients = update s.clients p (some c') ∧ s'.now = s.now ∧
      s'.pending.Sublist s.pending ∧ s'.requests.Sublist s.requests ∧ s'.said = s.said := by
  unfold deleteAuth at h
  obtain ⟨d, hd, hs'⟩ := Option.map_eq_some_iff.mp h
  have hface := closed_face c d hd
  refine ⟨{ d with inAuth := false, closing := true }, hface, ?_⟩
  rw [← hs']
  unfold setClient removeRequests
  split
  · split
    · exact ⟨rfl, rfl, List.erase_sublist, List.filter_sublist, rfl⟩
    · exact ⟨rfl, rfl, List.erase_sublist, List.Sublist.refl _, rfl⟩
  · split
    · exact ⟨rfl, rfl, List.Sublist.refl _, List.filter_sublist, rfl⟩
    · exact ⟨rfl, rfl, List.Sublist.refl _, List.Sublist.refl _, rfl⟩

def timeoutOf (s : State) (p : ClientPtr) : ℕ := ((s.clients p).map Client.timeout).getD 0

/-- The list is in the order of the times, since time does not go back. -/
structure Sorted (s : State) : Prop where
  pairs : s.pending.Pairwise fun p q => timeoutOf s p ≤ timeoutOf s q
  bound : ∀ p ∈ s.pending, timeoutOf s p ≤ s.now + CONNECTTIMEOUT

theorem kept_timeoutOf (s s' : State) (h : Kept s s') (p : ClientPtr) : timeoutOf s' p = timeoutOf s p := by
  unfold timeoutOf
  cases hc' : s'.clients p with
  | none =>
    cases hc : s.clients p with
    | none => rfl
    | some c =>
      obtain ⟨c', hc''⟩ := h.stays p c hc
      rw [hc'] at hc''
      simp at hc''
  | some c' =>
    obtain ⟨c, hc, -, htimeout⟩ := h.back p c' hc'
    rw [hc]
    exact htimeout

theorem kept_sorted (s s' : State) (h : Kept s s') (hs : Sorted s) : Sorted s' := by
  refine ⟨?_, fun p hp => ?_⟩
  · refine (hs.pairs.sublist h.pending).imp fun {p q} hpq => ?_
    rwa [kept_timeoutOf s s' h p, kept_timeoutOf s s' h q]
  · rw [kept_timeoutOf s s' h p]
    exact (hs.bound p (h.pending.subset hp)).trans (Nat.add_le_add_right h.now _)

theorem startAuth_sorted (s : State) (h : Sorted s) (p : ClientPtr) (pick : Pick) (ip : Addr)
    (ident opened : Bool) (hpending : p ∉ s.pending) : Sorted (startAuth s p pick ip ident opened) := by
  have hother : ∀ q ∈ s.pending, timeoutOf (startAuth s p pick ip ident opened) q = timeoutOf s q := by
    intro q hq
    have hne : q ≠ p := by
      rintro rfl
      exact hpending hq
    show ((update s.clients p _ q).map Client.timeout).getD 0 = _
    rw [update_of_ne hne]
    rfl
  have hself : timeoutOf (startAuth s p pick ip ident opened) p = s.now + CONNECTTIMEOUT := by
    show ((update s.clients p _ p).map Client.timeout).getD 0 = _
    rw [update_self]
    rfl
  have hlist : (startAuth s p pick ip ident opened).pending = s.pending ++ [p] := rfl
  refine ⟨?_, fun q hq => ?_⟩
  · rw [hlist, List.pairwise_append]
    refine ⟨h.pairs.imp_of_mem fun {q r} hq hr hqr => ?_, List.pairwise_singleton _ p, fun q hq r hr => ?_⟩
    · rwa [hother q hq, hother r hr]
    · rw [List.mem_singleton.mp hr, hself, hother q hq]
      exact h.bound q hq
  · rw [hlist, List.mem_append, List.mem_singleton] at hq
    rcases hq with hq | rfl
    · rw [hother q hq]
      exact h.bound q hq
    · rw [hself]
      rfl

/-- Everybody who has waited too long is let in, unless the server crashes. -/
theorem timeoutAuthQueries_spec (pending : List ClientPtr) (s : State) (h : Sound s) (hs : Sorted s)
    (hpending : s.pending = pending) :
    (timeoutAuthQueries s pending = none ↔
        ∃ p c, s.clients p = some c ∧ c.inAuth = true ∧ c.timeout ≤ s.now ∧ Stuck c) ∧
      ∀ s', timeoutAuthQueries s pending = some s' →
        Sound s' ∧ Kept s s' ∧ s'.now = s.now ∧ ∀ p ∈ s'.pending, s'.now < timeoutOf s' p := by
  induction pending generalizing s with
  | nil =>
    refine ⟨?_, ?_⟩
    · simp only [timeoutAuthQueries, reduceCtorEq, false_iff]
      rintro ⟨p, c, hc, hin, -⟩
      have hmem := (h.pendingIff p).mpr ⟨c, hc, hin⟩
      rw [hpending] at hmem
      simp at hmem
    · intro s' hs'
      rw [← Option.some.inj hs']
      refine ⟨h, Kept.refl s, rfl, fun p hp => ?_⟩
      rw [hpending] at hp
      simp at hp
  | cons p rest ih =>
    obtain ⟨c, hc, hin⟩ := (h.pendingIff p).mp (by rw [hpending]; exact List.mem_cons_self)
    have htime : timeoutOf s p = c.timeout := by simp [timeoutOf, hc]
    have hfirst : ∀ q ∈ s.pending, c.timeout ≤ timeoutOf s q := by
      intro q hq
      have hpairs := hs.pairs
      rw [hpending, List.pairwise_cons] at hpairs
      rw [hpending, List.mem_cons] at hq
      rcases hq with rfl | hq
      · exact htime.ge
      · rw [← htime]
        exact hpairs.1 q hq
    simp only [timeoutAuthQueries, hc]
    split
    · next hearly =>
      refine ⟨?_, fun s' hs' => ?_⟩
      · simp only [reduceCtorEq, false_iff]
        rintro ⟨q, d, hd, hdin, hlate, -⟩
        have hq := hfirst q ((h.pendingIff q).mpr ⟨d, hd, hdin⟩)
        rw [show timeoutOf s q = d.timeout by simp [timeoutOf, hd]] at hq
        omega
      · rw [← Option.some.inj hs']
        exact ⟨h, Kept.refl s, rfl, fun q hq => hearly.trans_le (hfirst q hq)⟩
    · next hlate =>
      obtain ⟨hstuck, hfree⟩ := timeoutAuth_spec h hc hin
      by_cases hcase : Stuck c
      · rw [hstuck hcase]
        refine ⟨iff_of_true rfl ⟨p, c, hc, hin, by omega, hcase⟩, fun s' hs' => by simp at hs'⟩
      · obtain ⟨s₁, hs₁, hsound, hrest, hnow, hothers⟩ := hfree hcase
        obtain ⟨c', requests, hs₁', ⟨hip, htimeout, -, -⟩, -⟩ := timeoutAuth_face s s₁ p c hs₁
        have hkept : Kept s s₁ := by
          rw [hs₁']
          exact (kept_requests s requests s.said).trans
            (release_kept { s with requests := requests } p c c' hc hip htimeout)
        have hpending₁ : s₁.pending = rest := by
          rw [hrest, hpending, List.erase_cons_head]
        obtain ⟨hcrash, hdone⟩ := ih s₁ hsound (kept_sorted s s₁ hkept hs) hpending₁
        rw [hs₁, Option.bind_some]
        refine ⟨hcrash.trans ?_, fun s' hs' => ?_⟩
        · have hout : p ∉ s₁.pending := by
            rw [hrest]
            exact h.pendingNodup.not_mem_erase
          constructor
          · rintro ⟨q, d, hd, hdin, hdlate, hdstuck⟩
            have hq : q ≠ p := by
              rintro rfl
              exact hout ((hsound.pendingIff q).mpr ⟨d, hd, hdin⟩)
            rw [hothers q hq] at hd
            exact ⟨q, d, hd, hdin, by omega, hdstuck⟩
          · rintro ⟨q, d, hd, hdin, hdlate, hdstuck⟩
            have hq : q ≠ p := by
              rintro rfl
              obtain rfl : c = d := Option.some.inj (hc.symm.trans hd)
              exact hcase hdstuck
            exact ⟨q, d, by rw [hothers q hq, hd], hdin, by omega, hdstuck⟩
        · obtain ⟨h1, h2, h3, h4⟩ := hdone s' hs'
          exact ⟨h1, hkept.trans h2, h3.trans hnow, h4⟩

def Next (s s' : State) : Prop := ∃ e, Possible s e ∧ step s e = some s'

abbrev Run : State → State → Prop := Relation.ReflTransGen Next

abbrev Reached (s : State) : Prop := Run start s

theorem step_sound (s s' : State) (e : Event) (h : Sound s) (hs : Sorted s) (he : Possible s e)
    (hstep : step s e = some s') : Sound s' ∧ Sorted s' := by
  have hkept : ∀ t, Kept s t → t = s' → Sorted s' := by
    rintro t ht rfl
    exact kept_sorted s t ht hs
  cases e with
  | start p pick ip ident opened =>
    obtain ⟨hnew, -⟩ := he
    rw [← Option.some.inj hstep]
    refine ⟨startAuth_sound h p pick ip ident opened hnew, startAuth_sorted s hs p pick ip ident opened ?_⟩
    rw [h.pendingIff]
    simp [hnew]
  | identFailed p =>
    obtain ⟨c, hc, hfd⟩ := he
    simp only [step, hc] at hstep
    obtain ⟨t, ht, hsound⟩ := authError_sound h hc hfd
    obtain rfl : t = s' := Option.some.inj (ht.symm.trans hstep)
    obtain ⟨c', ht', hip, htimeout, -⟩ := authError_spec s t p c ht
    exact ⟨hsound, hkept _ (release_kept s p c c' hc hip htimeout) ht'.symm⟩
  | identReply p reply =>
    obtain ⟨c, hc, hfd⟩ := he
    simp only [step, hc] at hstep
    obtain ⟨t, ht, hsound⟩ := readAuthReply_sound h hc hfd reply
    obtain rfl : t = s' := Option.some.inj (ht.symm.trans hstep)
    obtain ⟨c', ht', hip, htimeout, -⟩ := readAuthReply_spec s t p c reply ht
    exact ⟨hsound, hkept _ (release_kept s p c c' hc hip htimeout) ht'.symm⟩
  | reply pick msg =>
    exact Option.some.inj hstep ▸
      ⟨resReadreply_sound h pick msg, kept_sorted s _ (resReadreply_kept s pick msg) hs⟩
  | queryTimer pick =>
    exact Option.some.inj hstep ▸ ⟨timeoutQueryList_sound pick s.requests s [] h,
      kept_sorted s _ (timeoutQueryList_kept pick s.requests s []) hs⟩
  | authTimer =>
    obtain ⟨hsound, hkeeps, -⟩ := (timeoutAuthQueries_spec s.pending s h hs rfl).2 s' hstep
    exact ⟨hsound, kept_sorted s s' hkeeps hs⟩
  | leave p =>
    obtain ⟨c, hc, hopen⟩ := he
    simp only [step, hc] at hstep
    have hfree : ¬ Stuck c := by
      intro hstuck
      rw [(deleteAuth_spec h hc hopen).1 hstuck] at hstep
      simp at hstep
    obtain ⟨t, ht, hsound⟩ := (deleteAuth_spec h hc hopen).2 hfree
    obtain rfl : t = s' := Option.some.inj (ht.symm.trans hstep)
    obtain ⟨c', ⟨hip, htimeout, -⟩, hclients, hnow, hpending, -⟩ := deleteAuth_face s t p c ht
    exact ⟨hsound, kept_sorted s t (kept_set s t p c c' hc hip htimeout hnow hpending hclients) hs⟩
  | time now =>
    rw [← Option.some.inj hstep]
    refine ⟨⟨h.pendingNodup, h.pendingIff, h.ok, h.askedNodup, h.askedIff⟩, ?_⟩
    exact kept_sorted s _ ⟨he, List.Sublist.refl _, fun _ c' h => ⟨c', h, rfl, rfl⟩,
      fun _ c h => ⟨c, h⟩⟩ hs

theorem reached_sound (s : State) (h : Reached s) : Sound s ∧ Sorted s := by
  induction h with
  | refl =>
    refine ⟨⟨List.nodup_nil, fun p => ?_, fun p c hc => ?_, List.nodup_nil, fun p => ?_⟩,
      ⟨List.Pairwise.nil, fun p hp => ?_⟩⟩
    · simp [start]
    · simp [start] at hc
    · simp [start, asked]
    · simp [start] at hp
  | tail _ hnext ih =>
    obtain ⟨e, he, hstep⟩ := hnext
    exact step_sound _ _ e ih.1 ih.2 he hstep

/-- The least identifier that is free. -/
def firstFree : Pick := fun used => ((List.range (used.length + 1)).find? (· ∉ used)).getD 0

theorem firstFree_fresh : Fresh firstFree := by
  intro used hused
  have hsome : ((List.range (used.length + 1)).find? (· ∉ used)).isSome := by
    rw [List.find?_isSome]
    by_contra hnone
    have hsubset : List.range (used.length + 1) ⊆ used := by
      intro n hn
      by_contra hnot
      exact hnone ⟨n, hn, by simpa using hnot⟩
    have hle := (List.Nodup.subperm List.nodup_range hsubset).length_le
    rw [List.length_range] at hle
    omega
  obtain ⟨n, hn⟩ := Option.isSome_iff_exists.mp hsome
  have hmem := List.mem_of_find?_eq_some hn
  have hfree := List.find?_some hn
  rw [List.mem_range] at hmem
  rw [firstFree, hn]
  exact ⟨by simp only [Option.getD_some]; omega, by simpa using hfree⟩

def loopback : Addr := .v4 [127, 0, 0, 1]

/-- One connection has come, with a socket for its ident server if there was one. -/
def aliceCame (opened : Bool) : State := startAuth start 1 firstFree loopback true opened

theorem aliceCame_possible (opened : Bool) :
    Possible start (.start 1 firstFree loopback true opened) :=
  ⟨rfl, firstFree_fresh, by decide⟩

theorem aliceCame_reached (opened : Bool) : Reached (aliceCame opened) :=
  Relation.ReflTransGen.single ⟨_, aliceCame_possible opened, rfl⟩

/-- Half a minute later. -/
def aliceWaited (opened : Bool) : State := { aliceCame opened with now := 30 }

theorem aliceWaited_run (opened : Bool) : Run (aliceCame opened) (aliceWaited opened) :=
  Relation.ReflTransGen.single ⟨.time 30, Nat.zero_le 30, rfl⟩

theorem countP_asked (requests : List Request) (p : ClientPtr) (h : (asked requests).Nodup) :
    requests.countP (fun r => r.ctx = p) = if p ∈ asked requests then 1 else 0 := by
  have hcount : requests.countP (fun r => r.ctx = p) = (asked requests).count p := by
    rw [asked, List.count, List.countP_map]
    rfl
  rw [hcount, h.count]

/-- A connection is in the list until both questions are done and is then let in, once; as long as
its name is looked up there is one request for it. -/
theorem let_in_once (s : State) (h : Reached s) : s.pending.Nodup ∧
    ∀ p c, s.clients p = some c → c.finished ≤ 1 ∧
      (c.closing = true → p ∉ s.pending ∧ s.requests.countP (fun r => r.ctx = p) = 0) ∧
      (c.closing = false →
        (p ∈ s.pending ↔ c.dnsPending = true ∨ c.doingAuth = true) ∧
        (p ∈ s.pending ↔ c.finished = 0) ∧
        s.requests.countP (fun r => r.ctx = p) = if c.dnsPending then 1 else 0) := by
  obtain ⟨hsound, -⟩ := reached_sound s h
  refine ⟨hsound.pendingNodup, fun p c hc => ?_⟩
  have hok := hsound.ok p c hc
  have hpending : p ∈ s.pending ↔ c.inAuth = true := by
    rw [hsound.pendingIff]
    simp [hc]
  have hasked : p ∈ asked s.requests ↔ c.closing = false ∧ c.dnsPending = true := by
    rw [hsound.askedIff]
    simp [hc]
  rw [countP_asked s.requests p hsound.askedNodup]
  refine ⟨?_, fun hgone => ?_, fun hopen => ⟨?_, ?_, ?_⟩⟩
  · cases hclosing : c.closing with
    | true => exact (hok.gone hclosing).2.2
    | false =>
      rw [hok.once hclosing]
      split <;> omega
  · refine ⟨?_, if_neg ?_⟩
    · rw [hpending, (hok.gone hgone).1]
      simp
    · rw [hasked, hgone]
      simp
  · rw [hpending]
    exact hok.waits hopen
  · rw [hpending, hok.once hopen]
    cases c.inAuth <;> simp
  · simp only [hasked, hopen, true_and]

theorem let_in_once_alice :
    1 ∈ (aliceCame true).pending ∧ (aliceCame true).requests.countP (fun r => r.ctx = 1) = 1 := by
  have halice := ((let_in_once (aliceCame true) (aliceCame_reached true)).2 1 _ rfl).2.2 rfl
  exact ⟨halice.1.mpr (Or.inl rfl), halice.2.2⟩

/-- The server crashes where an ident socket is closed that could not be opened, and nowhere else. -/
theorem crashes_iff (s : State) (e : Event) (h : Reached s) (he : Possible s e) :
    step s e = none ↔ ∃ p c, s.clients p = some c ∧ c.doingAuth = true ∧ c.fdOpen = false ∧
      (e = .leave p ∨ e = .authTimer ∧ p ∈ s.pending ∧ c.timeout ≤ s.now) := by
  obtain ⟨hsound, hsorted⟩ := reached_sound s h
  have hnever : ∀ t, step s e = some t → (∀ p, e ≠ .leave p) → e ≠ .authTimer →
      (step s e = none ↔ ∃ p c, s.clients p = some c ∧ c.doingAuth = true ∧
        c.fdOpen = false ∧ (e = .leave p ∨ e = .authTimer ∧ p ∈ s.pending ∧ c.timeout ≤ s.now)) := by
    intro t ht hleave htimer
    rw [ht]
    refine iff_of_false (by simp) ?_
    rintro ⟨p, c, -, -, -, heq | ⟨heq, -⟩⟩
    · exact hleave p heq
    · exact htimer heq
  cases e with
  | start p pick ip ident opened => exact hnever _ rfl (by simp) (by simp)
  | identFailed p =>
    obtain ⟨c, hc, hfd⟩ := he
    obtain ⟨t, ht, -⟩ := authError_sound hsound hc hfd
    exact hnever t (by simpa only [step, hc] using ht) (by simp) (by simp)
  | identReply p reply =>
    obtain ⟨c, hc, hfd⟩ := he
    obtain ⟨t, ht, -⟩ := readAuthReply_sound hsound hc hfd reply
    exact hnever t (by simpa only [step, hc] using ht) (by simp) (by simp)
  | reply pick msg => exact hnever _ rfl (by simp) (by simp)
  | queryTimer pick => exact hnever _ rfl (by simp) (by simp)
  | authTimer =>
    refine (timeoutAuthQueries_spec s.pending s hsound hsorted rfl).1.trans ?_
    constructor
    · rintro ⟨p, c, hc, hin, hlate, hdoing, hfd⟩
      exact ⟨p, c, hc, hdoing, hfd, Or.inr ⟨rfl, (hsound.pendingIff p).mpr ⟨c, hc, hin⟩, hlate⟩⟩
    · rintro ⟨p, c, hc, hdoing, hfd, heq | ⟨-, hp, hlate⟩⟩
      · simp at heq
      · obtain ⟨d, hd, hin⟩ := (hsound.pendingIff p).mp hp
        obtain rfl : d = c := Option.some.inj (hd.symm.trans hc)
        exact ⟨p, d, hd, hin, hlate, hdoing, hfd⟩
  | leave p =>
    obtain ⟨c, hc, hopen⟩ := he
    obtain ⟨hstuck, hfree⟩ := deleteAuth_spec hsound hc hopen
    simp only [step, hc]
    constructor
    · intro hnone
      by_contra hnot
      obtain ⟨t, ht, -⟩ := hfree fun hcase => hnot ⟨p, c, hc, hcase.1, hcase.2, Or.inl rfl⟩
      rw [hnone] at ht
      simp at ht
    · rintro ⟨q, d, hd, hdoing, hfd, heq | ⟨heq, -⟩⟩
      · obtain rfl : p = q := Event.leave.inj heq
        obtain rfl : d = c := Option.some.inj (hd.symm.trans hc)
        exact hstuck ⟨hdoing, hfd⟩
      · simp at heq
  | time now => exact hnever _ rfl (by simp) (by simp)

theorem crashes_iff_alice : step (aliceCame false) (.leave 1) = none :=
  (crashes_iff (aliceCame false) (.leave 1) (aliceCame_reached false) ⟨_, rfl, rfl⟩).mpr
    ⟨1, _, rfl, rfl, rfl, Or.inl rfl⟩

def Held (p : ClientPtr) (timeout : ℕ) (s : State) : Prop :=
  ∃ c, s.clients p = some c ∧ Stuck c ∧ c.closing = false ∧ c.timeout = timeout

section Held

variable {p : ClientPtr} {timeout : ℕ}

theorem held_of_clients {s s' : State} (h : Held p timeout s) (hclients : s'.clients p = s.clients p) :
    Held p timeout s' := by
  obtain ⟨c, hc, hrest⟩ := h
  exact ⟨c, hclients.trans hc, hrest⟩

theorem release_other {s : State} (h : Held p timeout s) (q : ClientPtr) (c : Client) (hq : p ≠ q) :
    Held p timeout (releaseAuthClient s q c) := by
  obtain ⟨c', -, -, -, -, hclients⟩ := release_clients s q c
  refine held_of_clients h ?_
  rw [hclients, update_of_ne hq]

theorem dnsCallback_held {s : State} (h : Held p timeout s) (q : ClientPtr)
    (found : Option (Addr × CStr × ℕ)) : Held p timeout (authDnsCallback s q found) := by
  rcases dnsCallback_spec s q found with ⟨-, heq⟩ | ⟨d, c', hd, heq, -, htimeout, -, hflags, -⟩
  · rwa [heq]
  rw [heq]
  by_cases hq : p = q
  · subst hq
    obtain ⟨c, hc, hstuck, hopen, hc'⟩ := h
    obtain rfl : c = d := Option.some.inj (hc.symm.trans hd)
    obtain ⟨hdoing, hfd, hclosing⟩ := hflags
    refine ⟨c', ?_, ⟨hdoing.trans hstuck.1, hfd.trans hstuck.2⟩, hclosing.trans hopen,
      htimeout.trans hc'⟩
    unfold releaseAuthClient setClient
    rw [if_pos (by simp [hdoing, hstuck.1])]
    exact update_self ..
  · exact release_other h q c' hq

theorem timeoutAuthQueries_held (pending : List ClientPtr) (s s' : State) (h : Held p timeout s)
    (hs' : timeoutAuthQueries s pending = some s') : Held p timeout s' := by
  induction pending generalizing s with
  | nil => rwa [← Option.some.inj hs']
  | cons q rest ih =>
    cases hd : s.clients q with
    | none =>
      simp only [timeoutAuthQueries, hd] at hs'
      rwa [← Option.some.inj hs']
    | some d =>
      simp only [timeoutAuthQueries, hd] at hs'
      split at hs'
      · rwa [← Option.some.inj hs']
      · obtain ⟨t, ht, hrest⟩ := Option.bind_eq_some_iff.mp hs'
        refine ih t ?_ hrest
        have hq : p ≠ q := by
          rintro rfl
          obtain ⟨c, hc, hstuck, -⟩ := h
          obtain rfl : c = d := Option.some.inj (hc.symm.trans hd)
          unfold timeoutAuth at ht
          simp only [closeAuth_stuck c hstuck, Option.map_none, reduceCtorEq] at ht
        obtain ⟨c', requests, rfl, -⟩ := timeoutAuth_face s t q d ht
        refine release_other ?_ q c' hq
        exact held_of_clients h rfl

theorem step_held (s s' : State) (e : Event) (h : Held p timeout s) (he : Possible s e)
    (hstep : step s e = some s') : Held p timeout s' := by
  obtain ⟨c, hc, hstuck, hrest⟩ := id h
  cases e with
  | start q pick ip ident opened =>
    have hq : p ≠ q := by
      rintro rfl
      rw [he.1] at hc
      simp at hc
    rw [← Option.some.inj hstep]
    exact held_of_clients h (update_of_ne hq _ _)
  | identFailed q =>
    obtain ⟨d, hd, hfd⟩ := he
    simp only [step, hd] at hstep
    obtain ⟨c', rfl, -⟩ := authError_spec s s' q d hstep
    refine release_other h q c' ?_
    rintro rfl
    obtain rfl : c = d := Option.some.inj (hc.symm.trans hd)
    rw [hstuck.2] at hfd
    simp at hfd
  | identReply q reply =>
    obtain ⟨d, hd, hfd⟩ := he
    simp only [step, hd] at hstep
    obtain ⟨c', rfl, -⟩ := readAuthReply_spec s s' q d reply hstep
    refine release_other h q c' ?_
    rintro rfl
    obtain rfl : c = d := Option.some.inj (hc.symm.trans hd)
    rw [hstuck.2] at hfd
    simp at hfd
  | reply pick msg =>
    rw [← Option.some.inj hstep]
    exact resReadreply_keeps (fun _ _ _ h => held_of_clients h rfl)
      (fun _ q found h => dnsCallback_held h q found) s pick msg h
  | queryTimer pick =>
    rw [← Option.some.inj hstep]
    exact timeoutQueryList_keeps (fun _ _ _ h => held_of_clients h rfl)
      (fun _ q found h => dnsCallback_held h q found) pick s.requests s [] h
  | authTimer => exact timeoutAuthQueries_held s.pending s s' h hstep
  | leave q =>
    obtain ⟨d, hd, -⟩ := he
    simp only [step, hd] at hstep
    obtain ⟨c', -, hclients, -⟩ := deleteAuth_face s s' q d hstep
    have hq : p ≠ q := by
      rintro rfl
      obtain rfl : c = d := Option.some.inj (hc.symm.trans hd)
      unfold deleteAuth at hstep
      simp only [closeAuth_stuck c hstuck, Option.map_none, reduceCtorEq] at hstep
    exact held_of_clients h (by rw [hclients, update_of_ne hq])
  | time now => exact Option.some.inj hstep ▸ held_of_clients h rfl

theorem run_held (s s' : State) (h : Held p timeout s) (hrun : Run s s') : Held p timeout s' := by
  induction hrun with
  | refl => exact h
  | tail _ hnext ih =>
    obtain ⟨e, he, hstep⟩ := hnext
    exact step_held _ _ e ih he hstep

end Held

/-- It is never let in; the server crashes when it leaves, and when it has waited long enough. -/
theorem unopened_crashes (s s' : State) (p : ClientPtr) (pick : Pick) (ip : Addr) (hs : Reached s)
    (he : Possible s (.start p pick ip true false)) (hrun : Run (startAuth s p pick ip true false) s') :
    (∃ c, s'.clients p = some c ∧ c.finished = 0 ∧ c.closing = false) ∧ step s' (.leave p) = none ∧
      (s.now + CONNECTTIMEOUT ≤ s'.now → step s' .authTimer = none) := by
  have hreached : Reached s' := (hs.tail ⟨_, he, rfl⟩).trans hrun
  obtain ⟨hsound, hsorted⟩ := reached_sound s' hreached
  have hheld : Held p (s.now + CONNECTTIMEOUT) (startAuth s p pick ip true false) :=
    ⟨_, update_self .., ⟨rfl, rfl⟩, rfl, rfl⟩
  obtain ⟨c, hc, hstuck, hopen, htimeout⟩ := run_held _ s' hheld hrun
  have hok := hsound.ok p c hc
  have hin : c.inAuth = true := (hok.waits hopen).mpr (Or.inr hstuck.1)
  refine ⟨⟨c, hc, ?_, hopen⟩, ?_, fun hlate => ?_⟩
  · rw [hok.once hopen, if_pos hin]
  · simp only [step, hc]
    exact (deleteAuth_spec hsound hc hopen).1 hstuck
  · exact (timeoutAuthQueries_spec s'.pending s' hsound hsorted rfl).1.mpr
      ⟨p, c, hc, hin, by omega, hstuck⟩

theorem unopened_crashes_alice : step (aliceWaited false) .authTimer = none :=
  (unopened_crashes start (aliceWaited false) 1 firstFree loopback Relation.ReflTransGen.refl
    (aliceCame_possible false) (aliceWaited_run false)).2.2 (by decide)

/-- When the timer has run, everybody was let in who has not come within the last half minute. -/
theorem let_in_in_time (s s' : State) (hs : Reached s) (hstep : step s .authTimer = some s')
    (p : ClientPtr) (c : Client) (hc : s'.clients p = some c) (hopen : c.closing = false) :
    c.finished = 1 ∨ s'.now < c.timeout ∧ c.timeout ≤ s'.now + CONNECTTIMEOUT := by
  obtain ⟨hsound, hsorted⟩ := reached_sound s hs
  obtain ⟨hsound', hkept, -, hyoung⟩ := (timeoutAuthQueries_spec s.pending s hsound hsorted rfl).2 s' hstep
  have hsorted' := kept_sorted s s' hkept hsorted
  have htime : timeoutOf s' p = c.timeout := by simp [timeoutOf, hc]
  have hok := hsound'.ok p c hc
  cases hin : c.inAuth with
  | true =>
    have hp : p ∈ s'.pending := (hsound'.pendingIff p).mpr ⟨c, hc, hin⟩
    rw [← htime]
    exact Or.inr ⟨hyoung p hp, hsorted'.bound p hp⟩
  | false =>
    refine Or.inl ?_
    rw [hok.once hopen, hin]
    rfl

theorem let_in_in_time_alice :
    ∃ s' c, step (aliceWaited true) .authTimer = some s' ∧ s'.clients 1 = some c ∧ c.finished = 1 := by
  obtain ⟨s', hstep⟩ : ∃ s', step (aliceWaited true) .authTimer = some s' := ⟨_, rfl⟩
  obtain ⟨c, hc⟩ : ∃ c, s'.clients 1 = some c := by
    rw [← Option.some.inj hstep]
    exact ⟨_, rfl⟩
  have halice : s'.now = 30 ∧ c.timeout = 30 ∧ c.closing = false := by
    have hs' := Option.some.inj hstep
    rw [← hs'] at hc ⊢
    rw [← Option.some.inj hc]
    exact ⟨rfl, rfl, rfl⟩
  refine ⟨s', c, hstep, hc, ?_⟩
  rcases let_in_in_time (aliceWaited true) s' ((aliceCame_reached true).trans (aliceWaited_run true)) hstep
    1 c hc halice.2.2 with hin | hyoung
  · exact hin
  · omega

end IrcdHybrid.AuthRuns
