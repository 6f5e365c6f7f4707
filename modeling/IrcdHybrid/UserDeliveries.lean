import IrcdHybrid.UserSteps

/-!
A server takes a line from a link. Whatever it is, the server comes to what the farther server had
when it said it, unless one of the two has killed the user meanwhile.
-/

namespace IrcdHybrid.UserDeliveries

open CString UserLines UserEcho UserNetwork UserStreams UserTables UserSteps TreeLinks Flooding Function
open NickHistory (validNickname)
open MemberLists (startsWithDigit)

variable {S : Type*} [DecidableEq S] {G : SimpleGraph S} {conf : Conf} {top : Topology S}
  {opers : CStr → Prop} {owner : CStr → CStr} {x : S → CStr → Presence} {net : Net S} {a n : S}
  {l : Line S} {rest : List (Line S)} {u : CStr}

section Head

variable (h : Inv G conf top opers owner x net) (hq : net.queue a n = l :: rest)

include h hq

theorem adj_of_queue : G.Adj a n := h.links a n (by rw [hq]; simp)

omit [DecidableEq S] h in
theorem stream_head (hc : concerns owner u l = true) :
    stream owner net.queue u a n = l :: rest.filter (concerns owner u) := by
  unfold stream
  rw [hq, List.filter_cons_of_pos hc]

theorem comes_down (hfits : Fits G top) (hc : concerns owner u l = true) (hends : ¬ Ends owner u l) :
    Nearer G (top.home u) a n := by
  refine nearer_of_not hfits.tree _ (adj_of_queue h hq).symm fun hup => hends ?_
  refine ((h.flow u).up n a hup l ?_).2.2
  rw [stream_head hq hc]
  exact List.mem_cons_self

theorem heard (hc : concerns owner u l = true) (ha : Nearer G (top.home u) a n) :
    ∃ y p, Seen conf top opers owner u (x n u) l y ∧
      Followed (rules conf top opers owner u) y (rest.filter (concerns owner u)) p ∧
      (p = x a u ∨ Crossing (rules conf top opers owner u) (fun m => x m u)
        (stream owner net.queue u) a n) :=
  flow_head (h.flow u) a ha _ (stream_head hq hc)

variable (s' : Server S) (out : List (S × Line S))

theorem taken_step (hc : concerns owner u l = true) :
    NodeStep (stream owner net.queue u)
      (stream owner (post (takeLine net a n rest) n s' out).queue u) n
      (fun m => if m = a then [l] else []) fun m => (spoken out m).filter (concerns owner u) := by
  have hstep : NodeStep (stream owner net.queue u) _ n _ _ := stream_step
    (deliver_step net a n (adj_of_queue h hq).ne l rest hq s' out) u
  refine ⟨fun m hm => ?_, hstep.said, hstep.rest⟩
  rw [hstep.taken m hm]
  by_cases hma : m = a
  · simp [hma, hc]
  · simp [hma]

theorem rest_of_step (hc : concerns owner u l = true) :
    stream owner (post (takeLine net a n rest) n s' out).queue u a n =
      rest.filter (concerns owner u) := by
  have htaken := (taken_step h hq s' out hc).taken a (adj_of_queue h hq).ne
  rw [stream_head hq hc, if_pos rfl, List.singleton_append] at htaken
  exact (List.cons.inj htaken).2.symm

theorem others_idle (v : CStr) (hv : concerns owner v l = false)
    (hsaid : ∀ m, ∀ k ∈ spoken out m, concerns owner v k = false) :
    Flow (rules conf top opers owner v) G (top.home v) (fun m => x m v)
      (stream owner (post (takeLine net a n rest) n s' out).queue v) := by
  refine flow_others h (deliver_step net a n (adj_of_queue h hq).ne l rest hq s' out) v
    (fun m k hk => ?_) hsaid
  by_cases hma : m = a
  · rw [if_pos hma, List.mem_singleton] at hk
    rw [hk]
    exact hv
  · rw [if_neg hma] at hk
    simp at hk

end Head

section Accepted

variable (hfits : Fits G top) (h : Inv G conf top opers owner x net) (hq : net.queue a n = l :: rest)

include h hq

/-- The user's own server is another one, and what it has given out does not change. -/
theorem issued_elsewhere (ha : Nearer G (top.home u) a n) (y : Presence) (s' : Server S)
    (hissued : s'.issued = (net.server n).issued) (v : CStr) (hv : update (x n) u y v ≠ .absent)
    (hn : top.home v = n) : s'.issued v = true := by
  rw [hissued]
  subst hn
  have hvu : v ≠ u := by
    rintro rfl
    exact ha.ne rfl
  rw [update_of_ne hvu] at hv
  exact h.issued v hv

include hfits

/-- A line about one user that a server believes, and says on as it came. -/
theorem accepted (hc : concerns owner u l = true) (honly : ∀ v, v ≠ u → concerns owner v l = false)
    (hplain : ∀ k t, l ≠ .killBy k t) (hplain' : ∀ s t, l ≠ .killFrom s t)
    (ha : Nearer G (top.home u) a n) (y p : Presence)
    (hseen : Seen conf top opers owner u (x n u) l y)
    (hcome : Followed (rules conf top opers owner u) y (rest.filter (concerns owner u)) p)
    (hend : p = x a u ∨ Crossing (rules conf top opers owner u) (fun m => x m u)
      (stream owner net.queue u) a n)
    (s' : Server S) (htables : Matches top owner n (update (x n) u y) s')
    (hissued : s'.issued = (net.server n).issued) :
    Inv G conf top opers owner (change x n u y)
      (post (takeLine net a n rest) n s' (sendtoServer top n (some a) l)) := by
  have htold := told_send hfits n (some a) l
  refine inv_of h (deliver_step net a n (adj_of_queue h hq).ne l rest hq s' _)
    (htold.proper (fun k t hl => absurd hl (hplain k t)) fun m s t hl => absurd hl (hplain' s t)) u y
    (fun m hm => update_of_ne hm _ _) ?_ ?_ ?_ fun v hv => ?_
  · rw [show (post (takeLine net a n rest) n s' _).server n = s' from update_self ..]
    exact htables
  · rw [show (post (takeLine net a n rest) n s' _).server n = s' from update_self ..]
    exact issued_elsewhere h hq ha y s' hissued
  · refine flow_down hfits (h.flow u) ha (taken_step h hq s' _ hc) (fun m hm => if_neg hm)
      (htold.filter _ hc) y hseen ⟨p, ?_, hend⟩
    rw [rest_of_step h hq s' _ hc]
    exact hcome
  · refine others_idle h hq s' _ v (honly v hv) fun m k hk => ?_
    rw [(htold.mem m k hk).1]
    exact honly v hv

/-- A line from a user that is gone: it is taken, and the neighbour is told to kill the user. -/
theorem bounced (hc : concerns owner u l = true) (honly : ∀ v, v ≠ u → concerns owner v l = false)
    (ha : Nearer G (top.home u) a n) (hmortal : ¬ opers u) (hgone : x n u = .gone) (p : Presence)
    (hcome : Followed (rules conf top opers owner u) .gone (rest.filter (concerns owner u)) p)
    (hend : p = x a u ∨ Crossing (rules conf top opers owner u) (fun m => x m u)
      (stream owner net.queue u) a n)
    (word : CStr) (hword : subject owner word = u) :
    Inv G conf top opers owner x
      (post (takeLine net a n rest) n (net.server n) [(a, .killFrom n word)]) := by
  have hsaid : ∀ m, ∀ k ∈ spoken [(a, (.killFrom n word : Line S))] m, m = a ∧ k = .killFrom n word := by
    intro m k hk
    rw [spoken_single] at hk
    split at hk
    · next hm => exact ⟨hm, List.mem_singleton.mp hk⟩
    · simp at hk
  have hadj := adj_of_queue h hq
  have hproper : Proper G opers owner n (spoken [(a, (.killFrom n word : Line S))]) := by
    refine ⟨fun m hm => ?_, fun m k t hk => ?_, fun m s t hk => ?_⟩
    · obtain ⟨k, hk⟩ := List.exists_mem_of_ne_nil _ hm
      rw [(hsaid m k hk).1]
      exact hadj.symm
    · simpa using (hsaid m _ hk).2
    · obtain ⟨rfl, hline⟩ := hsaid m _ hk
      rw [(Line.killFrom.inj hline).1]
      exact nearer_self hfits.tree hadj.symm
  rw [← change_same x n u]
  refine inv_of h (deliver_step net a n hadj.ne l rest hq (net.server n) _) hproper u _
    (fun m hm => update_of_ne hm _ _) ?_ ?_ ?_ fun v hv => ?_
  · rw [show (post (takeLine net a n rest) n (net.server n) _).server n = net.server n from
      update_self .., update_eq_self]
    exact h.tables n
  · rw [show (post (takeLine net a n rest) n (net.server n) _).server n = net.server n from
      update_self ..]
    exact issued_elsewhere h hq ha _ _ rfl
  · rw [update_eq_self]
    refine flow_take (h.flow u) (taken_step h hq (net.server n) _ hc) a ha ?_
      (fun m hm => if_neg hm) (fun m hm => ?_) fun k hk => ?_
    · rw [rest_of_step h hq _ _ hc, hgone]
      exact ⟨p, hcome, hend⟩
    · rw [spoken_single, if_neg hm]
      rfl
    · obtain ⟨-, rfl⟩ := hsaid a k (List.mem_filter.mp hk).1
      exact ⟨hgone, hmortal, .server n word hword⟩
  · refine others_idle h hq _ _ v (honly v hv) fun m k hk => ?_
    rw [(hsaid m k hk).2]
    show decide (subject owner word = v) = false
    rw [hword]
    exact decide_eq_false (Ne.symm hv)

end Accepted

section Senders

omit [DecidableEq S] in
theorem sender_plain (sender : CStr) (hsender : senderOf l = some sender) :
    (∀ k t, l ≠ .killBy k t) ∧ (∀ s t, l ≠ .killFrom s t) ∧ ¬ Ends owner u l ∧ ¬ Kills owner u l := by
  refine ⟨?_, ?_, ?_, ?_⟩
  · rintro k t rfl
    simp [senderOf] at hsender
  · rintro k t rfl
    simp [senderOf] at hsender
  · intro hends
    cases hends <;> simp [senderOf] at hsender
  · intro hkills
    cases hkills <;> simp [senderOf] at hsender

omit [DecidableEq S] in
/-- A line that gives a nick gives one that is the user's own. -/
theorem echoed_clear (c : Client) (c' : Option Client) (hecho : Echoed conf u c l c')
    (hgood : ∀ c'', c' = some c'' → Good owner u c'') (nick : CStr) (ts : ℤ) (hl : l = .nick u nick ts) :
    owner (nameKey nick) = u := by
  subst hl
  have hrelay : msNick (fun _ => none) u c nick ts = some ⟨c', some (.nick u nick ts)⟩ :=
    hecho (fun _ => none) fun _ _ _ => Or.inl rfl
  unfold msNick at hrelay
  split at hrelay
  · simp at hrelay
  · have hclient := congrArg Outcome.client (Option.some.inj hrelay)
    have hname := (hgood _ hclient.symm).nick
    rwa [renamed_name] at hname

variable (hfits : Fits G top) (h : Inv G conf top opers owner x net) (hq : net.queue a n = l :: rest)

include hfits h hq

theorem deliver_sender (sender : CStr) (hsender : senderOf l = some sender) :
    ∃ r x', handleUser conf top n (net.server n) a sender l = some r ∧
      Inv G conf top opers owner x' (post (takeLine net a n rest) n r.1 r.2) := by
  obtain ⟨hplain, hplain', hends, hkills⟩ : _ ∧ _ ∧ ¬ Ends owner (subject owner sender) l ∧ _ :=
    sender_plain sender hsender
  have hconcerns := fun v => concerns_sender owner v l sender hsender
  have hc : concerns owner (subject owner sender) l = true := by
    rw [hconcerns]
    exact decide_eq_true rfl
  have honly : ∀ v, v ≠ subject owner sender → concerns owner v l = false := by
    intro v hv
    rw [hconcerns]
    exact decide_eq_false (Ne.symm hv)
  generalize hu : subject owner sender = u at *
  have ha := comes_down h hq hfits hc hends
  obtain ⟨y, p, hseen, hcome, hend⟩ := heard h hq hc ha
  have htables := h.tables n
  have hseen' := hseen
  generalize hx : x n u = from' at hseen
  cases hseen with
  | uid c hgood hid haway => simp [introduction, senderOf] at hsender
  | killed p l hkill hp hmortal => exact absurd hkill hkills
  | kills c target hoper => simp [senderOf] at hsender
  | late l sender' hsender' hmark hsubject hmortal =>
    obtain rfl : sender' = sender := Option.some.inj (hsender'.symm.trans hsender)
    have hnone : findSource (net.server n) sender' = none := by
      refine findSource_none htables sender' fun c => ?_
      rw [hu, hx]
      simp
    refine ⟨(net.server n, [(a, .killFrom n sender')]), x, ?_, ?_⟩
    · simp [handleUser, hnone, parseRemoveUnknown, hmark]
    · exact bounced hfits h hq hc honly ha hmortal hx p hcome hend sender' hu
  | said c l sender' c' hsender' hword hmark hsubject hecho hgood =>
    obtain rfl : sender' = sender := Option.some.inj (hsender'.symm.trans hsender)
    have hfind := findSource_here htables u c hx sender' hword
    have hlink := hfits.linkOf_eq ha
    have hrelay := hecho (found (net.server n)) fun nick ts hl =>
      found_clear htables nick u (echoed_clear c c' hecho hgood nick ts hl)
    refine ⟨(putUser (net.server n) u ⟨c, linkOf top n u⟩ c', sendtoServer top n (some a) l),
      change x n u (presence c'), ?_, ?_⟩
    · simp [handleUser, hfind, hlink, hrelay]
    · refine accepted hfits h hq hc honly hplain hplain' ha _ p hseen' hcome hend _
        (matches_put htables u c hx c' hgood) ?_
      cases c' <;> rfl

theorem deliver_uid (server : S) (id name : CStr) (tsinfo : ℤ) (umodes info : CStr)
    (hl : l = .uid server id name tsinfo umodes info) :
    ∃ r x', handle conf top n (net.server n) a l = some r ∧
      Inv G conf top opers owner x' (post (takeLine net a n rest) n r.1 r.2) := by
  have hconcerns : ∀ v, concerns owner v l = decide (id = v) := by
    rw [hl]
    exact fun v => rfl
  have hc : concerns owner id l = true := by
    rw [hconcerns]
    exact decide_eq_true rfl
  have honly : ∀ v, v ≠ id → concerns owner v l = false := by
    intro v hv
    rw [hconcerns]
    exact decide_eq_false (Ne.symm hv)
  have hends : ¬ Ends owner id l := by
    rw [hl]
    rintro ⟨⟩
  have ha := comes_down h hq hfits hc hends
  obtain ⟨y, p, hseen, hcome, hend⟩ := heard h hq hc ha
  have htables := h.tables n
  have hseen' := hseen
  generalize hx : x n id = from' at hseen
  cases hseen with
  | said c l sender c' hsender hword hmark hsubject hecho hgood => simp [hl, senderOf] at hsender
  | late l sender hsender hmark hsubject hmortal => simp [hl, senderOf] at hsender
  | killed p l hkill hp hmortal =>
    rw [hl] at hkill
    cases hkill
  | kills c target hoper => simp at hl
  | uid c hgood hid haway =>
    have hnot : ∀ c', x n id ≠ .here c' := by
      intro c'
      rw [hx]
      simp
    have hbyId : (net.server n).byId id = none := byId_none htables id hnot
    have hfound : found (net.server n) c.name = none := by
      refine (found_clear htables c.name id hgood.nick).resolve_right fun hf => ?_
      obtain ⟨c', hc', -⟩ := (found_iff htables c.name id).mp hf
      exact hnot c' hc'
    have hroute := hfits.route_eq ha
    have hvalid := validNickname_remote c.name hgood.fit.name
    have hintro := introduced_introduction c hgood.fit haway
    refine ⟨(addUser (net.server n) id ⟨c, some a⟩,
      sendtoServer top n (some a) (introduction (top.home id) id c)), change x n id (.here c), ?_, ?_⟩
    · simp [handle, introduction, hroute, hvalid, hbyId, hfound, hintro]
    · refine accepted hfits h hq hc honly (by simp [introduction]) (by simp [introduction]) ha _ p hseen'
        hcome hend _ (matches_add htables id hnot hid ⟨c, some a⟩ (hfits.linkOf_eq ha).symm hgood) rfl

end Senders

section Kills

/-- The lines of one who kills: they end a user by any word, and are told on by the identifier. -/
structure KillLine (owner : CStr → CStr) (u : CStr) (say : CStr → Line S) : Prop where
  ends : ∀ t, subject owner t = u → Ends owner u (say t)
  self : ∀ t, Kills owner u (say t) → t = u
  kills : subject owner u = u → Kills owner u (say u)
  hears : ∀ t, subject owner t = u → concerns owner u (say t) = true

omit [DecidableEq S] in
theorem seen_ends (hends : Ends owner u l) (p y : Presence) (hseen : Seen conf top opers owner u p l y) :
    Kills owner u l ∧ p ≠ .absent ∧ ¬ opers u ∧ y = .gone := by
  cases hseen with
  | uid c hgood hid haway =>
    unfold introduction at hends
    cases hends
  | said c l sender c' hsender hword hmark hsubject hecho hgood =>
    exact absurd hends (sender_plain sender hsender).2.2.1
  | late l sender hsender hmark hsubject hmortal =>
    exact absurd hends (sender_plain sender hsender).2.2.1
  | killed p l hkill hp hmortal => exact ⟨hkill, hp, hmortal, rfl⟩
  | kills c target hoper =>
    cases hends
    contradiction

variable (hfits : Fits G top) (h : Inv G conf top opers owner x net) (hq : net.queue a n = l :: rest)

include hfits h hq

theorem ends_spec (hends : Ends owner u l) (hc : concerns owner u l = true) :
    x n u ≠ .absent ∧ ¬ opers u := by
  by_cases ha : Nearer G (top.home u) a n
  · obtain ⟨y, p, hseen, -⟩ := heard h hq hc ha
    obtain ⟨-, hp, hmortal, -⟩ := seen_ends hends _ y hseen
    exact ⟨hp, hmortal⟩
  · have hback := nearer_of_not hfits.tree _ (adj_of_queue h hq) ha
    have hup := (h.flow u).up n a hback l (by rw [stream_head hq hc]; exact List.mem_cons_self)
    refine ⟨?_, hup.2.1⟩
    obtain ⟨p, hp, hend⟩ := (h.flow u).down n a hback
    rw [hup.1] at hp
    rcases hend with hend | hcross
    · rw [followed_gone _ _ p hp] at hend
      show x n u ≠ _
      rw [← hend]
      simp [rules]
    · exact hcross.2.1

variable (say : CStr → Line S) (hkill : KillLine owner u say) (t : CStr) (hl : l = say t)
  (hsub : subject owner t = u) (s' : Server S)

include hkill hl hsub

theorem kill_found (c : UserLines.Client) (hhere : x n u = .here c) :
    Flow (rules conf top opers owner u) G (top.home u) (update (fun m => x m u) n .gone)
      (stream owner (post (takeLine net a n rest) n s' (sendtoServer top n (some a) (say u))).queue u) := by
  have hc : concerns owner u l = true := hl ▸ hkill.hears t hsub
  have hends : Ends owner u l := hl ▸ hkill.ends t hsub
  have hself : subject owner u = u :=
    if_pos (validUid_digit u ((h.tables n).ids u (by simp [hhere])))
  have htold := (told_send hfits n (some a) (say u)).filter _ (hkill.hears u hself)
  have hstep := taken_step h hq s' (sendtoServer top n (some a) (say u)) hc
  by_cases ha : Nearer G (top.home u) a n
  · obtain ⟨y, p, hseen, hcome, hend⟩ := heard h hq hc ha
    obtain ⟨hkills, -, -, rfl⟩ := seen_ends hends _ y hseen
    rw [hl] at hkills
    obtain rfl := hkill.self t hkills
    rw [← hl] at htold hstep ⊢
    refine flow_down hfits (h.flow t) ha hstep (fun m hm => if_neg hm) htold .gone hseen ⟨p, ?_, hend⟩
    rw [rest_of_step h hq s' _ hc]
    exact hcome
  · have hback := nearer_of_not hfits.tree _ (adj_of_queue h hq) ha
    have hup := (h.flow u).up n a hback l (by rw [stream_head hq hc]; exact List.mem_cons_self)
    refine flow_kill (l := say u) (h.flow u) hstep hup.2.1 (hkill.kills hself) ?_ (fun m hm => ?_)
      fun m hm => ?_
    · show x n u ≠ .absent ∧ x n u ≠ .gone
      rw [hhere]
      simp
    · by_cases hma : m = a
      · rw [hma]
        exact Or.inr ⟨htold.silent a (fun hne => hne.2 rfl), hback, hup.1⟩
      · exact Or.inl (htold.hears m hm fun heq => hma (Option.some.inj heq))
    · rw [if_neg]
      rintro rfl
      exact hm hback

theorem kill_missed (hmissed : findPerson (net.server n) t = none) :
    Flow (rules conf top opers owner u) G (top.home u) (fun m => x m u)
      (stream owner (post (takeLine net a n rest) n s' []).queue u) := by
  have hc : concerns owner u l = true := hl ▸ hkill.hears t hsub
  have hends : Ends owner u l := hl ▸ hkill.ends t hsub
  have hstep := taken_step h hq s' [] hc
  obtain ⟨hpresent, hmortal⟩ := ends_spec hfits h hq hends hc
  -- whoever is there is found by its identifier
  have hgone : Kills owner u l → x n u = .gone := by
    intro hkills
    rw [hl] at hkills
    obtain rfl := hkill.self t hkills
    cases hx : x n t with
    | absent => exact absurd hx hpresent
    | gone => rfl
    | here c =>
      rw [findPerson_here (h.tables n) t c hx] at hmissed
      simp at hmissed
  by_cases ha : Nearer G (top.home u) a n
  · obtain ⟨y, p, hseen, hcome, hend⟩ := heard h hq hc ha
    obtain ⟨hkills, -, -, rfl⟩ := seen_ends hends _ y hseen
    refine flow_take (h.flow u) hstep a ha ⟨p, ?_, hend⟩ (fun m hm => if_neg hm) (fun m hm => rfl)
      fun k hk => by simp [spoken] at hk
    rw [rest_of_step h hq s' _ hc]
    show Followed _ (x n u) _ p
    rw [hgone hkills]
    exact hcome
  · have hback := nearer_of_not hfits.tree _ (adj_of_queue h hq) ha
    refine flow_take_back (h.flow u) hstep a hback (if_pos rfl) ?_ (fun m hm => if_neg hm) fun m => rfl
    by_cases hkills : Kills owner u l
    · exact Or.inl (hgone hkills)
    · exact Or.inr hkills

/-- `ms_kill`, when it does no harm to others. -/
theorem ms_kill (hproper : Proper G opers owner n (spoken (sendtoServer top n (some a) (say u))))
    (hidle : ∀ s' out, (out = [] ∨ out = sendtoServer top n (some a) (say u)) → ∀ v, v ≠ u →
      Flow (rules conf top opers owner v) G (top.home v) (fun m => x m v)
        (stream owner (post (takeLine net a n rest) n s' out).queue v)) :
    ∃ x', Inv G conf top opers owner x' (post (takeLine net a n rest) n
      (msKill top n (net.server n) a say t).1 (msKill top n (net.server n) a say t).2) := by
  have hadj := adj_of_queue h hq
  have hends : Ends owner u l := hl ▸ hkill.ends t hsub
  have hc : concerns owner u l = true := hl ▸ hkill.hears t hsub
  obtain ⟨hpresent, hmortal⟩ := ends_spec hfits h hq hends hc
  have hissued : ∀ y v, update (x n) u y v ≠ .absent → top.home v = n →
      (net.server n).issued v = true := by
    intro y v hv hn
    subst hn
    refine h.issued v ?_
    by_cases hvu : v = u
    · rw [hvu] at hpresent ⊢
      exact hpresent
    · rwa [update_of_ne hvu] at hv
  unfold msKill
  cases hfind : findPerson (net.server n) t with
  | none =>
    refine ⟨x, ?_⟩
    rw [← change_same x n u]
    refine inv_of h (deliver_step net a n hadj.ne l rest hq (net.server n) [])
      ⟨fun m hm => absurd rfl hm, fun m k t hk => by simp [spoken] at hk,
        fun m s t hk => by simp [spoken] at hk⟩ u _ (fun m hm => update_of_ne hm _ _) ?_ ?_ ?_
      (hidle _ _ (Or.inl rfl))
    · rw [show (post (takeLine net a n rest) n (net.server n) []).server n = net.server n from
        update_self .., update_eq_self]
      exact h.tables n
    · rw [show (post (takeLine net a n rest) n (net.server n) []).server n = net.server n from
        update_self ..]
      exact hissued _
    · rw [update_eq_self]
      exact kill_missed hfits h hq say hkill t hl hsub _ hfind
  | some found =>
    obtain ⟨id, e⟩ := found
    obtain ⟨hid, hhere⟩ := findPerson_subject (h.tables n) t id e hfind
    rw [hsub] at hid
    subst hid
    refine ⟨change x n id .gone, ?_⟩
    refine inv_of h (deliver_step net a n hadj.ne l rest hq (dropUser (net.server n) id e) _) hproper id _
      (fun m hm => update_of_ne hm _ _) ?_ ?_ (kill_found hfits h hq say hkill t hl hsub _ _ hhere)
      (hidle _ _ (Or.inr rfl))
    · rw [show (post (takeLine net a n rest) n (dropUser (net.server n) id e) _).server n =
        dropUser (net.server n) id e from update_self ..]
      exact matches_drop (h.tables n) id e.client hhere e rfl
    · rw [show (post (takeLine net a n rest) n (dropUser (net.server n) id e) _).server n =
        dropUser (net.server n) id e from update_self ..]
      exact hissued _

omit [DecidableEq S] hfits h hq hkill hl hsub in
theorem killLine_server (server : S) : KillLine owner u (.killFrom server : CStr → Line S) where
  ends t ht := .server server t ht
  self t ht := by
    cases ht
    rfl
  kills hu := .server server hu
  hears t ht := decide_eq_true ht

omit [DecidableEq S] hfits h hq hkill hl hsub in
theorem killLine_user (source : CStr) (hsource : source ≠ u) :
    KillLine owner u (.killBy source : CStr → Line S) where
  ends t ht := .user source t hsource ht
  self t ht := by
    cases ht
    rfl
  kills hu := .user source hsource hu
  hears t ht := by
    show (decide (source = u) || decide (subject owner t = u)) = true
    rw [decide_eq_true ht, Bool.or_true]

omit hkill hl hsub hfits hq in
/-- Of whom a kill is spoken: by its identifier, whoever was found. -/
theorem subject_self (hu : x n u ≠ .absent) : subject owner u = u :=
  if_pos (validUid_digit u ((h.tables n).ids u hu))

end Kills

section Deliver

variable (hfits : Fits G top) (h : Inv G conf top opers owner x net) (hq : net.queue a n = l :: rest)

include hfits h hq

theorem deliver_killFrom (server : S) (target : CStr) (hl : l = .killFrom server target) :
    ∃ r x', handle conf top n (net.server n) a l = some r ∧
      Inv G conf top opers owner x' (post (takeLine net a n rest) n r.1 r.2) := by
  generalize hu : subject owner target = u
  have hkill : KillLine owner u (.killFrom server : CStr → Line S) := killLine_server server
  have hc : concerns owner u l = true := hl ▸ hkill.hears target hu
  obtain ⟨hpresent, -⟩ := ends_spec hfits h hq (hl ▸ hkill.ends target hu) hc
  have hself := subject_self h hpresent
  have ha : Nearer G server a n := h.origin a n server target (by rw [hq, hl]; exact List.mem_cons_self)
  have htold := told_send hfits n (some a) (.killFrom server u : Line S)
  have hproper : Proper G opers owner n
      (spoken (sendtoServer top n (some a) (.killFrom server u : Line S))) := by
    refine htold.proper (fun k t hk => by simp at hk) fun m s t hk hadj hne => ?_
    rw [← (Line.killFrom.inj hk).1]
    exact (hfits.farther ha).mpr ⟨hadj, hne⟩
  obtain ⟨x', hx'⟩ := ms_kill hfits h hq _ hkill target hl hu hproper fun s' out hout v hv => by
    refine others_idle h hq s' out v ?_ fun m k hk => ?_
    · rw [hl]
      show decide (subject owner target = v) = false
      rw [hu]
      exact decide_eq_false (Ne.symm hv)
    · rcases hout with rfl | rfl
      · simp [spoken] at hk
      · rw [(htold.mem m k hk).1]
        show decide (subject owner u = v) = false
        rw [hself]
        exact decide_eq_false (Ne.symm hv)
  refine ⟨_, x', ?_, hx'⟩
  rw [hl]
  exact if_neg (by rw [hfits.route_eq ha]; simp)

theorem deliver_killBy (source target : CStr) (hl : l = .killBy source target) :
    ∃ r x', handle conf top n (net.server n) a l = some r ∧
      Inv G conf top opers owner x' (post (takeLine net a n rest) n r.1 r.2) := by
  obtain ⟨hoper, hmortal⟩ := h.killers a n source target (by rw [hq, hl]; exact List.mem_cons_self)
  generalize hu : subject owner target = u at hmortal
  have hne : source ≠ u := by
    rintro rfl
    exact hmortal hoper
  have hkill : KillLine owner u (.killBy source : CStr → Line S) := killLine_user source hne
  have hc : concerns owner u l = true := hl ▸ hkill.hears target hu
  obtain ⟨hpresent, -⟩ := ends_spec hfits h hq (hl ▸ hkill.ends target hu) hc
  have hself := subject_self h hpresent
  -- the line is also one of the user that kills, and leaves it as it is
  have hck : concerns owner source l = true := by
    rw [hl]
    show (decide (source = source) || _) = true
    rw [decide_eq_true rfl, Bool.true_or]
  have ha : Nearer G (top.home source) a n := by
    refine comes_down h hq hfits hck ?_
    rw [hl]
    intro hends
    cases hends
    contradiction
  obtain ⟨y, p, hseen, hcome, hend⟩ := heard h hq hck ha
  have hsame : ∃ c, x n source = .here c ∧ y = x n source := by
    generalize x n source = from' at hseen
    cases hseen with
    | uid c hgood hid haway => simp [introduction] at hl
    | said c l sender c' hsender hword hmark hsubject hecho hgood => simp [hl, senderOf] at hsender
    | late l sender hsender hmark hsubject hmortal => simp [hl, senderOf] at hsender
    | killed p l hkill hp hmortal => exact absurd hoper hmortal
    | kills c target hoper => exact ⟨c, rfl, rfl⟩
  obtain ⟨c, hhere, rfl⟩ := hsame
  have htold := told_send hfits n (some a) (.killBy source u : Line S)
  have hproper : Proper G opers owner n
      (spoken (sendtoServer top n (some a) (.killBy source u : Line S))) := by
    refine htold.proper (fun k t hk => ?_) fun m s t hk => by simp at hk
    obtain ⟨rfl, rfl⟩ := Line.killBy.inj hk
    rw [hself]
    exact ⟨hoper, hmortal⟩
  obtain ⟨x', hx'⟩ := ms_kill hfits h hq _ hkill target hl hu hproper fun s' out hout v hv => by
    by_cases hv' : v = source
    · subst hv'
      have hstep := taken_step h hq s' out hck
      have hrest := rest_of_step h hq s' out hck
      rcases hout with rfl | rfl
      · refine flow_take (h.flow v) hstep a ha ⟨p, ?_, hend⟩ (fun m hm => if_neg hm) (fun m hm => rfl)
          fun k hk => by simp [spoken] at hk
        rw [hrest]
        exact hcome
      · have hsays : concerns owner v (.killBy v u : Line S) = true := by
          show (decide (v = v) || _) = true
          rw [decide_eq_true rfl, Bool.true_or]
        have hkills : Seen conf top opers owner v (x n v) (.killBy v u) (x n v) := by
          rw [hhere]
          exact .kills c u hoper
        have hflow := flow_down hfits (h.flow v) ha hstep (fun m hm => if_neg hm)
          (htold.filter (concerns owner v) hsays) (x n v) hkills
          ⟨p, by rw [hrest]; exact hcome, hend⟩
        rwa [update_eq_self] at hflow
    · refine others_idle h hq s' out v ?_ fun m k hk => ?_
      · rw [hl]
        show (decide (source = v) || decide (subject owner target = v)) = false
        rw [hu, decide_eq_false (Ne.symm hv'), decide_eq_false (Ne.symm hv), Bool.or_false]
      · rcases hout with rfl | rfl
        · simp [spoken] at hk
        · rw [(htold.mem m k hk).1]
          show (decide (source = v) || decide (subject owner u = v)) = false
          rw [hself, decide_eq_false (Ne.symm hv'), decide_eq_false (Ne.symm hv), Bool.or_false]
  refine ⟨_, x', ?_, hx'⟩
  rw [hl]
  simp [handle, findSource_here (h.tables n) source c hhere source (Or.inl rfl), hfits.linkOf_eq ha]

/-- No line finds a nick that is bad or taken, or an identifier that is. -/
theorem deliver_inv : ∃ r x', handle conf top n (net.server n) a l = some r ∧
    Inv G conf top opers owner x' (post (takeLine net a n rest) n r.1 r.2) := by
  cases l with
  | uid server id name tsinfo umodes info =>
    exact deliver_uid hfits h hq server id name tsinfo umodes info rfl
  | nick sender name tsinfo => exact deliver_sender hfits h hq sender rfl
  | mode sender target modes => exact deliver_sender hfits h hq sender rfl
  | away sender message => exact deliver_sender hfits h hq sender rfl
  | rchg sender realName => exact deliver_sender hfits h hq sender rfl
  | quit sender => exact deliver_sender hfits h hq sender rfl
  | killBy source target => exact deliver_killBy hfits h hq source target rfl
  | killFrom server target => exact deliver_killFrom hfits h hq server target rfl

end Deliver

end IrcdHybrid.UserDeliveries
