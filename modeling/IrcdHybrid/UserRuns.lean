import IrcdHybrid.UserDeliveries
import Mathlib.Combinatorics.SimpleGraph.Star

/-!
Runs of a network of servers. Whatever users and operators do, and in whatever order the links carry
the lines: once the links are empty, all servers know the same users, with the same data.
-/

namespace IrcdHybrid.UserRuns

open CString UserLines UserEcho UserNetwork UserStreams UserTables UserSteps UserDeliveries TreeLinks
open Flooding Function
open NickHistory (validNickname)
open MemberLists (startsWithDigit)

variable {S : Type*} [DecidableEq S] {G : SimpleGraph S} (conf : Conf) (top : Topology S)
  (opers : CStr → Prop) (owner : CStr → CStr)

/-- A nick is taken by its owner only; the text of RCHG fits into `hold` and is one that the others
let pass; and a kill is by one of those that may, of one that may not. -/
def Allowed (net : Net S) : Event S → Prop
  | .connect id c => owner (nameKey c.name) = id
  | .command id cmd => Passed ((net.server (top.home id)).locals id) cmd ∧
      ∀ nick now exemptResv tooFast, cmd = .nick nick now exemptResv tooFast →
        found (net.server (top.home id)) (copied conf nick) = none →
          owner (nameKey (copied conf nick)) = id
  | .kill _ source target => opers source ∧ ¬ opers target
  | .deliver _ _ => True

section Events

variable {conf top opers owner} {x : S → CStr → Presence} {net : Net S} {u : CStr}
variable (hfits : Fits G top) (h : Inv G conf top opers owner x net)

include hfits h

/-- The user's own server says a line about the user, and makes of it what the line does. -/
theorem own_said (l : Line S) (y : Presence)
    (hseen : Seen conf top opers owner u (x (top.home u) u) l y)
    (hc : concerns owner u l = true) (honly : ∀ v, v ≠ u → concerns owner v l = false)
    (hplain : ∀ k t, l ≠ .killBy k t) (hplain' : ∀ s t, l ≠ .killFrom s t) (s' : Server S)
    (htables : Matches top owner (top.home u) (update (x (top.home u)) u y) s')
    (hissued : ∀ v, update (x (top.home u)) u y v ≠ .absent → top.home v = top.home u →
      s'.issued v = true) :
    Inv G conf top opers owner (change x (top.home u) u y)
      (post net (top.home u) s' (sendtoServer top (top.home u) none l)) := by
  have htold := told_send hfits (top.home u) none l
  have hstep := post_step net (top.home u) s' (sendtoServer top (top.home u) none l)
  refine inv_of h hstep
    (htold.proper (fun k t hl => absurd hl (hplain k t)) fun m s t hl => absurd hl (hplain' s t)) u y
    (fun m hm => update_of_ne hm _ _) ?_ ?_ ?_ fun v hv => ?_
  · rw [show (post net (top.home u) s' _).server (top.home u) = s' from update_self ..]
    exact htables
  · rw [show (post net (top.home u) s' _).server (top.home u) = s' from update_self ..]
    exact hissued
  · exact flow_home hfits (h.flow u) (stream_step hstep u) (htold.filter _ hc) y hseen
  · refine flow_others h hstep v (fun m k hk => by simp at hk) fun m k hk => ?_
    rw [(htold.mem m k hk).1]
    exact honly v hv

omit hfits in
theorem own_silent (n : S) (u : CStr) (s' : Server S) (htables : Matches top owner n (x n) s')
    (hissued : s'.issued = (net.server n).issued) :
    Inv G conf top opers owner x (post net n s' []) := by
  have hstep := post_step net n s' []
  rw [← change_same x n u]
  refine inv_of h hstep ⟨fun m hm => absurd rfl hm, fun m k t hk => by simp [spoken] at hk,
    fun m s t hk => by simp [spoken] at hk⟩ u _ (fun m hm => update_of_ne hm _ _) ?_ ?_ ?_ fun v hv => ?_
  · rw [show (post net n s' []).server n = s' from update_self .., update_eq_self]
    exact htables
  · rw [show (post net n s' []).server n = s' from update_self .., update_eq_self, hissued]
    intro v hv hn
    subst hn
    exact h.issued v hv
  · rw [update_eq_self]
    exact flow_others h hstep u (fun m k hk => by simp at hk) fun m k hk => by simp [spoken] at hk
  · exact flow_others h hstep v (fun m k hk => by simp at hk) fun m k hk => by simp [spoken] at hk

theorem connect_inv (id : CStr) (c : UserLines.Client) (net' : Net S)
    (hallowed : owner (nameKey c.name) = id) (hstep : step conf top net (.connect id c) = some net') :
    ∃ x', Inv G conf top opers owner x' net' := by
  unfold step at hstep
  simp only at hstep
  split at hstep
  · next hok =>
    simp only [connectable, Bool.and_eq_true, decide_eq_true_eq, Bool.not_eq_true'] at hok
    obtain ⟨⟨⟨⟨⟨hid, hissued⟩, hnick⟩, hfree⟩, haway⟩, hinfo⟩ := hok
    have habsent : x (top.home id) id = .absent := by
      by_contra hnot
      rw [h.issued id hnot] at hissued
      simp at hissued
    have hgood : Good owner id c := ⟨⟨hnick, hinfo⟩, hallowed⟩
    have hconcerns : ∀ v, concerns owner v (introduction (top.home id) id c : Line S) = decide (id = v) :=
      fun v => rfl
    refine ⟨change x (top.home id) id (.here c), ?_⟩
    rw [← Option.some.inj hstep]
    refine own_said hfits h (introduction (top.home id) id c) _ ?_ ?_ ?_ (by simp [introduction])
      (by simp [introduction]) _ ?_ ?_
    · rw [habsent]
      exact .uid c hgood hid haway
    · rw [hconcerns]
      exact decide_eq_true rfl
    · intro v hv
      rw [hconcerns]
      exact decide_eq_false (Ne.symm hv)
    · refine matches_add (matches_locals top owner _ _ _ (h.tables _) _ _) id (fun c' => ?_) hid ⟨c, none⟩ ?_ hgood
      · rw [habsent]
        simp
      · exact (if_pos rfl).symm
    · intro v hv hn
      show update (net.server (top.home id)).issued id true v = true
      by_cases hvid : v = id
      · rw [hvid, update_self]
      · rw [update_of_ne hvid] at hv ⊢
        rw [← hn] at hv ⊢
        exact h.issued v hv
  · simp at hstep

omit [DecidableEq S] hfits h in
/-- A line about a user of the server itself, with the prefix that the server gives it. -/
theorem said_concerns (l : Line S) (sender : CStr) (hsender : senderOf l = some sender)
    (hsubject : subject owner sender = u) : concerns owner u l = true ∧
      (∀ v, v ≠ u → concerns owner v l = false) ∧ (∀ k t, l ≠ .killBy k t) ∧ ∀ s t, l ≠ .killFrom s t := by
  obtain ⟨hplain, hplain', -⟩ : _ ∧ _ ∧ ¬ Ends owner u l ∧ _ := sender_plain sender hsender
  refine ⟨?_, fun v hv => ?_, hplain, hplain'⟩
  · rw [concerns_sender owner u l sender hsender]
    exact decide_eq_true hsubject
  · rw [concerns_sender owner v l sender hsender, hsubject]
    exact decide_eq_false (Ne.symm hv)

omit hfits h in
variable (opers) in
/-- What a command of a user does and says, as the rules have it. -/
theorem own_seen {n : S} {has : CStr → Presence} {s : Server S} (htables : Matches top owner n has s)
    (id : CStr) (c : UserLines.Client) (hhere : has id = .here c) (l : Local) (cmd : Command)
    (hpassed : Passed l cmd)
    (hnick : ∀ nick now exemptResv tooFast, cmd = .nick nick now exemptResv tooFast →
      found s (copied conf nick) = none → owner (nameKey (copied conf nick)) = id)
    (line : Line S) (hline : (own conf (found s) l id c cmd : Local × Outcome S).2.line = some line) :
    let o : Outcome S := (own conf (found s) l id c cmd).2
    (∃ sender, senderOf line = some sender ∧ subject owner sender = id) ∧
      (∀ c', o.client = some c' → Good owner id c') ∧
      Seen conf top opers owner id (.here c) line (presence o.client) := by
  intro o
  have hgood := htables.good id c hhere
  have hid := htables.ids id (by simp [hhere])
  have hself : found s c.name = some id := (found_iff htables c.name id).mpr ⟨c, hhere, rfl⟩
  have hdigit := validUid_digit id hid
  have hsubject : subject owner id = id := if_pos hdigit
  have hnickSubject : subject owner c.name = id := by
    unfold subject
    rw [if_neg (by simp [validNickname_digit c.name hgood.fit.name])]
    exact hgood.nick
  have hsigns := own_signs conf l id c (found s) cmd line hline
  have hsender : ∃ sender, senderOf line = some sender ∧ (sender = id ∨ sender = c.name) := by
    cases line with
    | nick source nick ts => exact ⟨source, rfl, Or.inl hsigns.1⟩
    | mode source target modes => exact ⟨source, rfl, Or.inl hsigns⟩
    | away source message => exact ⟨source, rfl, Or.inl hsigns⟩
    | rchg source realName => exact ⟨source, rfl, Or.inr hsigns⟩
    | quit source => exact ⟨source, rfl, Or.inl hsigns⟩
    | uid server uid name tsinfo umodes info => exact hsigns.elim
    | killBy source target => exact hsigns.elim
    | killFrom server target => exact hsigns.elim
  obtain ⟨sender, hsender, hword⟩ := hsender
  have hsub : subject owner sender = id := by
    rcases hword with rfl | rfl
    · exact hsubject
    · exact hnickSubject
  have hmark : serverPrefix sender = false := by
    rcases hword with rfl | rfl
    · exact validUid_plain sender hid
    · exact nick_prefix c.name hgood.fit.name
  have hclient : ∀ c', o.client = some c' → Good owner id c' := by
    intro c' hc'
    obtain ⟨hfit, hname⟩ := own_settled conf l id c (found s) cmd hgood.fit c' hc'
    refine ⟨hfit, ?_⟩
    rcases hname with hname | ⟨ts, hts⟩
    · rw [hname]
      exact hgood.nick
    · obtain rfl : line = .nick id c'.name ts := Option.some.inj (hline.symm.trans hts)
      obtain ⟨-, hfree, nick, now, exemptResv, tooFast, hcmd, hcopied⟩ := hsigns
      rcases hfree with hfree | hfree
      · rw [hcopied] at hfree ⊢
        exact hnick nick now exemptResv tooFast hcmd hfree
      · exact found_owner htables c'.name id hfree
  refine ⟨⟨sender, hsender, hsub⟩, hclient, ?_⟩
  refine .said c line sender o.client hsender hword hmark hsub (fun found' hclear => ?_) hclient
  have hrelay := (relay_own conf l id c (found s) found' cmd hgood.fit hpassed hself fun nick ts hn =>
    hclear nick ts (Option.some.inj (hline.symm.trans hn))).2 line hline
  rw [hrelay, ← hline]

theorem command_inv (id : CStr) (cmd : Command) (net' : Net S)
    (hallowed : Allowed conf top opers owner net (.command id cmd))
    (hstep : step conf top net (.command id cmd) = some net') :
    ∃ x', Inv G conf top opers owner x' net' := by
  obtain ⟨hpassed, hnick⟩ := hallowed
  have htables := h.tables (top.home id)
  unfold step at hstep
  simp only at hstep
  split at hstep
  · simp at hstep
  next e he =>
  obtain ⟨c, link⟩ := e
  obtain ⟨hhere, hlink⟩ := (byId_eq_some htables id _).mp he
  have hhere : x (top.home id) id = .here c := hhere
  obtain rfl : link = linkOf top (top.home id) id := hlink
  have hseen := own_seen opers htables id c hhere _ cmd hpassed hnick
  have hquiet := (relay_own conf _ id c _ (fun _ => none) cmd (htables.good id c hhere).fit hpassed
    ((found_iff htables c.name id).mpr ⟨c, hhere, rfl⟩) fun _ _ _ => Or.inl rfl : _ ∧ ∀ line : Line S, _).1
  generalize own conf (found (net.server (top.home id))) ((net.server (top.home id)).locals id)
    id c cmd = r at hstep hseen hquiet
  obtain ⟨l, o⟩ := r
  have hlocals := matches_locals top owner _ _ _ htables
    (update (net.server (top.home id)).locals id l) (net.server (top.home id)).issued
  cases hline : o.line with
  | none =>
    refine ⟨x, ?_⟩
    have hclient : o.client = some c := hquiet hline
    rw [← Option.some.inj hstep, hline]
    refine own_silent h (top.home id) id _ ?_ ?_
    · have hput := matches_put hlocals id c hhere o.client fun c' hc' => by
        rw [hclient] at hc'
        exact Option.some.inj hc' ▸ htables.good id c hhere
      rw [hclient] at hput
      rw [hclient]
      rwa [show presence (some c) = x (top.home id) id from hhere.symm, update_eq_self] at hput
    · rw [hclient]
      rfl
  | some line =>
    obtain ⟨⟨sender, hsender, hsub⟩, hclient, hsaid⟩ := hseen line hline
    obtain ⟨hc, honly, hplain, hplain'⟩ := said_concerns line sender hsender hsub
    refine ⟨change x (top.home id) id (presence o.client), ?_⟩
    rw [← Option.some.inj hstep, hline]
    refine own_said hfits h line _ (hhere ▸ hsaid) hc honly hplain hplain' _
      (matches_put hlocals id c hhere o.client hclient) fun v hv hn => ?_
    have hissued : (net.server (top.home id)).issued v = true := by
      rw [← hn]
      refine h.issued v ?_
      rw [hn]
      by_cases hvid : v = id
      · rw [hvid, hhere]
        simp
      · rwa [update_of_ne hvid] at hv
    cases o.client <;> exact hissued

/-- An operator kills a user of the operator's own server. -/
theorem kill_here (target : CStr) (e : Entry S) (hhere : x (top.home target) target = .here e.client) :
    Inv G conf top opers owner (change x (top.home target) target .gone)
      (post net (top.home target) (dropUser (net.server (top.home target)) target e)
        (sendtoServer top (top.home target) none (.quit target))) := by
  have htables := h.tables (top.home target)
  have hid := htables.ids target (by simp [hhere])
  have hsub : subject owner target = target := if_pos (validUid_digit target hid)
  obtain ⟨hc, honly, hplain, hplain'⟩ :=
    said_concerns (.quit target : Line S) target rfl hsub
  refine own_said hfits h (.quit target) _ ?_ hc honly hplain hplain' _
    (matches_drop htables target e.client hhere e rfl) fun v hv hn => ?_
  · rw [hhere]
    exact .said e.client _ target none rfl (Or.inl rfl) (validUid_plain target hid) hsub
      (fun found _ => rfl) (by simp)
  · show (net.server (top.home target)).issued v = true
    rw [← hn]
    refine h.issued v ?_
    rw [hn]
    by_cases hvt : v = target
    · rw [hvt, hhere]
      simp
    · rwa [update_of_ne hvt] at hv

/-- An operator kills a user of another server: all neighbours are told, also the one the user is
behind. -/
theorem kill_there (source target : CStr) (hoper : opers source) (hmortal : ¬ opers target)
    (ek e : Entry S) (hkiller : x (top.home source) source = .here ek.client)
    (hhere : x (top.home source) target = .here e.client) :
    Inv G conf top opers owner (change x (top.home source) target .gone)
      (post net (top.home source) (dropUser (net.server (top.home source)) target e)
        (sendtoServer top (top.home source) none (.killBy source target))) := by
  have htables := h.tables (top.home source)
  have hne : source ≠ target := by
    rintro rfl
    exact hmortal hoper
  have hself : subject owner target = target :=
    if_pos (validUid_digit target (htables.ids target (by simp [hhere])))
  have hkill : KillLine owner target (.killBy source : CStr → Line S) := killLine_user source hne
  have htold := told_send hfits (top.home source) none (.killBy source target : Line S)
  have hstep := post_step net (top.home source) (dropUser (net.server (top.home source)) target e)
    (sendtoServer top (top.home source) none (.killBy source target))
  refine inv_of h hstep (htold.proper (fun k t hk => ?_) fun m s t hk => by simp at hk) target .gone
    (fun m hm => update_of_ne hm _ _) ?_ ?_ ?_ fun v hv => ?_
  · obtain ⟨rfl, rfl⟩ := Line.killBy.inj hk
    rw [hself]
    exact ⟨hoper, hmortal⟩
  · rw [show (post net _ (dropUser (net.server (top.home source)) target e) _).server (top.home source) =
      dropUser (net.server (top.home source)) target e from update_self ..]
    exact matches_drop htables target e.client hhere e rfl
  · rw [show (post net _ (dropUser (net.server (top.home source)) target e) _).server (top.home source) =
      dropUser (net.server (top.home source)) target e from update_self ..]
    intro v hv hn
    show (net.server (top.home source)).issued v = true
    rw [← hn]
    refine h.issued v ?_
    rw [hn]
    by_cases hvt : v = target
    · rw [hvt, hhere]
      simp
    · rwa [update_of_ne hvt] at hv
  · have htold' := htold.filter _ (hkill.hears target hself)
    refine flow_kill (l := Line.killBy source target) (h.flow target) (stream_step hstep target) hmortal
      (hkill.kills hself) ?_ (fun m hm => Or.inl (htold'.hears m hm (by simp))) fun m hm => rfl
    show x (top.home source) target ≠ .absent ∧ x (top.home source) target ≠ .gone
    rw [hhere]
    simp
  · by_cases hvs : v = source
    · subst hvs
      have hsays : concerns owner v (.killBy v target : Line S) = true := by
        show (decide (v = v) || _) = true
        rw [decide_eq_true rfl, Bool.true_or]
      have hflow := flow_home hfits (h.flow v) (stream_step hstep v) (htold.filter _ hsays)
        (x (top.home v) v) (by rw [hkiller]; exact .kills ek.client target hoper)
      rwa [update_eq_self] at hflow
    · refine flow_others h hstep v (fun m k hk => by simp at hk) fun m k hk => ?_
      rw [(htold.mem m k hk).1]
      show (decide (source = v) || decide (subject owner target = v)) = false
      rw [hself, decide_eq_false (Ne.symm hvs), decide_eq_false (Ne.symm hv), Bool.or_false]

omit hfits h in
theorem linkOf_none (n : S) (u : CStr) (h : linkOf top n u = none) : n = top.home u := by
  unfold linkOf at h
  split at h
  · assumption
  · simp at h

theorem kill_inv (n : S) (source target : CStr) (net' : Net S) (hoper : opers source)
    (hmortal : ¬ opers target) (hstep : step conf top net (.kill n source target) = some net') :
    ∃ x', Inv G conf top opers owner x' net' := by
  have htables := h.tables n
  obtain ⟨r, hr, hnet⟩ := Option.map_eq_some_iff.mp hstep
  unfold moKill at hr
  split at hr
  · next ek e hek he =>
    obtain ⟨hkiller, hlink⟩ := (byId_eq_some htables source ek).mp hek
    obtain ⟨hhere, hlink'⟩ := (byId_eq_some htables target e).mp he
    split at hr
    · next hright =>
      obtain rfl := linkOf_none n source (hlink.symm.trans hright.1)
      rw [← hnet, ← Option.some.inj hr]
      by_cases hlocal : e.link = none
      · have hhome := linkOf_none _ target (hlink'.symm.trans hlocal)
        refine ⟨change x (top.home source) target .gone, ?_⟩
        rw [if_pos hlocal]
        rw [hhome] at hhere ⊢
        exact kill_here hfits h target e hhere
      · refine ⟨change x (top.home source) target .gone, ?_⟩
        rw [if_neg hlocal]
        exact kill_there hfits h source target hoper hmortal ek e hkiller hhere
    · simp at hr
  · simp at hr

theorem step_inv (event : Event S) (net' : Net S) (hallowed : Allowed conf top opers owner net event)
    (hstep : step conf top net event = some net') : ∃ x', Inv G conf top opers owner x' net' := by
  cases event with
  | connect id c => exact connect_inv hfits h id c net' hallowed hstep
  | command id cmd => exact command_inv hfits h id cmd net' hallowed hstep
  | kill n source target => exact kill_inv hfits h n source target net' hallowed.1 hallowed.2 hstep
  | deliver a b =>
    unfold step at hstep
    simp only at hstep
    split at hstep
    · simp at hstep
    · next l rest hq =>
      obtain ⟨r, hr, hnet⟩ := Option.map_eq_some_iff.mp hstep
      obtain ⟨r', x', hr', hinv⟩ := deliver_inv hfits h hq
      obtain rfl : r' = r := Option.some.inj (hr'.symm.trans hr)
      rw [← hnet]
      exact ⟨x', hinv⟩

end Events

/-- The networks that runs come to. -/
inductive Reached : Net S → Prop
  | start : Reached start
  | step {net net' : Net S} (event : Event S) (hrun : Reached net)
      (hallowed : Allowed conf top opers owner net event)
      (hstep : step conf top net event = some net') : Reached net'

variable {conf top opers owner} {net : Net S}

theorem start_inv : Inv G conf top opers owner (fun _ _ => .absent) (start : Net S) := by
  refine ⟨fun n => ⟨fun u => rfl, fun k u => ?_, fun u c hc => by simp at hc, fun u hu => absurd rfl hu⟩,
    fun u hu => absurd rfl hu, fun a b hq => absurd rfl hq, fun a b k t hk => by simp [start] at hk,
    fun a b s t hk => by simp [start] at hk, fun u => ⟨fun a b hab => ?_, fun a b hab l hl => ?_⟩⟩
  · simp [start]
  · exact ⟨.absent, rfl, Or.inl rfl⟩
  · simp [stream, start] at hl

theorem reached_inv (hfits : Fits G top) (hrun : Reached conf top opers owner net) :
    ∃ x, Inv G conf top opers owner x net := by
  induction hrun with
  | start => exact ⟨_, start_inv⟩
  | step event hrun hallowed hstep ih =>
    obtain ⟨x, hx⟩ := ih
    exact step_inv hfits hx event _ hallowed hstep

/-- The same users, with the same nick, time, modes, away text and real name, and a nick leads to the
same one of them. -/
def SameUsers (s s' : Server S) : Prop :=
  (∀ u, (s.byId u).map Entry.client = (s'.byId u).map Entry.client) ∧
    ∀ nick, found s nick = found s' nick

section Now

variable {x : S → CStr → Presence} (hfits : Fits G top) (h : Inv G conf top opers owner x net)

include hfits h

theorem same_users (hquiet : ∀ a b, net.queue a b = []) (m n : S) :
    SameUsers (net.server m) (net.server n) := by
  have hempty : ∀ u a b, stream owner net.queue u a b = [] := by
    intro u a b
    show (net.queue a b).filter _ = []
    rw [hquiet, List.filter_nil]
  have hsame : ∀ u, x m u = x n u := fun u =>
    (flow_quiet hfits.tree (h.flow u) (hempty u) m).trans
      (flow_quiet hfits.tree (h.flow u) (hempty u) n).symm
  refine ⟨fun u => ?_, fun nick => ?_⟩
  · rw [(h.tables m).known u, (h.tables n).known u, hsame u]
    cases x n u <;> rfl
  · ext u
    rw [found_iff (h.tables m), found_iff (h.tables n), hsame u]

theorem deliver_some (a b : S) (hline : net.queue a b ≠ []) :
    ∃ net', step conf top net (.deliver a b) = some net' := by
  obtain ⟨l, rest, hq⟩ := List.exists_cons_of_ne_nil hline
  obtain ⟨r, x', hr, -⟩ := deliver_inv hfits h hq
  refine ⟨post (takeLine net a b rest) b r.1 r.2, ?_⟩
  unfold step
  simp only
  rw [hq]
  show Option.map _ (handle conf top b (net.server b) a l) = _
  rw [hr]
  rfl

end Now

/-- Once nothing is under way, a user that one server knows is known to all of them. -/
theorem servers_agree (hfits : Fits G top) (hrun : Reached conf top opers owner net)
    (hquiet : ∀ a b, net.queue a b = []) (m n : S) : SameUsers (net.server m) (net.server n) := by
  obtain ⟨x, h⟩ := reached_inv hfits hrun
  exact same_users hfits h hquiet m n

/-- Three servers, of which one has links to the others, and the users are on one of these. -/
def hubTop : Topology (Option Bool) where
  neighbours n := if n = none then [some false, some true] else [none]
  route o n := if n = none then o else none
  home _ := some false

theorem hubTop_fits : Fits (SimpleGraph.starGraph (none : Option Bool)) hubTop where
  tree := SimpleGraph.isTree_starGraph none
  links := by decide
  nodup := by decide
  route o n hne := by
    have htree := SimpleGraph.isTree_starGraph (none : Option Bool)
    unfold hubTop
    simp only
    split
    · next hn =>
      subst hn
      exact nearer_self htree (SimpleGraph.starGraph_center_adj' hne)
    · next hn =>
      refine nearer_of_not htree o (SimpleGraph.starGraph_center_adj' (Ne.symm hn)) fun hnear => ?_
      have hshort : (SimpleGraph.starGraph (none : Option Bool)).dist o none ≤ 1 := by
        by_cases ho : o = none
        · rw [ho, SimpleGraph.dist_self]
          exact Nat.zero_le 1
        · exact (SimpleGraph.dist_eq_one_iff_adj.mpr (SimpleGraph.starGraph_center_adj' (Ne.symm ho))).le
      have hzero : (SimpleGraph.starGraph (none : Option Bool)).dist o n = 0 := by
        have hlt := hnear.2
        omega
      exact hne (htree.connected.dist_eq_zero_iff.mp hzero).symm

def plainConf : Conf where
  user := ⟨∅, ∅, false, by decide⟩
  maxNickLength := 30
  resv _ := false
  operOnlyPlain := by decide
  operPlain := by decide

def aliceId : CStr := "1AAAAAAAA".toList

def alice : UserLines.Client := ⟨"alice".toList, 100, {.invisible}, [], "Alice".toList⟩

theorem Reached.next (event : Event S) (hrun : Reached conf top opers owner net)
    (hallowed : Allowed conf top opers owner net event)
    (hsome : (UserNetwork.step conf top net event).isSome = true) :
    Reached conf top opers owner ((UserNetwork.step conf top net event).get hsome) :=
  .step event hrun hallowed (Option.some_get hsome).symm

theorem alice_known : ∃ net : Net (Option Bool),
    (((net.server (some true)).byId aliceId).map fun e => (e.client.name, e.client.away)) =
      some ("alice".toList, "tea".toList) ∧
    ((net.server (some true)).byId aliceId).map Entry.client = ((net.server (some false)).byId aliceId).map Entry.client := by
  have h0 : Reached plainConf hubTop (fun _ => False) (fun _ => aliceId) start := .start
  have h1 := h0.next (.connect aliceId alice) rfl (by decide +kernel)
  have h2 := h1.next (.command aliceId (.away "tea".toList false)) ⟨trivial, by simp⟩ (by decide +kernel)
  have h3 := h2.next (.deliver (some false) none) trivial (by decide +kernel)
  have h4 := h3.next (.deliver (some false) none) trivial (by decide +kernel)
  have h5 := h4.next (.deliver none (some true)) trivial (by decide +kernel)
  have h6 := h5.next (.deliver none (some true)) trivial (by decide +kernel)
  refine ⟨_, ?_, (servers_agree hubTop_fits h6 ?_ (some true) (some false)).1 aliceId⟩
  · decide +kernel
  · intro a b
    rw [← List.isEmpty_iff]
    revert a b
    decide +kernel

/-- A line is never one that a server cannot read: no nick or identifier in it is somebody else's,
and no unknown prefix looks like a server's. -/
theorem line_taken (hfits : Fits G top) (hrun : Reached conf top opers owner net) (a b : S)
    (hline : net.queue a b ≠ []) : ∃ net', step conf top net (.deliver a b) = some net' := by
  obtain ⟨x, h⟩ := reached_inv hfits hrun
  exact deliver_some hfits h a b hline

theorem alice_taken : ∃ net : Net (Option Bool), (net.queue (some false) none).length = 1 ∧
    ∃ net', step plainConf hubTop net (.deliver (some false) none) = some net' := by
  have h0 : Reached plainConf hubTop (fun _ => False) (fun _ => aliceId) start := .start
  have h1 := h0.next (.connect aliceId alice) rfl (by decide +kernel)
  have hone : ∃ l, ((step plainConf hubTop start (.connect aliceId alice)).get
      (by decide +kernel)).queue (some false) none = [l] := List.length_eq_one_iff.mp (by decide +kernel)
  obtain ⟨l, hl⟩ := hone
  exact ⟨_, congrArg List.length hl, line_taken hubTop_fits h1 (some false) none (by rw [hl]; simp)⟩

end IrcdHybrid.UserRuns
