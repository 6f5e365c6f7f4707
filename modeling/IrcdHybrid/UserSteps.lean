import IrcdHybrid.UserTables

/-!
What the servers and their queues keep while users come, act and leave. For every user, the lines
about it on a link lead from what the farther server has of it to what the nearer one has.
-/

namespace IrcdHybrid.UserSteps

open CString UserLines UserEcho UserNetwork UserStreams UserTables TreeLinks Flooding Function
open NickHistory (validNickname)
open MemberLists (startsWithDigit)

variable {S : Type*} [DecidableEq S] {G : SimpleGraph S} {conf : Conf} {top : Topology S}

/-- The links are those of a tree, and a server has every other one from its side of the tree. -/
structure Fits (G : SimpleGraph S) (top : Topology S) : Prop where
  tree : G.IsTree
  links : ∀ a b, b ∈ top.neighbours a ↔ G.Adj a b
  nodup : ∀ a, (top.neighbours a).Nodup
  route : ∀ o n, n ≠ o → Nearer G o (top.route o n) n

omit [DecidableEq S] in
theorem Fits.route_eq (h : Fits G top) {o a n : S} (ha : Nearer G o a n) : top.route o n = a :=
  nearer_unique h.tree (h.route o n ha.ne) ha

theorem Fits.linkOf_eq (h : Fits G top) {u : CStr} {a n : S} (ha : Nearer G (top.home u) a n) :
    linkOf top n u = some a := by
  unfold linkOf
  rw [if_neg ha.ne, h.route_eq ha]

/-- What is said to one neighbour. -/
def spoken (out : List (S × Line S)) (m : S) : List (Line S) :=
  (out.filter fun o => o.1 = m).map Prod.snd

theorem spoken_single (a m : S) (l : Line S) : spoken [(a, l)] m = if m = a then [l] else [] := by
  unfold spoken
  by_cases h : m = a
  · simp [h]
  · simp [h, Ne.symm h]

/-- A line goes to all neighbours but one. -/
structure Told (G : SimpleGraph S) (n : S) (one : Option S) (l : Line S) (said : S → List (Line S)) :
    Prop where
  hears : ∀ m, G.Adj n m → some m ≠ one → said m = [l]
  silent : ∀ m, ¬ (G.Adj n m ∧ some m ≠ one) → said m = []

theorem spoken_map (ms : List S) (hms : ms.Nodup) (l : Line S) (m : S) :
    spoken (ms.map fun m => (m, l)) m = if m ∈ ms then [l] else [] := by
  induction ms with
  | nil => rfl
  | cons k ms ih =>
    rw [List.nodup_cons] at hms
    have hih := ih hms.2
    unfold spoken at hih ⊢
    by_cases hk : k = m
    · subst hk
      rw [if_neg hms.1] at hih
      simp [hih]
    · simp [hk, hih, Ne.symm hk]

theorem told_send (h : Fits G top) (n : S) (one : Option S) (l : Line S) :
    Told G n one l (spoken (sendtoServer top n one l)) := by
  have hmem : ∀ m, (m ∈ (top.neighbours n).filter fun m => some m ≠ one) ↔
      G.Adj n m ∧ some m ≠ one := by
    intro m
    rw [List.mem_filter, h.links n m]
    simp
  have hnodup := (h.nodup n).filter fun m => decide (some m ≠ one)
  refine ⟨fun m hm hone => ?_, fun m hm => ?_⟩
  · exact (spoken_map _ hnodup l m).trans (if_pos ((hmem m).mpr ⟨hm, hone⟩))
  · exact (spoken_map _ hnodup l m).trans (if_neg fun hin => hm ((hmem m).mp hin))

theorem post_step (net : Net S) (n : S) (s : Server S) (out : List (S × Line S)) :
    NodeStep net.queue (post net n s out).queue n (fun _ => []) (spoken out) := by
  refine ⟨fun m hm => ?_, fun m => ?_, fun a b ha hb => ?_⟩
  · show net.queue m n = [] ++ if m = n then _ else net.queue m n
    rw [if_neg hm, List.nil_append]
  · exact if_pos rfl
  · exact if_neg ha

theorem deliver_step (net : Net S) (a n : S) (hne : a ≠ n) (l : Line S) (rest : List (Line S))
    (hq : net.queue a n = l :: rest) (s : Server S) (out : List (S × Line S)) :
    NodeStep net.queue (post (takeLine net a n rest) n s out).queue n
      (fun m => if m = a then [l] else []) (spoken out) := by
  refine ⟨fun m hm => ?_, fun m => ?_, fun c d hc hd => ?_⟩
  · show net.queue m n = _ ++ if m = n then _ else if m = a ∧ n = n then rest else net.queue m n
    rw [if_neg hm]
    by_cases hma : m = a
    · simp [hma, hq]
    · simp [hma]
  · show (if n = n then (if n = a ∧ m = n then rest else net.queue n m) ++ _ else _) = _
    rw [if_pos rfl, if_neg fun h => hne h.1.symm]
    rfl
  · show (if c = n then _ else if c = a ∧ d = n then rest else net.queue c d) = _
    rw [if_neg hc, if_neg fun h => hd h.2]

/-- Who has what, when one server has something else of one user. -/
def change (x : S → CStr → Presence) (n : S) (u : CStr) (y : Presence) : S → CStr → Presence :=
  update x n (update (x n) u y)

theorem change_user (x : S → CStr → Presence) (n : S) (u : CStr) (y : Presence) :
    (fun m => change x n u y m u) = update (fun m => x m u) n y := by
  funext m
  unfold change
  by_cases hm : m = n
  · subst hm
    rw [update_self, update_self, update_self]
  · rw [update_of_ne hm, update_of_ne hm]

theorem change_other (x : S → CStr → Presence) (n : S) (u v : CStr) (y : Presence) (hv : v ≠ u) :
    (fun m => change x n u y m v) = fun m => x m v := by
  funext m
  unfold change
  by_cases hm : m = n
  · subst hm
    rw [update_self, update_of_ne hv]
  · rw [update_of_ne hm]

theorem change_same (x : S → CStr → Presence) (n : S) (u : CStr) : change x n u (x n u) = x := by
  unfold change
  rw [update_eq_self, update_eq_self]

variable (G conf top) (opers : CStr → Prop) (owner : CStr → CStr)

/-- The lines that concern a user. -/
def stream (q : S → S → List (Line S)) (u : CStr) (a b : S) : List (Line S) :=
  (q a b).filter (concerns owner u)

/-- The servers have what `x` says; a nick leads to its owner only, and only those that may kill
others do. -/
structure Inv (x : S → CStr → Presence) (net : Net S) : Prop where
  tables : ∀ n, Matches top owner n (x n) (net.server n)
  issued : ∀ u, x (top.home u) u ≠ .absent → (net.server (top.home u)).issued u = true
  links : ∀ a b, net.queue a b ≠ [] → G.Adj a b
  killers : ∀ a b k t, .killBy k t ∈ net.queue a b → opers k ∧ ¬ opers (subject owner t)
  origin : ∀ a b s t, .killFrom s t ∈ net.queue a b → Nearer G s a b
  flow : ∀ u, Flow (rules conf top opers owner u) G (top.home u) (fun n => x n u)
    (stream owner net.queue u)

/-- What one server says has to be said rightly. -/
structure Proper (n : S) (said : S → List (Line S)) : Prop where
  links : ∀ m, said m ≠ [] → G.Adj n m
  killers : ∀ m k t, .killBy k t ∈ said m → opers k ∧ ¬ opers (subject owner t)
  origin : ∀ m s t, .killFrom s t ∈ said m → Nearer G s n m

section Step

variable {G conf top opers owner}
variable {x : S → CStr → Presence} {net net' : Net S} {n : S} {taken said : S → List (Line S)}

theorem inv_of (h : Inv G conf top opers owner x net)
    (hstep : NodeStep net.queue net'.queue n taken said) (hsaid : Proper G opers owner n said)
    (u : CStr) (y : Presence) (hothers : ∀ m, m ≠ n → net'.server m = net.server m)
    (htables : Matches top owner n (update (x n) u y) (net'.server n))
    (hissued : ∀ v, update (x n) u y v ≠ .absent → top.home v = n → (net'.server n).issued v = true)
    (hflow : Flow (rules conf top opers owner u) G (top.home u) (update (fun m => x m u) n y)
      (stream owner net'.queue u))
    (hidle : ∀ v, v ≠ u → Flow (rules conf top opers owner v) G (top.home v) (fun m => x m v)
      (stream owner net'.queue v)) :
    Inv G conf top opers owner (change x n u y) net' := by
  refine ⟨fun m => ?_, fun v hv => ?_, fun a b hq => ?_, fun a b k t hk => ?_, fun a b s t hk => ?_,
    fun v => ?_⟩
  · unfold change
    by_cases hm : m = n
    · subst hm
      rw [update_self]
      exact htables
    · rw [update_of_ne hm, hothers m hm]
      exact h.tables m
  · unfold change at hv
    by_cases hn : top.home v = n
    · rw [hn, update_self] at hv
      rw [hn]
      exact hissued v hv hn
    · rw [update_of_ne hn] at hv
      rw [hothers _ hn]
      exact h.issued v hv
  · obtain ⟨l, hl⟩ := List.exists_mem_of_ne_nil _ hq
    rcases hstep.mem l hl with hl | ⟨rfl, hl⟩
    · exact h.links a b (List.ne_nil_of_mem hl)
    · exact hsaid.links b (List.ne_nil_of_mem hl)
  · rcases hstep.mem _ hk with hk | ⟨rfl, hk⟩
    · exact h.killers a b k t hk
    · exact hsaid.killers b k t hk
  · rcases hstep.mem _ hk with hk | ⟨rfl, hk⟩
    · exact h.origin a b s t hk
    · exact hsaid.origin b s t hk
  · by_cases hv : v = u
    · subst hv
      rw [change_user]
      exact hflow
    · rw [change_other x n u v y hv]
      exact hidle v hv

omit [DecidableEq S] in
theorem stream_step (hstep : NodeStep net.queue net'.queue n taken said) (u : CStr) :
    NodeStep (stream owner net.queue u) (stream owner net'.queue u) n
      (fun m => (taken m).filter (concerns owner u)) fun m => (said m).filter (concerns owner u) :=
  hstep.filter (concerns owner u)

theorem flow_others (h : Inv G conf top opers owner x net)
    (hstep : NodeStep net.queue net'.queue n taken said) (v : CStr)
    (htaken : ∀ m, ∀ l ∈ taken m, concerns owner v l = false)
    (hsaid : ∀ m, ∀ l ∈ said m, concerns owner v l = false) :
    Flow (rules conf top opers owner v) G (top.home v) (fun m => x m v)
      (stream owner net'.queue v) := by
  have hnone : ∀ ls : List (Line S), (∀ l ∈ ls, concerns owner v l = false) →
      ls.filter (concerns owner v) = [] := by
    intro ls hls
    rw [List.filter_eq_nil_iff]
    intro l hl
    simp [hls l hl]
  exact flow_idle (h.flow v) (stream_step hstep v) (fun m => hnone _ (htaken m))
    fun m => hnone _ (hsaid m)

end Step

section Lines

variable {G conf top opers owner}
variable {x : S → CStr → Presence} {net net' : Net S} {a n : S} {taken said : S → List (Line S)}
  {one : Option S} {l : Line S} {u : CStr}

omit [DecidableEq S] in
theorem Told.mem (h : Told G n one l said) (m : S) (k : Line S) (hk : k ∈ said m) :
    k = l ∧ G.Adj n m ∧ some m ≠ one := by
  by_cases hm : G.Adj n m ∧ some m ≠ one
  · rw [h.hears m hm.1 hm.2, List.mem_singleton] at hk
    exact ⟨hk, hm⟩
  · rw [h.silent m hm] at hk
    simp at hk

omit [DecidableEq S] in
theorem Told.filter (h : Told G n one l said) (c : Line S → Bool) (hl : c l = true) :
    Told G n one l fun m => (said m).filter c := by
  refine ⟨fun m hm hone => ?_, fun m hm => ?_⟩
  · show (said m).filter c = [l]
    rw [h.hears m hm hone, List.filter_cons_of_pos hl, List.filter_nil]
  · show (said m).filter c = []
    rw [h.silent m hm, List.filter_nil]

omit [DecidableEq S] in
theorem Told.proper (h : Told G n one l said)
    (hkill : ∀ k t, l = .killBy k t → opers k ∧ ¬ opers (subject owner t))
    (horigin : ∀ m s t, l = .killFrom s t → G.Adj n m → some m ≠ one → Nearer G s n m) :
    Proper G opers owner n said := by
  refine ⟨fun m hm => ?_, fun m k t hk => ?_, fun m s t hk => ?_⟩
  · obtain ⟨k, hk⟩ := List.exists_mem_of_ne_nil _ hm
    exact (h.mem m k hk).2.1
  · exact hkill k t (h.mem m _ hk).1.symm
  · obtain ⟨hl, hadj, hone⟩ := h.mem m _ hk
    exact horigin m s t hl.symm hadj hone

omit [DecidableEq S] in
/-- Of the neighbours of a server, all but the one that is nearer are farther. -/
theorem Fits.farther (h : Fits G top) {o m : S} (ha : Nearer G o a n) :
    Nearer G o n m ↔ G.Adj n m ∧ some m ≠ some a := by
  constructor
  · intro hm
    refine ⟨hm.adj, fun heq => ?_⟩
    rw [Option.some.inj heq] at hm
    exact hm.asymm ha
  · rintro ⟨hadj, hne⟩
    refine nearer_of_not h.tree o hadj.symm fun hm => hne ?_
    rw [nearer_unique h.tree hm ha]

omit [DecidableEq S] in
theorem Fits.farther_home (h : Fits G top) {o m : S} :
    Nearer G o o m ↔ G.Adj o m ∧ some m ≠ none := by
  constructor
  · intro hm
    exact ⟨hm.adj, by simp⟩
  · rintro ⟨hadj, -⟩
    exact nearer_self h.tree hadj

/-- What comes from the nearer neighbour, is believed and goes on. -/
theorem flow_down (hfits : Fits G top) {x : S → Presence} {q q' : S → S → List (Line S)}
    (h : Flow (rules conf top opers owner u) G (top.home u) x q) (ha : Nearer G (top.home u) a n)
    (hstep : NodeStep q q' n taken said) (htaken : ∀ m, m ≠ a → taken m = [])
    (hsaid : Told G n (some a) l said) (y : Presence)
    (hseen : Seen conf top opers owner u (x n) l y)
    (hcome : ∃ p, Followed (rules conf top opers owner u) y (q' a n) p ∧
      (p = x a ∨ Crossing (rules conf top opers owner u) x q a n)) :
    Flow (rules conf top opers owner u) G (top.home u) (update x n y) q' := by
  refine flow_advance h hstep y hseen (fun a' ha' => ?_) (fun m hm => ?_) (fun m hm => ?_) fun m hm => ?_
  · rw [nearer_unique hfits.tree ha' ha]
    exact hcome
  · refine htaken m ?_
    rintro rfl
    exact hm ha
  · rw [hfits.farther ha] at hm
    exact hsaid.hears m hm.1 hm.2
  · rw [hfits.farther ha] at hm
    exact hsaid.silent m hm

theorem flow_home (hfits : Fits G top) {x : S → Presence} {q q' : S → S → List (Line S)}
    (h : Flow (rules conf top opers owner u) G (top.home u) x q)
    (hstep : NodeStep q q' (top.home u) (fun _ => []) said)
    (hsaid : Told G (top.home u) none l said) (y : Presence)
    (hseen : Seen conf top opers owner u (x (top.home u)) l y) :
    Flow (rules conf top opers owner u) G (top.home u) (update x (top.home u) y) q' := by
  refine flow_advance h hstep y hseen (fun a ha => ?_) (fun m hm => rfl) (fun m hm => ?_) fun m hm => ?_
  · exact absurd ha not_nearer_self
  · rw [hfits.farther_home] at hm
    exact hsaid.hears m hm.1 hm.2
  · rw [hfits.farther_home] at hm
    exact hsaid.silent m hm

end Lines

end IrcdHybrid.UserSteps
