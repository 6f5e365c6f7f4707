import IrcdHybrid.TreeLinks
import Mathlib.Logic.Function.Basic

/-!
A record that one node of a tree keeps and tells all the others about, over links that keep the
order. Every node tells on what it is told, away from where it came from. Besides, any node may put
an end to the record and tell all its neighbours; two such ends may cross, and cross with what the
owner still says. While anything is under way, the lines on a link lead from what the far end has
to what the near end has, or the far end has ended it and the near end is still to hear of it.
-/

namespace IrcdHybrid.Flooding

open TreeLinks

variable {S L P : Type*}

/-- What a node has before it hears of the record and after its end; what a line makes of it; and
the lines that end it, of which `ends` are those that are said again when it is over. `mortal` says
whether others than the owner may. -/
structure Rules (L P : Type*) where
  absent : P
  gone : P
  seen : P → L → P → Prop
  kill : L → Prop
  ends : L → Prop
  mortal : Prop
  not_absent : ∀ p l p', seen p l p' → p' ≠ absent
  stays : ∀ l p', seen gone l p' → p' = gone
  late : ∀ p l p', seen p l p' → p ≠ absent → mortal → seen gone l gone
  killed : ∀ p l, kill l → p ≠ absent → mortal → seen p l gone
  kill_ends : ∀ l, kill l → ends l
  distinct : gone ≠ absent

variable (R : Rules L P)

/-- The lines lead from one to the other. -/
def Followed : P → List L → P → Prop
  | p, [], p' => p = p'
  | p, l :: ls, p' => ∃ mid, R.seen p l mid ∧ Followed mid ls p'

theorem followed_append (p p' : P) (ls ls' : List L) :
    Followed R p (ls ++ ls') p' ↔ ∃ mid, Followed R p ls mid ∧ Followed R mid ls' p' := by
  induction ls generalizing p with
  | nil => simp [Followed]
  | cons l ls ih =>
    simp only [List.cons_append, Followed, ih]
    constructor
    · rintro ⟨mid, hl, next, h, h'⟩
      exact ⟨next, ⟨mid, hl, h⟩, h'⟩
    · rintro ⟨next, ⟨mid, hl, h⟩, h'⟩
      exact ⟨mid, hl, next, h, h'⟩

theorem followed_snoc (p p' p'' : P) (ls : List L) (l : L) (h : Followed R p ls p')
    (hl : R.seen p' l p'') : Followed R p (ls ++ [l]) p'' :=
  (followed_append R p p'' ls [l]).mpr ⟨p', h, p'', hl, rfl⟩

theorem followed_gone (ls : List L) (p' : P) (h : Followed R R.gone ls p') : p' = R.gone := by
  induction ls with
  | nil => exact h.symm
  | cons l ls ih =>
    obtain ⟨mid, hl, hrest⟩ := h
    rw [R.stays l mid hl] at hrest
    exact ih hrest

theorem followed_absent (ls : List L) (p : P) (h : Followed R p ls R.absent) :
    p = R.absent ∧ ls = [] := by
  induction ls generalizing p with
  | nil => exact ⟨h, rfl⟩
  | cons l ls ih =>
    obtain ⟨mid, hl, hrest⟩ := h
    exact absurd (ih mid hrest).1 (R.not_absent p l mid hl)

theorem followed_not_absent (ls : List L) (p p' : P) (hp : p ≠ R.absent) (h : Followed R p ls p') :
    p' ≠ R.absent := by
  rintro rfl
  exact hp (followed_absent R ls p h).1

/-- Whoever has ended it may still hear what was said before. -/
theorem followed_late (ls : List L) (p p' : P) (h : Followed R p ls p') (hp : p ≠ R.absent)
    (hmortal : R.mortal) : Followed R R.gone ls R.gone := by
  induction ls generalizing p with
  | nil => rfl
  | cons l ls ih =>
    obtain ⟨mid, hl, hrest⟩ := h
    exact ⟨R.gone, R.late p l mid hl hp hmortal, ih mid hrest (R.not_absent p l mid hl)⟩

/-- The near end `a` of a link is still to hear that the far end `b` has ended the record. -/
def Crossing (x : S → P) (q : S → S → List L) (a b : S) : Prop :=
  x b = R.gone ∧ x a ≠ R.absent ∧ R.mortal ∧ ∃ l ∈ q b a, R.kill l

/-- The lines about the record on the links of the tree, and what the nodes have. -/
structure Flow (G : SimpleGraph S) (home : S) (x : S → P) (q : S → S → List L) : Prop where
  down : ∀ a b, Nearer G home a b → ∃ p, Followed R (x b) (q a b) p ∧ (p = x a ∨ Crossing R x q a b)
  up : ∀ a b, Nearer G home a b → ∀ l ∈ q b a, x b = R.gone ∧ R.mortal ∧ R.ends l

/-- One node takes lines from its neighbours, at most the first of each queue, and says some. -/
structure NodeStep (q q' : S → S → List L) (n : S) (taken said : S → List L) : Prop where
  taken : ∀ m, m ≠ n → q m n = taken m ++ q' m n
  said : ∀ m, q' n m = q n m ++ said m
  rest : ∀ a b, a ≠ n → b ≠ n → q' a b = q a b

theorem NodeStep.filter {q q' : S → S → List L} {n : S} {taken said : S → List L}
    (h : NodeStep q q' n taken said) (c : L → Bool) :
    NodeStep (fun a b => (q a b).filter c) (fun a b => (q' a b).filter c) n
      (fun m => (taken m).filter c) fun m => (said m).filter c := by
  refine ⟨fun m hm => ?_, fun m => ?_, fun a b ha hb => ?_⟩
  · show (q m n).filter c = _
    rw [h.taken m hm, List.filter_append]
  · show (q' n m).filter c = _
    rw [h.said m, List.filter_append]
  · show (q' a b).filter c = _
    rw [h.rest a b ha hb]

theorem NodeStep.mem {q q' : S → S → List L} {n a b : S} {taken said : S → List L}
    (h : NodeStep q q' n taken said) (k : L) (hk : k ∈ q' a b) :
    k ∈ q a b ∨ (a = n ∧ k ∈ said b) := by
  by_cases ha : a = n
  · subst ha
    rw [h.said b, List.mem_append] at hk
    exact hk.imp_right fun hk => ⟨rfl, hk⟩
  · by_cases hb : b = n
    · subst hb
      rw [h.taken a ha]
      exact Or.inl (List.mem_append_right _ hk)
    · rw [h.rest a b ha hb] at hk
      exact Or.inl hk

theorem NodeStep.taken_nil {q q' : S → S → List L} {n m : S} {taken said : S → List L}
    (h : NodeStep q q' n taken said) (hne : m ≠ n) (hm : taken m = []) : q' m n = q m n := by
  rw [h.taken m hne, hm, List.nil_append]

theorem NodeStep.said_nil {q q' : S → S → List L} {n m : S} {taken said : S → List L}
    (h : NodeStep q q' n taken said) (hm : said m = []) : q' n m = q n m := by
  rw [h.said m, hm, List.append_nil]

theorem NodeStep.same {q q' : S → S → List L} {n : S} {taken said : S → List L}
    (h : NodeStep q q' n taken said) (a b : S) (hsaid : a = n → said b = [])
    (htaken : b = n → taken a = []) : q' a b = q a b := by
  by_cases ha : a = n
  · subst ha
    exact h.said_nil (hsaid rfl)
  · by_cases hb : b = n
    · subst hb
      exact h.taken_nil ha (htaken rfl)
    · exact h.rest a b ha hb

section Steps

variable {R} {G : SimpleGraph S} {home n : S} {x : S → P} {q q' : S → S → List L} {l : L}
  {taken said : S → List L}

theorem flow_idle (h : Flow R G home x q) (hstep : NodeStep q q' n taken said)
    (htaken : ∀ m, taken m = []) (hsaid : ∀ m, said m = []) : Flow R G home x q' := by
  have hq : q' = q := by
    funext a b
    exact hstep.same a b (fun _ => hsaid b) fun _ => htaken a
  rwa [hq]

theorem flow_head (h : Flow R G home x q) (a : S) (ha : Nearer G home a n) (rest : List L)
    (hq : q a n = l :: rest) : ∃ y p, R.seen (x n) l y ∧ Followed R y rest p ∧
      (p = x a ∨ Crossing R x q a n) := by
  obtain ⟨p, hp, hend⟩ := h.down a n ha
  rw [hq] at hp
  obtain ⟨y, hl, hrest⟩ := hp
  exact ⟨y, p, hl, hrest, hend⟩

theorem crossing_same (x' : S → P) (a b : S) (hx : x' a = x a ∧ x' b = x b)
    (hq : ∀ l ∈ q b a, l ∈ q' b a) (h : Crossing R x q a b) : Crossing R x' q' a b := by
  obtain ⟨hgone, hnear, hmortal, l, hl, hkill⟩ := h
  exact ⟨hx.2.trans hgone, by rwa [hx.1], hmortal, l, hq l hl, hkill⟩

/-- A line is taken from the nearer neighbour, and nothing comes of it; the node may say something
to that neighbour if it has ended the record. -/
theorem flow_take (h : Flow R G home x q) (hstep : NodeStep q q' n taken said) (a : S)
    (ha : Nearer G home a n)
    (hcome : ∃ p, Followed R (x n) (q' a n) p ∧ (p = x a ∨ Crossing R x q a n))
    (htaken : ∀ m, m ≠ a → taken m = []) (hsaid : ∀ m, m ≠ a → said m = [])
    (hgone : ∀ k ∈ said a, x n = R.gone ∧ R.mortal ∧ R.ends k) : Flow R G home x q' := by
  have hback := hstep.said a
  have hrest : ∀ c d, ¬ (c = a ∧ d = n) → ¬ (c = n ∧ d = a) → q' c d = q c d := by
    intro c d hpop hpush
    exact hstep.same c d (fun hc => hsaid d fun hd => hpush ⟨hc, hd⟩)
      fun hd => htaken c fun hca => hpop ⟨hca, hd⟩
  have hmore : ∀ c d, Nearer G home c d → ∀ l ∈ q d c, l ∈ q' d c := by
    intro c d hcd l hl
    by_cases hdc : d = n ∧ c = a
    · rw [hdc.1, hdc.2] at hl ⊢
      rw [hback]
      exact List.mem_append_left _ hl
    · rwa [hrest d c (fun hd => (hd.2 ▸ hd.1 ▸ hcd).asymm ha) hdc]
  constructor
  · intro c d hcd
    by_cases hlink : c = a ∧ d = n
    · rw [hlink.1, hlink.2]
      obtain ⟨p, hp, hend⟩ := hcome
      exact ⟨p, hp, hend.imp_right (crossing_same x a n ⟨rfl, rfl⟩ (hmore a n ha))⟩
    · obtain ⟨p, hp, hend⟩ := h.down c d hcd
      rw [hrest c d hlink fun hcd' => (hcd'.2 ▸ hcd'.1 ▸ hcd).asymm ha]
      exact ⟨p, hp, hend.imp_right (crossing_same x c d ⟨rfl, rfl⟩ (hmore c d hcd))⟩
  · intro c d hcd l hl
    by_cases hdc : d = n ∧ c = a
    · rw [hdc.1, hdc.2, hback, List.mem_append] at hl
      rw [hdc.1]
      rcases hl with hl | hl
      · exact h.up a n ha l hl
      · exact hgone l hl
    · rw [hrest d c (fun hd => (hd.2 ▸ hd.1 ▸ hcd).asymm ha) hdc] at hl
      exact h.up c d hcd l hl

/-- The first line from a neighbour that is farther is taken: it ends nothing that is left. -/
theorem flow_take_back (h : Flow R G home x q) (hstep : NodeStep q q' n taken said) (b : S)
    (hb : Nearer G home n b) (hq : taken b = [l]) (hl : x n = R.gone ∨ ¬ R.kill l)
    (htaken : ∀ m, m ≠ b → taken m = []) (hsaid : ∀ m, said m = []) : Flow R G home x q' := by
  have hq : q b n = l :: q' b n := by
    rw [hstep.taken b hb.adj.ne', hq, List.singleton_append]
  have hrest : ∀ c d, ¬ (c = b ∧ d = n) → q' c d = q c d := by
    intro c d hpop
    exact hstep.same c d (fun _ => hsaid d) fun hd => htaken c fun hcb => hpop ⟨hcb, hd⟩
  have hless : ∀ c d, Nearer G home c d → ∀ k ∈ q' d c, k ∈ q d c := by
    intro c d hcd k hk
    by_cases hlink : d = b ∧ c = n
    · rw [hlink.1, hlink.2] at hk ⊢
      rw [hq]
      exact List.mem_cons_of_mem _ hk
    · rwa [hrest d c hlink] at hk
  constructor
  · intro c d hcd
    obtain ⟨p, hp, hend⟩ := h.down c d hcd
    rw [hrest c d fun hlink => (hlink.1 ▸ hlink.2 ▸ hcd).asymm hb]
    refine ⟨p, hp, ?_⟩
    by_cases hlink : d = b ∧ c = n
    · obtain ⟨rfl, rfl⟩ := hlink
      rcases hend with hend | ⟨hgone, hnear, hmortal, k, hk, hkill⟩
      · exact Or.inl hend
      rcases hl with hl | hl
      · -- both ends have ended it
        rw [hgone] at hp
        exact Or.inl ((followed_gone R _ p hp).trans hl.symm)
      · refine Or.inr ⟨hgone, hnear, hmortal, k, ?_, hkill⟩
        rw [hq, List.mem_cons] at hk
        refine hk.resolve_left ?_
        rintro rfl
        exact hl hkill
    · refine hend.imp_right (crossing_same x c d ⟨rfl, rfl⟩ fun k hk => ?_)
      rwa [hrest d c hlink]
  · intro c d hcd k hk
    exact h.up c d hcd k (hless c d hcd k hk)

variable [DecidableEq S]

open Function

/-- A line makes a node what it says, and goes on to the neighbours that are farther. The owner says
it itself; every other node has it from the neighbour that is nearer. -/
theorem flow_advance (h : Flow R G home x q) (hstep : NodeStep q q' n taken said) (y : P)
    (hseen : R.seen (x n) l y)
    (hcome : ∀ a, Nearer G home a n → ∃ p, Followed R y (q' a n) p ∧ (p = x a ∨ Crossing R x q a n))
    (htaken : ∀ m, ¬ Nearer G home m n → taken m = []) (hspeaks : ∀ m, Nearer G home n m → said m = [l])
    (hsaid : ∀ m, ¬ Nearer G home n m → said m = []) : Flow R G home (update x n y) q' := by
  have hpush : ∀ m, Nearer G home n m → q' n m = q n m ++ [l] := by
    intro m hm
    rw [hstep.said m, hspeaks m hm]
  have hrest : ∀ a b, ¬ (a = n ∧ Nearer G home n b) → ¬ (b = n ∧ Nearer G home a n) →
      q' a b = q a b := by
    intro a b hpush' hpop
    exact hstep.same a b (fun ha => hsaid b fun hb => hpush' ⟨ha, hb⟩)
      fun hb => htaken a fun hab => hpop ⟨hb, hab⟩
  have hback : ∀ c d, Nearer G home c d → q' d c = q d c := by
    intro c d hcd
    refine hrest d c (fun hd => ?_) fun hc => ?_
    · obtain ⟨rfl, hdc⟩ := hd
      exact hcd.asymm hdc
    · obtain ⟨rfl, hdc⟩ := hc
      exact hcd.asymm hdc
  have hgone : x n = R.gone → y = R.gone := by
    intro hn
    rw [hn] at hseen
    exact R.stays l y hseen
  constructor
  · intro c d hcd
    by_cases hc : c = n
    · subst hc
      have hd : d ≠ c := hcd.adj.ne'
      rw [update_of_ne hd, update_self, hpush d hcd]
      obtain ⟨p, hp, hend⟩ := h.down c d hcd
      rcases hend with rfl | ⟨hd', hnear, hmortal, k, hk, hkill⟩
      · exact ⟨y, followed_snoc R _ _ _ _ l hp hseen, Or.inl rfl⟩
      · rw [hd'] at hp ⊢
        rw [followed_gone R _ p hp] at hp
        refine ⟨R.gone, followed_snoc R _ _ _ _ l hp (R.late _ l y hseen hnear hmortal), Or.inr ?_⟩
        refine ⟨?_, ?_, hmortal, k, ?_, hkill⟩
        · rwa [update_of_ne hd]
        · rw [update_self]
          exact R.not_absent _ l y hseen
        · rwa [hback c d hcd]
    · rw [update_of_ne hc]
      by_cases hd : d = n
      · subst hd
        rw [update_self]
        obtain ⟨p, hp, hend⟩ := hcome c hcd
        refine ⟨p, hp, hend.imp_right fun hcross => ?_⟩
        obtain ⟨hn, hnear, hmortal, k, hk, hkill⟩ := hcross
        refine ⟨?_, ?_, hmortal, k, ?_, hkill⟩
        · rw [update_self]
          exact hgone hn
        · rwa [update_of_ne hc]
        · rwa [hback c d hcd]
      · rw [update_of_ne hd, hrest c d (fun hn => hc hn.1) fun hn => hd hn.1]
        obtain ⟨p, hp, hend⟩ := h.down c d hcd
        refine ⟨p, hp, hend.imp_right (crossing_same _ c d ?_ fun k hk => ?_)⟩
        · exact ⟨update_of_ne hc _ _, update_of_ne hd _ _⟩
        · rwa [hback c d hcd]
  · intro c d hcd k hk
    rw [hback c d hcd] at hk
    obtain ⟨hd, hends⟩ := h.up c d hcd k hk
    refine ⟨?_, hends⟩
    by_cases hdn : d = n
    · rw [hdn, update_self]
      exact hgone (hdn ▸ hd)
    · rwa [update_of_ne hdn]

/-- A node ends the record, and tells all its neighbours that have not. -/
theorem flow_kill (h : Flow R G home x q) (hstep : NodeStep q q' n taken said) (hmortal : R.mortal)
    (hl : R.kill l) (halive : x n ≠ R.absent ∧ x n ≠ R.gone)
    (hsaid : ∀ m, G.Adj n m → said m = [l] ∨ (said m = [] ∧ Nearer G home n m ∧ x m = R.gone))
    (htaken : ∀ m, ¬ Nearer G home n m → taken m = []) : Flow R G home (update x n R.gone) q' := by
  have hpush : ∀ m, G.Adj n m → q' n m = q n m ++ [l] ∨
      (q' n m = q n m ∧ Nearer G home n m ∧ x m = R.gone) := by
    intro m hm
    rcases hsaid m hm with hspeaks | ⟨hnil, hgone⟩
    · rw [hstep.said m, hspeaks]
      exact Or.inl rfl
    · exact Or.inr ⟨hstep.said_nil hnil, hgone⟩
  have hless : ∀ m, G.Adj m n → ∀ k ∈ q' m n, k ∈ q m n := by
    intro m hm k hk
    rw [hstep.taken m hm.ne]
    exact List.mem_append_right _ hk
  have hrest := hstep.rest
  constructor
  · intro c d hcd
    by_cases hc : c = n
    · subst hc
      have hd : d ≠ c := hcd.adj.ne'
      rw [update_of_ne hd, update_self]
      obtain ⟨p, hp, hend⟩ := h.down c d hcd
      rcases hpush d hcd.adj with hq | ⟨hq, -, hgone⟩
      · rw [hq]
        refine ⟨R.gone, ?_, Or.inl rfl⟩
        have hnot : p ≠ R.absent := by
          rcases hend with rfl | hcross
          · exact halive.1
          · rw [hcross.1] at hp
            rw [followed_gone R _ p hp]
            exact R.distinct
        exact followed_snoc R _ _ _ _ l hp (R.killed p l hl hnot hmortal)
      · rw [hgone] at hp ⊢
        rw [hq]
        exact ⟨p, hp, Or.inl (followed_gone R _ p hp)⟩
    · rw [update_of_ne hc]
      by_cases hd : d = n
      · subst hd
        rw [update_self]
        have hq : q' c d = q c d := hstep.taken_nil hcd.adj.ne (htaken c hcd.asymm)
        obtain ⟨p, hp, hend⟩ := h.down c d hcd
        have hend : p = x c := hend.resolve_right fun hcross => halive.2 hcross.1
        rw [hq]
        refine ⟨R.gone, followed_late R _ _ p hp halive.1 hmortal, Or.inr ?_⟩
        refine ⟨update_self .., ?_, hmortal, l, ?_, hl⟩
        · rw [update_of_ne hc, ← hend]
          exact followed_not_absent R _ _ p halive.1 hp
        · have hq' := (hpush c hcd.adj.symm).resolve_right fun hfar => hcd.asymm hfar.2.1
          rw [hq']
          simp
      · rw [update_of_ne hd, hrest c d hc hd]
        obtain ⟨p, hp, hend⟩ := h.down c d hcd
        refine ⟨p, hp, hend.imp_right (crossing_same _ c d ?_ fun k hk => ?_)⟩
        · exact ⟨update_of_ne hc _ _, update_of_ne hd _ _⟩
        · rwa [hrest d c hd hc]
  · intro c d hcd k hk
    by_cases hdn : d = n
    · subst hdn
      rw [update_self]
      rcases hpush c hcd.adj.symm with hq | ⟨-, hfar, -⟩
      · rw [hq, List.mem_append, List.mem_singleton] at hk
        rcases hk with hk | rfl
        · exact absurd (h.up c d hcd k hk).1 halive.2
        · exact ⟨rfl, hmortal, R.kill_ends k hl⟩
      · exact absurd hfar hcd.asymm
    · rw [update_of_ne hdn]
      by_cases hcn : c = n
      · subst hcn
        exact h.up c d hcd k (hless d hcd.adj.symm k hk)
      · rw [hrest d c hdn hcn] at hk
        exact h.up c d hcd k hk

end Steps

/-- When nothing is under way, all have what the owner has. -/
theorem flow_quiet {R : Rules L P} {G : SimpleGraph S} {home : S} {x : S → P} {q : S → S → List L}
    (hG : G.IsTree) (h : Flow R G home x q) (hquiet : ∀ a b, q a b = []) (n : S) :
    x n = x home := by
  refine spread hG (P := fun n => x n = x home) rfl (fun a b hab ha => ?_) n
  obtain ⟨p, hp, hend⟩ := h.down a b hab
  rw [hquiet] at hp
  have hpb : x b = p := hp
  rcases hend with hend | ⟨-, -, -, l, hl, -⟩
  · rw [hpb, hend, ha]
  · rw [hquiet] at hl
    simp at hl

end IrcdHybrid.Flooding
