import Mathlib.Data.List.Nodup
import Mathlib.Logic.Function.Basic

/-!
Objects on intrusive lists. An object in use is on the list of its key, and on no
other one; the same objects may be on several families of lists, under one key for
each. A walk along a list may take the object it is at off that list, since it has
read the next one before.
-/

namespace IrcdHybrid.Index

open Function

variable {α κ ι σ : Type*}

/-- Every list holds the objects with its key, each of them once. -/
def Indexes (key : α → Option κ) (lists : κ → List α) : Prop :=
  ∀ k, (lists k).Nodup ∧ ∀ a, a ∈ lists k ↔ key a = some k

section Lists

variable (key : α → Option κ) (lists : κ → List α) (a : α) (k : κ) (h : Indexes key lists)

include h

theorem not_mem_other (ha : key a = some k) (k' : κ) (hne : k' ≠ k) : a ∉ lists k' :=
  fun hmem => hne (Option.some.inj (ha.symm.trans (((h k').2 a).mp hmem))).symm

theorem find_eq_some (p : α → Bool) (hp : p a = true) (ha : key a = some k)
    (hunique : ∀ b, key b = some k → p b = true → b = a) : (lists k).find? p = some a := by
  cases hfind : (lists k).find? p with
  | none => exact absurd hp (List.find?_eq_none.mp hfind a (((h k).2 a).mpr ha))
  | some b =>
    have hkey := ((h k).2 b).mp (List.mem_of_find?_eq_some hfind)
    rw [hunique b hkey (List.find?_some hfind)]

variable [DecidableEq α]

theorem count_eq_one (ha : key a = some k) : (lists k).count a = 1 :=
  List.count_eq_one_of_mem (h k).1 (((h k).2 a).mpr ha)

variable [DecidableEq κ]

theorem indexes_insert (ha : key a = none) :
    Indexes (update key a (some k)) (update lists k (a :: lists k)) := by
  intro k'
  have hnot : ∀ k, a ∉ lists k := fun k hmem => by simp [((h k).2 a).mp hmem] at ha
  by_cases hk : k' = k
  · subst hk
    rw [update_self]
    refine ⟨List.nodup_cons.mpr ⟨hnot k', (h k').1⟩, fun b => ?_⟩
    by_cases hb : b = a
    · simp [hb]
    · rw [List.mem_cons, update_of_ne hb, (h k').2 b]
      exact or_iff_right hb
  · rw [update_of_ne hk]
    refine ⟨(h k').1, fun b => ?_⟩
    by_cases hb : b = a
    · rw [hb, update_self]
      exact iff_of_false (hnot k') (fun heq => hk (Option.some.inj heq).symm)
    · rw [update_of_ne hb]
      exact (h k').2 b

theorem indexes_delete (ha : key a = some k) :
    Indexes (update key a none) (update lists k ((lists k).erase a)) := by
  intro k'
  by_cases hk : k' = k
  · subst hk
    rw [update_self]
    refine ⟨(h k').1.erase a, fun b => ?_⟩
    rw [(h k').1.mem_erase_iff]
    by_cases hb : b = a
    · simp [hb]
    · rw [update_of_ne hb, (h k').2 b]
      exact and_iff_right hb
  · rw [update_of_ne hk]
    refine ⟨(h k').1, fun b => ?_⟩
    by_cases hb : b = a
    · rw [hb, update_self, (h k').2 a, ha]
      exact iff_of_false (fun heq => hk (Option.some.inj heq).symm) (by simp)
    · rw [update_of_ne hb]
      exact (h k').2 b

theorem indexes_toFront (ha : key a = some k) :
    Indexes key (update lists k (a :: (lists k).erase a)) := by
  have hself : update (update key a none) a (some k) = key := by
    rw [update_idem, ← ha, update_eq_self]
  have hagain := indexes_insert _ _ a k (indexes_delete key lists a k h ha) (update_self _ _ _)
  rwa [hself, update_self, update_idem] at hagain

end Lists

/-- No two objects have both keys in common. -/
def Simple (left : α → Option κ) (right : α → Option ι) : Prop :=
  ∀ a b k i, left a = some k → right a = some i → left b = some k → right b = some i → a = b

section Simple

variable [DecidableEq α] (left : α → Option κ) (right : α → Option ι) (h : Simple left right) (a : α)

include h

theorem simple_insert (k : κ) (i : ι) (hnew : ∀ b, left b = some k → right b ≠ some i) :
    Simple (update left a (some k)) (update right a (some i)) := by
  intro b c k' i' hb hb' hc hc'
  by_cases hba : b = a
  · subst hba
    rw [update_self] at hb hb'
    obtain rfl := Option.some.inj hb
    obtain rfl := Option.some.inj hb'
    by_contra hne
    rw [update_of_ne (Ne.symm hne)] at hc hc'
    exact hnew c hc hc'
  · rw [update_of_ne hba] at hb hb'
    by_cases hca : c = a
    · subst hca
      rw [update_self] at hc hc'
      obtain rfl := Option.some.inj hc
      obtain rfl := Option.some.inj hc'
      exact absurd hb' (hnew b hb)
    · rw [update_of_ne hca] at hc hc'
      exact h b c k' i' hb hb' hc hc'

theorem simple_delete : Simple (update left a none) (update right a none) := by
  intro b c k i hb hb' hc hc'
  by_cases hba : b = a
  · rw [hba, update_self] at hb
    exact absurd hb (by simp)
  · by_cases hca : c = a
    · rw [hca, update_self] at hc
      exact absurd hc (by simp)
    · rw [update_of_ne hba] at hb hb'
      rw [update_of_ne hca] at hc hc'
      exact h b c k i hb hb' hc hc'

end Simple

/-- An object with two given keys is found on either of its lists, or on neither. -/
theorem find_either [DecidableEq κ] [DecidableEq ι] (left : α → Option κ) (right : α → Option ι) (lefts : κ → List α)
    (rights : ι → List α) (hleft : Indexes left lefts) (hright : Indexes right rights)
    (hsimple : Simple left right) (k : κ) (i : ι) :
    (lefts k).find? (fun a => right a == some i) = (rights i).find? (fun a => left a == some k) := by
  by_cases hex : ∃ a, left a = some k ∧ right a = some i
  · obtain ⟨a, hl, hr⟩ := hex
    rw [find_eq_some left lefts a k hleft _ (by simp [hr]) hl
        (fun b hb hp => hsimple b a k i hb (beq_iff_eq.mp hp) hl hr),
      find_eq_some right rights a i hright _ (by simp [hl]) hr
        (fun b hb hp => hsimple b a k i (beq_iff_eq.mp hp) hb hl hr)]
  · have hnone : (lefts k).find? (fun a => right a == some i) = none := by
      refine List.find?_eq_none.mpr fun a ha hp => hex ⟨a, ((hleft k).2 a).mp ha, ?_⟩
      exact beq_iff_eq.mp hp
    rw [hnone]
    refine (List.find?_eq_none.mpr fun a ha hp => hex ⟨a, ?_, ((hright i).2 a).mp ha⟩).symm
    exact beq_iff_eq.mp hp

variable [DecidableEq α]

/-- The element behind `a`. -/
def next (l : List α) (a : α) : Option α := (l.dropWhile (fun b => b != a)).tail.head?

/-- From `a` on, the next element being read before the body runs. -/
def walk (list : σ → List α) (body : σ → α → σ) : ℕ → σ → Option α → σ
  | n + 1, s, some a => walk list body n (body s a) (next (list s) a)
  | _, s, _ => s

/-- A body that takes its element off the list, and no other one, is run once for each. -/
theorem walk_eq_foldl (list : σ → List α) (body : σ → α → σ) (P : σ → Prop)
    (hP : ∀ s a, P s → a ∈ list s → P (body s a))
    (hbody : ∀ s a, P s → a ∈ list s → list (body s a) = (list s).erase a) (s : σ) (hs : P s) :
    walk list body (list s).length s (list s).head? = (list s).foldl body s ∧
      P ((list s).foldl body s) ∧ list ((list s).foldl body s) = [] := by
  generalize hl : list s = l
  induction l generalizing s with
  | nil => exact ⟨rfl, hs, hl⟩
  | cons a l ih =>
    have ha : a ∈ list s := by rw [hl]; exact List.mem_cons_self
    have hrest : list (body s a) = l := by rw [hbody s a hs ha, hl, List.erase_cons_head]
    have hnext : next (list s) a = l.head? := by simp [next, hl]
    obtain ⟨hwalk, htail⟩ := ih (body s a) (hP s a hs ha) hrest
    refine ⟨?_, htail⟩
    rw [List.length_cons, List.head?_cons, walk, hnext, hwalk, List.foldl_cons]

theorem mem_of_next (l : List α) (a b : α) (h : next l a = some b) : b ∈ l :=
  (List.dropWhile_suffix _).subset (List.mem_of_mem_tail (List.mem_of_mem_head? h))

/-- A walk on the whole of a state is one on a part of it. -/
theorem walk_map {τ : Type*} (g : σ → τ) (list : σ → List α) (list' : τ → List α) (body : σ → α → σ)
    (body' : τ → α → τ) (hlist : ∀ s, list' (g s) = list s)
    (hbody : ∀ s a, body' (g s) a = g (body s a)) (n : ℕ) (s : σ) (p : Option α) :
    g (walk list body n s p) = walk list' body' n (g s) p := by
  induction n generalizing s p with
  | zero => rfl
  | succ n ih =>
    cases p with
    | none => rfl
    | some a =>
      unfold walk
      rw [ih, hbody, hlist]

/-- What holds of everybody on the list holds of whoever the walk comes to, as long as the body
keeps it. -/
theorem walk_keeps (list : σ → List α) (body : σ → α → σ) (P : σ → Prop) (R : σ → α → Prop)
    (hmem : ∀ s a, P s → a ∈ list s → R s a)
    (hbody : ∀ s a, P s → R s a → P (body s a) ∧ ∀ b, R s b → R (body s a) b) (n : ℕ) (s : σ)
    (p : Option α) (hs : P s) (hp : ∀ a, p = some a → R s a) : P (walk list body n s p) := by
  induction n generalizing s p with
  | zero => exact hs
  | succ n ih =>
    cases p with
    | none => exact hs
    | some a =>
      obtain ⟨hP, hR⟩ := hbody s a hs (hp a rfl)
      refine ih (body s a) (next (list s) a) hP fun b hb => hR b ?_
      exact hmem s b hs (mem_of_next (list s) a b hb)

end IrcdHybrid.Index
