import Mathlib.Data.Finset.Card
import Mathlib.Data.Finset.Filter
import Mathlib.Data.Fintype.Basic
import Mathlib.Logic.Function.Basic

/-!
A trie whose nodes count their references: the children they have, and one more for the value
that is kept at them. A node that is left without a reference is freed on the way back up, so
the counts are exact, and the trie is a map from lists of keys to values.
-/

namespace IrcdHybrid.CountedTrie

inductive Trie (κ α : Type) where
  | node (links : ℤ) (value : Option α) (child : κ → Option (Trie κ α))

namespace Trie

variable {κ α : Type}

def links : Trie κ α → ℤ
  | node links _ _ => links

def value : Trie κ α → Option α
  | node _ value _ => value

def child : Trie κ α → κ → Option (Trie κ α)
  | node _ _ child => child

def empty : Trie κ α := node 0 none (fun _ => none)

def lookup : Trie κ α → List κ → Option α
  | t, [] => t.value
  | t, k :: ks =>
    match t.child k with
    | none => none
    | some n => n.lookup ks

section Operations

variable [DecidableEq κ]

def insert (a : α) : Trie κ α → List κ → Trie κ α
  | node links _ child, [] => node (links + 1) (some a) child
  | node links value child, k :: ks =>
    match child k with
    | none => node (links + 1) value (Function.update child k (some (insert a empty ks)))
    | some n => node links value (Function.update child k (some (insert a n ks)))

def remove : Trie κ α → List κ → Trie κ α
  | node links value child, [] =>
    if value.isSome then node (links - 1) none child else node links value child
  | node links value child, k :: ks =>
    match child k with
    | none => node links value child
    | some n =>
      let n' := remove n ks
      if n'.links = 0 then node (links - 1) value (Function.update child k none)
      else node links value (Function.update child k (some n'))

end Operations

/-- The references of a node. -/
def references [Fintype κ] (value : Option α) (child : κ → Option (Trie κ α)) : ℕ :=
  (Finset.univ.filter (fun k => (child k).isSome = true)).card + if value.isSome then 1 else 0

/-- Every node counts its references, and all but the root have some. -/
inductive Counted [Fintype κ] : Trie κ α → Prop where
  | node (links : ℤ) (value : Option α) (child : κ → Option (Trie κ α))
    (hlinks : links = references value child)
    (hcounted : ∀ k n, child k = some n → Counted n)
    (hused : ∀ k n, child k = some n → n.links ≠ 0) : Counted (.node links value child)

theorem lookup_empty (ks : List κ) : (empty : Trie κ α).lookup ks = none := by
  cases ks <;> rfl

theorem Counted.links_eq [Fintype κ] {t : Trie κ α} (h : Counted t) :
    t.links = references t.value t.child := by
  obtain ⟨links, value, child, hlinks, -, -⟩ := h
  exact hlinks

theorem counted_empty [Fintype κ] : Counted (empty : Trie κ α) := by
  refine Counted.node 0 none (fun _ => none) ?_ ?_ ?_
  · simp [references]
  · intro k n h
    simp at h
  · intro k n h
    simp at h

variable [DecidableEq κ]

theorem lookup_insert (a : α) (t : Trie κ α) (ks ks' : List κ) :
    (t.insert a ks).lookup ks' = if ks' = ks then some a else t.lookup ks' := by
  induction ks generalizing t ks' with
  | nil =>
    obtain ⟨links, value, child⟩ := t
    cases ks' with
    | nil => rfl
    | cons k' ks' => rfl
  | cons k ks ih =>
    obtain ⟨links, value, child⟩ := t
    cases ks' with
    | nil =>
      unfold insert
      cases child k <;> rfl
    | cons k' ks' =>
      unfold insert
      by_cases hk : k' = k
      · subst hk
        cases hchild : child k' with
        | none =>
          simp only [lookup, Trie.child, Function.update_self, hchild, ih, lookup_empty,
            List.cons.injEq, true_and]
        | some n =>
          simp only [lookup, Trie.child, Function.update_self, hchild, ih, List.cons.injEq,
            true_and]
      · have hne : ¬ k' :: ks' = k :: ks := fun h => hk (List.cons.inj h).1
        cases hchild : child k with
        | none => simp only [lookup, Trie.child, Function.update_of_ne hk, if_neg hne]
        | some n => simp only [lookup, Trie.child, Function.update_of_ne hk, if_neg hne]

section Counted

variable [Fintype κ]

theorem references_child (value : Option α) (child : κ → Option (Trie κ α)) (k : κ)
    (n : Trie κ α) : references value (Function.update child k (some n)) =
      if (child k).isSome then references value child else references value child + 1 := by
  unfold references
  by_cases hsome : (child k).isSome = true
  · have hsame : Finset.univ.filter
        (fun k' => (Function.update child k (some n) k').isSome = true) =
        Finset.univ.filter (fun k' => (child k').isSome = true) := by
      apply Finset.filter_congr
      intro k' _
      by_cases hk : k' = k
      · subst hk
        simp [hsome]
      · rw [Function.update_of_ne hk]
    rw [if_pos hsome, hsame]
  · have hmore : Finset.univ.filter
        (fun k' => (Function.update child k (some n) k').isSome = true) =
        (Finset.univ.filter (fun k' => (child k').isSome = true)).cons k
          (by simpa using hsome) := by
      ext k'
      by_cases hk : k' = k
      · subst hk
        simp
      · simp [hk]
    rw [if_neg hsome, hmore, Finset.card_cons]
    omega

theorem references_freed (value : Option α) (child : κ → Option (Trie κ α)) (k : κ)
    (hsome : (child k).isSome = true) :
    references value (Function.update child k none) + 1 = references value child := by
  unfold references
  have herase : Finset.univ.filter (fun k' => (Function.update child k none k').isSome = true) =
      (Finset.univ.filter (fun k' => (child k').isSome = true)).erase k := by
    ext k'
    by_cases hk : k' = k
    · subst hk
      simp
    · simp [hk]
  have hmem : k ∈ Finset.univ.filter (fun k' => (child k').isSome = true) := by simpa using hsome
  have hcard := Finset.card_erase_add_one hmem
  rw [herase]
  omega

theorem references_pos (value : Option α) (child : κ → Option (Trie κ α)) (k : κ)
    (hsome : (child k).isSome = true) : 0 < references value child := by
  have hfreed := references_freed value child k hsome
  omega

theorem Counted.lookup_unused {t : Trie κ α} (h : Counted t) (hzero : t.links = 0)
    (ks : List κ) : t.lookup ks = none := by
  have hlinks := h.links_eq
  rw [hzero] at hlinks
  have hnone : references t.value t.child = 0 := by omega
  cases ks with
  | nil =>
    show t.value = none
    cases hvalue : t.value with
    | none => rfl
    | some a =>
      rw [hvalue] at hnone
      simp [references] at hnone
  | cons k ks =>
    have hchild : t.child k = none := by
      cases hchild : t.child k with
      | none => rfl
      | some n =>
        have hpos := references_pos t.value t.child k (by rw [hchild]; rfl)
        omega
    simp only [lookup, hchild]

theorem insert_links (a : α) (t : Trie κ α) (ks : List κ) (h : Counted t) :
    (t.insert a ks).links ≠ 0 := by
  obtain ⟨links, value, child, hlinks, -, -⟩ := h
  cases ks with
  | nil =>
    show links + 1 ≠ 0
    omega
  | cons k ks =>
    unfold insert
    cases hchild : child k with
    | none =>
      show links + 1 ≠ 0
      omega
    | some n =>
      show links ≠ 0
      have hpos := references_pos value child k (by rw [hchild]; rfl)
      omega

theorem counted_child (links : ℤ) (value : Option α) (child : κ → Option (Trie κ α)) (k : κ)
    (n : Trie κ α) (hcounted : ∀ k n, child k = some n → Counted n)
    (hused : ∀ k n, child k = some n → n.links ≠ 0) (hn : Counted n) (hne : n.links ≠ 0)
    (hlinks : links = references value (Function.update child k (some n))) :
    Counted (.node links value (Function.update child k (some n))) := by
  refine Counted.node _ _ _ hlinks ?_ ?_
  · intro k' n' hk'
    by_cases hk : k' = k
    · subst hk
      rw [Function.update_self] at hk'
      rwa [← Option.some.inj hk']
    · rw [Function.update_of_ne hk] at hk'
      exact hcounted k' n' hk'
  · intro k' n' hk'
    by_cases hk : k' = k
    · subst hk
      rw [Function.update_self] at hk'
      rwa [← Option.some.inj hk']
    · rw [Function.update_of_ne hk] at hk'
      exact hused k' n' hk'

theorem insert_counted (a : α) (t : Trie κ α) (ks : List κ) (h : Counted t)
    (hfree : t.lookup ks = none) : Counted (t.insert a ks) := by
  induction ks generalizing t with
  | nil =>
    obtain ⟨links, value, child, hlinks, hcounted, hused⟩ := h
    obtain rfl : value = none := hfree
    refine Counted.node _ _ _ ?_ hcounted hused
    rw [hlinks]
    simp [references]
  | cons k ks ih =>
    obtain ⟨links, value, child, hlinks, hcounted, hused⟩ := h
    unfold insert
    cases hchild : child k with
    | none =>
      apply counted_child _ _ _ k _ hcounted hused (ih empty counted_empty (lookup_empty ks))
        (insert_links a empty ks counted_empty)
      rw [references_child, hchild, hlinks]
      simp
    | some n =>
      have hfree' : n.lookup ks = none := by
        simpa only [lookup, Trie.child, hchild] using hfree
      apply counted_child _ _ _ k _ hcounted hused (ih n (hcounted k n hchild) hfree')
        (insert_links a n ks (hcounted k n hchild))
      rw [references_child, hchild, hlinks]
      simp

theorem remove_counted (t : Trie κ α) (ks : List κ) (h : Counted t) : Counted (t.remove ks) := by
  induction ks generalizing t with
  | nil =>
    obtain ⟨links, value, child, hlinks, hcounted, hused⟩ := h
    unfold remove
    split
    · next hvalue =>
      refine Counted.node _ _ _ ?_ hcounted hused
      rw [hlinks]
      simp [references, hvalue]
    · exact Counted.node _ _ _ hlinks hcounted hused
  | cons k ks ih =>
    obtain ⟨links, value, child, hlinks, hcounted, hused⟩ := h
    unfold remove
    cases hchild : child k with
    | none => exact Counted.node _ _ _ hlinks hcounted hused
    | some n =>
      have hn := ih n (hcounted k n hchild)
      have hsome : (child k).isSome = true := by rw [hchild]; rfl
      dsimp only
      by_cases hzero : (n.remove ks).links = 0
      · rw [if_pos hzero]
        have hfreed := references_freed value child k hsome
        refine Counted.node _ _ _ (by omega) ?_ ?_
        · intro k' n' hk'
          by_cases hk : k' = k
          · subst hk
            simp at hk'
          · rw [Function.update_of_ne hk] at hk'
            exact hcounted k' n' hk'
        · intro k' n' hk'
          by_cases hk : k' = k
          · subst hk
            simp at hk'
          · rw [Function.update_of_ne hk] at hk'
            exact hused k' n' hk'
      · rw [if_neg hzero]
        apply counted_child _ _ _ k _ hcounted hused hn hzero
        rw [references_child, if_pos hsome, hlinks]

theorem lookup_remove (t : Trie κ α) (ks ks' : List κ) (h : Counted t) :
    (t.remove ks).lookup ks' = if ks' = ks then none else t.lookup ks' := by
  induction ks generalizing t ks' with
  | nil =>
    obtain ⟨links, value, child, -, -, -⟩ := h
    unfold remove
    cases ks' with
    | nil =>
      rw [if_pos rfl]
      cases value <;> rfl
    | cons k' ks' => split <;> rfl
  | cons k ks ih =>
    obtain ⟨links, value, child, -, hcounted, -⟩ := h
    unfold remove
    cases hchild : child k with
    | none =>
      dsimp only
      by_cases heq : ks' = k :: ks
      · rw [if_pos heq, heq]
        simp only [lookup, Trie.child, hchild]
      · rw [if_neg heq]
    | some n =>
      have hn := hcounted k n hchild
      dsimp only
      cases ks' with
      | nil => split <;> rfl
      | cons k' ks' =>
        by_cases hk : k' = k
        · subst hk
          have hrest := ih n ks' hn
          have hsame : (node links value child).lookup (k' :: ks') = n.lookup ks' := by
            simp only [lookup, Trie.child, hchild]
          simp only [List.cons.injEq, true_and]
          rw [hsame, ← hrest]
          by_cases hzero : (n.remove ks).links = 0
          · rw [if_pos hzero, (remove_counted n ks hn).lookup_unused hzero]
            simp only [lookup, Trie.child, Function.update_self]
          · rw [if_neg hzero]
            simp only [lookup, Trie.child, Function.update_self]
        · have hne : ¬ k' :: ks' = k :: ks := fun heq => hk (List.cons.inj heq).1
          rw [if_neg hne]
          split
          · simp only [lookup, Trie.child, Function.update_of_ne hk]
          · simp only [lookup, Trie.child, Function.update_of_ne hk]

end Counted

end Trie

end IrcdHybrid.CountedTrie
