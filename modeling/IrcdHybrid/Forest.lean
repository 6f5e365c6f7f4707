import IrcdHybrid.Index
import Mathlib.Logic.Relation

/-!
Forests given by the parents of their nodes, and walks that take whole trees out. A
walk goes over the roots of some trees; at each root it removes the root and all that
is below it, which leaves the other trees as they were.
-/

namespace IrcdHybrid.Forest

open Index

variable {α σ : Type*} (parent : α → Option α)

def Below (c p : α) : Prop := Relation.TransGen (fun a b => parent a = some b) c p

theorem below_iff (c p : α) :
    Below parent c p ↔ parent c = some p ∨ ∃ q, parent q = some p ∧ Below parent c q := by
  constructor
  · intro h
    cases h with
    | single hparent => exact Or.inl hparent
    | tail hbelow hparent => exact Or.inr ⟨_, hparent, hbelow⟩
  · rintro (hparent | ⟨q, hparent, hbelow⟩)
    · exact Relation.TransGen.single hparent
    · exact Relation.TransGen.tail hbelow hparent

theorem not_below (c p : α) (h : ∀ q, parent q ≠ some p) : ¬ Below parent c p := by
  intro hbelow
  rcases (below_iff parent c p).mp hbelow with hparent | ⟨q, hparent, -⟩
  · exact h c hparent
  · exact h q hparent

/-- Where parents have the greater rank, nothing is below itself. -/
theorem rank_lt (rank : α → ℕ) (hrank : ∀ a b, parent a = some b → rank a < rank b) (c p : α)
    (h : Below parent c p) : rank c < rank p := by
  induction h with
  | single hparent => exact hrank _ _ hparent
  | tail _ hparent ih => exact Nat.lt_trans ih (hrank _ _ hparent)

/-- With a node, all its children. -/
def Closed (removed : List α) : Prop := ∀ c p, parent c = some p → p ∈ removed → c ∈ removed

variable [DecidableEq α]

def cut (removed : List α) (a : α) : Option α := if a ∈ removed then none else parent a

theorem cut_eq_some (removed : List α) (a p : α) :
    cut parent removed a = some p ↔ a ∉ removed ∧ parent a = some p := by
  unfold cut
  by_cases ha : a ∈ removed <;> simp [ha]

theorem below_cut (removed : List α) (h : Closed parent removed) (c p : α) :
    Below (cut parent removed) c p ↔ Below parent c p ∧ c ∉ removed := by
  constructor
  · intro hbelow
    induction hbelow with
    | single hparent =>
      obtain ⟨hnot, hparent⟩ := (cut_eq_some parent removed _ _).mp hparent
      exact ⟨Relation.TransGen.single hparent, hnot⟩
    | tail _ hparent ih =>
      obtain ⟨-, hparent⟩ := (cut_eq_some parent removed _ _).mp hparent
      exact ⟨Relation.TransGen.tail ih.1 hparent, ih.2⟩
  · rintro ⟨hbelow, hnot⟩
    -- what is above a node that stays stays too
    induction hbelow using Relation.TransGen.head_induction_on with
    | single hparent =>
      exact Relation.TransGen.single ((cut_eq_some parent removed _ _).mpr ⟨hnot, hparent⟩)
    | head hparent _ ih =>
      have hup := fun hmem => hnot (h _ _ hparent hmem)
      exact Relation.TransGen.head ((cut_eq_some parent removed _ _).mpr ⟨hnot, hparent⟩) (ih hup)

/-- A node and all below it. -/
def IsTree (removed : List α) (a : α) : Prop := ∀ c, c ∈ removed ↔ c = a ∨ Below parent c a

omit [DecidableEq α] in
theorem closed_of_isTree (removed : List α) (a : α) (h : IsTree parent removed a) :
    Closed parent removed := by
  intro c p hparent hp
  rcases (h p).mp hp with rfl | hbelow
  · exact (h c).mpr (Or.inr (Relation.TransGen.single hparent))
  · exact (h c).mpr (Or.inr (Relation.TransGen.head hparent hbelow))

/-- A walk whose body takes out the tree of each node takes out the trees of all of them. -/
theorem walk_removes (parentOf : σ → α → Option α) (removes : σ → σ → List α → Prop) (P : σ → Prop)
    (list : σ → List α) (body : σ → α → σ) (hrefl : ∀ s, P s → removes s s [])
    (htrans : ∀ s s' s'' l l', removes s s' l → removes s' s'' l' → removes s s'' (l ++ l'))
    (hparent : ∀ s s' l, removes s s' l → parentOf s' = cut (parentOf s) l)
    (hbody : ∀ s, P s → ∀ a ∈ list s, ∃ l, removes s (body s a) l ∧ P (body s a) ∧
      list (body s a) = (list s).erase a ∧ IsTree (parentOf s) l a) (s : σ) (hs : P s) :
    ∃ l, removes s (walk list body (list s).length s (list s).head?) l ∧
      P (walk list body (list s).length s (list s).head?) ∧
      list (walk list body (list s).length s (list s).head?) = [] ∧
      ∀ c, c ∈ l ↔ ∃ a ∈ list s, c = a ∨ Below (parentOf s) c a := by
  generalize hl : list s = l
  induction l generalizing s with
  | nil => exact ⟨[], hrefl s hs, hs, hl, by simp⟩
  | cons a rest ih =>
    obtain ⟨out, hremoves, hP, hlist, htree⟩ := hbody s hs a (by rw [hl]; exact List.mem_cons_self)
    rw [hl, List.erase_cons_head] at hlist
    obtain ⟨out', hremoves', hP', hlist', hmem⟩ := ih (body s a) hP hlist
    have hnext : next (list s) a = rest.head? := by simp [next, hl]
    rw [List.length_cons, List.head?_cons, walk, hnext]
    refine ⟨out ++ out', htrans _ _ _ _ _ hremoves hremoves', hP', hlist', fun c => ?_⟩
    rw [List.mem_append, htree c, hmem c, hparent _ _ _ hremoves]
    have hcut := below_cut (parentOf s) out (closed_of_isTree (parentOf s) out a htree) c
    constructor
    · rintro (hhead | ⟨b, hb, rfl | hbelow⟩)
      · exact ⟨a, List.mem_cons_self, hhead⟩
      · exact ⟨c, List.mem_cons_of_mem a hb, Or.inl rfl⟩
      · exact ⟨b, List.mem_cons_of_mem a hb, Or.inr ((hcut b).mp hbelow).1⟩
    · rintro ⟨b, hb, hor⟩
      by_cases hout : c ∈ out
      · exact Or.inl ((htree c).mp hout)
      · rcases List.mem_cons.mp hb with rfl | hb
        · exact Or.inl hor
        · exact Or.inr ⟨b, hb, hor.imp_right fun hbelow => (hcut b).mpr ⟨hbelow, hout⟩⟩

end IrcdHybrid.Forest
