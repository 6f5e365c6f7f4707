import Mathlib.Combinatorics.SimpleGraph.Acyclic
import Mathlib.Combinatorics.SimpleGraph.Metric
import Mathlib.Algebra.BigOperators.Group.Finset.Basic

/-!
Links of a tree, seen from one of its nodes. Of the two ends of a link one is nearer to that node,
and every other node has one neighbour that is nearer.
-/

namespace IrcdHybrid.TreeLinks

variable {S : Type*} (G : SimpleGraph S)

/-- A link from `a` to `b` on the way from `o` to `b`. -/
def Nearer (o a b : S) : Prop := G.Adj a b ∧ G.dist o a < G.dist o b

variable {G} {o a a' b : S}

theorem Nearer.adj (h : Nearer G o a b) : G.Adj a b := h.1

theorem Nearer.asymm (h : Nearer G o a b) : ¬ Nearer G o b a := fun h' => absurd h.2 (by
  have hlt := h'.2
  omega)

theorem not_nearer_self : ¬ Nearer G o a o := by
  rintro ⟨-, h⟩
  rw [SimpleGraph.dist_self] at h
  omega

theorem Nearer.ne (h : Nearer G o a b) : b ≠ o := by
  rintro rfl
  exact not_nearer_self h

section Tree

variable (hG : G.IsTree)

include hG

theorem nearer_or (o : S) (h : G.Adj a b) : Nearer G o a b ∨ Nearer G o b a := by
  have hne := hG.dist_ne_of_adj o h
  rcases Nat.lt_or_gt_of_ne hne with hlt | hlt
  · exact Or.inl ⟨h, hlt⟩
  · exact Or.inr ⟨h.symm, hlt⟩

theorem nearer_of_not (o : S) (h : G.Adj a b) (hnot : ¬ Nearer G o a b) : Nearer G o b a :=
  (nearer_or hG o h).resolve_left hnot

theorem nearer_self (h : G.Adj o b) : Nearer G o o b :=
  (nearer_or hG o h).resolve_right not_nearer_self

/-- A shortest path to the nearer neighbour does not come by, so it goes on to the node. -/
theorem nearer_unique (h : Nearer G o a b) (h' : Nearer G o a' b) : a = a' := by
  classical
  obtain ⟨p, hp, hlen⟩ := (hG.connected o a).exists_path_of_dist
  obtain ⟨q, hq, hlen'⟩ := (hG.connected o b).exists_path_of_dist
  obtain ⟨p', hp', hlen''⟩ := (hG.connected o a').exists_path_of_dist
  have hlast : ∀ c (r : G.Walk o c), r.IsPath → r.length = G.dist o c → Nearer G o c b →
      c = q.penultimate := by
    intro c r hr hr' hc
    refine hG.isAcyclic.eq_penultimate_of_adj_end hq hc.1.symm ?_
    by_contra hnot
    have hlong := hG.isAcyclic.path_concat hq hr hc.1.symm
      (hG.isAcyclic.mem_support_of_ne_mem_support_of_adj_of_isPath hr hq hc.1 hnot)
    have hcount := congrArg SimpleGraph.Walk.length hlong
    rw [SimpleGraph.Walk.length_concat] at hcount
    have hlt := hc.2
    omega
  exact (hlast a p hp hlen h).trans (hlast a' p' hp' hlen'' h').symm

theorem exists_nearer (h : b ≠ o) : ∃ a, Nearer G o a b := by
  obtain ⟨p, hp, hlen⟩ := (hG.connected o b).exists_path_of_dist
  have hnot : ¬ p.Nil := fun hnil => h hnil.eq.symm
  refine ⟨p.penultimate, SimpleGraph.Walk.adj_penultimate hnot, ?_⟩
  have hshort := SimpleGraph.dist_le p.dropLast
  have hdrop := p.length_dropLast_add_one hnot
  omega

/-- What goes along the links away from a node comes to all. -/
theorem spread {P : S → Prop} (ho : P o) (hstep : ∀ a b, Nearer G o a b → P a → P b) (b : S) :
    P b := by
  induction hd : G.dist o b using Nat.strong_induction_on generalizing b with
  | _ n ih =>
    by_cases hb : b = o
    · rw [hb]
      exact ho
    · obtain ⟨a, ha⟩ := exists_nearer hG hb
      refine hstep a b ha (ih (G.dist o a) ?_ a rfl)
      rw [← hd]
      exact ha.2

end Tree

end IrcdHybrid.TreeLinks
