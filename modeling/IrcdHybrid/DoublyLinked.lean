import Mathlib.Data.List.Nodup
import Mathlib.Logic.Function.Basic

/-!
Nodes that point to the one before them and to the one behind them. A list of nodes is
linked when every node points to its neighbours in the list; two linked stretches make a
linked list when they meet, and a stretch is set between other neighbours by writing at its
two ends only.
-/

namespace IrcdHybrid.DoublyLinked

open Function

variable {ν : Type*}

/-- The nodes are linked in this order, with `p` before the first and `q` behind the last. -/
def Linked (prev next : ν → Option ν) : Option ν → List ν → Option ν → Prop
  | _, [], _ => True
  | p, x :: xs, q => prev x = p ∧ next x = xs.head?.or q ∧ Linked prev next (some x) xs q

section Linked

variable (prev next prev' next' : ν → Option ν)

theorem linked_append (p q : Option ν) (xs ys : List ν) :
    Linked prev next p (xs ++ ys) q ↔
      Linked prev next p xs (ys.head?.or q) ∧ Linked prev next (xs.getLast?.or p) ys q := by
  induction xs generalizing p with
  | nil => simp [Linked]
  | cons x xs ih =>
    have hlast : (x :: xs).getLast?.or p = xs.getLast?.or (some x) := by
      cases hxs : xs.getLast? <;> simp [List.getLast?_cons, hxs]
    rw [hlast]
    simp only [List.cons_append, Linked, ih, List.head?_append, Option.or_assoc, and_assoc]

theorem linked_neighbours (p q : Option ν) (pre post : List ν) (x : ν)
    (h : Linked prev next p (pre ++ x :: post) q) :
    prev x = pre.getLast?.or p ∧ next x = post.head?.or q := by
  obtain ⟨-, hx⟩ := (linked_append prev next p q pre (x :: post)).mp h
  exact ⟨hx.1, hx.2.1⟩

theorem linked_congr (p q : Option ν) (xs : List ν) (h : Linked prev next p xs q)
    (hprev : ∀ x ∈ xs, prev' x = prev x) (hnext : ∀ x ∈ xs, next' x = next x) :
    Linked prev' next' p xs q := by
  induction xs generalizing p with
  | nil => trivial
  | cons x xs ih =>
    obtain ⟨hp, hn, hrest⟩ := h
    refine ⟨(hprev x List.mem_cons_self).trans hp, (hnext x List.mem_cons_self).trans hn, ?_⟩
    exact ih (some x) hrest (fun y hy => hprev y (List.mem_cons_of_mem x hy))
      fun y hy => hnext y (List.mem_cons_of_mem x hy)

variable [DecidableEq ν]

/-- A stretch between other neighbours: only the first node's `prev` and the last node's `next`
are other than before. -/
theorem linked_between (p q p' q' : Option ν) (xs : List ν) (hnodup : xs.Nodup)
    (h : Linked prev next p xs q)
    (hprev : ∀ x ∈ xs, prev' x = if xs.head? = some x then p' else prev x)
    (hnext : ∀ x ∈ xs, next' x = if xs.getLast? = some x then q' else next x) :
    Linked prev' next' p' xs q' := by
  induction xs generalizing p p' with
  | nil => trivial
  | cons x xs ih =>
    obtain ⟨hx, hnodup⟩ := List.nodup_cons.mp hnodup
    obtain ⟨-, hxnext, hrest⟩ := h
    refine ⟨?_, ?_, ih (some x) (some x) hnodup hrest ?_ ?_⟩
    · rw [hprev x List.mem_cons_self, List.head?_cons, if_pos rfl]
    · rw [hnext x List.mem_cons_self]
      cases xs with
      | nil => simp
      | cons y ys =>
        have hne : (x :: y :: ys).getLast? ≠ some x := by
          rw [List.getLast?_cons_cons]
          exact fun hlast => hx (List.mem_of_getLast? hlast)
        rw [if_neg hne, hxnext]
        rfl
    · intro y hy
      have hne : (x :: xs).head? ≠ some y := by
        rintro heq
        exact hx (Option.some.inj heq ▸ hy)
      rw [hprev y (List.mem_cons_of_mem x hy), if_neg hne]
      split
      · next hhead =>
        cases xs with
        | nil => simp at hy
        | cons z zs =>
          obtain rfl : z = y := Option.some.inj hhead
          exact hrest.1
      · rfl
    · intro y hy
      have hlast : (x :: xs).getLast? = xs.getLast? := by
        obtain ⟨z, zs, rfl⟩ := List.exists_cons_of_ne_nil (List.ne_nil_of_mem hy)
        exact List.getLast?_cons_cons
      rw [hnext y (List.mem_cons_of_mem x hy), hlast]

/-- Only what is behind the last node is other than before. -/
theorem linked_end (p q q' : Option ν) (xs : List ν) (hnodup : xs.Nodup)
    (h : Linked prev next p xs q) (hprev : ∀ x ∈ xs, prev' x = prev x)
    (hnext : ∀ x ∈ xs, next' x = if xs.getLast? = some x then q' else next x) :
    Linked prev' next' p xs q' := by
  refine linked_between prev next prev' next' p q p q' xs hnodup h (fun x hx => ?_) hnext
  rw [hprev x hx]
  split
  · next hhead =>
    obtain ⟨xs, rfl⟩ := List.head?_eq_some_iff.mp hhead
    exact h.1
  · rfl

/-- Only what is before the first node is other than before. -/
theorem linked_front (p p' q : Option ν) (xs : List ν) (hnodup : xs.Nodup)
    (h : Linked prev next p xs q)
    (hprev : ∀ x ∈ xs, prev' x = if xs.head? = some x then p' else prev x)
    (hnext : ∀ x ∈ xs, next' x = next x) : Linked prev' next' p' xs q := by
  refine linked_between prev next prev' next' p q p' q xs hnodup h hprev (fun x hx => ?_)
  rw [hnext x hx]
  split
  · next hlast =>
    obtain ⟨pre, rfl⟩ := List.getLast?_eq_some_iff.mp hlast
    rw [(linked_neighbours prev next p q pre [] x h).2]
    rfl
  · rfl

end Linked

section Relink

variable [DecidableEq ν]

def relink (f : ν → Option ν) (o v : Option ν) : ν → Option ν :=
  match o with
  | none => f
  | some a => update f a v

theorem relink_apply (f : ν → Option ν) (o v : Option ν) (x : ν) :
    relink f o v x = if o = some x then v else f x := by
  cases o with
  | none => rfl
  | some a =>
    by_cases hx : x = a
    · subst hx
      simp [relink]
    · simp [relink, hx, Ne.symm hx]

end Relink

/-- The first node with the property, from `o` on. A walk of more than `fuel` nodes does not
end. -/
def walk (next : ν → Option ν) (found : ν → Bool) : ℕ → Option ν → Option (Option ν)
  | _, none => some none
  | 0, some _ => none
  | fuel + 1, some x => if found x then some (some x) else walk next found fuel (next x)

theorem walk_linked (prev next : ν → Option ν) (found : ν → Bool) (p : Option ν) (xs : List ν)
    (fuel : ℕ) (h : Linked prev next p xs none) (hlen : xs.length ≤ fuel) :
    walk next found fuel xs.head? = some (xs.find? found) := by
  induction xs generalizing p fuel with
  | nil => cases fuel <;> rfl
  | cons x xs ih =>
    cases fuel with
    | zero => simp at hlen
    | succ fuel =>
      rw [List.head?_cons, List.find?_cons, walk]
      cases hx : found x with
      | true => rfl
      | false =>
        rw [if_neg (by simp), h.2.1, Option.or_none]
        exact ih (some x) fuel h.2.2 (Nat.le_of_succ_le_succ hlen)

end IrcdHybrid.DoublyLinked
