import Mathlib.Logic.Function.Basic
import Mathlib.Data.List.Basic

/-!
Items that are kept while they are in use or held. Each has the count of its holds and a mark
that says whether it is in use; to free an item that is not there is an error, and so is to
drop a hold on an item that has none. The counts are right when each is the number of holds
that somebody has.
-/

namespace IrcdHybrid.Retention

structure Cell (α : Type*) where
  refs : ℕ
  active : Bool
  item : α

/-- What is left when a hold is dropped: an item out of use goes with its last hold. -/
def Cell.drop {α : Type*} (c : Cell α) : Option (Cell α) :=
  if c.refs - 1 = 0 ∧ c.active = false then none else some { c with refs := c.refs - 1 }

theorem Cell.drop_refs {α : Type*} (c : Cell α) : (c.drop.map Cell.refs).getD 0 = c.refs - 1 := by
  unfold Cell.drop
  split
  · next h => exact h.1.symm
  · rfl

theorem Cell.drop_pos {α : Type*} {c d : Cell α} (h : c.drop = some d) (hoff : d.active = false) :
    0 < c.refs - 1 := by
  unfold Cell.drop at h
  split at h
  · exact absurd h (by simp)
  · next hnot =>
    obtain rfl := Option.some.inj h
    by_contra hzero
    exact hnot ⟨by omega, hoff⟩

/-- What a dropped hold leaves is as before when somebody else holds the item. -/
theorem Cell.drop_ne_none {α : Type*} {c : Cell α} (h : 1 < c.refs) : c.drop ≠ none := by
  unfold Cell.drop
  rw [if_neg (by omega)]
  simp

/-- The items that are there, and the next place for one. -/
structure Store (α : Type*) where
  cell : ℕ → Option (Cell α)
  next : ℕ

variable {α : Type*}

namespace Store

def empty : Store α := ⟨fun _ => none, 0⟩

section

variable (p : Store α)

/-- A new item, in use and not held. -/
def add (a : α) : Store α :=
  ⟨Function.update p.cell p.next (some ⟨0, true, a⟩), p.next + 1⟩

def put (i : ℕ) (c : Option (Cell α)) : Store α :=
  ⟨Function.update p.cell i c, p.next⟩

def raise (i : ℕ) : Option (Store α) :=
  (p.cell i).map fun c => p.put i (some { c with refs := c.refs + 1 })

def lower (i : ℕ) : Option (Store α) :=
  (p.cell i).bind fun c =>
    if c.refs = 0 then none else some (p.put i (some { c with refs := c.refs - 1 }))

def free (i : ℕ) : Option (Store α) := (p.cell i).map fun _ => p.put i none

@[simp] theorem put_self (i : ℕ) (c : Option (Cell α)) : (p.put i c).cell i = c :=
  Function.update_self _ _ _

theorem put_of_ne {i j : ℕ} (c : Option (Cell α)) (h : j ≠ i) :
    (p.put i c).cell j = p.cell j :=
  Function.update_of_ne h _ _

@[simp] theorem put_put (i : ℕ) (c d : Option (Cell α)) :
    (p.put i c).put i d = p.put i d := by
  unfold put
  rw [Function.update_idem]

theorem raise_eq {i : ℕ} {c : Cell α} (h : p.cell i = some c) :
    p.raise i = some (p.put i (some { c with refs := c.refs + 1 })) := by
  unfold raise
  rw [h, Option.map_some]

@[simp] theorem raise_put (i : ℕ) (c : Cell α) :
    (p.put i (some c)).raise i = some (p.put i (some { c with refs := c.refs + 1 })) := by
  rw [raise_eq _ (put_self _ _ _), put_put]

theorem lower_eq {i : ℕ} {c : Cell α} (h : p.cell i = some c) (hrefs : c.refs ≠ 0) :
    p.lower i = some (p.put i (some { c with refs := c.refs - 1 })) := by
  unfold lower
  rw [h, Option.bind_some, if_neg hrefs]

@[simp] theorem free_put (i : ℕ) (c : Cell α) :
    (p.put i (some c)).free i = some (p.put i none) := by
  unfold free
  rw [put_self, Option.map_some, put_put]

@[simp] theorem add_self (a : α) : (p.add a).cell p.next = some ⟨0, true, a⟩ :=
  Function.update_self _ _ _

theorem add_of_ne (a : α) {j : ℕ} (h : j ≠ p.next) :
    (p.add a).cell j = p.cell j :=
  Function.update_of_ne h _ _

end

end Store

/-- The count of each item is the number of holds on it, and no item that is gone is held. -/
structure Counts (p : Store α) (holds : ℕ → ℕ) : Prop where
  refs : ∀ i c, p.cell i = some c → c.refs = holds i
  gone : ∀ i, p.cell i = none → holds i = 0
  beyond : ∀ i, p.next ≤ i → p.cell i = none

theorem counts_empty : Counts (Store.empty : Store α) (fun _ => 0) where
  refs := fun _ _ hc => absurd hc (by simp [Store.empty])
  gone := fun _ _ => rfl
  beyond := fun _ _ => rfl

namespace Counts

variable {p : Store α} {holds holds' : ℕ → ℕ}

theorem congr (h : Counts p holds) (heq : ∀ i, holds' i = holds i) : Counts p holds' := by
  obtain rfl : holds' = holds := funext heq
  exact h

theorem lt_next (h : Counts p holds) {i : ℕ} {c : Cell α} (hc : p.cell i = some c) :
    i < p.next := by
  by_contra hge
  rw [h.beyond i (by omega)] at hc
  exact absurd hc (by simp)

theorem held (h : Counts p holds) {i : ℕ} (hi : 0 < holds i) : ∃ c, p.cell i = some c := by
  cases hc : p.cell i with
  | none =>
    have hzero := h.gone i hc
    omega
  | some c => exact ⟨c, rfl⟩

theorem next_free (h : Counts p holds) : holds p.next = 0 :=
  h.gone _ (h.beyond _ (Nat.le_refl _))

/-- One place is filled anew with an item of that many holds, or emptied with none. -/
theorem put (h : Counts p holds) {i : ℕ} (hi : i < p.next) {c : Option (Cell α)} {n : ℕ}
    (hfits : n = (c.map Cell.refs).getD 0) (hself : holds' i = n)
    (hother : ∀ j, j ≠ i → holds' j = holds j) : Counts (p.put i c) holds' := by
  refine ⟨?_, ?_, ?_⟩
  · intro j d hd
    by_cases hj : j = i
    · subst hj
      rw [Store.put_self] at hd
      rw [hself, hfits, hd]
      rfl
    · rw [Store.put_of_ne _ _ hj] at hd
      rw [hother j hj]
      exact h.refs j d hd
  · intro j hnone
    by_cases hj : j = i
    · subst hj
      rw [Store.put_self] at hnone
      rw [hself, hfits, hnone]
      rfl
    · rw [Store.put_of_ne _ _ hj] at hnone
      rw [hother j hj]
      exact h.gone j hnone
  · intro j hj
    change p.next ≤ j at hj
    rw [Store.put_of_ne _ _ (by omega)]
    exact h.beyond j hj

theorem add (h : Counts p holds) (a : α) : Counts (p.add a) holds := by
  have hnext := h.next_free
  refine ⟨?_, ?_, ?_⟩
  · intro j d hd
    by_cases hj : j = p.next
    · subst hj
      rw [Store.add_self] at hd
      obtain rfl := Option.some.inj hd
      exact hnext.symm
    · rw [Store.add_of_ne _ _ hj] at hd
      exact h.refs j d hd
  · intro j hnone
    by_cases hj : j = p.next
    · subst hj
      exact hnext
    · rw [Store.add_of_ne _ _ hj] at hnone
      exact h.gone j hnone
  · intro j hj
    change p.next + 1 ≤ j at hj
    rw [Store.add_of_ne _ _ (by omega)]
    exact h.beyond j (by omega)

theorem put_same (h : Counts p holds) {i : ℕ} {c d : Cell α} (hc : p.cell i = some c)
    (hd : d.refs = c.refs) : Counts (p.put i (some d)) holds :=
  h.put (h.lt_next hc) rfl ((h.refs i c hc).symm.trans hd.symm) (fun _ _ => rfl)

theorem free (h : Counts p holds) {i : ℕ} {c : Cell α} (hc : p.cell i = some c)
    (hzero : holds i = 0) : p.free i = some (p.put i none) ∧ Counts (p.put i none) holds := by
  constructor
  · unfold Store.free
    rw [hc]
    rfl
  · exact h.put (h.lt_next hc) rfl hzero (fun _ _ => rfl)

end Counts

/-- A loop that can always go on, if `P` is kept of what is left and of the state. -/
theorem foldlM_some {σ β : Type*} {f : σ → β → Option σ} {P : List β → σ → Prop}
    (step : ∀ b rest s, P (b :: rest) s → ∃ s', f s b = some s' ∧ P rest s') (l : List β) (s : σ)
    (h : P l s) : ∃ s', l.foldlM f s = some s' ∧ P [] s' := by
  induction l generalizing s with
  | nil => exact ⟨s, rfl, h⟩
  | cons b rest ih =>
    obtain ⟨s', hf, hs'⟩ := step b rest s h
    obtain ⟨s'', hrest, hs''⟩ := ih s' hs'
    refine ⟨s'', ?_, hs''⟩
    rw [List.foldlM_cons, hf]
    exact hrest

end IrcdHybrid.Retention
