import Mathlib.Logic.Function.Basic
import Mathlib.Data.List.Basic

/-!
A pool of items with reference counts. An item is released when the last hold on it is
dropped, and asking for an item that is not there is an error. When the counts are right,
that is when each of them is the number of holds that somebody has, dropping holds one has
is never an error, every item is released once, and what is still held is still there.
-/

namespace IrcdHybrid.RefPool

structure Cell (α : Type*) where
  refs : ℕ
  item : α

/-- The items, the next place to put one, and how often each has been released. -/
structure Pool (α : Type*) where
  cell : ℕ → Option (Cell α)
  next : ℕ
  released : ℕ → ℕ

variable {α : Type*}

namespace Pool

def empty : Pool α := ⟨fun _ => none, 0, fun _ => 0⟩

def item (p : Pool α) (i : ℕ) : Option α := (p.cell i).map Cell.item

/-- A new item, held once. -/
def alloc (p : Pool α) (a : α) : ℕ × Pool α :=
  (p.next, { p with cell := Function.update p.cell p.next (some ⟨1, a⟩), next := p.next + 1 })

def hold (p : Pool α) (i : ℕ) : Option (Pool α) :=
  (p.cell i).map (fun c => { p with cell := Function.update p.cell i (some ⟨c.refs + 1, c.item⟩) })

def drop (p : Pool α) (i : ℕ) : Option (Pool α) :=
  (p.cell i).map (fun c =>
    if c.refs - 1 = 0 then
      { p with
        cell := Function.update p.cell i none
        released := Function.update p.released i (p.released i + 1) }
    else { p with cell := Function.update p.cell i (some ⟨c.refs - 1, c.item⟩) })

def write (p : Pool α) (i : ℕ) (a : α) : Option (Pool α) :=
  (p.cell i).map (fun c => { p with cell := Function.update p.cell i (some ⟨c.refs, a⟩) })

end Pool

/-- The counts are the numbers of holds, and what is not held is released, once. -/
structure Counts (p : Pool α) (holds : ℕ → ℕ) : Prop where
  beyond : ∀ i, p.next ≤ i → p.cell i = none ∧ p.released i = 0
  once : ∀ i, i < p.next → p.cell i = none → p.released i = 1
  live : ∀ i c, p.cell i = some c → c.refs = holds i ∧ 0 < c.refs ∧ p.released i = 0
  gone : ∀ i, p.cell i = none → holds i = 0

/-- Whatever is left in the later pool is as it was. -/
def Keeps (p p' : Pool α) : Prop := ∀ i a, p'.item i = some a → p.item i = some a

theorem counts_empty : Counts (Pool.empty : Pool α) (fun _ => 0) where
  beyond := fun _ _ => ⟨rfl, rfl⟩
  once := fun i hi => absurd hi (Nat.not_lt_zero i)
  live := fun i c hc => absurd hc (by simp [Pool.empty])
  gone := fun _ _ => rfl

theorem Counts.congr {p : Pool α} {holds holds' : ℕ → ℕ} (h : Counts p holds)
    (heq : ∀ i, holds' i = holds i) : Counts p holds' := by
  obtain rfl : holds' = holds := funext heq
  exact h

theorem Counts.item_of_held {p : Pool α} {holds : ℕ → ℕ} (h : Counts p holds) {i : ℕ}
    (hi : 0 < holds i) : ∃ a, p.cell i = some ⟨holds i, a⟩ := by
  cases hc : p.cell i with
  | none =>
    have hzero := h.gone i hc
    omega
  | some c =>
    obtain ⟨refs, a⟩ := c
    have hrefs : refs = holds i := (h.live i _ hc).1
    subst hrefs
    exact ⟨a, rfl⟩

theorem Counts.held_of_item {p : Pool α} {holds : ℕ → ℕ} (h : Counts p holds) {i : ℕ} {a : α}
    (hi : p.item i = some a) : 0 < holds i := by
  obtain ⟨c, hc, -⟩ := Option.map_eq_some_iff.mp hi
  have hlive := h.live i c hc
  omega

theorem Counts.released_eq {p : Pool α} {holds : ℕ → ℕ} (h : Counts p holds) {i : ℕ}
    (hi : i < p.next) : p.released i = if holds i = 0 then 1 else 0 := by
  cases hc : p.cell i with
  | none => rw [h.once i hi hc, if_pos (h.gone i hc)]
  | some c =>
    obtain ⟨hrefs, hpos, hreleased⟩ := h.live i c hc
    rw [hreleased, if_neg (by omega)]

/-- One place after a change: it holds an item with that many holds, or its item is released. -/
def Fits (c : Option (Cell α)) (released n : ℕ) : Prop :=
  match c with
  | some c => c.refs = n ∧ 0 < n ∧ released = 0
  | none => n = 0 ∧ released = 1

theorem Counts.set {p : Pool α} {holds : ℕ → ℕ} (h : Counts p holds) {i next : ℕ}
    (hi : i < next) (hnext : p.next ≤ next) (honly : ∀ j, p.next ≤ j → j < next → j = i)
    {c : Option (Cell α)} {released n : ℕ} (hfits : Fits c released n) :
    Counts ⟨Function.update p.cell i c, next, Function.update p.released i released⟩
      (Function.update holds i n) := by
  refine ⟨?_, ?_, ?_, ?_⟩
  · intro j hj
    change next ≤ j at hj
    have hne : j ≠ i := by omega
    show Function.update p.cell i c j = none ∧ Function.update p.released i released j = 0
    rw [Function.update_of_ne hne, Function.update_of_ne hne]
    exact h.beyond j (by omega)
  · intro j hj hnone
    change j < next at hj
    change Function.update p.cell i c j = none at hnone
    show Function.update p.released i released j = 1
    by_cases heq : j = i
    · rw [heq, Function.update_self] at hnone ⊢
      subst hnone
      exact hfits.2
    · rw [Function.update_of_ne heq] at hnone ⊢
      have hlt : j < p.next := by
        by_contra hge
        exact heq (honly j (by omega) hj)
      exact h.once j hlt hnone
  · intro j c' hc
    change Function.update p.cell i c j = some c' at hc
    show c'.refs = Function.update holds i n j ∧ 0 < c'.refs ∧
      Function.update p.released i released j = 0
    by_cases heq : j = i
    · rw [heq, Function.update_self] at hc ⊢
      subst hc
      obtain ⟨hrefs, hpos, hreleased⟩ := hfits
      rw [Function.update_self, hrefs]
      exact ⟨rfl, hpos, hreleased⟩
    · rw [Function.update_of_ne heq] at hc ⊢
      rw [Function.update_of_ne heq]
      exact h.live j c' hc
  · intro j hnone
    change Function.update p.cell i c j = none at hnone
    by_cases heq : j = i
    · rw [heq, Function.update_self] at hnone ⊢
      subst hnone
      exact hfits.1
    · rw [Function.update_of_ne heq] at hnone ⊢
      exact h.gone j hnone

theorem Counts.lt_next {p : Pool α} {holds : ℕ → ℕ} (h : Counts p holds) {i : ℕ}
    (hi : 0 < holds i) : i < p.next := by
  by_contra hge
  have hzero := h.gone i (h.beyond i (by omega)).1
  omega

theorem Counts.put {p : Pool α} {holds : ℕ → ℕ} (h : Counts p holds) {i n : ℕ}
    (hi : 0 < holds i) (hn : 0 < n) (a : α) :
    Counts { p with cell := Function.update p.cell i (some ⟨n, a⟩) }
      (Function.update holds i n) := by
  have hlt := h.lt_next hi
  obtain ⟨b, hb⟩ := h.item_of_held hi
  have hset := h.set hlt (Nat.le_refl _) (fun j hj hj' => absurd hj (by omega))
    (show Fits (some (Cell.mk n a)) (p.released i) n from ⟨rfl, hn, (h.live i _ hb).2.2⟩)
  rwa [Function.update_eq_self] at hset

theorem item_put (p : Pool α) (i n : ℕ) (a : α) :
    Pool.item { p with cell := Function.update p.cell i (some ⟨n, a⟩) } =
      Function.update p.item i (some a) := by
  funext j
  show (Function.update p.cell i _ j).map Cell.item = Function.update p.item i (some a) j
  by_cases heq : j = i
  · rw [heq, Function.update_self, Function.update_self]
    rfl
  · rw [Function.update_of_ne heq, Function.update_of_ne heq]
    rfl

theorem count_one (i j : ℕ) : [i].count j = if j = i then 1 else 0 := by
  rw [List.count_singleton]
  by_cases hj : i = j
  · simp [hj]
  · simp [hj, Ne.symm hj]

theorem counts_alloc {p : Pool α} {holds : ℕ → ℕ} (h : Counts p holds) (a : α) :
    Counts (p.alloc a).2 (fun i => holds i + [p.next].count i) := by
  have hnew := h.beyond p.next (Nat.le_refl _)
  have hset := h.set (Nat.lt_succ_self p.next) (Nat.le_succ p.next)
    (fun j hj hj' => by omega)
    (show Fits (some (Cell.mk 1 a)) (p.released p.next) 1 from ⟨rfl, Nat.one_pos, hnew.2⟩)
  rw [Function.update_eq_self] at hset
  apply hset.congr
  intro j
  rw [count_one]
  by_cases hj : j = p.next
  · rw [if_pos hj, hj, Function.update_self, h.gone _ hnew.1]
  · rw [if_neg hj, Function.update_of_ne hj]
    rfl

theorem item_alloc (p : Pool α) (a : α) :
    (p.alloc a).2.item = Function.update p.item p.next (some a) := item_put p p.next 1 a

theorem counts_hold {p : Pool α} {holds : ℕ → ℕ} (h : Counts p holds) {i : ℕ}
    (hi : 0 < holds i) :
    ∃ p', p.hold i = some p' ∧ Counts p' (fun j => holds j + [i].count j) ∧
      p'.next = p.next ∧ p'.item = p.item := by
  obtain ⟨a, ha⟩ := h.item_of_held hi
  unfold Pool.hold
  rw [ha]
  refine ⟨_, rfl, (h.put hi (Nat.succ_pos _) a).congr ?_, rfl, ?_⟩
  · intro j
    rw [count_one]
    by_cases hj : j = i
    · rw [if_pos hj, hj, Function.update_self]
    · rw [if_neg hj, Function.update_of_ne hj]
      rfl
  · have hitem : p.item i = some a := congrArg (Option.map Cell.item) ha
    rw [item_put, ← hitem, Function.update_eq_self]

theorem counts_drop {p : Pool α} {holds : ℕ → ℕ} (h : Counts p holds) {i : ℕ}
    (hi : 0 < holds i) :
    ∃ p', p.drop i = some p' ∧ Counts p' (fun j => holds j - [i].count j) ∧
      p'.next = p.next ∧ Keeps p p' := by
  obtain ⟨a, ha⟩ := h.item_of_held hi
  have hcount : ∀ j, holds j - [i].count j = Function.update holds i (holds i - 1) j := by
    intro j
    rw [count_one]
    by_cases hj : j = i
    · rw [if_pos hj, hj, Function.update_self]
    · rw [if_neg hj, Function.update_of_ne hj]
      rfl
  unfold Pool.drop
  rw [ha, Option.map_some]
  dsimp only
  by_cases hlast : holds i - 1 = 0
  · rw [if_pos hlast]
    have hset := h.set (h.lt_next hi) (Nat.le_refl _) (fun j hj hj' => absurd hj (by omega))
      (show Fits (none : Option (Cell α)) (p.released i + 1) (holds i - 1) from
        ⟨hlast, by rw [(h.live i _ ha).2.2]⟩)
    refine ⟨_, rfl, hset.congr hcount, rfl, ?_⟩
    intro j b hb
    change (Function.update p.cell i none j).map Cell.item = some b at hb
    by_cases hj : j = i
    · rw [hj, Function.update_self] at hb
      exact absurd hb (by simp)
    · rwa [Function.update_of_ne hj] at hb
  · rw [if_neg hlast]
    refine ⟨_, rfl, (h.put hi (Nat.pos_of_ne_zero hlast) a).congr hcount, rfl, ?_⟩
    intro j b hb
    have hitem : p.item i = some a := congrArg (Option.map Cell.item) ha
    rwa [item_put, ← hitem, Function.update_eq_self] at hb

theorem counts_write {p : Pool α} {holds : ℕ → ℕ} (h : Counts p holds) {i : ℕ}
    (hi : 0 < holds i) (b : α) :
    ∃ p', p.write i b = some p' ∧ Counts p' holds ∧ p'.next = p.next ∧
      p'.item = Function.update p.item i (some b) := by
  obtain ⟨a, ha⟩ := h.item_of_held hi
  unfold Pool.write
  rw [ha]
  refine ⟨_, rfl, (h.put hi hi b).congr ?_, rfl, item_put ..⟩
  intro j
  rw [Function.update_eq_self]

/-- What somebody holds after a change that keeps the items is the same item. -/
theorem Counts.item_kept {p p' : Pool α} {holds : ℕ → ℕ} (h : Counts p' holds)
    (hkeep : Keeps p p') {i : ℕ} (hi : 0 < holds i) : p'.item i = p.item i := by
  obtain ⟨a, ha⟩ := h.item_of_held hi
  have hitem : p'.item i = some a := by
    unfold Pool.item
    rw [ha]
    rfl
  rw [hitem, hkeep i a hitem]

end IrcdHybrid.RefPool
