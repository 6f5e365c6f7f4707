import Mathlib.Data.Finset.Card
import Mathlib.Data.Finset.Image
import Mathlib.Data.Nat.Find
import Mathlib.Data.Nat.ModEq
import Mathlib.Logic.Function.Iterate

/-!
Counting round a cycle. A step that adds one to the rank of a state, modulo the number of
states, passes through all of them before it comes back. A search that goes on from one state
to the next, as long as what it finds is taken, ends when not all of them are.
-/

namespace IrcdHybrid.Cycle

variable {α : Type*}

/-- The states have the ranks below `size`, and a step adds one. -/
structure Counts (states : α → Prop) (next : α → α) (rank : α → ℕ) (size : ℕ) : Prop where
  closed : ∀ x, states x → states (next x)
  lt : ∀ x, states x → rank x < size
  step : ∀ x, states x → rank (next x) = (rank x + 1) % size
  inj : ∀ x y, states x → states y → rank x = rank y → x = y

/-- Go on from state to state while what is found is taken. -/
def search (next : α → α) (taken : α → Bool) : ℕ → α → Option α
  | 0, _ => none
  | fuel + 1, x => if taken (next x) then search next taken fuel (next x) else some (next x)

section Counts

variable {states : α → Prop} {next : α → α} {rank : α → ℕ} {size : ℕ}

theorem Counts.iterate_states (h : Counts states next rank size) (x : α) (hx : states x) (k : ℕ) :
    states (next^[k] x) := by
  induction k with
  | zero => exact hx
  | succ k ih =>
    rw [Function.iterate_succ_apply']
    exact h.closed _ ih

theorem Counts.rank_iterate (h : Counts states next rank size) (x : α) (hx : states x) (k : ℕ) :
    rank (next^[k] x) = (rank x + k) % size := by
  induction k with
  | zero => exact (Nat.mod_eq_of_lt (h.lt x hx)).symm
  | succ k ih =>
    rw [Function.iterate_succ_apply', h.step _ (h.iterate_states x hx k), ih, Nat.mod_add_mod]
    rfl

theorem Counts.iterate_inj (h : Counts states next rank size) (x : α) (hx : states x) (i j : ℕ)
    (hi : i < size) (hj : j < size) (heq : next^[i] x = next^[j] x) : i = j := by
  have hrank := congrArg rank heq
  rw [h.rank_iterate x hx, h.rank_iterate x hx] at hrank
  have hmod : i % size = j % size := Nat.ModEq.add_left_cancel' (rank x) hrank
  rwa [Nat.mod_eq_of_lt hi, Nat.mod_eq_of_lt hj] at hmod

theorem Counts.iterate_size (h : Counts states next rank size) (x : α) (hx : states x) :
    next^[size] x = x := by
  apply h.inj _ _ (h.iterate_states x hx size) hx
  rw [h.rank_iterate x hx, Nat.add_mod_right, Nat.mod_eq_of_lt (h.lt x hx)]

theorem Counts.iterate_covers (h : Counts states next rank size) (x y : α) (hx : states x)
    (hy : states y) : ∃ k < size, next^[k] x = y := by
  have hxlt := h.lt x hx
  have hylt := h.lt y hy
  refine ⟨(rank y + (size - rank x)) % size, Nat.mod_lt _ (by omega), ?_⟩
  apply h.inj _ _ (h.iterate_states x hx _) hy
  have hsum : rank x + (rank y + (size - rank x)) = rank y + size := by omega
  rw [h.rank_iterate x hx, Nat.add_mod_mod, hsum, Nat.add_mod_right, Nat.mod_eq_of_lt hylt]

end Counts

/-- The search passes over what is taken, and more fuel changes nothing. -/
theorem search_passes (next : α → α) (taken : α → Bool) (x : α) (k fuel : ℕ) (hfuel : k < fuel)
    (hbefore : ∀ i < k, taken (next^[i + 1] x) = true) (hfree : taken (next^[k + 1] x) = false) :
    search next taken fuel x = some (next^[k + 1] x) := by
  induction k generalizing x fuel with
  | zero =>
    obtain ⟨fuel, rfl⟩ : ∃ f, fuel = f + 1 := ⟨fuel - 1, by omega⟩
    have hfree' : taken (next x) = false := hfree
    rw [search, if_neg (by rw [hfree']; exact Bool.false_ne_true)]
    rfl
  | succ k ih =>
    obtain ⟨fuel, rfl⟩ : ∃ f, fuel = f + 1 := ⟨fuel - 1, by omega⟩
    have htaken : taken (next x) = true := hbefore 0 (Nat.succ_pos k)
    rw [search, if_pos htaken]
    exact ih (next x) fuel (by omega) (fun i hi => hbefore (i + 1) (by omega)) hfree

/-- Where fewer states than there are are taken, a round of search finds a free one. -/
theorem Counts.search_finds [DecidableEq α] {states : α → Prop} {next : α → α} {rank : α → ℕ}
    {size : ℕ} (h : Counts states next rank size) (x : α) (hx : states x) (taken : α → Bool)
    (members : Finset α) (hmembers : ∀ y, states y → taken y = true → y ∈ members)
    (hcard : members.card < size) :
    ∃ k < size, taken (next^[k + 1] x) = false ∧
      ∀ fuel, size ≤ fuel → search next taken fuel x = some (next^[k + 1] x) := by
  have hfree : ∃ k, k < size ∧ taken (next^[k + 1] x) = false := by
    by_contra hall
    push Not at hall
    have hround : (Finset.range size).image (fun k => next^[k + 1] x) ⊆ members := by
      intro y hy
      obtain ⟨k, hk, rfl⟩ := Finset.mem_image.mp hy
      have htaken := Bool.eq_true_of_not_eq_false (hall k (Finset.mem_range.mp hk))
      exact hmembers _ (h.iterate_states x hx (k + 1)) htaken
    have hle := Finset.card_le_card hround
    rw [Finset.card_image_of_injOn, Finset.card_range] at hle
    · omega
    · intro i hi j hj heq
      simp only [Finset.coe_range, Set.mem_Iio] at hi hj
      exact h.iterate_inj (next x) (h.closed x hx) i j hi hj heq
  -- the first free state of the round is the one found
  let k := Nat.find hfree
  obtain ⟨hk, hnot⟩ := Nat.find_spec hfree
  refine ⟨k, hk, hnot, fun fuel hfuel => ?_⟩
  apply search_passes next taken x k fuel (Nat.lt_of_lt_of_le hk hfuel) _ hnot
  intro i hi
  have hmin := Nat.find_min hfree hi
  push Not at hmin
  exact Bool.eq_true_of_not_eq_false (hmin (Nat.lt_trans hi hk))

end IrcdHybrid.Cycle
