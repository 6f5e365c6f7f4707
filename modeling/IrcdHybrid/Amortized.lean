import Mathlib.Algebra.Ring.Int.Defs
import Mathlib.Data.Int.Order.Basic
import Mathlib.Data.Nat.Cast.Basic
import Mathlib.Data.List.TakeWhile
import Mathlib.Order.Lattice
import Mathlib.Tactic.Common

/-!
Counting what a machine grants. Each event is granted or refused and moves the state. A
potential that no event raises, and that each grant lowers, bounds the number of grants;
for events in the order of a clock the bound need only be shown inside a window.
-/

namespace IrcdHybrid.Amortized

variable {σ ε τ : Type*}

/-- The state behind a list of events. -/
def after (step : σ → ε → Bool × σ) (b : σ) (es : List ε) : σ :=
  es.foldl (fun b e => (step b e).2) b

/-- How many of the events that `p` picks are granted. -/
def granted (step : σ → ε → Bool × σ) (p : ε → Bool) : σ → List ε → ℕ
  | _, [] => 0
  | b, e :: es =>
    (if p e && (step b e).1 then 1 else 0) + granted step p (step b e).2 es

section Runs

variable (step : σ → ε → Bool × σ) (p : ε → Bool)

@[simp] theorem after_nil (b : σ) : after step b [] = b := rfl

@[simp] theorem after_cons (b : σ) (e : ε) (es : List ε) :
    after step b (e :: es) = after step (step b e).2 es := rfl

theorem granted_append (b : σ) (es fs : List ε) :
    granted step p b (es ++ fs) = granted step p b es + granted step p (after step b es) fs := by
  induction es generalizing b with
  | nil => simp [granted]
  | cons e es ih =>
    rw [List.cons_append, granted, granted, ih, after_cons]
    omega

theorem granted_eq_zero (b : σ) (es : List ε) (h : ∀ e ∈ es, p e = false) :
    granted step p b es = 0 := by
  induction es generalizing b with
  | nil => rfl
  | cons e es ih =>
    rw [granted, h e List.mem_cons_self, ih _ (fun f hf => h f (List.mem_cons_of_mem _ hf))]
    rfl

theorem granted_congr (q : ε → Bool) (b : σ) (es : List ε) (h : ∀ e ∈ es, p e = q e) :
    granted step p b es = granted step q b es := by
  induction es generalizing b with
  | nil => rfl
  | cons e es ih =>
    rw [granted, granted, h e List.mem_cons_self,
      ih _ (fun f hf => h f (List.mem_cons_of_mem _ hf))]

theorem after_inv (I : σ → Prop) (b : σ) (es : List ε) (hb : I b)
    (hstep : ∀ b, ∀ e ∈ es, I b → I (step b e).2) : I (after step b es) := by
  induction es generalizing b with
  | nil => exact hb
  | cons e es ih =>
    rw [after_cons]
    apply ih _ (hstep b e List.mem_cons_self hb)
    intro b f hf
    exact hstep b f (List.mem_cons_of_mem _ hf)

/-- The number of grants is at most the potential before them. -/
theorem granted_le (I : σ → Prop) (potential : σ → ℤ) (b : σ) (es : List ε) (hb : I b)
    (hnonneg : ∀ b, I b → 0 ≤ potential b)
    (hstep : ∀ b, ∀ e ∈ es, I b → I (step b e).2 ∧
      potential (step b e).2 + (if p e && (step b e).1 then 1 else 0) ≤ potential b) :
    (granted step p b es : ℤ) ≤ potential b := by
  induction es generalizing b with
  | nil => exact hnonneg b hb
  | cons e es ih =>
    obtain ⟨hinv, hdrop⟩ := hstep b e List.mem_cons_self hb
    have hrest := ih _ hinv (fun b f hf => hstep b f (List.mem_cons_of_mem _ hf))
    rw [granted, Nat.cast_add, Nat.cast_ite, Nat.cast_one, Nat.cast_zero]
    omega

end Runs

section Clock

variable [LinearOrder τ] (time : ε → τ)

/-- Events in the order of a clock: those before a window, those in it, those behind it. -/
theorem exists_window (s t : τ) (es : List ε)
    (hclock : es.Pairwise (fun e f => time e ≤ time f)) :
    ∃ pre mid post, es = pre ++ mid ++ post ∧ (∀ e ∈ pre, time e < s) ∧
      (∀ e ∈ mid, s ≤ time e ∧ time e ≤ t) ∧ ∀ e ∈ post, t < time e := by
  induction es with
  | nil => exact ⟨[], [], [], rfl, by simp, by simp, by simp⟩
  | cons e es ih =>
    obtain ⟨hhead, htail⟩ := List.pairwise_cons.mp hclock
    obtain ⟨pre, mid, post, heq, hpre, hmid, hpost⟩ := ih htail
    by_cases hs : time e < s
    · refine ⟨e :: pre, mid, post, by rw [heq]; rfl, ?_, hmid, hpost⟩
      intro f hf
      rcases List.mem_cons.mp hf with rfl | hf
      · exact hs
      · exact hpre f hf
    by_cases ht : time e ≤ t
    · have hnone : pre = [] := by
        apply List.eq_nil_iff_forall_not_mem.mpr
        intro f hf
        exact hs (lt_of_le_of_lt (hhead f (by simp [heq, hf])) (hpre f hf))
      refine ⟨[], e :: mid, post, by rw [heq, hnone]; rfl, by simp, ?_, hpost⟩
      intro f hf
      rcases List.mem_cons.mp hf with rfl | hf
      · exact ⟨not_lt.mp hs, ht⟩
      · exact hmid f hf
    · refine ⟨[], [], e :: es, rfl, by simp, by simp, ?_⟩
      intro f hf
      rcases List.mem_cons.mp hf with rfl | hf
      · exact not_le.mp ht
      · exact lt_of_lt_of_le (not_le.mp ht) (hhead f hf)

variable (step : σ → ε → Bool × σ) (p : ε → Bool)

/-- A bound on the grants of a run inside the window, from any state that a run reaches, bounds
the grants of the window in a run over all times. -/
theorem granted_window_le (I : σ → Prop) (s t : τ) (bound : ℤ) (b : σ) (es : List ε) (hb : I b)
    (hclock : es.Pairwise (fun e f => time e ≤ time f))
    (hstep : ∀ b e, I b → I (step b e).2)
    (hmid : ∀ b mid, I b → (∀ e ∈ mid, s ≤ time e ∧ time e ≤ t) →
      (granted step p b mid : ℤ) ≤ bound) :
    (granted step (fun e => p e && decide (s ≤ time e) && decide (time e ≤ t)) b es : ℤ)
      ≤ bound := by
  obtain ⟨pre, mid, post, rfl, hpre, hwindow, hpost⟩ := exists_window time s t es hclock
  rw [granted_append, granted_append]
  have hearly := granted_eq_zero step
    (fun e => p e && decide (s ≤ time e) && decide (time e ≤ t)) b pre
    (fun e he => by simp [not_le.mpr (hpre e he)])
  have hlate := granted_eq_zero step
    (fun e => p e && decide (s ≤ time e) && decide (time e ≤ t)) (after step b (pre ++ mid)) post
    (fun e he => by simp [not_le.mpr (hpost e he)])
  have hinside := granted_congr step
    (fun e => p e && decide (s ≤ time e) && decide (time e ≤ t)) p (after step b pre) mid
    (fun e he => by simp [hwindow e he])
  rw [hearly, hlate, hinside]
  have hreach : I (after step b pre) := after_inv step I b pre hb (fun b e _ => hstep b e)
  have := hmid _ mid hreach hwindow
  push_cast
  omega

end Clock

end IrcdHybrid.Amortized
