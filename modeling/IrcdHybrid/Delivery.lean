import Mathlib.Logic.Relation

/-!
Two parties joined by a first-in first-out queue in each direction. A delivery
takes the message at the head of one queue, changes the receiver's state and
appends the receiver's replies to the other queue. Deliveries to the two sides
commute, so the order in which they happen cannot be seen once both queues are
empty.
-/

namespace IrcdHybrid.Delivery

open Relation

structure Net (σ τ μ ν : Type*) where
  left : σ
  right : τ
  toLeft : List μ
  toRight : List ν

variable {σ τ μ ν : Type*}

/-- One delivery, to either side. -/
inductive Step (onLeft : σ → μ → σ × List ν) (onRight : τ → ν → τ × List μ) :
    Net σ τ μ ν → Net σ τ μ ν → Prop where
  | left (s : σ) (t : τ) (m : μ) (q : List μ) (r : List ν) :
    Step onLeft onRight ⟨s, t, m :: q, r⟩ ⟨(onLeft s m).1, t, q, r ++ (onLeft s m).2⟩
  | right (s : σ) (t : τ) (n : ν) (q : List μ) (r : List ν) :
    Step onLeft onRight ⟨s, t, q, n :: r⟩ ⟨s, (onRight t n).1, q ++ (onRight t n).2, r⟩

/-- Everything sent has been delivered. -/
def Quiet (c : Net σ τ μ ν) : Prop := c.toLeft = [] ∧ c.toRight = []

/-- The configuration `d` is one that some order of deliveries ends in. -/
def Completes (onLeft : σ → μ → σ × List ν) (onRight : τ → ν → τ × List μ)
    (c d : Net σ τ μ ν) : Prop := ReflTransGen (Step onLeft onRight) c d ∧ Quiet d

variable (onLeft : σ → μ → σ × List ν) (onRight : τ → ν → τ × List μ)

theorem step_diamond (c d e : Net σ τ μ ν) (hd : Step onLeft onRight c d)
    (he : Step onLeft onRight c e) :
    ∃ f, ReflGen (Step onLeft onRight) d f ∧ ReflTransGen (Step onLeft onRight) e f := by
  cases hd with
  | left s t m q r =>
    cases he with
    | left => exact ⟨_, ReflGen.refl, ReflTransGen.refl⟩
    | right s t n q r =>
      exact ⟨_, ReflGen.single (Step.right _ t n q _), ReflTransGen.single (Step.left s _ m _ r)⟩
  | right s t n q r =>
    cases he with
    | left s t m q r =>
      exact ⟨_, ReflGen.single (Step.left s _ m _ r), ReflTransGen.single (Step.right _ t n q _)⟩
    | right => exact ⟨_, ReflGen.refl, ReflTransGen.refl⟩

theorem eq_of_quiet (c d : Net σ τ μ ν) (hc : Quiet c)
    (h : ReflTransGen (Step onLeft onRight) c d) : c = d := by
  cases h.cases_head with
  | inl heq => exact heq
  | inr hstep =>
    obtain ⟨e, he, _⟩ := hstep
    cases he with
    | left => exact absurd hc.1 (by simp)
    | right => exact absurd hc.2 (by simp)

theorem completes_unique (c d e : Net σ τ μ ν) (hd : Completes onLeft onRight c d)
    (he : Completes onLeft onRight c e) : d = e := by
  obtain ⟨f, hdf, hef⟩ :=
    church_rosser (fun a b c hab hac => step_diamond onLeft onRight a b c hab hac) hd.1 he.1
  rw [eq_of_quiet onLeft onRight d f hd.2 hdf, eq_of_quiet onLeft onRight e f he.2 hef]

/-- Messages that nobody answers are absorbed one after the other. -/
theorem drain_left (s : σ) (t : τ) (q : List μ) (r : List ν)
    (hsilent : ∀ s, ∀ m ∈ q, (onLeft s m).2 = []) :
    ReflTransGen (Step onLeft onRight) ⟨s, t, q, r⟩
      ⟨q.foldl (fun s m => (onLeft s m).1) s, t, [], r⟩ := by
  induction q generalizing s with
  | nil => exact ReflTransGen.refl
  | cons m q ih =>
    have hstep : Step onLeft onRight ⟨s, t, m :: q, r⟩ _ := Step.left s t m q r
    rw [hsilent s m List.mem_cons_self, List.append_nil] at hstep
    exact ReflTransGen.head hstep (ih _ fun s' m' hm => hsilent s' m' (List.mem_cons_of_mem m hm))

theorem drain_right (s : σ) (t : τ) (q : List μ) (r : List ν)
    (hsilent : ∀ t, ∀ n ∈ r, (onRight t n).2 = []) :
    ReflTransGen (Step onLeft onRight) ⟨s, t, q, r⟩
      ⟨s, r.foldl (fun t n => (onRight t n).1) t, q, []⟩ := by
  induction r generalizing t with
  | nil => exact ReflTransGen.refl
  | cons n r ih =>
    have hstep : Step onLeft onRight ⟨s, t, q, n :: r⟩ _ := Step.right s t n q r
    rw [hsilent t n List.mem_cons_self, List.append_nil] at hstep
    exact ReflTransGen.head hstep (ih _ fun t' n' hn => hsilent t' n' (List.mem_cons_of_mem n hn))

/-- Two bursts that cross each other and are not answered. -/
theorem completes_silent (s : σ) (t : τ) (q : List μ) (r : List ν)
    (hleft : ∀ s, ∀ m ∈ q, (onLeft s m).2 = []) (hright : ∀ t, ∀ n ∈ r, (onRight t n).2 = []) :
    Completes onLeft onRight ⟨s, t, q, r⟩
      ⟨q.foldl (fun s m => (onLeft s m).1) s, r.foldl (fun t n => (onRight t n).1) t, [], []⟩ :=
  ⟨(drain_left onLeft onRight s t q r hleft).trans (drain_right onLeft onRight _ t [] r hright),
    rfl, rfl⟩

/-- One message crosses another, and nobody answers the answers. -/
theorem completes_crossing (s : σ) (t : τ) (m : μ) (n : ν)
    (hleft : ∀ s, ∀ m' ∈ (onRight t n).2, (onLeft s m').2 = [])
    (hright : ∀ t, ∀ n' ∈ (onLeft s m).2, (onRight t n').2 = []) :
    Completes onLeft onRight ⟨s, t, [m], [n]⟩
      ⟨(onRight t n).2.foldl (fun s m => (onLeft s m).1) (onLeft s m).1,
        (onLeft s m).2.foldl (fun t n => (onRight t n).1) (onRight t n).1, [], []⟩ := by
  have hl : Step onLeft onRight ⟨s, t, [m], [n]⟩ _ := Step.left s t m [] [n]
  have hr : Step onLeft onRight ⟨(onLeft s m).1, t, [], n :: (onLeft s m).2⟩ _ :=
    Step.right (onLeft s m).1 t n [] (onLeft s m).2
  obtain ⟨hrest, hquiet⟩ := completes_silent onLeft onRight (onLeft s m).1 (onRight t n).1
    (onRight t n).2 (onLeft s m).2 hleft hright
  exact ⟨ReflTransGen.head hl (ReflTransGen.head hr hrest), hquiet⟩

end IrcdHybrid.Delivery
