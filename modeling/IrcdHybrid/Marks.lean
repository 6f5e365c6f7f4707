import Mathlib.Logic.Function.Basic
import Mathlib.Data.List.Nodup

/-!
Serving every key once with marks that are never cleared. Each round has a number of its own,
and a key is marked by storing the number of the round on it, so the marks of earlier rounds
mean nothing as long as the number has not been used before. Within a round, items are looked
at one after the other; several of them may have the same key, and an item may stop passing
while the round goes on. A key is served at most once, only for an item that passes, and for
each item that still passes in the end.
-/

namespace IrcdHybrid.Marks

section Stamps

variable {κ : Type*} [DecidableEq κ]

/-- The round a key was marked in last, and the round that is going on. -/
structure Stamps (κ : Type*) where
  stamp : κ → ℕ
  round : ℕ

def Stamps.seen (m : Stamps κ) (c : κ) : Bool := m.stamp c == m.round

def Stamps.mark (m : Stamps κ) (c : κ) : Stamps κ :=
  { m with stamp := Function.update m.stamp c m.round }

/-- The next round, its number kept below `bound`. -/
def Stamps.next (m : Stamps κ) (bound : ℕ) : Stamps κ := { m with round := (m.round + 1) % bound }

/-- There have been `n` rounds, and no mark is from a round to come. -/
def Stamps.Counts (m : Stamps κ) (n : ℕ) : Prop := m.round = n ∧ ∀ c, m.stamp c ≤ n

@[simp]
theorem seen_mark (m : Stamps κ) (c d : κ) : (m.mark c).seen d = (d == c || m.seen d) := by
  unfold Stamps.mark Stamps.seen
  by_cases h : d = c
  · simp [h]
  · simp [h]

theorem Stamps.Counts.mark (m : Stamps κ) (n : ℕ) (c : κ) (h : m.Counts n) :
    (m.mark c).Counts n := by
  refine ⟨h.1, fun d => ?_⟩
  by_cases hd : d = c
  · subst hd
    simp [Stamps.mark, h.1]
  · simp [Stamps.mark, Function.update_of_ne hd, h.2 d]

omit [DecidableEq κ] in
theorem Stamps.Counts.next (m : Stamps κ) (n bound : ℕ) (h : m.Counts n) (hn : n + 1 < bound) :
    (m.next bound).Counts (n + 1) := by
  refine ⟨?_, fun c => Nat.le_succ_of_le (h.2 c)⟩
  show (m.round + 1) % bound = n + 1
  rw [h.1, Nat.mod_eq_of_lt hn]

omit [DecidableEq κ] in
theorem not_seen_next (m : Stamps κ) (n bound : ℕ) (h : m.Counts n) (hn : n + 1 < bound) (c : κ) :
    (m.next bound).seen c = false := by
  have hround : (m.round + 1) % bound = n + 1 := (Stamps.Counts.next m n bound h hn).1
  have hc : m.stamp c ≤ n := h.2 c
  show (m.stamp c == (m.round + 1) % bound) = false
  rw [hround, beq_eq_false_iff_ne]
  omega

end Stamps

section Rounds

variable {σ α κ : Type*} (key : α → κ) (pass : σ → α → Prop) (blocked : κ → Prop)
  (seen : σ → κ → Prop)

/-- What looking at the item `x` does: the key of an item that passes is marked, and served if
it was not marked and is not blocked. -/
structure Turn (x : α) (s s' : σ) (out : List κ) : Prop where
  keeps : ∀ y, pass s' y → pass s y
  seen_iff : ∀ c, seen s' c ↔ seen s c ∨ (c = key x ∧ pass s x)
  out_cases : out = [] ∧ (pass s x → seen s (key x) ∨ blocked (key x)) ∨
    out = [key x] ∧ pass s x ∧ ¬ seen s (key x) ∧ ¬ blocked (key x)

inductive Round : List α → σ → σ → List κ → Prop where
  | nil (s : σ) : Round [] s s []
  | cons (x : α) (xs : List α) (s t u : σ) (out out' : List κ)
      (hturn : Turn key pass blocked seen x s t out) (hrest : Round xs t u out') :
      Round (x :: xs) s u (out ++ out')

variable {key pass blocked seen} {x : α} {xs ys : List α} {s t u : σ} {out out' : List κ}

theorem Round.keeps (h : Round key pass blocked seen xs s t out) (y : α) (hy : pass t y) :
    pass s y := by
  induction h with
  | nil s => exact hy
  | cons x xs s t u o o' hturn _ ih => exact hturn.keeps y (ih hy)

theorem Turn.mem_out (h : Turn key pass blocked seen x s t out) (c : κ) (hc : c ∈ out) :
    c = key x ∧ pass s x ∧ ¬ seen s c ∧ ¬ blocked c := by
  rcases h.out_cases with ⟨hout, _⟩ | ⟨hout, hpass, hseen, hblocked⟩
  · rw [hout] at hc
    exact absurd hc (List.not_mem_nil)
  · rw [hout, List.mem_singleton] at hc
    subst hc
    exact ⟨rfl, hpass, hseen, hblocked⟩

theorem Turn.seen_of_mem (h : Turn key pass blocked seen x s t out) (c : κ) (hc : c ∈ out) :
    seen t c := by
  obtain ⟨hkey, hpass, _⟩ := h.mem_out c hc
  exact (h.seen_iff c).mpr (Or.inr ⟨hkey, hpass⟩)

/-- What is served had not been marked, and is served for an item that passed at the start. -/
theorem Round.mem_out (h : Round key pass blocked seen xs s t out) (c : κ) (hc : c ∈ out) :
    ¬ seen s c ∧ ¬ blocked c ∧ ∃ x ∈ xs, key x = c ∧ pass s x := by
  induction h with
  | nil s => exact absurd hc (List.not_mem_nil)
  | cons x xs s t u o o' hturn _ ih =>
    rcases List.mem_append.mp hc with hc | hc
    · obtain ⟨hkey, hpass, hseen, hblocked⟩ := hturn.mem_out c hc
      exact ⟨hseen, hblocked, x, List.mem_cons_self, hkey.symm, hpass⟩
    · obtain ⟨hseen, hblocked, y, hy, hkey, hpass⟩ := ih hc
      refine ⟨fun hs => hseen ((hturn.seen_iff c).mpr (Or.inl hs)), hblocked, y,
        List.mem_cons_of_mem x hy, hkey, hturn.keeps y hpass⟩

theorem Round.nodup (h : Round key pass blocked seen xs s t out) : out.Nodup := by
  induction h with
  | nil s => exact List.nodup_nil
  | cons x xs s t u o o' hturn hrest ih =>
    have ho : o.Nodup := by
      rcases hturn.out_cases with ⟨hout, _⟩ | ⟨hout, _⟩
      · rw [hout]
        exact List.nodup_nil
      · rw [hout]
        exact List.nodup_singleton _
    refine List.nodup_append.mpr ⟨ho, ih, ?_⟩
    intro c hc d hd heq
    subst heq
    exact (hrest.mem_out c hd).1 (hturn.seen_of_mem c hc)

/-- A mark was there before, or is the mark of an item that passed. -/
theorem Round.seen_cases (h : Round key pass blocked seen xs s t out) (c : κ) (hc : seen t c) :
    seen s c ∨ ∃ x ∈ xs, key x = c ∧ pass s x := by
  induction h with
  | nil s => exact Or.inl hc
  | cons x xs s t u o o' hturn _ ih =>
    rcases ih hc with ht | ⟨y, hy, hkey, hpass⟩
    · rcases (hturn.seen_iff c).mp ht with hs | ⟨hkey, hpass⟩
      · exact Or.inl hs
      · exact Or.inr ⟨x, List.mem_cons_self, hkey.symm, hpass⟩
    · exact Or.inr ⟨y, List.mem_cons_of_mem x hy, hkey, hturn.keeps y hpass⟩

/-- The key of an item that passes in the end is served, if nothing was in the way before. -/
theorem Round.served (h : Round key pass blocked seen xs s t out) (x : α) (hx : x ∈ xs)
    (hpass : pass t x) (hseen : ¬ seen s (key x)) (hblocked : ¬ blocked (key x)) :
    key x ∈ out := by
  induction h with
  | nil s => exact absurd hx (List.not_mem_nil)
  | cons y xs s t u o o' hturn hrest ih =>
    apply List.mem_append.mpr
    by_cases ht : seen t (key x)
    · rcases (hturn.seen_iff (key x)).mp ht with hs | ⟨hkey, hy⟩
      · exact absurd hs hseen
      · rcases hturn.out_cases with ⟨_, hwhy⟩ | ⟨hout, _⟩
        · rw [← hkey] at hwhy
          rcases hwhy hy with hs | hb
          · exact absurd hs hseen
          · exact absurd hb hblocked
        · left
          rw [hout, hkey]
          exact List.mem_singleton_self _
    · right
      rcases List.mem_cons.mp hx with heq | hx
      · subst heq
        have hy : pass s x := hturn.keeps x (hrest.keeps x hpass)
        exact absurd ((hturn.seen_iff (key x)).mpr (Or.inr ⟨rfl, hy⟩)) ht
      · exact ih hx hpass ht

end Rounds

end IrcdHybrid.Marks
