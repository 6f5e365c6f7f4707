import Mathlib.Data.Int.Order.Basic
import Mathlib.Data.List.Chain
import Mathlib.Data.List.Induction

/-!
Counting votes in rounds. A round is the list of the votes that count. It lapses when nobody
votes for a while, a vote that clashes with one that counts is left out, and the vote after the
last one needed closes the round and carries it.
-/

namespace IrcdHybrid.Quorum

variable {V : Type*} (time : V → ℤ) (clash : V → V → Bool) (window : ℤ) (needed : ℕ)

def lapsed (round : List V) (now : ℤ) : Bool :=
  round.getLast?.any (fun v => decide (time v + window ≤ now))

/-- What is left of the round at a time. -/
def live (round : List V) (now : ℤ) : List V := if lapsed time window round now then [] else round

/-- The round after a vote, and whether the vote carries it. -/
def castVote (round : List V) (v : V) : List V × Bool :=
  let round := live time window round (time v)
  if round.any (fun w => clash w v) then (round, false)
  else if round.length = needed then ([], true)
  else (round ++ [v], false)

def count (votes : List V) : List V :=
  votes.foldl (fun round v => (castVote time clash window needed round v).1) []

/-- Votes that do not clash, none of them long after the one before it, and not enough of them. -/
structure Counted (round : List V) : Prop where
  apart : round.Pairwise (fun v w => clash v w = false)
  close : round.IsChain (fun v w => time w < time v + window)
  length_le : round.length ≤ needed

variable {time clash window needed}

theorem live_nil (now : ℤ) : live time window ([] : List V) now = [] := by
  unfold live
  split <;> rfl

theorem live_cases (round : List V) (now : ℤ) :
    live time window round now = [] ∨ live time window round now = round := by
  unfold live
  split
  · exact Or.inl rfl
  · exact Or.inr rfl

theorem live_live (round : List V) (now later : ℤ) (h : now ≤ later) :
    live time window (live time window round now) later = live time window round later := by
  by_cases hl : lapsed time window round now = true
  · have hlater : lapsed time window round later = true := by
      unfold lapsed at *
      cases hlast : round.getLast? with
      | none => simp [hlast] at hl
      | some v =>
        simp only [hlast, Option.any_some, decide_eq_true_eq] at hl ⊢
        omega
    unfold live
    rw [if_pos hl, if_pos hlater]
    split <;> rfl
  · have hround : live time window round now = round := by
      unfold live
      rw [if_neg hl]
    rw [hround]

theorem lt_of_live (round : List V) (now : ℤ) (w : V) (h : live time window round now ≠ [])
    (hw : round.getLast? = some w) : now < time w + window := by
  by_contra hnot
  apply h
  unfold live
  rw [if_pos]
  unfold lapsed
  rw [hw]
  simpa using hnot

theorem Counted.live (round : List V) (now : ℤ) (h : Counted time clash window needed round) :
    Counted time clash window needed (live time window round now) := by
  rcases @live_cases V time window round now with hl | hl
  · rw [hl]
    exact ⟨List.Pairwise.nil, List.isChain_nil, Nat.zero_le _⟩
  · rwa [hl]

theorem Counted.cast (round : List V) (v : V)
    (h : Counted time clash window needed round) :
    Counted time clash window needed (castVote time clash window needed round v).1 := by
  have hlive := Counted.live round (time v) h
  unfold castVote
  dsimp only
  split
  · exact hlive
  · rename_i hclash
    split
    · exact ⟨List.Pairwise.nil, List.isChain_nil, Nat.zero_le _⟩
    · rename_i hlen
      refine ⟨?_, ?_, ?_⟩
      · refine List.pairwise_append.mpr ⟨hlive.apart, List.pairwise_singleton _ _, ?_⟩
        intro w hw x hx
        rw [List.mem_singleton] at hx
        subst hx
        by_contra hwx
        rw [Bool.not_eq_false] at hwx
        exact hclash (List.any_eq_true.mpr ⟨w, hw, hwx⟩)
      · refine List.IsChain.append hlive.close (List.isChain_singleton _) ?_
        intro w hw x hx
        rw [List.head?_cons, Option.mem_some_iff] at hx
        subst hx
        rcases @live_cases V time window round (time v) with hl | hl
        · rw [hl] at hw
          exact absurd hw (by simp)
        · rw [hl] at hw
          refine lt_of_live round (time v) w ?_ hw
          rw [hl]
          rintro rfl
          exact absurd hw (by simp)
      · rw [List.length_append, List.length_singleton]
        have hle := hlive.length_le
        omega

theorem castVote_sublist (round : List V) (v : V) :
    (castVote time clash window needed round v).1.Sublist (round ++ [v]) := by
  have hlive : (live time window round (time v)).Sublist round := by
    rcases @live_cases V time window round (time v) with hl | hl
    · rw [hl]
      exact List.nil_sublist _
    · rw [hl]
  unfold castVote
  dsimp only
  split
  · exact hlive.trans (List.sublist_append_left _ _)
  · split
    · exact List.nil_sublist _
    · exact hlive.append (List.Sublist.refl _)

theorem count_append (votes : List V) (v : V) :
    count time clash window needed (votes ++ [v]) =
      (castVote time clash window needed (count time clash window needed votes) v).1 := by
  unfold count
  rw [List.foldl_append]
  rfl

theorem count_counted (votes : List V) :
    Counted time clash window needed (count time clash window needed votes) := by
  induction votes using List.reverseRecOn with
  | nil => exact ⟨List.Pairwise.nil, List.isChain_nil, Nat.zero_le _⟩
  | append_singleton votes v ih =>
    rw [count_append]
    exact Counted.cast _ v ih

/-- The votes that count have all been cast, in this order. -/
theorem count_sublist (votes : List V) : (count time clash window needed votes).Sublist votes := by
  induction votes using List.reverseRecOn with
  | nil => exact List.Sublist.refl _
  | append_singleton votes v ih =>
    rw [count_append]
    exact (castVote_sublist _ v).trans (ih.append (List.Sublist.refl _))

/-- A vote that carries a round comes after the votes that are needed, clashes with none of
them, and not long after the last. -/
theorem carried (round : List V) (v : V)
    (h : (castVote time clash window needed round v).2 = true) :
    (live time window round (time v)).length = needed ∧
      ∀ w ∈ live time window round (time v), clash w v = false := by
  unfold castVote at h
  dsimp only at h
  split at h
  · exact absurd h (by simp)
  · rename_i hclash
    split at h
    · rename_i hlen
      refine ⟨hlen, fun w hw => ?_⟩
      by_contra hwv
      rw [Bool.not_eq_false] at hwv
      exact hclash (List.any_eq_true.mpr ⟨w, hw, hwv⟩)
    · exact absurd h (by simp)

end IrcdHybrid.Quorum
