import Mathlib.Data.List.Basic

/-!
Histories as lists of marks, oldest first. A mark is pending while no mark that answers it has
come after it, and two kinds of marks are separated when an answer stands between any two of
them. A history grows at its end: it stays separated while no mark of the second kind is made
with one of the first kind pending.
-/

namespace IrcdHybrid.SeparatedMarks

variable {α β : Type*} (P Q R : α → Prop)

def Pending (log : List α) : Prop :=
  ∃ before x after, log = before ++ x :: after ∧ P x ∧ ∀ z ∈ after, ¬ R z

def Separated (log : List α) : Prop :=
  ∀ before x between y after, log = before ++ x :: (between ++ y :: after) → P x → Q y →
    ∃ z ∈ between, R z

@[simp] theorem pending_nil : ¬ Pending P R [] := by
  rintro ⟨before, x, after, h, -⟩
  simp at h

@[simp] theorem separated_nil : Separated P Q R [] := by
  intro before x between y after h
  simp at h

/-- What is pending was made by the new marks, or was pending and they do not answer it. -/
theorem pending_append (log more : List α) :
    Pending P R (log ++ more) ↔
      Pending P R more ∨ (Pending P R log ∧ ∀ z ∈ more, ¬ R z) := by
  constructor
  · rintro ⟨before, x, after, h, hx, hafter⟩
    rcases List.append_eq_append_iff.mp h with ⟨gap, rfl, hmore⟩ | ⟨gap, hlog, hafter'⟩
    · exact Or.inl ⟨gap, x, after, hmore, hx, hafter⟩
    · cases gap with
      | nil => exact Or.inl ⟨[], x, after, hafter'.symm, hx, hafter⟩
      | cons y gap =>
        obtain ⟨rfl, rfl⟩ := List.cons_eq_cons.mp hafter'
        refine Or.inr ⟨⟨before, x, gap, hlog, hx, ?_⟩, ?_⟩
        · intro z hz
          exact hafter z (List.mem_append_left _ hz)
        · intro z hz
          exact hafter z (List.mem_append_right _ hz)
  · rintro (⟨before, x, after, rfl, hx, hafter⟩ | ⟨⟨before, x, after, rfl, hx, hafter⟩, hmore⟩)
    · exact ⟨log ++ before, x, after, by simp, hx, hafter⟩
    · refine ⟨before, x, after ++ more, by simp, hx, ?_⟩
      intro z hz
      exact (List.mem_append.mp hz).elim (hafter z) (hmore z)

theorem pending_singleton (m : α) : Pending P R [m] ↔ P m := by
  constructor
  · rintro ⟨before, x, after, h, hx, -⟩
    have hm : before = [] ∧ x = m ∧ after = [] := by
      cases before <;> simp_all
    exact hm.2.1 ▸ hx
  · intro hm
    exact ⟨[], m, [], rfl, hm, by simp⟩

theorem pending_concat (log : List α) (m : α) :
    Pending P R (log ++ [m]) ↔ P m ∨ (Pending P R log ∧ ¬ R m) := by
  rw [pending_append, pending_singleton]
  simp

theorem pending_concat_other (log : List α) (m : α) (hP : ¬ P m) (hR : ¬ R m) :
    Pending P R (log ++ [m]) ↔ Pending P R log := by
  rw [pending_concat]
  tauto

theorem pending_map (f : β → α) (log : List β) :
    Pending P R (log.map f) ↔ Pending (fun b => P (f b)) (fun b => R (f b)) log := by
  constructor
  · rintro ⟨before, x, after, h, hx, hafter⟩
    obtain ⟨l, r, rfl, -, hr⟩ := List.map_eq_append_iff.mp h
    obtain ⟨b, rest, rfl, rfl, rfl⟩ := List.map_eq_cons_iff.mp hr
    exact ⟨l, b, rest, rfl, hx, fun z hz => hafter (f z) (List.mem_map_of_mem hz)⟩
  · rintro ⟨before, x, after, rfl, hx, hafter⟩
    refine ⟨before.map f, f x, after.map f, by simp, hx, ?_⟩
    intro z hz
    obtain ⟨b, hb, rfl⟩ := List.mem_map.mp hz
    exact hafter b hb

theorem separated_concat (log : List α) (m : α) (h : Separated P Q R log)
    (hm : Q m → ¬ Pending P R log) : Separated P Q R (log ++ [m]) := by
  intro before x between y after heq hx hy
  rcases List.eq_nil_or_concat after with rfl | ⟨after, last, rfl⟩
  · -- `y` is the new mark
    have heq' : log ++ [m] = (before ++ x :: between) ++ [y] := by simpa using heq
    obtain ⟨rfl, hmy⟩ := List.append_inj' heq' rfl
    have hmy : m = y := by simpa using hmy
    subst hmy
    by_contra hnone
    exact hm hy ⟨before, x, between, rfl, hx, fun z hz hz' => hnone ⟨z, hz, hz'⟩⟩
  · have heq' : log ++ [m] = (before ++ x :: (between ++ y :: after)) ++ [last] := by
      simpa using heq
    obtain ⟨hlog, -⟩ := List.append_inj' heq' rfl
    exact h before x between y after hlog hx hy

end IrcdHybrid.SeparatedMarks
