import Mathlib.Data.List.Perm.Basic
import Mathlib.Data.List.Nodup
import Mathlib.Data.List.Count

/-!
A table of counts kept as a list: how often each key is there. Counting a key up finds its
entry or makes one, counting it down drops the entry when nothing is left of it. The entry is
found with a test that need not be equality, as long as it tells the entries of the table apart.
-/

namespace IrcdHybrid.KeyCounts

variable {κ : Type*} [DecidableEq κ]

/-- Each key of `ks` has one entry, with the number of times it is there. -/
structure Counts (l : List (κ × ℕ)) (ks : List κ) : Prop where
  nodup : (l.map Prod.fst).Nodup
  count : ∀ e ∈ l, e.2 = ks.count e.1
  pos : ∀ e ∈ l, 0 < e.2
  mem : ∀ k ∈ ks, k ∈ l.map Prod.fst

/-- The first entry that is hit, one up. -/
def bump (hit : κ → Bool) : List (κ × ℕ) → Option (List (κ × ℕ))
  | [] => none
  | e :: l => if hit e.1 then some ((e.1, e.2 + 1) :: l) else (bump hit l).map (e :: ·)

def countUp (hit : κ → Bool) (k : κ) (l : List (κ × ℕ)) : List (κ × ℕ) :=
  (bump hit l).getD ((k, 1) :: l)

/-- Every entry that is hit, one down, as far as the first that is dropped. -/
def countDown (hit : κ → Bool) : List (κ × ℕ) → List (κ × ℕ)
  | [] => []
  | e :: l =>
    if hit e.1 then
      if e.2 - 1 = 0 then l else (e.1, e.2 - 1) :: countDown hit l
    else e :: countDown hit l

/-- The number on the first entry that is hit. -/
def number (hit : κ → Bool) (l : List (κ × ℕ)) : Option ℕ :=
  (l.find? (fun e => hit e.1)).map Prod.snd

/-- Among the entries of the table, the test hits the key and nothing else. -/
def Hits (hit : κ → Bool) (k : κ) (l : List (κ × ℕ)) : Prop := ∀ e ∈ l, hit e.1 = (e.1 == k)

variable {hit : κ → Bool} {k : κ} {l : List (κ × ℕ)} {ks ks' : List κ}

theorem counts_nil : Counts ([] : List (κ × ℕ)) [] :=
  ⟨List.nodup_nil, by simp, by simp, by simp⟩

theorem Counts.perm (h : Counts l ks) (hp : ks.Perm ks') : Counts l ks' :=
  ⟨h.nodup, fun e he => (h.count e he).trans (hp.count_eq e.1), h.pos,
    fun k hk => h.mem k (hp.mem_iff.mpr hk)⟩

omit [DecidableEq κ] in
theorem find?_congr_mem (p q : κ × ℕ → Bool) (h : ∀ e ∈ l, p e = q e) : l.find? p = l.find? q := by
  induction l with
  | nil => rfl
  | cons e l ih =>
    rw [List.find?_cons, List.find?_cons, h e List.mem_cons_self,
      ih fun x hx => h x (List.mem_cons_of_mem e hx)]

theorem Counts.number_eq (h : Counts l ks) (hhit : Hits hit k l) :
    number hit l = if k ∈ ks then some (ks.count k) else none := by
  unfold number
  rw [find?_congr_mem _ (fun e => e.1 == k) hhit]
  by_cases hk : k ∈ ks
  · rw [if_pos hk]
    cases hfind : l.find? (fun e => e.1 == k) with
    | none =>
      obtain ⟨e, he, hek⟩ := List.mem_map.mp (h.mem k hk)
      exact absurd (by simpa using hek) (List.find?_eq_none.mp hfind e he)
    | some e =>
      have hek : e.1 = k := by simpa using List.find?_some hfind
      show some e.2 = some (ks.count k)
      rw [h.count e (List.mem_of_find?_eq_some hfind), hek]
  · rw [if_neg hk]
    have hnone : l.find? (fun e => e.1 == k) = none := by
      apply List.find?_eq_none.mpr
      intro e he hek
      have hkey : e.1 = k := by simpa using hek
      have hcount := h.count e he
      rw [hkey, List.count_eq_zero_of_not_mem hk] at hcount
      exact absurd (h.pos e he) (by omega)
    rw [hnone]
    rfl

/-- The entry of the key, one up. -/
def up (k : κ) (e : κ × ℕ) : κ × ℕ := if e.1 = k then (e.1, e.2 + 1) else e

def down (k : κ) (e : κ × ℕ) : κ × ℕ := if e.1 = k then (e.1, e.2 - 1) else e

theorem up_fst (k : κ) (e : κ × ℕ) : (up k e).1 = e.1 := by
  unfold up
  split <;> rfl

theorem down_fst (k : κ) (e : κ × ℕ) : (down k e).1 = e.1 := by
  unfold down
  split <;> rfl

omit [DecidableEq κ] in
theorem map_of_not_mem (f : κ × ℕ → κ × ℕ) (hf : ∀ e : κ × ℕ, e.1 ≠ k → f e = e)
    (hk : k ∉ l.map Prod.fst) : l.map f = l := by
  induction l with
  | nil => rfl
  | cons e l ih =>
    rw [List.map_cons, List.mem_cons, not_or] at hk
    rw [List.map_cons, hf e fun heq => hk.1 heq.symm, ih hk.2]

theorem bump_none (hhit : Hits hit k l) (hk : k ∉ l.map Prod.fst) : bump hit l = none := by
  induction l with
  | nil => rfl
  | cons e l ih =>
    rw [List.map_cons, List.mem_cons, not_or] at hk
    have he : hit e.1 = false := by
      rw [hhit e List.mem_cons_self, beq_eq_false_iff_ne]
      exact fun heq => hk.1 heq.symm
    unfold bump
    rw [if_neg (by simp [he]), ih (fun x hx => hhit x (List.mem_cons_of_mem e hx)) hk.2]
    rfl

theorem bump_some (hhit : Hits hit k l) (hnodup : (l.map Prod.fst).Nodup)
    (hk : k ∈ l.map Prod.fst) : bump hit l = some (l.map (up k)) := by
  induction l with
  | nil => exact absurd hk (by simp)
  | cons e l ih =>
    rw [List.map_cons, List.nodup_cons] at hnodup
    have hrest : Hits hit k l := fun x hx => hhit x (List.mem_cons_of_mem e hx)
    unfold bump
    by_cases hek : e.1 = k
    · have hmap : l.map (up k) = l :=
        map_of_not_mem (up k) (fun x hx => if_neg hx) (hek ▸ hnodup.1)
      rw [hhit e List.mem_cons_self, if_pos (by simp [hek]), List.map_cons, hmap]
      simp [up, hek]
    · have hkl : k ∈ l.map Prod.fst := by
        rcases List.mem_cons.mp hk with heq | hkl
        · exact absurd heq.symm hek
        · exact hkl
      rw [hhit e List.mem_cons_self, if_neg (by simp [hek]), ih hrest hnodup.2 hkl, List.map_cons]
      simp [up, hek]

theorem countDown_eq (hhit : Hits hit k l) (hnodup : (l.map Prod.fst).Nodup)
    (hpos : ∀ e ∈ l, 0 < e.2) :
    countDown hit l = (l.map (down k)).filter (fun e => decide (0 < e.2)) := by
  induction l with
  | nil => rfl
  | cons e l ih =>
    rw [List.map_cons, List.nodup_cons] at hnodup
    have hrest := ih (fun x hx => hhit x (List.mem_cons_of_mem e hx)) hnodup.2
      fun x hx => hpos x (List.mem_cons_of_mem e hx)
    unfold countDown
    rw [hhit e List.mem_cons_self]
    by_cases hek : e.1 = k
    · have hmap : l.map (down k) = l :=
        map_of_not_mem (down k) (fun x hx => if_neg hx) (hek ▸ hnodup.1)
      have hall : l.filter (fun e => decide (0 < e.2)) = l :=
        List.filter_eq_self.mpr fun x hx => by simpa using hpos x (List.mem_cons_of_mem e hx)
      rw [if_pos (by simp [hek]), List.map_cons]
      by_cases hone : e.2 - 1 = 0
      · rw [if_pos hone, List.filter_cons_of_neg (by simp [down, hek]; omega), hmap, hall]
      · rw [if_neg hone, List.filter_cons_of_pos (by simp [down, hek]; omega), hrest]
        simp [down, hek]
    · rw [if_neg (by simp [hek]), List.map_cons, List.filter_cons_of_pos, hrest]
      · simp [down, hek]
      · simpa [down, hek] using hpos e List.mem_cons_self

theorem Counts.countUp (h : Counts l ks) (hhit : Hits hit k l) :
    Counts (countUp hit k l) (k :: ks) := by
  unfold KeyCounts.countUp
  by_cases hk : k ∈ l.map Prod.fst
  · rw [bump_some hhit h.nodup hk, Option.getD_some]
    have hkeys : (l.map (up k)).map Prod.fst = l.map Prod.fst := by
      rw [List.map_map]
      exact List.map_congr_left fun e _ => up_fst k e
    refine ⟨by rw [hkeys]; exact h.nodup, fun e he => ?_, fun e he => ?_, fun x hx => ?_⟩
    · obtain ⟨x, hx, rfl⟩ := List.mem_map.mp he
      rw [up_fst, List.count_cons, ← h.count x hx]
      unfold up
      by_cases hxk : x.1 = k
      · simp [hxk]
      · simp [hxk, Ne.symm hxk]
    · obtain ⟨x, hx, rfl⟩ := List.mem_map.mp he
      have hpos := h.pos x hx
      unfold up
      split
      · exact Nat.succ_pos _
      · exact hpos
    · rw [hkeys]
      rcases List.mem_cons.mp hx with hx | hx
      · exact hx ▸ hk
      · exact h.mem x hx
  · have hks : k ∉ ks := fun hks => hk (h.mem k hks)
    rw [bump_none hhit hk, Option.getD_none]
    refine ⟨?_, fun e he => ?_, fun e he => ?_, fun x hx => ?_⟩
    · rw [List.map_cons, List.nodup_cons]
      exact ⟨hk, h.nodup⟩
    · rcases List.mem_cons.mp he with he | he
      · rw [he, List.count_cons_self, List.count_eq_zero_of_not_mem hks]
      · have hne : k ≠ e.1 := fun heq => hk (heq ▸ List.mem_map_of_mem he)
        rw [List.count_cons_of_ne hne, h.count e he]
    · rcases List.mem_cons.mp he with he | he
      · rw [he]
        exact Nat.one_pos
      · exact h.pos e he
    · rw [List.map_cons]
      rcases List.mem_cons.mp hx with hx | hx
      · exact hx ▸ List.mem_cons_self
      · exact List.mem_cons_of_mem _ (h.mem x hx)

theorem Counts.countDown (h : Counts l ks) (hhit : Hits hit k l) :
    Counts (countDown hit l) (ks.erase k) := by
  rw [countDown_eq hhit h.nodup h.pos]
  have hcount : ∀ e ∈ l, (down k e).2 = (ks.erase k).count e.1 := by
    intro e he
    have heq := h.count e he
    unfold down
    by_cases hek : e.1 = k
    · rw [if_pos hek, hek, List.count_erase_self, ← hek, ← heq]
    · rw [if_neg hek, List.count_erase_of_ne hek, heq]
  have hkeys : (l.map (down k)).map Prod.fst = l.map Prod.fst := by
    rw [List.map_map]
    exact List.map_congr_left fun e _ => down_fst k e
  refine ⟨?_, fun e he => ?_, fun e he => ?_, fun x hx => ?_⟩
  · have hsub : (((l.map (down k)).filter (fun e => decide (0 < e.2))).map Prod.fst).Sublist
        (l.map Prod.fst) := hkeys ▸ List.filter_sublist.map Prod.fst
    exact h.nodup.sublist hsub
  · obtain ⟨x, hx, rfl⟩ := List.mem_map.mp (List.mem_filter.mp he).1
    rw [hcount x hx, down_fst]
  · simpa using (List.mem_filter.mp he).2
  · obtain ⟨e, he, hex⟩ := List.mem_map.mp (h.mem x (List.mem_of_mem_erase hx))
    have hpos : 0 < (down k e).2 := by
      rw [hcount e he, hex]
      exact List.count_pos_iff.mpr hx
    refine List.mem_map.mpr ⟨down k e, List.mem_filter.mpr ⟨List.mem_map_of_mem he, ?_⟩, ?_⟩
    · simpa using hpos
    · rw [down_fst, hex]

end IrcdHybrid.KeyCounts
