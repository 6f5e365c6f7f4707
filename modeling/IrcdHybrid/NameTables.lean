import IrcdHybrid.ServerLists

/-!
A hash of clients as its functions use it. Whoever is in the table is in the bucket of
the name it has; pointers are below a bound, and so no walk along a bucket takes longer
than that.
-/

namespace IrcdHybrid.NameTables

open Index HashChains ServerLists Function

/-- Who is in no bucket is its own successor. -/
def Off (t : Chains ℕ ℕ) (p : ℕ) : Prop := t.next p = some p

instance (t : Chains ℕ ℕ) (p : ℕ) : Decidable (Off t p) := inferInstanceAs (Decidable (_ = _))

def bucketOf (t : Chains ℕ ℕ) (hash : ℕ → ℕ) (p : ℕ) : Option ℕ :=
  if Off t p then none else some (hash p)

/-- What was found comes first. -/
def toFront (found : Option ℕ) (l : List ℕ) : List ℕ :=
  match found with
  | none => l
  | some p => p :: l.erase p

structure Table (t : Chains ℕ ℕ) (hash : ℕ → ℕ) (top : ℕ) : Prop where
  represents : ∃ lists, Represents (bucketOf t hash) lists t
  below : ∀ p, ¬ Off t p → p < top

/-- In each bucket the others stay as they were. -/
def Trimmed (removed : List ℕ) (t t' : Chains ℕ ℕ) : Prop :=
  ∀ k l, Spells t.next (t.head k) l →
    Spells t'.next (t'.head k) (l.filter (fun p => decide (p ∉ removed)))

theorem trimmed_nil (t : Chains ℕ ℕ) : Trimmed [] t t := by
  intro k l h
  have hall : l.filter (fun p => decide (p ∉ [])) = l := List.filter_eq_self.mpr (by simp)
  rwa [hall]

theorem trimmed_trans (t t' t'' : Chains ℕ ℕ) (removed removed' : List ℕ)
    (h : Trimmed removed t t') (h' : Trimmed removed' t' t'') :
    Trimmed (removed ++ removed') t t'' := by
  intro k l hl
  have htwice := h' k _ (h k l hl)
  rw [List.filter_filter] at htwice
  have hsame : l.filter (fun p => decide (p ∉ removed') && decide (p ∉ removed)) =
      l.filter (fun p => decide (p ∉ removed ++ removed')) := by
    refine List.filter_congr fun p _ => ?_
    by_cases hp : p ∈ removed <;> by_cases hp' : p ∈ removed' <;> simp [hp, hp']
  rwa [hsame] at htwice

section Table

variable (t : Chains ℕ ℕ) (hash : ℕ → ℕ) (top : ℕ)

theorem bucketOf_none (p : ℕ) : bucketOf t hash p = none ↔ Off t p := by
  unfold bucketOf
  split
  · next hoff => exact iff_of_true rfl hoff
  · next hon => exact iff_of_false (by simp) hon

theorem bucketOf_eq (key : ℕ → Option ℕ) (lists : ℕ → List ℕ) (h : Represents key lists t)
    (hkey : ∀ p k, key p = some k → k = hash p) : bucketOf t hash = key := by
  funext p
  unfold bucketOf
  cases hp : key p with
  | none =>
    have hoff : Off t p := h.off p hp
    rw [if_pos hoff]
  | some k =>
    have hon : ¬ Off t p := next_ne_of_key key lists t h p k hp
    rw [if_neg hon, hkey p k hp]

theorem bucketOf_hash (p k : ℕ) (h : bucketOf t hash p = some k) : k = hash p := by
  unfold bucketOf at h
  split at h
  · exact absurd h (by simp)
  · exact (Option.some.inj h).symm

theorem table_empty : Table (empty : Chains ℕ ℕ) hash top := by
  have hoff : ∀ p, Off (empty : Chains ℕ ℕ) p := fun _ => rfl
  refine ⟨⟨fun _ => [], ?_⟩, fun p hp => absurd (hoff p) hp⟩
  have hkey : bucketOf (empty : Chains ℕ ℕ) hash = fun _ => none :=
    funext fun p => (bucketOf_none _ hash p).mpr (hoff p)
  rw [hkey]
  exact represents_empty

variable (h : Table t hash top)

include h

theorem table_length (lists : ℕ → List ℕ) (hrep : Represents (bucketOf t hash) lists t) (k : ℕ) :
    (lists k).length ≤ top := by
  refine length_le_of_nodup _ top (hrep.indexes k).1 fun p hp => h.below p fun hoff => ?_
  have hkey := ((hrep.indexes k).2 p).mp hp
  rw [(bucketOf_none t hash p).mpr hoff] at hkey
  simp at hkey

theorem table_top (top' : ℕ) (hle : top ≤ top') : Table t hash top' :=
  ⟨h.represents, fun p hp => Nat.lt_of_lt_of_le (h.below p hp) hle⟩

theorem table_rename (hash' : ℕ → ℕ) (hsame : ∀ p, ¬ Off t p → hash' p = hash p) :
    Table t hash' top := by
  have hkey : bucketOf t hash' = bucketOf t hash := by
    funext p
    unfold bucketOf
    split
    · rfl
    · next hon => rw [hsame p hon]
  refine ⟨?_, h.below⟩
  rw [hkey]
  exact h.represents

theorem table_add (p : ℕ) (hp : Off t p) (hlt : p < top) :
    Table (t.add (hash p) p) hash top ∧ ∀ q, Off (t.add (hash p) p) q ↔ q ≠ p ∧ Off t q := by
  obtain ⟨lists, hrep⟩ := h.represents
  have hnew := add_represents _ lists t hrep p (hash p) ((bucketOf_none t hash p).mpr hp)
  have hoff : ∀ q, Off (t.add (hash p) p) q ↔ q ≠ p ∧ Off t q := by
    intro q
    refine (next_eq_iff _ _ _ hnew q).trans ?_
    by_cases hq : q = p
    · simp [hq]
    · rw [update_of_ne hq, bucketOf_none]
      simp [hq]
  refine ⟨⟨⟨update lists (hash p) (p :: lists (hash p)), ?_⟩, fun q hq => ?_⟩, hoff⟩
  · rwa [bucketOf_eq _ hash _ _ hnew fun q k hk => ?_]
    by_cases hq : q = p
    · rw [hq, update_self] at hk
      rw [hq, Option.some.inj hk]
    · rw [update_of_ne hq] at hk
      exact bucketOf_hash t hash q k hk
  · by_cases hqp : q = p
    · rw [hqp]
      exact hlt
    · exact h.below q fun hold => hq ((hoff q).mpr ⟨hqp, hold⟩)

theorem table_del_off (p k : ℕ) (hp : Off t p) : t.del top k p = t := by
  obtain ⟨lists, hrep⟩ := h.represents
  refine del_off _ lists t hrep top p k ?_
  rw [(bucketOf_none t hash p).mpr hp]
  simp

theorem table_del (p : ℕ) :
    Table (t.del top (hash p) p) hash top ∧
      (∀ q, Off (t.del top (hash p) p) q ↔ q = p ∨ Off t q) ∧
      Trimmed [p] t (t.del top (hash p) p) := by
  obtain ⟨lists, hrep⟩ := h.represents
  have hspells : ∀ k l, Spells t.next (t.head k) l → l = lists k := fun k l hl =>
    spells_unique t.next _ l _ hl (hrep.spells k)
  by_cases hp : Off t p
  · have hkey := (bucketOf_none t hash p).mpr hp
    rw [table_del_off t hash top h p (hash p) hp]
    refine ⟨h, fun q => ⟨Or.inr, ?_⟩, fun k l hl => ?_⟩
    · rintro (rfl | hq)
      · exact hp
      · exact hq
    · have hall : l.filter (fun q => decide (q ∉ [p])) = l := by
        refine List.filter_eq_self.mpr fun q hq => ?_
        have hne : q ≠ p := by
          rintro rfl
          rw [hspells k l hl] at hq
          have hmem := ((hrep.indexes k).2 q).mp hq
          rw [hkey] at hmem
          simp at hmem
        simpa using hne
      rwa [hall]
  · have hkey : bucketOf t hash p = some (hash p) := by
      unfold bucketOf
      rw [if_neg hp]
    have hnew := del_represents _ lists t hrep top p (hash p) hkey
      (table_length t hash top h lists hrep (hash p))
    have hoff : ∀ q, Off (t.del top (hash p) p) q ↔ q = p ∨ Off t q := by
      intro q
      refine (next_eq_iff _ _ _ hnew q).trans ?_
      by_cases hq : q = p
      · simp [hq]
      · rw [update_of_ne hq, bucketOf_none]
        simp [hq]
    refine ⟨⟨⟨update lists (hash p) ((lists (hash p)).erase p), ?_⟩, fun q hq => ?_⟩, hoff,
      fun k l hl => ?_⟩
    · rwa [bucketOf_eq _ hash _ _ hnew fun q k hk => ?_]
      by_cases hq : q = p
      · rw [hq, update_self] at hk
        simp at hk
      · rw [update_of_ne hq] at hk
        exact bucketOf_hash t hash q k hk
    · exact h.below q fun hold => hq ((hoff q).mpr (Or.inr hold))
    · have hk := hnew.spells k
      rw [erase_eq_filter _ lists p (hash p) hrep.indexes hkey] at hk
      dsimp only at hk
      rw [← hspells k l hl] at hk
      have hfilter : l.filter (fun q => decide (q ∉ [p])) = l.filter (fun q => decide (q ≠ p)) := by
        refine List.filter_congr fun q _ => ?_
        by_cases hq : q = p <;> simp [hq]
      rwa [hfilter]

theorem table_find (k : ℕ) (p : ℕ → Bool) :
    Table (t.find top k p).2 hash top ∧ ∀ q, Off (t.find top k p).2 q ↔ Off t q := by
  obtain ⟨lists, hrep⟩ := h.represents
  obtain ⟨-, hnew⟩ := find_represents _ lists t hrep top k p
    (table_length t hash top h lists hrep k)
  have hoff : ∀ q, Off (t.find top k p).2 q ↔ Off t q := fun q =>
    (next_eq_iff _ _ _ hnew q).trans (bucketOf_none t hash q)
  refine ⟨⟨⟨moved lists k p, ?_⟩, fun q hq => h.below q fun hold => hq ((hoff q).mpr hold)⟩, hoff⟩
  rwa [bucketOf_eq _ hash _ _ hnew (bucketOf_hash t hash)]

omit h in
theorem mem_bucket (lists : ℕ → List ℕ) (hrep : Represents (bucketOf t hash) lists t) (k q : ℕ) :
    q ∈ lists k ↔ ¬ Off t q ∧ hash q = k := by
  rw [(hrep.indexes k).2 q]
  unfold bucketOf
  split
  · next hoff => simp [hoff]
  · next hon => simp [hon]

/-- The chain of a bucket has each client that belongs there once. -/
theorem table_chain (k : ℕ) :
    ∃ l, Spells t.next (t.head k) l ∧ l.Nodup ∧ ∀ q, q ∈ l ↔ ¬ Off t q ∧ hash q = k := by
  obtain ⟨lists, hrep⟩ := h.represents
  exact ⟨lists k, hrep.spells k, (hrep.indexes k).1, mem_bucket t hash lists hrep k⟩

/-- The first of its bucket with the property is found, and only who has it. -/
theorem table_found (k : ℕ) (p : ℕ → Bool) :
    (∀ q, (t.find top k p).1 = some q → ¬ Off t q ∧ hash q = k ∧ p q = true) ∧
      ((t.find top k p).1 = none → ∀ q, ¬ Off t q → hash q = k → p q = false) := by
  obtain ⟨lists, hrep⟩ := h.represents
  have hfind := (find_represents _ lists t hrep top k p (table_length t hash top h lists hrep k)).1
  have hmem := mem_bucket t hash lists hrep k
  rw [hfind]
  refine ⟨fun q hq => ?_, fun hnone q hq hk => ?_⟩
  · obtain ⟨hon, hk⟩ := (hmem q).mp (List.mem_of_find?_eq_some hq)
    exact ⟨hon, hk, List.find?_some hq⟩
  · simpa using List.find?_eq_none.mp hnone q ((hmem q).mpr ⟨hq, hk⟩)

/-- What is found comes first in its bucket; the order is otherwise kept. -/
theorem table_front (k : ℕ) (p : ℕ → Bool) (k' : ℕ) (l : List ℕ)
    (hl : Spells t.next (t.head k') l) :
    Spells (t.find top k p).2.next ((t.find top k p).2.head k')
      (if k' = k then toFront (t.find top k p).1 l else l) := by
  obtain ⟨lists, hrep⟩ := h.represents
  obtain ⟨hfind, hnew⟩ :=
    find_represents _ lists t hrep top k p (table_length t hash top h lists hrep k)
  have hspells := hnew.spells k'
  obtain rfl := spells_unique t.next _ l _ hl (hrep.spells k')
  rw [hfind]
  unfold moved at hspells
  cases hq : (lists k).find? p with
  | none =>
    rw [hq] at hspells
    simpa [toFront] using hspells
  | some q =>
    rw [hq] at hspells
    by_cases hk : k' = k
    · subst hk
      simpa [toFront] using hspells
    · simpa [hk] using hspells

/-- Nobody in no bucket is met on a walk, and the others only in their own. -/
theorem table_onChain (k p : ℕ) (hon : OnChain t.next (t.head k) p) :
    ¬ Off t p ∧ k = hash p := by
  obtain ⟨lists, hrep⟩ := h.represents
  have hmem := (onChain_iff t.next _ _ (hrep.spells k) p).mp hon
  have hkey := ((hrep.indexes k).2 p).mp hmem
  refine ⟨fun hoff => ?_, bucketOf_hash t hash p k hkey⟩
  rw [(bucketOf_none t hash p).mpr hoff] at hkey
  simp at hkey

end Table

theorem trimmed_off (t t' : Chains ℕ ℕ) (hash hash' : ℕ → ℕ) (top top' : ℕ) (h : Table t hash top)
    (h' : Table t' hash' top') (removed : List ℕ) (htrimmed : Trimmed removed t t') (q : ℕ)
    (hq : q ∉ removed) (hhash : hash' q = hash q) : Off t' q ↔ Off t q := by
  obtain ⟨l, hspells, -, hmem⟩ := table_chain t hash top h (hash q)
  obtain ⟨l', hspells', -, hmem'⟩ := table_chain t' hash' top' h' (hash q)
  have hl : l' = l.filter (fun p => decide (p ∉ removed)) :=
    spells_unique t'.next _ _ _ hspells' (htrimmed (hash q) l hspells)
  have hold : q ∈ l ↔ ¬ Off t q := by simp [hmem q]
  have hnew : q ∈ l' ↔ ¬ Off t' q := by simp [hmem' q, hhash]
  have hsame : q ∈ l' ↔ q ∈ l := by simp [hl, hq]
  exact not_iff_not.mp (hnew.symm.trans (hsame.trans hold))

end IrcdHybrid.NameTables
