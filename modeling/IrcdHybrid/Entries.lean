import Mathlib.Algebra.BigOperators.Group.List.Basic
import Mathlib.Data.List.Nodup

/-!
Lists of entries that are looked up by a key. The first entry that is met is changed or taken
out, where it stands or at the front of the list. As long as no key is there twice, both do
the same to the lookups. What the members of a list weigh under a key goes up and down with
the members.
-/

namespace IrcdHybrid.Entries

variable {α κ M : Type*}

/-- The first entry that is met, changed or taken out; `none` when there is none. -/
def change (p : α → Bool) (f : α → Option α) : List α → Option (List α)
  | [] => none
  | a :: l => if p a then some ((f a).toList ++ l) else (change p f l).map (a :: ·)

/-- The same with the entry moved to the front. -/
def changeFront (p : α → Bool) (f : α → Option α) (l : List α) : Option (List α) :=
  (l.find? p).map fun a => (f a).toList ++ l.eraseP p

theorem change_split (p : α → Bool) (f : α → Option α) (l l' : List α)
    (h : change p f l = some l') : ∃ l₁ a l₂, l = l₁ ++ a :: l₂ ∧ p a = true ∧
      (∀ b ∈ l₁, p b = false) ∧ l' = l₁ ++ ((f a).toList ++ l₂) := by
  induction l generalizing l' with
  | nil => cases h
  | cons a l ih =>
    unfold change at h
    by_cases ha : p a = true
    · rw [if_pos ha] at h
      exact ⟨[], a, l, rfl, ha, by simp, (Option.some.inj h).symm⟩
    · rw [if_neg ha] at h
      obtain ⟨l₀, hl₀, rfl⟩ := Option.map_eq_some_iff.mp h
      obtain ⟨l₁, b, l₂, rfl, hb, hall, rfl⟩ := ih l₀ hl₀
      refine ⟨a :: l₁, b, l₂, rfl, hb, ?_, rfl⟩
      intro c hc
      rcases List.mem_cons.mp hc with rfl | hc
      · simpa using ha
      · exact hall c hc

theorem change_none (p : α → Bool) (f : α → Option α) (l : List α) :
    change p f l = none ↔ ∀ a ∈ l, p a = false := by
  induction l with
  | nil => simp [change]
  | cons a l ih =>
    unfold change
    by_cases ha : p a = true
    · simp [ha]
    · rw [if_neg ha, Option.map_eq_none_iff, ih]
      simp [ha]

section Keyed

variable [DecidableEq κ] (key : α → κ)

/-- No key is there twice. -/
def Keyed (l : List α) : Prop := (l.map key).Nodup

def lookup (k : κ) (l : List α) : Option α := l.find? (fun a => decide (key a = k))

omit [DecidableEq κ] in
theorem Keyed.perm {l l' : List α} (h : Keyed key l) (hp : l.Perm l') : Keyed key l' :=
  ((hp.map key).nodup_iff).mp h

theorem lookup_none (k : κ) (l : List α) : lookup key k l = none ↔ ∀ a ∈ l, key a ≠ k := by
  unfold lookup
  rw [List.find?_eq_none]
  simp

theorem lookup_key (k : κ) (l : List α) (a : α) (h : lookup key k l = some a) : key a = k := by
  simpa using List.find?_some h

theorem lookup_mem (k : κ) (l : List α) (a : α) (h : lookup key k l = some a) : a ∈ l :=
  List.mem_of_find?_eq_some h

theorem lookup_of_mem (l : List α) (h : Keyed key l) (a : α) (ha : a ∈ l) :
    lookup key (key a) l = some a := by
  induction l with
  | nil => cases ha
  | cons b l ih =>
    obtain ⟨hb, hl⟩ := List.nodup_cons.mp h
    unfold lookup
    rcases List.mem_cons.mp ha with rfl | ha
    · exact List.find?_cons_of_pos (by simp)
    · have hne : key b ≠ key a := fun heq => hb (heq ▸ List.mem_map_of_mem ha)
      rw [List.find?_cons_of_neg (by simpa using hne)]
      exact ih hl ha

theorem lookup_perm (l l' : List α) (h : Keyed key l) (hp : l.Perm l') (k : κ) :
    lookup key k l' = lookup key k l := by
  cases hl : lookup key k l with
  | none =>
    rw [lookup_none] at hl ⊢
    exact fun a ha => hl a (hp.mem_iff.mpr ha)
  | some a =>
    obtain rfl := lookup_key key k l a hl
    exact lookup_of_mem key l' (h.perm key hp) a (hp.mem_iff.mp (lookup_mem key _ l a hl))

theorem lookup_cons (k : κ) (a : α) (l : List α) :
    lookup key k (a :: l) = if key a = k then some a else lookup key k l := by
  unfold lookup
  by_cases h : key a = k
  · rw [if_pos h, List.find?_cons_of_pos (by simpa using h)]
  · rw [if_neg h, List.find?_cons_of_neg (by simpa using h)]

theorem change_eq_none (k : κ) (f : α → Option α) (l : List α) :
    change (fun a => decide (key a = k)) f l = none ↔ lookup key k l = none := by
  rw [change_none, lookup_none]
  simp

omit [DecidableEq κ] in
theorem keyed_toList (a : α) (l : List α) (f : α → Option α) (hf : ∀ b, f a = some b → key b = key a)
    (h : Keyed key (a :: l)) : Keyed key ((f a).toList ++ l) := by
  obtain ⟨ha, hl⟩ := List.nodup_cons.mp h
  cases hfa : f a with
  | none => exact hl
  | some b => exact List.nodup_cons.mpr ⟨hf b hfa ▸ ha, hl⟩

theorem lookup_toList (a : α) (l : List α) (f : α → Option α)
    (hf : ∀ b, f a = some b → key b = key a) (h : Keyed key (a :: l)) (k : κ) :
    lookup key k ((f a).toList ++ l) = if k = key a then f a else lookup key k l := by
  obtain ⟨ha, _⟩ := List.nodup_cons.mp h
  have hnone : lookup key (key a) l = none := by
    apply (lookup_none key _ l).mpr
    intro b hb heq
    exact ha (heq ▸ List.mem_map_of_mem hb)
  cases hfa : f a with
  | none =>
    by_cases hk : k = key a
    · rw [if_pos hk, hk]
      exact hnone
    · rw [if_neg hk]
      rfl
  | some b =>
    have hb := hf b hfa
    show lookup key k (b :: l) = _
    rw [lookup_cons]
    by_cases hk : k = key a
    · rw [if_pos hk, if_pos (by rw [hb, hk])]
    · rw [if_neg hk, if_neg (by rw [hb]; exact fun heq => hk heq.symm)]

/-- What changing an entry does to a table, wherever it stands afterwards. -/
structure Changed (k : κ) (f : α → Option α) (a : α) (l l' : List α) : Prop where
  entry : lookup key k l = some a
  keyed : Keyed key l'
  lookup_eq : ∀ k', lookup key k' l' = if k' = k then f a else lookup key k' l
  mem : ∀ b ∈ l', f a = some b ∨ (b ∈ l ∧ key b ≠ k)

theorem changed_of_perm (l rest l' : List α) (a : α) (f : α → Option α)
    (hf : ∀ b, f a = some b → key b = key a) (h : Keyed key l) (hl : l.Perm (a :: rest))
    (hl' : l'.Perm ((f a).toList ++ rest)) : Changed key (key a) f a l l' := by
  have hcons := h.perm key hl
  have hkeyed := keyed_toList key a rest f hf hcons
  obtain ⟨hnot, _⟩ := List.nodup_cons.mp hcons
  refine ⟨lookup_of_mem key l h a (hl.mem_iff.mpr List.mem_cons_self), hkeyed.perm key hl'.symm,
    ?_, ?_⟩
  · intro k
    rw [lookup_perm key _ l' hkeyed hl'.symm, lookup_toList key a rest f hf hcons,
      lookup_perm key (a :: rest) l hcons hl.symm, lookup_cons]
    by_cases hk : k = key a
    · rw [if_pos hk, if_pos hk]
    · rw [if_neg hk, if_neg hk, if_neg (fun heq => hk heq.symm)]
  · intro b hb
    rcases List.mem_append.mp (hl'.mem_iff.mp hb) with hb | hb
    · exact Or.inl (by simpa using hb)
    · refine Or.inr ⟨hl.mem_iff.mpr (List.mem_cons_of_mem a hb), ?_⟩
      intro heq
      exact hnot (heq ▸ List.mem_map_of_mem hb)

theorem change_some (k : κ) (f : α → Option α) (l l' : List α) (h : Keyed key l)
    (hf : ∀ a b, f a = some b → key b = key a)
    (hl' : change (fun a => decide (key a = k)) f l = some l') :
    ∃ a, Changed key k f a l l' := by
  obtain ⟨l₁, a, l₂, rfl, ha, _, rfl⟩ := change_split _ f l l' hl'
  obtain rfl : key a = k := by simpa using ha
  refine ⟨a, changed_of_perm key _ (l₁ ++ l₂) _ a f (hf a) h List.perm_middle ?_⟩
  rw [← List.append_assoc, ← List.append_assoc]
  exact List.Perm.append_right l₂ List.perm_append_comm

theorem changeFront_eq_none (k : κ) (f : α → Option α) (l : List α) :
    changeFront (fun a => decide (key a = k)) f l = none ↔ lookup key k l = none :=
  Option.map_eq_none_iff

theorem changeFront_some (k : κ) (f : α → Option α) (l l' : List α) (h : Keyed key l)
    (hf : ∀ a b, f a = some b → key b = key a)
    (hl' : changeFront (fun a => decide (key a = k)) f l = some l') :
    ∃ a, Changed key k f a l l' := by
  obtain ⟨a, ha, rfl⟩ := Option.map_eq_some_iff.mp hl'
  obtain ⟨hp, l₁, l₂, rfl, hall⟩ := List.find?_eq_some_iff_append.mp ha
  obtain rfl : key a = k := by simpa using hp
  refine ⟨a, changed_of_perm key _ (l₁ ++ l₂) _ a f (hf a) h List.perm_middle ?_⟩
  rw [List.eraseP_append_right _ (by simpa using hall), List.eraseP_cons_of_pos (by simp)]

theorem keyed_cons (a : α) (l : List α) (h : Keyed key l) (ha : lookup key (key a) l = none) :
    Keyed key (a :: l) := by
  apply List.nodup_cons.mpr
  refine ⟨?_, h⟩
  intro hmem
  obtain ⟨b, hb, heq⟩ := List.mem_map.mp hmem
  exact (lookup_none key _ l).mp ha b hb heq

end Keyed

end IrcdHybrid.Entries
