import IrcdHybrid.Index
import Mathlib.Data.List.Basic

/-!
Hash tables whose buckets are chained through the objects themselves. An object that
is in no bucket is its own successor. An object is added in front of a bucket, is
taken out behind the one before it, and is moved to the front when it is found. As
long as no object is added twice, the chains are lists, and the objects are on the
lists of their keys.
-/

namespace IrcdHybrid.HashChains

open Function Index

structure Chains (κ α : Type*) where
  head : κ → Option α
  next : α → Option α

variable {κ α : Type*}

/-- Nothing is in the table. -/
def empty : Chains κ α := ⟨fun _ => none, some⟩

variable [DecidableEq κ] [DecidableEq α]

def Chains.add (t : Chains κ α) (k : κ) (a : α) : Chains κ α :=
  ⟨update t.head k (some a), update t.next a (t.head k)⟩

/-- The one whose successor is `a`, from `b` on. A walk that takes longer than `fuel` does not
end. -/
def before (next : α → Option α) (a : α) : ℕ → α → Option α
  | 0, _ => none
  | fuel + 1, b =>
    if next b = some a then some b
    else
      match next b with
      | none => none
      | some c => before next a fuel c

def Chains.del (t : Chains κ α) (fuel : ℕ) (k : κ) (a : α) : Chains κ α :=
  match t.head k with
  | none => t
  | some b =>
    if b = a then ⟨update t.head k (t.next a), update t.next a (some a)⟩
    else
      match before t.next a fuel b with
      | none => t
      | some p => ⟨t.head, update (update t.next p (t.next a)) a (some a)⟩

/-- The first with the property behind `b`, and the one before it. -/
def seek (next : α → Option α) (p : α → Bool) : ℕ → α → Option (α × α)
  | 0, _ => none
  | fuel + 1, b =>
    match next b with
    | none => none
    | some c => if p c then some (b, c) else seek next p fuel c

def Chains.find (t : Chains κ α) (fuel : ℕ) (k : κ) (p : α → Bool) : Option α × Chains κ α :=
  match t.head k with
  | none => (none, t)
  | some b =>
    if p b then (some b, t)
    else
      match seek t.next p fuel b with
      | none => (none, t)
      | some (prev, c) =>
        (some c, ⟨update t.head k (some c), update (update t.next prev (t.next c)) c (t.head k)⟩)

/-- From `o` on, the chain is the list. -/
def Spells (next : α → Option α) : Option α → List α → Prop
  | o, [] => o = none
  | o, a :: l => o = some a ∧ Spells next (next a) l

/-- A walk from `o` on comes to `a`. -/
inductive OnChain (next : α → Option α) : Option α → α → Prop where
  | here (a : α) : OnChain next (some a) a
  | there (a b : α) (h : OnChain next (next a) b) : OnChain next (some a) b

section Spells

variable (next : α → Option α)

omit [DecidableEq α] in
theorem spells_unique (o : Option α) (l l' : List α) (h : Spells next o l) (h' : Spells next o l') :
    l = l' := by
  induction l generalizing o l' with
  | nil =>
    cases l' with
    | nil => rfl
    | cons a l' =>
      rw [h] at h'
      exact absurd h'.1 (by simp)
  | cons a l ih =>
    cases l' with
    | nil =>
      rw [h'] at h
      exact absurd h.1 (by simp)
    | cons b l' =>
      obtain rfl : a = b := Option.some.inj (h.1.symm.trans h'.1)
      rw [ih (next a) l' h.2 h'.2]

omit [DecidableEq α] in
theorem onChain_iff (o : Option α) (l : List α) (h : Spells next o l) (a : α) :
    OnChain next o a ↔ a ∈ l := by
  induction l generalizing o with
  | nil =>
    rw [h]
    constructor
    · intro hon
      cases hon
    · intro hmem
      simp at hmem
  | cons b l ih =>
    rw [h.1]
    constructor
    · intro hon
      cases hon with
      | here => exact List.mem_cons_self
      | there _ _ hon => exact List.mem_cons_of_mem b ((ih (next b) h.2).mp hon)
    · intro hmem
      rcases List.mem_cons.mp hmem with rfl | hmem
      · exact OnChain.here a
      · exact OnChain.there b a ((ih (next b) h.2).mpr hmem)

theorem spells_update (o : Option α) (l : List α) (a : α) (x : Option α) (ha : a ∉ l)
    (h : Spells next o l) : Spells (update next a x) o l := by
  induction l generalizing o with
  | nil => exact h
  | cons b l ih =>
    obtain ⟨hb, hl⟩ := List.ne_and_not_mem_of_not_mem_cons ha
    refine ⟨h.1, ?_⟩
    rw [update_of_ne (Ne.symm hb)]
    exact ih (next b) hl h.2

omit [DecidableEq α] in
/-- A chain with another rest behind `b`. -/
theorem spells_rest (next' : α → Option α) (o : Option α) (l l' rest : List α) (b : α)
    (h : Spells next o (l ++ b :: rest)) (hsame : ∀ c ∈ l, next' c = next c)
    (hrest : Spells next' (next' b) l') : Spells next' o (l ++ b :: l') := by
  induction l generalizing o with
  | nil => exact ⟨h.1, hrest⟩
  | cons c l ih =>
    refine ⟨h.1, ?_⟩
    rw [hsame c List.mem_cons_self]
    exact ih (next c) h.2 (fun d hd => hsame d (List.mem_cons_of_mem c hd))

omit [DecidableEq α] in
theorem spells_suffix (o : Option α) (l rest : List α) (b : α)
    (h : Spells next o (l ++ b :: rest)) : Spells next (next b) rest := by
  induction l generalizing o with
  | nil => exact h.2
  | cons c l ih => exact ih (next c) h.2

/-- Taking out `a`, which is behind `p`; what becomes of the successor of `a` does not matter. -/
theorem spells_unlink (o : Option α) (l₁ l₂ : List α) (p a : α) (x : Option α)
    (hnodup : (l₁ ++ p :: a :: l₂).Nodup) (h : Spells next o (l₁ ++ p :: a :: l₂)) :
    Spells (update (update next p (next a)) a x) o (l₁ ++ p :: l₂) := by
  obtain ⟨-, hnodup₂, hdisjoint⟩ := List.nodup_append.mp hnodup
  obtain ⟨hp, hnodup₃⟩ := List.nodup_cons.mp hnodup₂
  obtain ⟨hpa, hp₂⟩ := List.ne_and_not_mem_of_not_mem_cons hp
  have ha₂ : a ∉ l₂ := (List.nodup_cons.mp hnodup₃).1
  refine spells_rest next _ o l₁ l₂ (a :: l₂) p h (fun c hc => ?_) ?_
  · rw [update_of_ne (hdisjoint c hc a (List.mem_cons_of_mem p List.mem_cons_self)),
      update_of_ne (hdisjoint c hc p List.mem_cons_self)]
  · rw [update_of_ne hpa, update_self]
    have hrest := spells_suffix next o l₁ (a :: l₂) p h
    exact spells_update _ _ l₂ a x ha₂ (spells_update next _ l₂ p _ hp₂ hrest.2)

theorem before_eq_none (a b : α) (l : List α) (fuel : ℕ) (h : Spells next (next b) l)
    (ha : a ∉ l) : before next a fuel b = none := by
  induction fuel generalizing b l with
  | zero => rfl
  | succ fuel ih =>
    unfold before
    cases l with
    | nil =>
      have hnone : next b = none := h
      simp [hnone]
    | cons c l =>
      obtain ⟨hc, hl⟩ := List.ne_and_not_mem_of_not_mem_cons ha
      have hne : next b ≠ some a := by
        rw [h.1]
        exact fun heq => hc (Option.some.inj heq).symm
      rw [if_neg hne, h.1]
      exact ih c l h.2 hl

/-- The one before `a` is found in time. -/
theorem before_eq_some (a b : α) (l : List α) (fuel : ℕ) (h : Spells next (next b) l)
    (ha : a ∈ l) (hlen : l.length ≤ fuel) :
    ∃ l₁ p l₂, b :: l = l₁ ++ p :: a :: l₂ ∧ before next a fuel b = some p := by
  induction l generalizing b fuel with
  | nil => simp at ha
  | cons c l ih =>
    cases fuel with
    | zero => simp at hlen
    | succ fuel =>
      unfold before
      by_cases hc : c = a
      · subst hc
        rw [if_pos h.1]
        exact ⟨[], b, l, rfl, rfl⟩
      · have hne : next b ≠ some a := by
          rw [h.1]
          exact fun heq => hc (Option.some.inj heq)
        have hmem : a ∈ l := (List.mem_cons.mp ha).resolve_left (Ne.symm hc)
        obtain ⟨l₁, p, l₂, hsplit, hbefore⟩ :=
          ih c fuel h.2 hmem (Nat.le_of_succ_le_succ hlen)
        rw [if_neg hne, h.1]
        exact ⟨b :: l₁, p, l₂, by rw [hsplit, List.cons_append], hbefore⟩

omit [DecidableEq α] in
theorem seek_spec (p : α → Bool) (b : α) (l : List α) (fuel : ℕ) (h : Spells next (next b) l)
    (hlen : l.length ≤ fuel) :
    match l.find? p with
    | none => seek next p fuel b = none
    | some c => ∃ l₁ prev l₂, b :: l = l₁ ++ prev :: c :: l₂ ∧
        seek next p fuel b = some (prev, c) := by
  induction l generalizing b fuel with
  | nil =>
    have hnone : next b = none := h
    cases fuel with
    | zero => rfl
    | succ fuel => simp [seek, hnone]
  | cons c l ih =>
    cases fuel with
    | zero => simp at hlen
    | succ fuel =>
      have hrest := ih c fuel h.2 (Nat.le_of_succ_le_succ hlen)
      rw [List.find?_cons]
      unfold seek
      rw [h.1]
      cases hp : p c with
      | true => exact ⟨[], b, l, rfl, by simp [hp]⟩
      | false =>
        simp only [hp]
        cases hfind : l.find? p with
        | none =>
          rw [hfind] at hrest
          simpa using hrest
        | some d =>
          rw [hfind] at hrest
          obtain ⟨l₁, prev, l₂, hsplit, hseek⟩ := hrest
          exact ⟨b :: l₁, prev, l₂, by rw [hsplit, List.cons_append], by simpa using hseek⟩

end Spells

/-- Each bucket holds the objects with its key, and the others are in none. -/
structure Represents (key : α → Option κ) (lists : κ → List α) (t : Chains κ α) : Prop where
  indexes : Indexes key lists
  spells : ∀ k, Spells t.next (t.head k) (lists k)
  off : ∀ a, key a = none → t.next a = some a

section Represents

variable (key : α → Option κ) (lists : κ → List α) (t : Chains κ α)

omit [DecidableEq κ] [DecidableEq α] in
theorem represents_empty : Represents (fun _ => none) (fun _ => []) (empty : Chains κ α) :=
  ⟨fun _ => ⟨List.nodup_nil, by simp⟩, fun _ => rfl, fun _ _ => rfl⟩

variable (h : Represents key lists t)

include h

omit [DecidableEq κ] [DecidableEq α] in
theorem next_ne_of_key (a : α) (k : κ) (ha : key a = some k) : t.next a ≠ some a := by
  intro hself
  have hmem := ((h.indexes k).2 a).mpr ha
  obtain ⟨l₁, l₂, hsplit⟩ := List.append_of_mem hmem
  have hspells := h.spells k
  rw [hsplit] at hspells
  have hsuffix := spells_suffix t.next _ l₁ l₂ a hspells
  rw [hself] at hsuffix
  have hnodup := (h.indexes k).1
  rw [hsplit] at hnodup
  have hnot : a ∉ l₂ := (List.nodup_cons.mp (List.nodup_append.mp hnodup).2.1).1
  cases l₂ with
  | nil => exact absurd hsuffix (by simp [Spells])
  | cons b l₂ =>
    obtain rfl : a = b := Option.some.inj hsuffix.1
    exact hnot List.mem_cons_self

omit [DecidableEq κ] [DecidableEq α] in
theorem next_eq_iff (a : α) : t.next a = some a ↔ key a = none := by
  constructor
  · intro hself
    cases hkey : key a with
    | none => rfl
    | some k => exact absurd hself (next_ne_of_key key lists t h a k hkey)
  · exact h.off a

theorem add_represents (a : α) (k : κ) (ha : key a = none) :
    Represents (update key a (some k)) (update lists k (a :: lists k)) (t.add k a) := by
  have hnot : ∀ k', a ∉ lists k' := by
    intro k' hmem
    have hkey := ((h.indexes k').2 a).mp hmem
    rw [ha] at hkey
    simp at hkey
  refine ⟨indexes_insert key lists a k h.indexes ha, fun k' => ?_, fun b hb => ?_⟩
  · have hold := spells_update t.next (t.head k') (lists k') a (t.head k) (hnot k') (h.spells k')
    unfold Chains.add
    by_cases hk : k' = k
    · subst hk
      simp only [update_self]
      refine ⟨rfl, ?_⟩
      rw [update_self]
      exact hold
    · simp only [update_of_ne hk]
      exact hold
  · by_cases hba : b = a
    · rw [hba, update_self] at hb
      exact absurd hb (by simp)
    · rw [update_of_ne hba] at hb
      unfold Chains.add
      simp only [update_of_ne hba]
      exact h.off b hb

omit [DecidableEq κ] h in
theorem erase_behind (l₁ l₂ : List α) (p a : α) (hnodup : (l₁ ++ p :: a :: l₂).Nodup) :
    (l₁ ++ p :: a :: l₂).erase a = l₁ ++ p :: l₂ := by
  obtain ⟨-, hnodup₂, hdisjoint⟩ := List.nodup_append.mp hnodup
  obtain ⟨hpa, -⟩ := List.ne_and_not_mem_of_not_mem_cons (List.nodup_cons.mp hnodup₂).1
  have ha : a ∉ l₁ := fun hmem =>
    hdisjoint a hmem a (List.mem_cons_of_mem p List.mem_cons_self) rfl
  rw [List.erase_append_right _ ha, List.erase_cons_tail (by simpa using hpa),
    List.erase_cons_head]

theorem del_off (fuel : ℕ) (a : α) (k : κ) (ha : key a ≠ some k) : t.del fuel k a = t := by
  have hnot : a ∉ lists k := fun hmem => ha (((h.indexes k).2 a).mp hmem)
  have hspells := h.spells k
  unfold Chains.del
  cases hl : lists k with
  | nil =>
    rw [hl] at hspells
    have hnone : t.head k = none := hspells
    rw [hnone]
  | cons b l =>
    rw [hl] at hspells hnot
    obtain ⟨hab, hal⟩ := List.ne_and_not_mem_of_not_mem_cons hnot
    rw [hspells.1]
    dsimp only
    rw [if_neg (Ne.symm hab), before_eq_none t.next a b l fuel hspells.2 hal]

theorem del_represents (fuel : ℕ) (a : α) (k : κ) (ha : key a = some k)
    (hlen : (lists k).length ≤ fuel) :
    Represents (update key a none) (update lists k ((lists k).erase a)) (t.del fuel k a) := by
  have hmem : a ∈ lists k := ((h.indexes k).2 a).mpr ha
  have hnodup := (h.indexes k).1
  have hspells := h.spells k
  have hother : ∀ k', k' ≠ k → ∀ b ∈ lists k, b ∉ lists k' := fun k' hk b hb =>
    not_mem_other key lists b k h.indexes (((h.indexes k).2 b).mp hb) k' hk
  have hoff : ∀ b, update key a none b = none → b ≠ a → t.next b = some b := by
    intro b hb hba
    rw [update_of_ne hba] at hb
    exact h.off b hb
  unfold Chains.del
  obtain ⟨b, l, hl⟩ : ∃ b l, lists k = b :: l := List.exists_cons_of_ne_nil (List.ne_nil_of_mem hmem)
  rw [hl] at hnodup hspells hlen
  rw [hspells.1]
  dsimp only
  by_cases hb : b = a
  · subst hb
    rw [if_pos rfl]
    refine ⟨indexes_delete key lists b k h.indexes ha, fun k' => ?_, fun c hc => ?_⟩
    · by_cases hk : k' = k
      · subst hk
        simp only [update_self]
        rw [hl, List.erase_cons_head]
        exact spells_update t.next _ l b _ (List.nodup_cons.mp hnodup).1 hspells.2
      · simp only [update_of_ne hk]
        exact spells_update t.next _ _ b _ (hother k' hk b hmem) (h.spells k')
    · dsimp only
      by_cases hcb : c = b
      · rw [hcb, update_self]
      · rw [update_of_ne hcb]
        exact hoff c hc hcb
  · rw [if_neg hb]
    have hal : a ∈ l := by
      rw [hl] at hmem
      exact (List.mem_cons.mp hmem).resolve_left (Ne.symm hb)
    obtain ⟨l₁, p, l₂, hsplit, hbefore⟩ := before_eq_some t.next a b l fuel hspells.2 hal
      (Nat.le_of_succ_le hlen)
    rw [hbefore]
    rw [hsplit] at hl hnodup
    have hpmem : p ∈ lists k := by
      rw [hl]
      simp
    refine ⟨indexes_delete key lists a k h.indexes ha, fun k' => ?_, fun c hc => ?_⟩
    · by_cases hk : k' = k
      · subst hk
        have hwhole := h.spells k'
        rw [hl] at hwhole
        rw [update_self, hl, erase_behind l₁ l₂ p a hnodup]
        exact spells_unlink t.next _ l₁ l₂ p a _ hnodup hwhole
      · rw [update_of_ne hk]
        exact spells_update _ _ _ a _ (hother k' hk a hmem)
          (spells_update t.next _ _ p _ (hother k' hk p hpmem) (h.spells k'))
    · dsimp only
      by_cases hca : c = a
      · rw [hca, update_self]
      · have hcp : c ≠ p := by
          intro heq
          rw [update_of_ne hca, heq, ((h.indexes k).2 p).mp hpmem] at hc
          exact absurd hc (by simp)
        rw [update_of_ne hca, update_of_ne hcp]
        exact hoff c hc hca

omit h in
theorem erase_eq_filter (a : α) (k : κ) (hindexes : Indexes key lists) (ha : key a = some k) :
    update lists k ((lists k).erase a) = fun k' => (lists k').filter (fun b => decide (b ≠ a)) := by
  funext k'
  by_cases hk : k' = k
  · subst hk
    rw [update_self, (hindexes k').1.erase_eq_filter]
    refine List.filter_congr fun b _ => ?_
    by_cases hb : b = a
    · simp [hb]
    · simp [hb]
  · rw [update_of_ne hk]
    refine (List.filter_eq_self.mpr fun b hb => ?_).symm
    have hne : b ≠ a := by
      rintro rfl
      exact not_mem_other key lists b k hindexes ha k' hk hb
    simpa using hne

/-- The lists after the first with the property has been moved to the front of its own. -/
def moved (lists : κ → List α) (k : κ) (p : α → Bool) : κ → List α :=
  match (lists k).find? p with
  | none => lists
  | some a => update lists k (a :: (lists k).erase a)

/-- Looking for an object may move it to the front of its bucket. -/
theorem find_represents (fuel : ℕ) (k : κ) (p : α → Bool) (hlen : (lists k).length ≤ fuel) :
    (t.find fuel k p).1 = (lists k).find? p ∧
      Represents key (moved lists k p) (t.find fuel k p).2 := by
  have hspells := h.spells k
  unfold Chains.find moved
  cases hl : lists k with
  | nil =>
    rw [hl] at hspells
    have hnone : t.head k = none := hspells
    rw [hnone]
    exact ⟨rfl, h⟩
  | cons b l =>
    rw [hl] at hspells hlen
    rw [hspells.1]
    dsimp only
    rw [List.find?_cons]
    cases hp : p b with
    | true =>
      have hsame : update lists k (b :: (b :: l).erase b) = lists := by
        rw [List.erase_cons_head, ← hl, update_eq_self]
      simp only [if_true, hsame]
      exact ⟨trivial, h⟩
    | false =>
      have hseek := seek_spec t.next p b l fuel hspells.2 (Nat.le_of_succ_le hlen)
      simp only [Bool.false_eq_true, if_false]
      cases hfind : l.find? p with
      | none =>
        rw [hfind] at hseek
        dsimp only at hseek
        rw [hseek]
        exact ⟨rfl, h⟩
      | some c =>
        rw [hfind] at hseek
        obtain ⟨l₁, prev, l₂, hsplit, hseek⟩ := hseek
        rw [hseek, ← hl]
        refine ⟨rfl, ?_⟩
        have hcmem : c ∈ lists k := by
          rw [hl, hsplit]
          simp
        have hpmem : prev ∈ lists k := by
          rw [hl, hsplit]
          simp
        have hckey : key c = some k := ((h.indexes k).2 c).mp hcmem
        have hother : ∀ k', k' ≠ k → ∀ b ∈ lists k, b ∉ lists k' := fun k' hk b hb =>
          not_mem_other key lists b k h.indexes (((h.indexes k).2 b).mp hb) k' hk
        have hnodup := (h.indexes k).1
        rw [hsplit] at hl
        rw [hl] at hnodup
        refine ⟨indexes_toFront key lists c k h.indexes hckey, fun k' => ?_, fun d hd => ?_⟩
        · by_cases hk : k' = k
          · subst hk
            have hwhole := h.spells k'
            rw [hl, hspells.1] at hwhole
            simp only [update_self]
            rw [hl, erase_behind l₁ l₂ prev c hnodup]
            refine ⟨rfl, ?_⟩
            rw [update_self]
            exact spells_unlink t.next _ l₁ l₂ prev c _ hnodup hwhole
          · simp only [update_of_ne hk]
            exact spells_update _ _ _ c _ (hother k' hk c hcmem)
              (spells_update t.next _ _ prev _ (hother k' hk prev hpmem) (h.spells k'))
        · have hdc : d ≠ c := by
            intro heq
            rw [heq, hckey] at hd
            exact absurd hd (by simp)
          have hdp : d ≠ prev := by
            intro heq
            rw [heq, ((h.indexes k).2 prev).mp hpmem] at hd
            exact absurd hd (by simp)
          dsimp only
          rw [update_of_ne hdc, update_of_ne hdp]
          exact h.off d hd

end Represents

end IrcdHybrid.HashChains
