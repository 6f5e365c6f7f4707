import IrcdHybrid.ChannelMerge
import Mathlib.Data.List.Pairwise

/-!
The lists of masks after two bursts. Masks are the same to the servers when
they differ in the case of letters only; up to that, the two sides end with
equal lists, except that a side whose channel has no timestamp leaves the
masks of a side with one unheard: its SJOIN lines made the timestamp zero, and
the BMASK lines come with a higher one.
-/

namespace IrcdHybrid.ListMerge

open CString BanMask Channels Burst Sjoin ChannelMode ChannelTable BurstLines BurstRun ChannelMerge
open Delivery
open Numeral (strtol decimal strtol_decimal_min)

/-- The mask is in the list, as the servers compare masks. -/
def Like (l : List Nuh) (n : Nuh) : Prop := ∃ ban ∈ l, sameMask ban n = true

theorem like_of_mem (l : List Nuh) (n : Nuh) (h : n ∈ l) : Like l n := ⟨n, h, sameMask_self n⟩

theorem like_append (l m : List Nuh) (n : Nuh) : Like (l ++ m) n ↔ Like l n ∨ Like m n := by
  unfold Like
  simp only [List.mem_append]
  constructor
  · rintro ⟨ban, hl | hm, hsame⟩
    · exact Or.inl ⟨ban, hl, hsame⟩
    · exact Or.inr ⟨ban, hm, hsame⟩
  · rintro (⟨ban, hl, hsame⟩ | ⟨ban, hm, hsame⟩)
    · exact ⟨ban, Or.inl hl, hsame⟩
    · exact ⟨ban, Or.inr hm, hsame⟩

theorem like_trans (l : List Nuh) (m n : Nuh) (hm : Like l m) (hsame : sameMask m n = true) :
    Like l n := by
  obtain ⟨ban, hban, hbm⟩ := hm
  exact ⟨ban, hban, sameMask_trans ban m n hbm hsame⟩

/-- A mask of a list that is like another one of it is that one. -/
theorem eq_of_sameMask (l : List Nuh) (h : Distinct l) (m n : Nuh) (hm : m ∈ l) (hn : n ∈ l)
    (hsame : sameMask m n = true) : m = n := by
  have hsymm : Std.Symm (fun a b : Nuh => sameMask a b = false) :=
    ⟨fun a b hab => by rwa [sameMask_comm]⟩
  by_contra hne
  rw [List.Pairwise.forall h hm hn hne] at hsame
  exact absurd hsame (by decide)

/-- Adding a list of masks leaves nothing out, as the servers compare masks. -/
theorem like_foldl_insertMask (old l : List Nuh) (h : Distinct l) (n : Nuh) :
    Like (l.foldl insertMask old) n ↔ Like old n ∨ Like l n := by
  constructor
  · rintro ⟨ban, hban, hsame⟩
    rcases (mem_foldl_insertMask old l h ban).mp hban with hold | ⟨hl, _⟩
    · exact Or.inl ⟨ban, hold, hsame⟩
    · exact Or.inr ⟨ban, hl, hsame⟩
  · rintro (⟨ban, hban, hsame⟩ | ⟨ban, hban, hsame⟩)
    · exact ⟨ban, (mem_foldl_insertMask old l h ban).mpr (Or.inl hban), hsame⟩
    · by_cases hlike : Like old ban
      · obtain ⟨m, hm, hmsame⟩ := hlike
        exact ⟨m, (mem_foldl_insertMask old l h m).mpr (Or.inl hm),
          sameMask_trans m ban n hmsame hsame⟩
      · refine ⟨ban, (mem_foldl_insertMask old l h ban).mpr (Or.inr ⟨hban, ?_⟩), hsame⟩
        intro m hm
        by_contra hmsame
        exact hlike ⟨m, hm, by simpa using hmsame⟩

theorem list_joinedChannel (c old : Channel) (type : ListType) :
    (joinedChannel c old).list type = if Older c old then [] else old.list type := by
  have hlist : (joinedChannel c old).list type = (settle c old).list type := by cases type <;> rfl
  rw [hlist]
  split
  · next holder =>
    rw [(settle_older c old holder).1]
    cases type <;> rfl
  · next hnot =>
    by_cases hboth : BothKept c old
    · rw [(settle_both c old hboth).1]
      cases type <;> rfl
    · rw [(settle_younger c old ((older_or c old hboth).resolve_left hnot)).1]

/-- The masks of the burst are not heard: the channel is older, or has no timestamp. -/
def Unheard (c old : Channel) : Prop :=
  Older old c ∨ (c.creationtime ≠ 0 ∧ old.creationtime = 0)

theorem unheard_iff (c old : Channel) (hpos : 0 ≤ c.creationtime) :
    c.creationtime > (joinedChannel c old).creationtime ↔ Unheard c old := by
  show c.creationtime > (settle c old).creationtime ↔ _
  unfold Unheard
  by_cases hboth : BothKept c old
  · rw [(settle_both c old hboth).1]
    dsimp only
    unfold BothKept at hboth
    unfold Older
    split_ifs <;> omega
  · rcases older_or c old hboth with holder | hyounger
    · rw [(settle_older c old holder).1]
      dsimp only
      unfold Older at holder ⊢
      omega
    · rw [(settle_younger c old hyounger).1]
      unfold Older at hyounger ⊢
      omega

theorem asRead_nonneg (c : Channel) : 0 ≤ (asRead c).creationtime := by
  show 0 ≤ strtol (decimal _)
  rw [strtol_decimal_min]
  omega

theorem asRead_negative (c : Channel) (hlow : -2 ^ 63 ≤ c.creationtime)
    (hneg : c.creationtime < 0) : (asRead c).creationtime = 2 ^ 63 - 1 := by
  have hcases := strtol_formatTime_cases c.creationtime hlow (by omega)
  show strtol (formatTime c.creationtime) = _
  omega

theorem asRead_zero_iff (c : Channel) (h : WellFormed c) (hlow : -2 ^ 63 ≤ c.creationtime) :
    (asRead c).creationtime = 0 ↔ c.creationtime = 0 := by
  rcases lt_or_ge c.creationtime 0 with hneg | hpos
  · rw [asRead_negative c hlow hneg]
    omega
  · rw [asRead_eq c hpos h.time_lt]

section Receiver

variable (sid : CStr) (c old : Channel) (type : ListType)

theorem list_unheard (h : Unheard (asRead c) old) :
    (bmaskRuns sid c (joinedChannel (asRead c) old)).list type = old.list type := by
  have hnot : ¬ Older (asRead c) old := by
    unfold Unheard Older at h
    unfold Older
    omega
  rw [list_bmaskRuns, list_joinedChannel, if_pos ((unheard_iff _ old (asRead_nonneg c)).mpr h),
    if_neg hnot]

theorem list_older (h : Older (asRead c) old) :
    (bmaskRuns sid c (joinedChannel (asRead c) old)).list type =
      (c.list type).foldl insertMask [] := by
  have hnot : ¬ Unheard (asRead c) old := by
    unfold Older at h
    unfold Unheard Older
    omega
  rw [list_bmaskRuns, list_joinedChannel,
    if_neg (fun hgt => hnot ((unheard_iff _ old (asRead_nonneg c)).mp hgt)), if_pos h]

theorem list_both (h : ¬ Unheard (asRead c) old) (hnot : ¬ Older (asRead c) old) :
    (bmaskRuns sid c (joinedChannel (asRead c) old)).list type =
      (c.list type).foldl insertMask (old.list type) := by
  rw [list_bmaskRuns, list_joinedChannel,
    if_neg (fun hgt => h ((unheard_iff _ old (asRead_nonneg c)).mp hgt)), if_neg hnot]

end Receiver

/-- What the lists should be: the union when both sides' modes were kept, the older side's
list otherwise. -/
def expected (a b : Channel) (type : ListType) : List Nuh :=
  if BothKept a b then a.list type ++ b.list type
  else if a.creationtime < b.creationtime then a.list type
  else b.list type

/-- Both sides have the expected masks, in the given sense of having one. -/
def ConvergedAs (has : List Nuh → Nuh → Prop) (a b l r : Channel) (type : ListType) : Prop :=
  ∀ n, (has (l.list type) n ↔ has (expected a b type) n) ∧
    (has (r.list type) n ↔ has (expected a b type) n)

/-- Letter for letter. -/
def Exact (l : List Nuh) (n : Nuh) : Prop := n ∈ l

/-- One side has the masks that never get to it: one without a timestamp those of a side
with one; one against a timestamp below zero, which is read as the highest, the other's, and
the other way round unless its own is the highest. -/
def Covered (has : List Nuh → Nuh → Prop) (a b : Channel) (type : ListType) : Prop :=
  (a.creationtime = 0 → b.creationtime ≠ 0 → ∀ n ∈ b.list type, has (a.list type) n) ∧
    (a.creationtime < 0 → b.creationtime ≠ 0 → (∀ n ∈ b.list type, has (a.list type) n) ∧
      (b.creationtime ≠ 2 ^ 63 - 1 → ∀ n ∈ a.list type, has (b.list type) n))

/-- With equal timestamps no mask of one side is another one's in other letters. -/
def SameLetters (a b : Channel) (type : ListType) : Prop :=
  a.creationtime = b.creationtime → 0 ≤ a.creationtime →
    ∀ m ∈ a.list type, ∀ n ∈ b.list type, sameMask m n = true → m = n

/-- What the two ways of comparing masks have in common: a list has its masks, an appended one
those of both, and a mask is added unless the list has it. -/
structure Compares (has : List Nuh → Nuh → Prop) : Prop where
  mem : ∀ l n, n ∈ l → has l n
  append : ∀ l m n, has (l ++ m) n ↔ has l n ∨ has m n
  covers : ∀ l m, (∀ n ∈ l, has m n) → ∀ n, has l n → has m n
  insert : ∀ old l, Distinct l → ∀ n, has (l.foldl insertMask old) n → has l n ∨ has old n
  kept : ∀ old l, Distinct l → ∀ n, has old n → has (l.foldl insertMask old) n
  added : ∀ old l, Distinct l → (∀ n ∈ old, has l n) →
    ∀ n, has l n → has (l.foldl insertMask old) n

theorem like_compares : Compares Like where
  mem := like_of_mem
  append := like_append
  covers := by
    rintro l m h n ⟨ban, hban, hsame⟩
    exact like_trans m ban n (h ban hban) hsame
  insert := fun old l hdist n h => ((like_foldl_insertMask old l hdist n).mp h).symm
  kept := fun old l hdist n h => (like_foldl_insertMask old l hdist n).mpr (Or.inl h)
  added := fun old l hdist _ n h => (like_foldl_insertMask old l hdist n).mpr (Or.inr h)

theorem exact_compares : Compares Exact where
  mem := fun _ _ h => h
  append := fun _ _ _ => List.mem_append
  covers := fun _ _ h => h
  insert := fun old l hdist n h =>
    ((mem_foldl_insertMask old l hdist n).mp h).elim Or.inr (fun hn => Or.inl hn.1)
  kept := fun old l hdist n h => (mem_foldl_insertMask old l hdist n).mpr (Or.inl h)
  added := by
    intro old l hdist hall n hn
    refine (mem_foldl_insertMask old l hdist n).mpr ?_
    by_cases hmem : n ∈ old
    · exact Or.inl hmem
    · refine Or.inr ⟨hn, fun ban hban => ?_⟩
      by_contra hsame
      have heq := eq_of_sameMask l hdist ban n (hall ban hban) hn (by simpa using hsame)
      exact hmem (heq ▸ hban)

section Sides

variable (lsid rsid : CStr) (a b : Channel) (type : ListType)

theorem expected_older (h : Older a b) : expected a b type = a.list type := by
  have hnot : ¬ BothKept a b := by
    unfold BothKept
    unfold Older at h
    omega
  rw [expected, if_neg hnot, if_pos h.2.2]

theorem expected_younger (h : Older b a) : expected a b type = b.list type := by
  have hnot : ¬ BothKept a b := by
    unfold BothKept
    unfold Older at h
    omega
  rw [expected, if_neg hnot, if_neg (by have := h.2.2; omega)]

/-- What is expected does not depend on who is called left, but for the order of the two. -/
theorem expected_comm : expected a b type = expected b a type ∨
    (expected a b type = a.list type ++ b.list type ∧
      expected b a type = b.list type ++ a.list type) := by
  by_cases hboth : BothKept a b
  · have hboth' : BothKept b a := by
      unfold BothKept at hboth ⊢
      omega
    exact Or.inr ⟨if_pos hboth, if_pos hboth'⟩
  · rcases older_or a b hboth with h | h
    · exact Or.inl (by rw [expected_older a b type h, expected_younger b a type h])
    · exact Or.inl (by rw [expected_younger a b type h, expected_older b a type h])

variable (has : List Nuh → Nuh → Prop) (hhas : Compares has)

include hhas in
/-- The expected masks are those of the two sides, and those that both have. -/
theorem expected_between (n : Nuh) :
    (has (expected a b type) n → has (a.list type) n ∨ has (b.list type) n) ∧
      (has (a.list type) n → has (b.list type) n → has (expected a b type) n) := by
  unfold expected
  split_ifs
  · rw [hhas.append]
    exact ⟨id, fun h _ => Or.inl h⟩
  · exact ⟨Or.inl, fun h _ => h⟩
  · exact ⟨Or.inr, fun _ h => h⟩

include hhas in
theorem converged_comm (l r : Channel) :
    ConvergedAs has a b l r type ↔ ConvergedAs has b a r l type := by
  have hexpected : ∀ n, has (expected a b type) n ↔ has (expected b a type) n := by
    intro n
    rcases expected_comm a b type with heq | ⟨hab, hba⟩
    · rw [heq]
    · rw [hab, hba, hhas.append, hhas.append, or_comm]
  unfold ConvergedAs
  constructor
  · intro h n
    exact ⟨(h n).2.trans (hexpected n), (h n).1.trans (hexpected n)⟩
  · intro h n
    exact ⟨(h n).2.trans (hexpected n).symm, (h n).1.trans (hexpected n).symm⟩

include hhas in
/-- The left side keeps its list and the right one adds it to its own. -/
theorem converged_added (l r : Channel) (hdist : Distinct (a.list type))
    (hexpected : ∀ n, has (a.list type) n → has (expected a b type) n)
    (hl : l.list type = a.list type)
    (hr : r.list type = (a.list type).foldl insertMask (b.list type)) :
    ConvergedAs has a b l r type ↔ ∀ n ∈ b.list type, has (a.list type) n := by
  unfold ConvergedAs
  rw [hl, hr]
  constructor
  · intro h n hn
    have hkept := hhas.kept _ _ hdist n (hhas.mem _ n hn)
    exact (h n).1.mpr ((h n).2.mp hkept)
  · intro hall n
    have hback : has (expected a b type) n → has (a.list type) n := fun hn =>
      ((expected_between a b type has hhas n).1 hn).elim id (hhas.covers _ _ hall n)
    refine ⟨⟨hexpected n, hback⟩, fun hn => ?_, fun hn => hhas.added _ _ hdist hall n (hback hn)⟩
    exact hexpected n ((hhas.insert _ _ hdist n hn).elim id (hhas.covers _ _ hall n))

include hhas in
theorem converged_kept (l r : Channel) (hl : l.list type = a.list type)
    (hr : r.list type = b.list type) : ConvergedAs has a b l r type ↔
      (∀ n ∈ b.list type, has (a.list type) n) ∧ ∀ n ∈ a.list type, has (b.list type) n := by
  unfold ConvergedAs
  rw [hl, hr]
  constructor
  · intro h
    exact ⟨fun n hn => (h n).1.mpr ((h n).2.mp (hhas.mem _ n hn)),
      fun n hn => (h n).2.mpr ((h n).1.mp (hhas.mem _ n hn))⟩
  · rintro ⟨hba, hab⟩ n
    obtain ⟨hor, hand⟩ := expected_between a b type has hhas n
    have hba' := hhas.covers _ _ hba n
    have hab' := hhas.covers _ _ hab n
    exact ⟨⟨fun hn => hand hn (hab' hn), fun hn => (hor hn).elim id hba'⟩,
      fun hn => hand (hba' hn) hn, fun hn => (hor hn).elim hab' id⟩

section Bursts

variable (hwa : WellFormed a) (hwb : WellFormed b) (hla : -2 ^ 63 ≤ a.creationtime)
  (hlb : -2 ^ 63 ≤ b.creationtime)

include hhas hwa hwb hla hlb

theorem converged_zero (hza : a.creationtime = 0) (hzb : b.creationtime ≠ 0) :
    ConvergedAs has a b (bmaskRuns rsid b (joinedChannel (asRead b) a))
      (bmaskRuns lsid a (joinedChannel (asRead a) b)) type ↔
      ∀ n ∈ b.list type, has (a.list type) n := by
  have hra := (asRead_zero_iff a hwa hla).mpr hza
  have hrb := (asRead_zero_iff b hwb hlb).not.mpr hzb
  have hexpected : expected a b type = a.list type ++ b.list type := if_pos (Or.inl hza)
  refine converged_added a b type has hhas _ _ (hwa.lists_distinct type) (fun n hn => ?_)
    (list_unheard rsid b a type (Or.inr ⟨hrb, hza⟩)) (list_both lsid a b type ?_ ?_)
  · rw [hexpected, hhas.append]
    exact Or.inl hn
  · unfold Unheard Older
    omega
  · exact fun h => h.1 hra

theorem converged_negative (hneg : a.creationtime < 0) (hzb : b.creationtime ≠ 0) :
    ConvergedAs has a b (bmaskRuns rsid b (joinedChannel (asRead b) a))
      (bmaskRuns lsid a (joinedChannel (asRead a) b)) type ↔
      (∀ n ∈ b.list type, has (a.list type) n) ∧
        (b.creationtime ≠ 2 ^ 63 - 1 → ∀ n ∈ a.list type, has (b.list type) n) := by
  have hra := asRead_negative a hla hneg
  have hrb := (asRead_zero_iff b hwb hlb).not.mpr hzb
  have hlt := hwb.time_lt
  have hbpos := asRead_nonneg b
  have hleft := list_unheard rsid b a type (Or.inl ⟨hneg.ne, hrb, by omega⟩)
  by_cases hmax : b.creationtime = 2 ^ 63 - 1
  · have hexpected := expected_older a b type ⟨hneg.ne, hzb, by omega⟩
    rw [converged_added a b type has hhas _ _ (hwa.lists_distinct type)
      (fun n hn => by rwa [hexpected]) hleft (list_both lsid a b type ?_ ?_)]
    · exact ⟨fun h => ⟨h, fun hne => absurd hmax hne⟩, And.left⟩
    · unfold Unheard Older
      omega
    · unfold Older
      omega
  · rw [converged_kept a b type has hhas _ _ hleft
      (list_unheard lsid a b type (Or.inl ⟨hzb, by omega, by omega⟩))]
    exact and_congr_right fun _ => ⟨fun h _ => h, fun h => h hmax⟩

/-- The side on which something may be missing is called left. -/
theorem converged_covered (hspecial : a.creationtime ≤ 0) (hzb : b.creationtime ≠ 0) :
    ConvergedAs has a b (bmaskRuns rsid b (joinedChannel (asRead b) a))
      (bmaskRuns lsid a (joinedChannel (asRead a) b)) type ↔
      Covered has a b type ∧ Covered has b a type := by
  unfold Covered
  rcases hspecial.lt_or_eq with hneg | hza
  · rw [converged_negative lsid rsid a b type has hhas hwa hwb hla hlb hneg hzb]
    constructor
    · rintro ⟨hba, hab⟩
      exact ⟨⟨fun h => absurd h hneg.ne, fun _ _ => ⟨hba, hab⟩⟩, fun h => absurd h hzb,
        fun h _ => ⟨hab (by omega), fun _ => hba⟩⟩
    · exact fun h => h.1.2 hneg hzb
  · rw [converged_zero lsid rsid a b type has hhas hwa hwb hla hlb hza hzb]
    exact ⟨fun h => ⟨⟨fun _ _ => h, fun hneg => absurd hza hneg.ne⟩, fun hz => absurd hz hzb,
      fun _ hne => absurd hza hne⟩, fun h => h.1.1 hza hzb⟩

omit hla hlb in
theorem converged_older (h : Older a b) (hpos : 0 < a.creationtime) :
    ConvergedAs has a b (bmaskRuns rsid b (joinedChannel (asRead b) a))
      (bmaskRuns lsid a (joinedChannel (asRead a) b)) type := by
  have hbpos : 0 ≤ b.creationtime := hpos.le.trans h.2.2.le
  have hra := asRead_eq a hpos.le hwa.time_lt
  have hrb := asRead_eq b hbpos hwb.time_lt
  have hleft := list_unheard rsid b a type (by rw [hrb]; exact Or.inl h)
  have hright := list_older lsid a b type (by rwa [hra])
  have hnone : ∀ n, has [] n → has (a.list type) n := hhas.covers [] _ (by simp)
  intro n
  rw [expected_older a b type h, hleft, hright]
  have hdist := hwa.lists_distinct type
  exact ⟨Iff.rfl, fun hn => (hhas.insert _ _ hdist n hn).elim id (hnone n),
    hhas.added _ _ hdist (by simp) n⟩

theorem converged_iff (P : Prop) (hequal : 0 ≤ a.creationtime → a.creationtime = b.creationtime →
      (ConvergedAs has a b (bmaskRuns rsid b (joinedChannel (asRead b) a))
        (bmaskRuns lsid a (joinedChannel (asRead a) b)) type ↔ P)) :
    ConvergedAs has a b (bmaskRuns rsid b (joinedChannel (asRead b) a))
      (bmaskRuns lsid a (joinedChannel (asRead a) b)) type ↔
      Covered has a b type ∧ Covered has b a type ∧
        (a.creationtime = b.creationtime → 0 ≤ a.creationtime → P) := by
  by_cases heq : a.creationtime = b.creationtime ∧ 0 ≤ a.creationtime
  · obtain ⟨heq, hpos⟩ := heq
    rw [hequal hpos heq]
    unfold Covered
    exact ⟨fun h => ⟨⟨fun hz hn => absurd (heq.symm.trans hz) hn, fun hneg => absurd hneg (by omega)⟩,
      ⟨fun hz hn => absurd (heq.trans hz) hn, fun hneg => absurd hneg (by omega)⟩, fun _ _ => h⟩,
      fun h => h.2.2 heq hpos⟩
  · have hdrop : (a.creationtime = b.creationtime → 0 ≤ a.creationtime → P) :=
      fun he hp => absurd ⟨he, hp⟩ heq
    by_cases hleft : a.creationtime ≤ 0 ∧ b.creationtime ≠ 0
    · rw [converged_covered lsid rsid a b type has hhas hwa hwb hla hlb hleft.1 hleft.2]
      tauto
    · by_cases hright : b.creationtime ≤ 0 ∧ a.creationtime ≠ 0
      · rw [converged_comm a b type has hhas,
          converged_covered rsid lsid b a type has hhas hwb hwa hlb hla hright.1 hright.2]
        tauto
      · have hcovered : Covered has a b type ∧ Covered has b a type := by
          unfold Covered
          omega
        refine ⟨fun _ => ⟨hcovered.1, hcovered.2, hdrop⟩, fun _ => ?_⟩
        rcases lt_trichotomy a.creationtime b.creationtime with hlt | he | hgt
        · exact converged_older lsid rsid a b type has hhas hwa hwb
            ⟨by omega, by omega, hlt⟩ (by omega)
        · omega
        · rw [converged_comm a b type has hhas]
          exact converged_older rsid lsid b a type has hhas hwb hwa
            ⟨by omega, by omega, hgt⟩ (by omega)

end Bursts

section Equal

variable (hwa : WellFormed a) (hwb : WellFormed b) (hpos : 0 ≤ a.creationtime)
  (heq : a.creationtime = b.creationtime)

include hwa hwb hpos heq

theorem lists_equal :
    (bmaskRuns rsid b (joinedChannel (asRead b) a)).list type =
        (b.list type).foldl insertMask (a.list type) ∧
      (bmaskRuns lsid a (joinedChannel (asRead a) b)).list type =
        (a.list type).foldl insertMask (b.list type) ∧
      expected a b type = a.list type ++ b.list type := by
  have hra := asRead_eq a hpos hwa.time_lt
  have hrb := asRead_eq b (heq ▸ hpos) hwb.time_lt
  have hun : ¬ Unheard a b ∧ ¬ Unheard b a ∧ ¬ Older a b ∧ ¬ Older b a := by
    unfold Unheard Older
    omega
  obtain ⟨hunab, hunba, holdab, holdba⟩ := hun
  exact ⟨list_both rsid b a type (by rwa [hrb]) (by rwa [hrb]),
    list_both lsid a b type (by rwa [hra]) (by rwa [hra]), if_pos (Or.inr (Or.inr heq))⟩

theorem like_equal : ConvergedAs Like a b (bmaskRuns rsid b (joinedChannel (asRead b) a))
    (bmaskRuns lsid a (joinedChannel (asRead a) b)) type := by
  obtain ⟨hleft, hright, hexpected⟩ := lists_equal lsid rsid a b type hwa hwb hpos heq
  intro n
  rw [hexpected, hleft, hright, like_foldl_insertMask _ _ (hwa.lists_distinct type),
    like_foldl_insertMask _ _ (hwb.lists_distinct type), like_append]
  exact ⟨Iff.rfl, or_comm⟩

theorem exact_equal_iff : ConvergedAs Exact a b (bmaskRuns rsid b (joinedChannel (asRead b) a))
      (bmaskRuns lsid a (joinedChannel (asRead a) b)) type ↔
    ∀ m ∈ a.list type, ∀ n ∈ b.list type, sameMask m n = true → m = n := by
  obtain ⟨hleft, hright, hexpected⟩ := lists_equal lsid rsid a b type hwa hwb hpos heq
  have hda := hwa.lists_distinct type
  have hdb := hwb.lists_distinct type
  unfold ConvergedAs Exact
  rw [hexpected, hleft, hright]
  simp only [List.mem_append, mem_foldl_insertMask _ _ hda, mem_foldl_insertMask _ _ hdb]
  constructor
  · intro h m hm n hn hsame
    rcases (h n).1.mpr (Or.inr hn) with hmem | ⟨_, hall⟩
    · exact eq_of_sameMask _ hda m n hm hmem hsame
    · rw [hall m hm] at hsame
      exact absurd hsame (by decide)
  · intro h n
    constructor
    · refine ⟨fun hor => hor.imp id And.left, ?_⟩
      rintro (hn | hn)
      · exact Or.inl hn
      · by_cases hmem : n ∈ a.list type
        · exact Or.inl hmem
        · refine Or.inr ⟨hn, fun ban hban => ?_⟩
          by_contra hsame
          exact hmem (h ban hban n hn (by simpa using hsame) ▸ hban)
    · refine ⟨fun hor => hor.elim Or.inr (fun hn => Or.inl hn.1), ?_⟩
      rintro (hn | hn)
      · by_cases hmem : n ∈ b.list type
        · exact Or.inl hmem
        · refine Or.inr ⟨hn, fun ban hban => ?_⟩
          by_contra hsame
          have hsame' : sameMask n ban = true := by
            rw [sameMask_comm]
            simpa using hsame
          exact hmem (h n hn ban hban hsame' ▸ hban)
      · exact Or.inl hn

end Equal

end Sides

/-- As `add_id` compares masks, the lists converge if and only if no side misses masks that do not
get to it; letter for letter, equal timestamps must not bring together masks in other letters. -/
theorem lists_converge_iff (p : Peers) (h : p.Ready) (final : Net Table Table CStr CStr)
    (hfinal : Completes (onLine p.left) (onLine p.right) p.start final) :
    ∃ l r, hashFindChannel final.left p.leftChannel.name = some l ∧
      hashFindChannel final.right p.leftChannel.name = some r ∧
      ((∀ type, ConvergedAs Like p.leftChannel p.rightChannel l r type) ↔
        ∀ type, Covered Like p.leftChannel p.rightChannel type ∧
          Covered Like p.rightChannel p.leftChannel type) ∧
      ((∀ type, ConvergedAs Exact p.leftChannel p.rightChannel l r type) ↔
        ∀ type, Covered Exact p.leftChannel p.rightChannel type ∧
          Covered Exact p.rightChannel p.leftChannel type ∧
          SameLetters p.leftChannel p.rightChannel type) := by
  obtain ⟨hleft, hright⟩ := final_eq p h final hfinal
  refine ⟨_, _, hleft, hright, forall_congr' fun type => ?_, forall_congr' fun type => ?_⟩
  · have hiff := converged_iff p.leftSid p.rightSid p.leftChannel p.rightChannel type Like
      like_compares h.leftWellFormed h.rightWellFormed h.leftTime h.rightTime True
      (fun hpos heq => iff_true_intro
        (like_equal _ _ _ _ _ h.leftWellFormed h.rightWellFormed hpos heq))
    rw [hiff]
    tauto
  · exact converged_iff p.leftSid p.rightSid p.leftChannel p.rightChannel type Exact
      exact_compares h.leftWellFormed h.rightWellFormed h.leftTime h.rightTime _
      (fun hpos heq => exact_equal_iff _ _ _ _ _ h.leftWellFormed h.rightWellFormed hpos heq)

def sampleBan : Nuh := ⟨['*'], ['*'], "bad.example".toList⟩

theorem sampleBan_valid : (∀ n ∈ [sampleBan], Valid n) ∧ Distinct [sampleBan] := by
  refine ⟨fun n hn => ?_, List.pairwise_singleton _ _⟩
  rw [List.mem_singleton.mp hn]
  have hspace : (nuhText sampleBan).all (fun c => !isSpace c) = true := by decide
  exact ⟨by decide, by decide, by decide, by decide, by decide, by decide, by decide, by decide,
    fun c hc => by simpa using List.all_eq_true.mp hspace c hc, by decide⟩

theorem lists_converge_pair : ∃ final l r,
    Completes (onLine (pair 5 9 [sampleBan] []).left) (onLine (pair 5 9 [sampleBan] []).right)
      (pair 5 9 [sampleBan] []).start final ∧
    hashFindChannel final.left "#c".toList = some l ∧
    hashFindChannel final.right "#c".toList = some r ∧
    ∀ type, ConvergedAs Like (pair 5 9 [sampleBan] []).leftChannel
      (pair 5 9 [sampleBan] []).rightChannel l r type := by
  obtain ⟨final, hfinal⟩ := pair_completes (pair 5 9 [sampleBan] [])
  obtain ⟨l, r, hl, hr, hiff, _⟩ := lists_converge_iff (pair 5 9 [sampleBan] [])
    (pair_ready 5 9 [sampleBan] [] (by decide) (by decide) sampleBan_valid noBans_valid) final
    hfinal
  have hcovered : ∀ c c' : Channel, 0 < c.creationtime → ∀ type, Covered Like c c' type :=
    fun c c' hpos type => ⟨fun h => absurd h hpos.ne', fun h => absurd h (by omega)⟩
  exact ⟨final, l, r, hfinal, hl, hr, hiff.mpr fun type =>
    ⟨hcovered _ _ (by decide) type, hcovered _ _ (by decide) type⟩⟩

/-- The side without a timestamp never hears of the ban. -/
theorem lists_diverge : (pair 0 100 [] [sampleBan]).Ready ∧ ∃ final l r,
    Completes (onLine (pair 0 100 [] [sampleBan]).left) (onLine (pair 0 100 [] [sampleBan]).right)
      (pair 0 100 [] [sampleBan]).start final ∧
    hashFindChannel final.left "#c".toList = some l ∧
    hashFindChannel final.right "#c".toList = some r ∧
    l.creationtime = 0 ∧ r.creationtime = 0 ∧ l.banlist = [] ∧ r.banlist = [sampleBan] := by
  have hready := pair_ready 0 100 [] [sampleBan] (by decide) (by decide) noBans_valid
    sampleBan_valid
  obtain ⟨final, hfinal⟩ := pair_completes (pair 0 100 [] [sampleBan])
  obtain ⟨hl, hr⟩ := final_eq _ hready final hfinal
  exact ⟨hready, final, _, _, hfinal, hl, hr, by decide, by decide, by decide, by decide⟩

end IrcdHybrid.ListMerge
