import IrcdHybrid.MemoryPools
import Mathlib.Order.Basic

/-!
The sizes of chunks and items. A chunk is a power of two long, and holds two items at least.
-/

namespace IrcdHybrid.PoolSizes

open MemoryPools

/-- The number was shifted by the logarithm so far, and is not 0. -/
def Shifted (u64 : ℕ) (u : ℕ × ℕ) : Prop := u64 / 2 ^ u.2 = u.1 ∧ 0 < u.1

theorem log2Step_spec (n u64 : ℕ) (u : ℕ × ℕ) (h : Shifted u64 u) (hless : u.1 < 2 ^ (n + n)) :
    Shifted u64 (log2Step n u) ∧ (log2Step n u).1 < 2 ^ n := by
  unfold log2Step
  split
  · next hge =>
    refine ⟨⟨?_, Nat.div_pos hge (Nat.two_pow_pos n)⟩, ?_⟩
    · rw [Nat.pow_add, ← Nat.div_div_eq_div_mul, h.1]
    · rw [Nat.pow_add] at hless
      exact Nat.div_lt_of_lt_mul hless
  · exact ⟨h, by omega⟩

theorem torLog2_spec (u64 : ℕ) (hpos : 0 < u64) (hless : u64 < 2 ^ 64) :
    2 ^ torLog2 u64 ≤ u64 ∧ u64 < 2 ^ (torLog2 u64 + 1) := by
  have h₀ : Shifted u64 (u64, 0) := ⟨by simp, hpos⟩
  obtain ⟨h₁, hless₁⟩ := log2Step_spec 32 u64 _ h₀ hless
  obtain ⟨h₂, hless₂⟩ := log2Step_spec 16 u64 _ h₁ hless₁
  obtain ⟨h₃, hless₃⟩ := log2Step_spec 8 u64 _ h₂ hless₂
  obtain ⟨h₄, hless₄⟩ := log2Step_spec 4 u64 _ h₃ hless₃
  obtain ⟨h₅, hless₅⟩ := log2Step_spec 2 u64 _ h₄ hless₄
  obtain ⟨⟨hshift, hone⟩, hless₆⟩ := log2Step_spec 1 u64 _ h₅ hless₅
  have hquot : u64 / 2 ^ torLog2 u64 = 1 := by
    refine hshift.trans ?_
    omega
  have hpow := Nat.two_pow_pos (torLog2 u64)
  have hmod := Nat.div_add_mod u64 (2 ^ torLog2 u64)
  have hrest := Nat.mod_lt u64 hpow
  rw [hquot, Nat.mul_one] at hmod
  rw [Nat.pow_succ]
  omega

/-- How far two numbers are from one another. -/
def away (a b : ℕ) : ℕ := (a - b) + (b - a)

/-- It is the power of two that is the nearest, and the lower one of two. -/
theorem roundToPowerOf2_nearest (u64 : ℕ) (hless : u64 < 2 ^ 64) : ∃ k < 64, roundToPowerOf2 u64 = 2 ^ k ∧
    ∀ j < 64, away (2 ^ k) u64 ≤ away (2 ^ j) u64 ∧ (away (2 ^ k) u64 = away (2 ^ j) u64 → k ≤ j) := by
  unfold roundToPowerOf2
  split
  · next hzero =>
    refine ⟨0, by omega, rfl, fun j _ => ⟨?_, fun _ => Nat.zero_le j⟩⟩
    have hpos := Nat.two_pow_pos j
    simp only [away, hzero, Nat.pow_zero]
    omega
  next hpos =>
  obtain ⟨hlow, hhigh⟩ := torLog2_spec u64 (Nat.pos_of_ne_zero hpos) hless
  generalize torLog2 u64 = lg at hlow hhigh
  have hlg : lg < 64 := (Nat.pow_lt_pow_iff_right (by omega : 1 < 2)).mp (Nat.lt_of_le_of_lt hlow hless)
  -- a power of two lies at or below the one, or at or above the other
  have hbelow : ∀ j, j ≤ lg → 2 ^ j ≤ 2 ^ lg := fun j hj => Nat.pow_le_pow_right (by omega) hj
  have habove : ∀ j, lg < j → 2 ^ (lg + 1) ≤ 2 ^ j := fun j hj => Nat.pow_le_pow_right (by omega) hj
  simp only
  unfold away
  split
  · next htop =>
    refine ⟨lg, hlg, rfl, fun j hj => ?_⟩
    have hj' := hbelow j (by omega)
    refine ⟨by omega, fun heq => ?_⟩
    exact (Nat.pow_le_pow_iff_right (by omega : 1 < 2)).mp (by omega)
  split
  · next htop hnear =>
    refine ⟨lg + 1, by omega, rfl, fun j hj => ?_⟩
    rcases Nat.lt_or_ge lg j with hj' | hj'
    · have hfar := habove j hj'
      exact ⟨by omega, fun _ => hj'⟩
    · have hfar := hbelow j hj'
      exact ⟨by omega, fun heq => by omega⟩
  · next htop hnear =>
    refine ⟨lg, hlg, rfl, fun j hj => ?_⟩
    rcases Nat.lt_or_ge lg j with hj' | hj'
    · have hfar := habove j hj'
      exact ⟨by omega, fun _ => Nat.le_of_lt hj'⟩
    · have hfar := hbelow j hj'
      refine ⟨by omega, fun heq => ?_⟩
      exact (Nat.pow_le_pow_iff_right (by omega : 1 < 2)).mp (by omega)

theorem itemAllocSize_spec (itemSize : ℕ) : itemSize + ITEM_OVERHEAD ≤ itemAllocSize itemSize ∧
    SIZEOF_ALLOCATED ≤ itemAllocSize itemSize ∧ itemAllocSize itemSize % ALIGNMENT = 0 ∧
    itemAllocSize itemSize < itemSize + 24 := by
  unfold itemAllocSize ITEM_OVERHEAD SIZEOF_ALLOCATED ALIGNMENT
  simp only
  split <;> split <;> split <;> omega

/-- A chunk is doubled until there is room for what is needed. -/
theorem growChunk_spec (need chunkCapacity : ℕ) (hpos : 0 < chunkCapacity) :
    need ≤ growChunk need chunkCapacity ∧ ∃ j, growChunk need chunkCapacity = chunkCapacity * 2 ^ j ∧
      (j = 0 ∨ growChunk need chunkCapacity < need * 2) := by
  fun_induction growChunk need chunkCapacity with
  | case1 chunkCapacity hless ih =>
    obtain ⟨hneed, j, hj, hbound⟩ := ih (by omega)
    refine ⟨hneed, j + 1, ?_, Or.inr ?_⟩
    · rw [hj, Nat.pow_succ, Nat.mul_assoc, Nat.mul_comm 2]
    · rcases hbound with rfl | hbound
      · rw [hj, Nat.pow_zero]
        omega
      · exact hbound
  | case2 chunkCapacity hnot => exact ⟨by omega, 0, by simp, Or.inl rfl⟩

/-- A chunk is a power of two long, with room for two items. -/
theorem chunkBytes_spec (itemSize chunkCapacity : ℕ) : ∃ k, chunkBytes itemSize chunkCapacity = 2 ^ k ∧ 12 ≤ k ∧
    itemAllocSize itemSize * 2 + CHUNK_OVERHEAD ≤ chunkBytes itemSize chunkCapacity ∧
    (chunkBytes itemSize chunkCapacity ≤ MAX_CHUNK ∨
      chunkBytes itemSize chunkCapacity < (itemAllocSize itemSize * 2 + CHUNK_OVERHEAD) * 2) := by
  have hmax : MAX_CHUNK = 2 ^ 23 := rfl
  have hmin : MIN_CHUNK = 2 ^ 12 := rfl
  unfold chunkBytes
  simp only
  generalize hasked : (if MAX_CHUNK < chunkCapacity then MAX_CHUNK else chunkCapacity) = asked
  have hbound : asked ≤ 2 ^ 23 := by
    rw [← hasked, hmax]
    split <;> omega
  obtain ⟨k, hk, hround, hnear⟩ := roundToPowerOf2_nearest asked (by omega)
  have hround23 : 2 ^ k ≤ 2 ^ 23 := by
    have hcloser := (hnear 23 (by omega)).1
    unfold away at hcloser
    omega
  have hpow := Nat.two_pow_pos k
  rw [hround]
  obtain ⟨hneed, j, hj, hgrown⟩ :=
    growChunk_spec (itemAllocSize itemSize * 2 + CHUNK_OVERHEAD) (2 ^ k) hpow
  rw [← Nat.pow_add] at hj
  split
  · next hsmall => exact ⟨12, hmin, by omega, by omega, Or.inl (by omega)⟩
  · next hlarge =>
    refine ⟨k + j, hj, ?_, hneed, ?_⟩
    · rw [hj, hmin] at hlarge
      exact (Nat.pow_le_pow_iff_right (by omega : 1 < 2)).mp (by omega)
    · rcases hgrown with rfl | hgrown
      · rw [hj, hmax]
        exact Or.inl hround23
      · exact Or.inr hgrown

theorem two_le_capacity (itemSize chunkCapacity : ℕ) : 2 ≤ newChunkCapacity itemSize chunkCapacity := by
  obtain ⟨-, hsize, -, -⟩ := itemAllocSize_spec itemSize
  obtain ⟨k, -, -, hroom, -⟩ := chunkBytes_spec itemSize chunkCapacity
  unfold newChunkCapacity
  rw [SIZEOF_ALLOCATED] at hsize
  rw [Nat.le_div_iff_mul_le (by omega)]
  omega

/-- What `mp_pool_new` reckons: items are aligned and have room for what they hold, a chunk is a power of
two long, of no less than `MIN_CHUNK` bytes, and holds as many items as there is room for, but two at least;
nothing overflows. -/
theorem pool_sizes (itemSize chunkCapacity : ℕ) (hsmall : itemSize < 2 ^ 60) :
    itemSize + ITEM_OVERHEAD ≤ itemAllocSize itemSize ∧ itemAllocSize itemSize % ALIGNMENT = 0 ∧
      (∃ k, chunkBytes itemSize chunkCapacity = 2 ^ k ∧ 12 ≤ k ∧ k < 64) ∧
      2 ≤ newChunkCapacity itemSize chunkCapacity ∧ newChunkCapacity itemSize chunkCapacity < 2 ^ 31 - 1 ∧
      CHUNK_OVERHEAD + newChunkCapacity itemSize chunkCapacity * itemAllocSize itemSize ≤
        chunkBytes itemSize chunkCapacity ∧
      chunkBytes itemSize chunkCapacity <
        CHUNK_OVERHEAD + (newChunkCapacity itemSize chunkCapacity + 1) * itemAllocSize itemSize := by
  obtain ⟨hholds, hsize, halign, hlimit⟩ := itemAllocSize_spec itemSize
  obtain ⟨k, hk, hk12, hroom, hbound⟩ := chunkBytes_spec itemSize chunkCapacity
  have htwo := two_le_capacity itemSize chunkCapacity
  rw [SIZEOF_ALLOCATED] at hsize
  rw [show MAX_CHUNK = 2 ^ 23 from rfl] at hbound
  rw [CHUNK_OVERHEAD] at hroom hbound
  have hpos : 0 < itemAllocSize itemSize := by omega
  have hquot := Nat.div_add_mod (chunkBytes itemSize chunkCapacity - 64) (itemAllocSize itemSize)
  have hrest := Nat.mod_lt (chunkBytes itemSize chunkCapacity - 64) hpos
  have hcapacity : newChunkCapacity itemSize chunkCapacity =
      (chunkBytes itemSize chunkCapacity - 64) / itemAllocSize itemSize := rfl
  rw [← hcapacity, Nat.mul_comm] at hquot
  refine ⟨hholds, halign, ⟨k, hk, hk12, ?_⟩, htwo, ?_, ?_, ?_⟩
  · refine (Nat.pow_lt_pow_iff_right (by omega : 1 < 2)).mp ?_
    omega
  · rw [hcapacity, Nat.div_lt_iff_lt_mul hpos]
    omega
  · rw [CHUNK_OVERHEAD]
    omega
  · rw [CHUNK_OVERHEAD, Nat.add_mul]
    omega

theorem pool_sizes_dnode : 24 + ITEM_OVERHEAD ≤ itemAllocSize 24 ∧
    2 ≤ newChunkCapacity 24 (32 * 1024) ∧ newChunkCapacity 24 (32 * 1024) < 2 ^ 31 - 1 := by
  obtain ⟨hholds, -, -, htwo, hmax, -⟩ := pool_sizes 24 (32 * 1024) (by decide)
  exact ⟨hholds, htwo, hmax⟩

end IrcdHybrid.PoolSizes
