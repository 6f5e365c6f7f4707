import IrcdHybrid.MemoryPools

/-!
What holds of a pool in every run of its users. The items of a chunk that were carved off are on its free
list or in use, and never both; the three lists have each chunk once, by how many of its items are in use.
-/

namespace IrcdHybrid.PoolItems

open MemoryPools Function

/-- The items of a chunk that are in use. -/
def liveOf (live : List Item) (k : ChunkPtr) : List ℕ := (live.filter fun item => item.1 = k).map Prod.snd

/-- What was carved off a chunk is free or in use. -/
structure ChunkOk (capacity : ℕ) (c : Chunk) (used : List ℕ) : Prop where
  allocated : c.nAllocated = used.length
  carved : (c.firstFree ++ used).Perm (List.range c.nextMem)
  room : c.nextMem ≤ capacity

def all (pool : Pool) : List ChunkPtr := pool.emptyChunks ++ pool.usedChunks ++ pool.fullChunks

/-- What holds at all times, also while an item is taken. -/
structure Shape (pool : Pool) (live : List Item) : Prop where
  nodup : (all pool).Nodup
  listed : ∀ k, k ∈ all pool ↔ ∃ c, pool.chunks k = some c
  empty : ∀ k ∈ pool.emptyChunks, allocatedOf pool k = 0
  used : ∀ k ∈ pool.usedChunks, allocatedOf pool k < pool.newChunkCapacity
  full : ∀ k ∈ pool.fullChunks, allocatedOf pool k = pool.newChunkCapacity
  nEmpty : pool.nEmptyChunks = pool.emptyChunks.length
  minEmpty : pool.minEmptyChunks ≤ pool.nEmptyChunks
  chunks : ∀ k c, pool.chunks k = some c → ChunkOk pool.newChunkCapacity c (liveOf live k)
  owned : ∀ item ∈ live, ∃ c, pool.chunks item.1 = some c
  live : live.Nodup
  stats : pool.totalChunksAllocated = pool.totalChunksFreed + (all pool).length

structure Sound (s : State) : Prop where
  shape : Shape s.pool s.live
  capacity : 2 ≤ s.pool.newChunkCapacity
  busy : ∀ k ∈ s.pool.usedChunks, 0 < allocatedOf s.pool k

theorem mem_liveOf (live : List Item) (k : ChunkPtr) (i : ℕ) : i ∈ liveOf live k ↔ (k, i) ∈ live := by
  simp only [liveOf, List.mem_map, List.mem_filter, decide_eq_true_eq]
  constructor
  · rintro ⟨⟨k', i'⟩, ⟨hmem, rfl⟩, rfl⟩
    exact hmem
  · exact fun hmem => ⟨(k, i), ⟨hmem, rfl⟩, rfl⟩

theorem liveOf_cons (live : List Item) (k k' : ChunkPtr) (i : ℕ) :
    liveOf ((k, i) :: live) k' = if k = k' then i :: liveOf live k' else liveOf live k' := by
  unfold liveOf
  by_cases hk : k = k'
  · rw [if_pos hk, List.filter_cons_of_pos (by simpa using hk), List.map_cons]
  · rw [if_neg hk, List.filter_cons_of_neg (by simpa using hk)]

theorem liveOf_erase (live : List Item) (hlive : live.Nodup) (k k' : ChunkPtr) (i : ℕ) :
    liveOf (live.erase (k, i)) k' = if k = k' then (liveOf live k').erase i else liveOf live k' := by
  induction live with
  | nil => simp [liveOf]
  | cons item live ih =>
    obtain ⟨hnot, hrest⟩ := List.nodup_cons.mp hlive
    obtain ⟨k₁, i₁⟩ := item
    by_cases hitem : (k₁, i₁) = (k, i)
    · obtain ⟨rfl, rfl⟩ := Prod.mk.inj hitem
      rw [List.erase_cons_head, liveOf_cons]
      split
      · rw [List.erase_cons_head]
      · rfl
    · rw [List.erase_cons_tail (by simpa using hitem), liveOf_cons, liveOf_cons, ih hrest]
      by_cases hk : k = k'
      · by_cases hk₁ : k₁ = k'
        · have hi : i₁ ≠ i := by
            rintro rfl
            exact hitem (by rw [hk₁, hk])
          rw [if_pos hk, if_pos hk₁, if_pos hk, if_pos hk₁, List.erase_cons_tail (by simpa using hi)]
        · rw [if_pos hk, if_neg hk₁, if_neg hk₁, if_pos hk]
      · rw [if_neg hk, if_neg hk]

theorem chunkOk_new (capacity : ℕ) : ChunkOk capacity ⟨[], 0, 0⟩ [] :=
  ⟨rfl, by simp, Nat.zero_le _⟩

/-- An item of a chunk that is not full can be had, and was not in use. -/
theorem takeItem_spec {capacity : ℕ} {c : Chunk} {used : List ℕ} (h : ChunkOk capacity c used)
    (hroom : c.nAllocated < capacity) : ∃ i c', takeItem capacity c = some (i, c') ∧ i ∉ used ∧
      c'.nAllocated = c.nAllocated ∧
      ChunkOk capacity { c' with nAllocated := c.nAllocated + 1 } (i :: used) := by
  have hnodup : (c.firstFree ++ used).Nodup := h.carved.nodup_iff.mpr List.nodup_range
  unfold takeItem
  cases hfree : c.firstFree with
  | cons i rest =>
    have hcarved := h.carved
    rw [hfree] at hcarved hnodup
    refine ⟨i, _, rfl, ?_, rfl, ?_, ?_, h.room⟩
    · rw [List.cons_append, List.nodup_cons] at hnodup
      exact fun hmem => hnodup.1 (List.mem_append_right _ hmem)
    · simp [h.allocated]
    · exact List.perm_middle.trans hcarved
  | nil =>
    have hlength := h.carved.length_eq
    have hcarved := h.carved
    rw [hfree, List.nil_append, List.length_range] at hlength
    rw [hfree, List.nil_append] at hcarved
    have hnext : c.nextMem < capacity := by
      rw [← hlength, ← h.allocated]
      exact hroom
    refine ⟨c.nextMem, _, if_pos hnext, ?_, rfl, ?_, ?_, hnext⟩
    · rw [hcarved.mem_iff, List.mem_range]
      omega
    · simp [h.allocated]
    · show (c.nextMem :: used).Perm (List.range (c.nextMem + 1))
      rw [List.range_succ]
      exact (List.perm_append_singleton _ _).symm.trans (hcarved.append_right _)

theorem chunkOk_release {capacity : ℕ} {c : Chunk} {used : List ℕ} (h : ChunkOk capacity c used) (i : ℕ)
    (hi : i ∈ used) :
    0 < c.nAllocated ∧ ChunkOk capacity ⟨i :: c.firstFree, c.nAllocated - 1, c.nextMem⟩ (used.erase i) := by
  have hpos : 0 < used.length := List.length_pos_of_mem hi
  refine ⟨by rw [h.allocated]; exact hpos, ?_, ?_, h.room⟩
  · rw [List.length_erase_of_mem hi, h.allocated]
  · refine List.Perm.trans ?_ h.carved
    rw [List.cons_append]
    exact List.perm_middle.symm.trans ((List.perm_cons_erase hi).symm.append_left _)

theorem allocatedOf_of_some (pool : Pool) (k : ChunkPtr) (c : Chunk) (h : pool.chunks k = some c) :
    allocatedOf pool k = c.nAllocated := by
  simp [allocatedOf, h]

theorem allocatedOf_update (pool pool' : Pool) (k : ChunkPtr) (c : Chunk)
    (h : pool'.chunks = update pool.chunks k (some c)) :
    allocatedOf pool' k = c.nAllocated ∧ ∀ k', k' ≠ k → allocatedOf pool' k' = allocatedOf pool k' := by
  unfold allocatedOf
  rw [h]
  exact ⟨by simp, fun k' hk => by rw [update_of_ne hk]⟩

/-- One chunk changes, and its place in the lists; the others stay in theirs. -/
theorem sound_set {pool pool' : Pool} {live live' : List Item} (h : Shape pool live)
    (hcapacity : 2 ≤ pool.newChunkCapacity) (k : ChunkPtr) (c c' : Chunk) (hk : pool.chunks k = some c)
    (hchunks : pool'.chunks = update pool.chunks k (some c')) (hperm : (all pool').Perm (all pool))
    (hempty : ∀ k' ∈ pool'.emptyChunks, k' = k ∧ c'.nAllocated = 0 ∨ k' ≠ k ∧ k' ∈ pool.emptyChunks)
    (hused : ∀ k' ∈ pool'.usedChunks, k' = k ∧ 0 < c'.nAllocated ∧ c'.nAllocated < pool.newChunkCapacity ∨
      k' ≠ k ∧ k' ∈ pool.usedChunks ∧ 0 < allocatedOf pool k')
    (hfull : ∀ k' ∈ pool'.fullChunks, k' = k ∧ c'.nAllocated = pool.newChunkCapacity ∨
      k' ≠ k ∧ k' ∈ pool.fullChunks)
    (hn : pool'.nEmptyChunks = pool'.emptyChunks.length) (hmin : pool'.minEmptyChunks ≤ pool'.nEmptyChunks)
    (hok : ChunkOk pool.newChunkCapacity c' (liveOf live' k))
    (hothers : ∀ k', k' ≠ k → liveOf live' k' = liveOf live k')
    (howned : ∀ item ∈ live', item.1 = k ∨ item ∈ live) (hlive : live'.Nodup)
    (hsame : pool'.newChunkCapacity = pool.newChunkCapacity ∧
      pool'.totalChunksAllocated = pool.totalChunksAllocated ∧
      pool'.totalChunksFreed = pool.totalChunksFreed) : Sound ⟨pool', live'⟩ := by
  obtain ⟨hsame, hstats⟩ := hsame
  obtain ⟨hself, hother⟩ := allocatedOf_update pool pool' k c' hchunks
  refine ⟨⟨hperm.nodup_iff.mpr h.nodup, fun k' => ?_, fun k' hk' => ?_, fun k' hk' => ?_, fun k' hk' => ?_, hn,
    hmin, fun k' d hd => ?_, fun item hitem => ?_, hlive, ?_⟩, by rwa [hsame], fun k' hk' => ?_⟩
  · rw [hperm.mem_iff, h.listed, hchunks]
    by_cases hk' : k' = k
    · rw [hk', update_self, hk]
      simp
    · rw [update_of_ne hk']
  · rcases hempty k' hk' with ⟨rfl, hzero⟩ | ⟨hne, hold⟩
    · rw [hself, hzero]
    · rw [hother k' hne]
      exact h.empty k' hold
  · rw [hsame]
    rcases hused k' hk' with ⟨rfl, -, hless⟩ | ⟨hne, hold, -⟩
    · rwa [hself]
    · rw [hother k' hne]
      exact h.used k' hold
  · rw [hsame]
    rcases hfull k' hk' with ⟨rfl, hlast⟩ | ⟨hne, hold⟩
    · rwa [hself]
    · rw [hother k' hne]
      exact h.full k' hold
  · rw [hsame]
    rw [hchunks] at hd
    by_cases hk' : k' = k
    · rw [hk', update_self] at hd
      rw [← Option.some.inj hd, hk']
      exact hok
    · rw [update_of_ne hk'] at hd
      rw [hothers k' hk']
      exact h.chunks k' d hd
  · rw [hchunks]
    by_cases hk' : item.1 = k
    · exact ⟨c', by rw [hk', update_self]⟩
    · rw [update_of_ne hk']
      exact h.owned item ((howned item hitem).resolve_left hk')
  · rw [hstats.1, hstats.2, hperm.length_eq]
    exact h.stats
  · show 0 < allocatedOf pool' k'
    rcases hused k' hk' with ⟨rfl, hpos, -⟩ | ⟨hne, -, hpos⟩
    · rwa [hself]
    · rwa [hother k' hne]

theorem lists_apart {pool : Pool} {live : List Item} (h : Shape pool live) (k : ChunkPtr) :
    (k ∈ pool.emptyChunks → k ∉ pool.usedChunks ∧ k ∉ pool.fullChunks) ∧
      (k ∈ pool.usedChunks → k ∉ pool.fullChunks) := by
  have hnodup := h.nodup
  simp only [all, List.nodup_append, List.mem_append] at hnodup
  obtain ⟨⟨-, -, hapart⟩, -, hapart'⟩ := hnodup
  exact ⟨fun hempty => ⟨fun hused => hapart k hempty k hused rfl,
    fun hfull => hapart' k (Or.inl hempty) k hfull rfl⟩, fun hused hfull => hapart' k (Or.inr hused) k hfull rfl⟩

section Get

variable {s : State} (h : Sound s) (new : ChunkPtr) (hnew : s.pool.chunks new = none)

include h hnew

theorem liveOf_new : liveOf s.live new = [] := by
  rw [List.eq_nil_iff_forall_not_mem]
  intro i hi
  obtain ⟨c, hc⟩ := h.shape.owned _ ((mem_liveOf s.live new i).mp hi)
  rw [hnew] at hc
  simp at hc

/-- The chunk of which an item is taken is in front of the used ones, and is not full. -/
theorem usedChunk_spec : ∃ k pool rest, usedChunk s.pool new = (k, pool) ∧ Shape pool s.live ∧
    pool.usedChunks = k :: rest ∧ (∀ k' ∈ rest, 0 < allocatedOf pool k') ∧
    pool.newChunkCapacity = s.pool.newChunkCapacity := by
  have hshape := h.shape
  unfold usedChunk
  split
  · next k rest hused =>
    exact ⟨k, s.pool, rest, rfl, hshape, hused,
      fun k' hk' => h.busy k' (by rw [hused]; exact List.mem_cons_of_mem k hk'), rfl⟩
  next hused =>
  split
  · next k rest hempty =>
    have hn := hshape.nEmpty
    have hmin := hshape.minEmpty
    have hzero := hshape.empty k (by rw [hempty]; exact List.mem_cons_self)
    rw [hempty, List.length_cons] at hn
    have hperm : (rest ++ [k] ++ s.pool.fullChunks).Perm (all s.pool) := by
      rw [all, hempty, hused, List.append_nil]
      exact (List.perm_append_singleton k rest).append_right _
    refine ⟨k, _, [], rfl, ⟨hperm.nodup_iff.mpr hshape.nodup, fun k' => ?_, fun k' hk' => ?_, fun k' hk' => ?_,
      hshape.full, ?_, ?_, hshape.chunks, hshape.owned, hshape.live, ?_⟩, rfl, by simp, rfl⟩
    · exact hperm.mem_iff.trans (hshape.listed k')
    · exact hshape.empty k' (by rw [hempty]; exact List.mem_cons_of_mem k hk')
    · rw [List.mem_singleton.mp hk']
      exact Nat.lt_of_le_of_lt (Nat.le_of_eq hzero) (Nat.lt_of_lt_of_le (by decide) h.capacity)
    · show s.pool.nEmptyChunks - 1 = rest.length
      omega
    · show (if s.pool.nEmptyChunks - 1 < s.pool.minEmptyChunks then s.pool.nEmptyChunks - 1
        else s.pool.minEmptyChunks) ≤ s.pool.nEmptyChunks - 1
      split <;> omega
    · exact hshape.stats.trans (by rw [← hperm.length_eq]; rfl)
  next hempty =>
  have hfresh : new ∉ all s.pool := by
    rw [hshape.listed, hnew]
    simp
  have hall : all s.pool = s.pool.fullChunks := by
    rw [all, hempty, hused]
    rfl
  obtain ⟨hself, hothers⟩ := allocatedOf_update s.pool
    { s.pool with
      usedChunks := [new]
      totalChunksAllocated := s.pool.totalChunksAllocated + 1
      chunks := update s.pool.chunks new (some ⟨[], 0, 0⟩) } new ⟨[], 0, 0⟩ rfl
  rw [hall] at hfresh
  refine ⟨new, _, [], rfl, ⟨?_, fun k' => ?_, fun k' hk' => ?_, fun k' hk' => ?_, fun k' hk' => ?_, hshape.nEmpty,
    hshape.minEmpty, fun k' c hc => ?_, fun item hitem => ?_, hshape.live, ?_⟩, rfl, by simp, rfl⟩
  · rw [all, hempty]
    exact List.nodup_cons.mpr ⟨hfresh, hall ▸ hshape.nodup⟩
  · rw [all, hempty]
    show k' ∈ new :: s.pool.fullChunks ↔ ∃ c, update s.pool.chunks new (some ⟨[], 0, 0⟩) k' = some c
    by_cases hk' : k' = new
    · simp [hk']
    · rw [List.mem_cons, or_iff_right hk', update_of_ne hk', ← hall]
      exact hshape.listed k'
  · have hk' : k' ∈ s.pool.emptyChunks := hk'
    rw [hempty] at hk'
    simp at hk'
  · rw [List.mem_singleton.mp hk', hself]
    exact Nat.lt_of_lt_of_le (by decide) h.capacity
  · have hne : k' ≠ new := by
      rintro rfl
      exact hfresh hk'
    rw [hothers k' hne]
    exact hshape.full k' hk'
  · have hc : update s.pool.chunks new (some ⟨[], 0, 0⟩) k' = some c := hc
    by_cases hk' : k' = new
    · rw [hk', update_self] at hc
      rw [← Option.some.inj hc, hk', liveOf_new h new hnew]
      exact chunkOk_new _
    · rw [update_of_ne hk'] at hc
      exact hshape.chunks k' c hc
  · obtain ⟨c, hc⟩ := hshape.owned item hitem
    have hne : item.1 ≠ new := by
      intro heq
      rw [heq, hnew] at hc
      simp at hc
    exact ⟨c, (update_of_ne hne _ _).trans hc⟩
  · have hstats := hshape.stats
    rw [hall] at hstats
    rw [all, hempty]
    show s.pool.totalChunksAllocated + 1 = s.pool.totalChunksFreed + (new :: s.pool.fullChunks).length
    rw [List.length_cons, hstats]
    omega

end Get

/-- One more item of the first used chunk is in use; if that was the last one, the chunk is full. -/
theorem sound_taken {pool pool' : Pool} {live : List Item} (h : Shape pool live)
    (hcapacity : 2 ≤ pool.newChunkCapacity) (k : ChunkPtr) (rest : List ChunkPtr)
    (hused : pool.usedChunks = k :: rest) (hbusy : ∀ k' ∈ rest, 0 < allocatedOf pool k') (c c' : Chunk)
    (i : ℕ) (hc : pool.chunks k = some c) (hi : (k, i) ∉ live)
    (hok : ChunkOk pool.newChunkCapacity c' (i :: liveOf live k))
    (hchunks : pool'.chunks = update pool.chunks k (some c')) (hempty : pool'.emptyChunks = pool.emptyChunks)
    (hn : pool'.nEmptyChunks = pool.nEmptyChunks ∧ pool'.minEmptyChunks = pool.minEmptyChunks)
    (hsame : pool'.newChunkCapacity = pool.newChunkCapacity ∧
      pool'.totalChunksAllocated = pool.totalChunksAllocated ∧
      pool'.totalChunksFreed = pool.totalChunksFreed)
    (hlists : pool'.usedChunks = k :: rest ∧ pool'.fullChunks = pool.fullChunks ∧
        c'.nAllocated ≠ pool.newChunkCapacity ∨
      pool'.usedChunks = rest ∧ pool'.fullChunks = k :: pool.fullChunks ∧
        c'.nAllocated = pool.newChunkCapacity) : Sound ⟨pool', (k, i) :: live⟩ := by
  have hkused : k ∈ pool.usedChunks := by
    rw [hused]
    exact List.mem_cons_self
  have hrest : ∀ k' ∈ rest, k' ≠ k ∧ k' ∈ pool.usedChunks ∧ 0 < allocatedOf pool k' := by
    intro k' hk'
    refine ⟨?_, by rw [hused]; exact List.mem_cons_of_mem k hk', hbusy k' hk'⟩
    rintro rfl
    have hnodup := h.nodup
    simp only [all, hused, List.nodup_append, List.nodup_cons] at hnodup
    exact hnodup.1.2.1.1 hk'
  have hfull : ∀ k' ∈ pool.fullChunks, k' ≠ k :=
    fun k' hk' heq => (lists_apart h k).2 hkused (heq ▸ hk')
  have hpos : 0 < c'.nAllocated := by
    rw [hok.allocated]
    exact Nat.succ_pos _
  have hbound : c'.nAllocated ≤ pool.newChunkCapacity := by
    have hcarved := hok.carved.length_eq
    have hroom := hok.room
    rw [List.length_append, List.length_range, ← hok.allocated] at hcarved
    omega
  have hbuild := fun hperm hused' hfull' => sound_set h hcapacity k c c' hc hchunks hperm
    (fun k' hk' => Or.inr ⟨fun heq => ((lists_apart h k').1 (hempty ▸ hk')).1 (heq ▸ hkused), hempty ▸ hk'⟩)
    hused' hfull' (by rw [hn.1, hempty]; exact h.nEmpty) (by rw [hn.1, hn.2]; exact h.minEmpty)
    (by rw [liveOf_cons, if_pos rfl]; exact hok) (fun k' hk' => by rw [liveOf_cons, if_neg (Ne.symm hk')])
    (fun item hitem => (List.mem_cons.mp hitem).imp (fun heq => by rw [heq]) id)
    (List.nodup_cons.mpr ⟨hi, h.live⟩) hsame
  rcases hlists with ⟨hused', hfull', hless⟩ | ⟨hused', hfull', hlast⟩
  · refine hbuild ?_ (fun k' hk' => ?_) (fun k' hk' => ?_)
    · rw [all, all, hempty, hused', hused, hfull']
    · rw [hused', List.mem_cons] at hk'
      exact hk'.imp (fun heq => ⟨heq, hpos, by omega⟩) (hrest k')
    · rw [hfull'] at hk'
      exact Or.inr ⟨hfull k' hk', hk'⟩
  · refine hbuild ?_ (fun k' hk' => ?_) (fun k' hk' => ?_)
    · rw [all, all, hempty, hused', hused, hfull', List.append_assoc, List.append_assoc]
      exact List.perm_middle.append_left _
    · rw [hused'] at hk'
      exact Or.inr (hrest k' hk')
    · rw [hfull', List.mem_cons] at hk'
      exact hk'.imp (fun heq => ⟨heq, hlast⟩) fun hk' => ⟨hfull k' hk', hk'⟩

theorem get_sound {s : State} (h : Sound s) (new : ChunkPtr) (hnew : s.pool.chunks new = none) :
    ∃ item pool, mpPoolGet s.pool new = some (item, pool) ∧ Sound ⟨pool, item :: s.live⟩ := by
  obtain ⟨k, pool, rest, hchunk, hshape, hused, hbusy, hcapacity⟩ := usedChunk_spec h new hnew
  have hmem : k ∈ all pool := by
    rw [all, hused]
    simp
  obtain ⟨c, hc⟩ := (hshape.listed k).mp hmem
  have hroom : c.nAllocated < pool.newChunkCapacity := by
    rw [← allocatedOf_of_some pool k c hc]
    exact hshape.used k (by rw [hused]; exact List.mem_cons_self)
  obtain ⟨i, c', htake, hi, hsame, hok⟩ := takeItem_spec (hshape.chunks k c hc) hroom
  rw [mem_liveOf] at hi
  rw [← hsame] at hok
  have htwo : 2 ≤ pool.newChunkCapacity := hcapacity ▸ h.capacity
  unfold mpPoolGet
  simp only [hchunk, hc, htake]
  rw [if_neg (by omega)]
  refine ⟨_, _, rfl, ?_⟩
  split
  · next hlast =>
    exact sound_taken hshape htwo k rest hused hbusy c _ i hc hi hok rfl rfl ⟨rfl, rfl⟩ ⟨rfl, rfl, rfl⟩
      (Or.inr ⟨by rw [setChunk, hused]; rfl, rfl, hlast⟩)
  · next hless =>
    exact sound_taken hshape htwo k rest hused hbusy c _ i hc hi hok rfl rfl ⟨rfl, rfl⟩ ⟨rfl, rfl, rfl⟩
      (Or.inl ⟨hused, rfl, hless⟩)

theorem busy_place {s : State} (h : Sound s) (k : ChunkPtr) (c : Chunk) (hc : s.pool.chunks k = some c)
    (hpos : 0 < c.nAllocated) :
    (c.nAllocated = s.pool.newChunkCapacity → k ∈ s.pool.fullChunks) ∧
      (c.nAllocated ≠ s.pool.newChunkCapacity → k ∈ s.pool.usedChunks) := by
  have hmem : k ∈ all s.pool := (h.shape.listed k).mpr ⟨c, hc⟩
  have hall := allocatedOf_of_some s.pool k c hc
  simp only [all, List.mem_append] at hmem
  rcases hmem with (hempty | hused) | hfull
  · have hzero := h.shape.empty k hempty
    omega
  · have hless := h.shape.used k hused
    exact ⟨fun heq => by omega, fun _ => hused⟩
  · have heq := h.shape.full k hfull
    exact ⟨fun _ => hfull, fun hne => by omega⟩

theorem release_sound {s : State} (h : Sound s) (item : Item) (hitem : item ∈ s.live) :
    ∃ pool, mpPoolRelease s.pool item = some pool ∧ Sound ⟨pool, s.live.erase item⟩ := by
  obtain ⟨k, i⟩ := item
  have hshape := h.shape
  have htwo := h.capacity
  obtain ⟨c, hc⟩ := hshape.owned (k, i) hitem
  obtain ⟨hpos, hok⟩ := chunkOk_release (hshape.chunks k c hc) i ((mem_liveOf _ _ _).mpr hitem)
  obtain ⟨hinFull, hinUsed⟩ := busy_place h k c hc hpos
  have hnodup := hshape.nodup
  simp only [all, List.nodup_append] at hnodup
  obtain ⟨⟨-, hnused, -⟩, hnfull, -⟩ := hnodup
  have hlive : liveOf (s.live.erase (k, i)) k = (liveOf s.live k).erase i := by
    rw [liveOf_erase s.live hshape.live, if_pos rfl]
  have hbuild := fun (pool' : Pool) c' (hchunks : pool'.chunks = _) hperm hempty hused hfull hn hmin hok
      hsame => sound_set hshape htwo k c c' hc hchunks hperm hempty hused hfull hn hmin hok
      (fun k' hk' => by rw [liveOf_erase s.live hshape.live, if_neg (Ne.symm hk')])
      (fun item hitem => Or.inr (List.mem_of_mem_erase hitem)) (hshape.live.erase (k, i)) hsame
  unfold mpPoolRelease
  simp only [hc]
  rw [if_neg (by omega)]
  by_cases hcase : c.nAllocated = s.pool.newChunkCapacity
  · -- the chunk was full
    rw [if_pos hcase]
    have hkfull := hinFull hcase
    refine ⟨_, rfl, hbuild _ _ rfl ?_ (fun k' hk' => ?_) (fun k' hk' => ?_) (fun k' hk' => ?_)
      hshape.nEmpty hshape.minEmpty (by rw [hlive]; exact hok) ⟨rfl, rfl, rfl⟩⟩
    · rw [all, all, List.append_assoc, List.append_assoc]
      refine List.Perm.append_left _ ?_
      exact List.perm_middle.symm.trans ((List.perm_cons_erase hkfull).symm.append_left _)
    · exact Or.inr ⟨fun heq => ((lists_apart hshape k').1 hk').2 (heq ▸ hkfull), hk'⟩
    · refine (List.mem_cons.mp hk').imp (fun heq => ⟨heq, ?_⟩)
        fun hk' => ⟨fun heq => (lists_apart hshape k').2 hk' (heq ▸ hkfull), hk', h.busy k' hk'⟩
      simp only
      omega
    · exact Or.inr (hnfull.mem_erase_iff.mp hk')
  rw [if_neg hcase]
  have hkused := hinUsed hcase
  have hnempty : ∀ k' ∈ s.pool.emptyChunks, k' ≠ k :=
    fun k' hk' heq => ((lists_apart hshape k').1 hk').1 (heq ▸ hkused)
  have hnfull' : ∀ k' ∈ s.pool.fullChunks, k' ≠ k :=
    fun k' hk' heq => (lists_apart hshape k).2 hkused (heq ▸ hk')
  by_cases hone : c.nAllocated = 1
  · -- it was the last item of the chunk
    rw [if_pos hone]
    have hnone : liveOf (s.live.erase (k, i)) k = [] := by
      rw [hlive]
      have hlength := hok.allocated
      simp only at hlength
      exact List.length_eq_zero_iff.mp (by omega)
    refine ⟨_, rfl, hbuild _ _ rfl ?_ (fun k' hk' => ?_) (fun k' hk' => ?_) (fun k' hk' => ?_) ?_ ?_
      (by rw [hnone]; exact chunkOk_new _) ⟨rfl, rfl, rfl⟩⟩
    · rw [all, all, List.cons_append]
      refine List.Perm.append_right _ ?_
      exact List.perm_middle.symm.trans ((List.perm_cons_erase hkused).symm.append_left _)
    · exact (List.mem_cons.mp hk').imp (fun heq => ⟨heq, rfl⟩) fun hk' => ⟨hnempty k' hk', hk'⟩
    · obtain ⟨hne, hold⟩ := hnused.mem_erase_iff.mp hk'
      exact Or.inr ⟨hne, hold, h.busy k' hold⟩
    · exact Or.inr ⟨hnfull' k' hk', hk'⟩
    · rw [List.length_cons, ← hshape.nEmpty]
    · exact Nat.le_succ_of_le hshape.minEmpty
  · rw [if_neg hone]
    refine ⟨_, rfl, hbuild _ _ rfl (List.Perm.refl _) (fun k' hk' => ?_) (fun k' hk' => ?_) (fun k' hk' => ?_)
      hshape.nEmpty hshape.minEmpty (by rw [hlive]; exact hok) ⟨rfl, rfl, rfl⟩⟩
    · exact Or.inr ⟨hnempty k' hk', hk'⟩
    · by_cases heq : k' = k
      · have hless := hshape.used k hkused
        rw [allocatedOf_of_some s.pool k c hc] at hless
        refine Or.inl ⟨heq, ?_⟩
        simp only
        omega
      · exact Or.inr ⟨heq, hk', h.busy k' hk'⟩
    · exact Or.inr ⟨hnfull' k' hk', hk'⟩

end IrcdHybrid.PoolItems
