import IrcdHybrid.PoolItems
import IrcdHybrid.PoolSizes

/-!
Runs of a pool. No assertion of it ever fails, an item that is in use is not given to anybody else and its
chunk is not freed, and the garbage collector frees just the chunks that nobody needed since it ran last.
-/

namespace IrcdHybrid.PoolRuns

open MemoryPools PoolItems PoolSizes Function

theorem assertChunksOk_of {pool : Pool} {live : List Item} (h : Shape pool live) (fills : ℕ → Bool)
    (list : List ChunkPtr) (hlist : ∀ k ∈ list, k ∈ all pool ∧ fills (allocatedOf pool k) = true) :
    assertChunksOk pool fills list = true := by
  unfold assertChunksOk
  rw [List.all_eq_true]
  intro k hk
  obtain ⟨hall, hfills⟩ := hlist k hk
  obtain ⟨c, hc⟩ := (h.listed k).mp hall
  rw [allocatedOf_of_some pool k c hc] at hfills
  simp only [hc, hfills, Bool.true_and, decide_eq_true_eq]
  exact (h.chunks k c hc).room

theorem mpPoolAssertOk_of {s : State} (h : Sound s) : mpPoolAssertOk s.pool = true := by
  unfold mpPoolAssertOk
  rw [Bool.and_eq_true, Bool.and_eq_true, Bool.and_eq_true, decide_eq_true_iff]
  refine ⟨⟨⟨?_, ?_⟩, ?_⟩, h.shape.nEmpty⟩
  · refine assertChunksOk_of h.shape _ _ fun k hk => ⟨?_, by simpa using h.shape.empty k hk⟩
    exact List.mem_append_left _ (List.mem_append_left _ hk)
  · refine assertChunksOk_of h.shape _ _ fun k hk => ⟨?_, by simpa using h.shape.full k hk⟩
    exact List.mem_append_right _ hk
  · refine assertChunksOk_of h.shape _ _ fun k hk =>
      ⟨?_, by simpa using ⟨h.busy k hk, h.shape.used k hk⟩⟩
    exact List.mem_append_left _ (List.mem_append_right _ hk)

theorem sound_sorted {s : State} (h : Sound s) (sorted : List ChunkPtr)
    (hperm : sorted.Perm s.pool.usedChunks) : Sound ⟨{ s.pool with usedChunks := sorted }, s.live⟩ := by
  have hshape := h.shape
  have hall : (all { s.pool with usedChunks := sorted }).Perm (all s.pool) :=
    (hperm.append_left _).append_right _
  refine ⟨⟨hall.nodup_iff.mpr hshape.nodup, fun k => hall.mem_iff.trans (hshape.listed k), hshape.empty,
    fun k hk => hshape.used k (hperm.mem_iff.mp hk), hshape.full, hshape.nEmpty, hshape.minEmpty,
    hshape.chunks, hshape.owned, hshape.live, ?_⟩, h.capacity, fun k hk => h.busy k (hperm.mem_iff.mp hk)⟩
  rw [hall.length_eq]
  exact hshape.stats

theorem sortUsedChunks_sound {s : State} (h : Sound s) (sorted : List ChunkPtr)
    (hperm : sorted.Perm s.pool.usedChunks) : ∃ pool, sortUsedChunks s.pool sorted = some pool ∧
      Sound ⟨pool, s.live⟩ ∧ pool.emptyChunks = s.pool.emptyChunks ∧
      pool.nEmptyChunks = s.pool.nEmptyChunks ∧ pool.minEmptyChunks = s.pool.minEmptyChunks ∧
      pool.chunks = s.pool.chunks := by
  have hsound := sound_sorted h sorted hperm
  unfold sortUsedChunks
  split
  · exact ⟨_, if_pos (mpPoolAssertOk_of hsound), hsound, rfl, rfl, rfl, rfl⟩
  · exact ⟨s.pool, rfl, h, rfl, rfl, rfl, rfl⟩

theorem sound_freed {s : State} (h : Sound s) (n : ℕ) (pool : Pool)
    (hempty : pool.emptyChunks = s.pool.emptyChunks.take n) (hused : pool.usedChunks = s.pool.usedChunks)
    (hfull : pool.fullChunks = s.pool.fullChunks)
    (hcapacity : pool.newChunkCapacity = s.pool.newChunkCapacity)
    (hn : pool.nEmptyChunks = s.pool.nEmptyChunks - (s.pool.emptyChunks.drop n).length)
    (hmin : pool.minEmptyChunks = pool.nEmptyChunks)
    (hstats : pool.totalChunksAllocated = s.pool.totalChunksAllocated ∧
      pool.totalChunksFreed = s.pool.totalChunksFreed + (s.pool.emptyChunks.drop n).length)
    (hchunks : pool.chunks = fun k => if k ∈ s.pool.emptyChunks.drop n then none else s.pool.chunks k) :
    Sound ⟨pool, s.live⟩ := by
  have hshape := h.shape
  have hsplit : all s.pool = s.pool.emptyChunks.take n ++ s.pool.emptyChunks.drop n ++ s.pool.usedChunks ++
      s.pool.fullChunks := by
    rw [List.take_append_drop]
    rfl
  have hperm : (s.pool.emptyChunks.drop n ++ all pool).Perm (all s.pool) := by
    rw [hsplit, all, hempty, hused, hfull, ← List.append_assoc, ← List.append_assoc]
    exact (List.perm_append_comm.append_right _).append_right _
  have hnodup := hperm.nodup_iff.mpr hshape.nodup
  rw [List.nodup_append] at hnodup
  obtain ⟨-, hnodup, hapart⟩ := hnodup
  have hkept : ∀ k ∈ all pool, pool.chunks k = s.pool.chunks k := by
    intro k hk
    rw [hchunks]
    exact if_neg fun hfreed => hapart k hfreed k hk rfl
  have hcount : ∀ k ∈ all pool, allocatedOf pool k = allocatedOf s.pool k := by
    intro k hk
    unfold allocatedOf
    rw [hkept k hk]
  have hplace : ∀ k, (k ∈ pool.emptyChunks → k ∈ all pool) ∧ (k ∈ pool.usedChunks → k ∈ all pool) ∧
      (k ∈ pool.fullChunks → k ∈ all pool) := by
    intro k
    simp only [all, List.mem_append]
    exact ⟨fun hk => Or.inl (Or.inl hk), fun hk => Or.inl (Or.inr hk), Or.inr⟩
  have hlisted : ∀ k, k ∈ all pool ↔ ∃ c, pool.chunks k = some c := by
    intro k
    constructor
    · intro hk
      rw [hkept k hk]
      exact (hshape.listed k).mp (hperm.mem_iff.mp (List.mem_append_right _ hk))
    · rintro ⟨c, hc⟩
      rw [hchunks] at hc
      simp only [Option.ite_none_left_eq_some] at hc
      have hmem := hperm.mem_iff.mpr ((hshape.listed k).mpr ⟨c, hc.2⟩)
      exact (List.mem_append.mp hmem).resolve_left hc.1
  refine ⟨⟨hnodup, hlisted, fun k hk => ?_, fun k hk => ?_, fun k hk => ?_, ?_, Nat.le_of_eq hmin, fun k c hc => ?_,
    fun item hitem => ?_, hshape.live, ?_⟩, by rw [hcapacity]; exact h.capacity, fun k hk => ?_⟩
  · rw [hcount k ((hplace k).1 hk)]
    rw [hempty] at hk
    exact hshape.empty k (List.mem_of_mem_take hk)
  · rw [hcount k ((hplace k).2.1 hk), hcapacity]
    rw [hused] at hk
    exact hshape.used k hk
  · rw [hcount k ((hplace k).2.2 hk), hcapacity]
    rw [hfull] at hk
    exact hshape.full k hk
  · have hlength := hshape.nEmpty
    rw [hn, hempty, List.length_drop, List.length_take]
    omega
  · rw [hcapacity]
    have hk := (hlisted k).mpr ⟨c, hc⟩
    rw [hkept k hk] at hc
    exact hshape.chunks k c hc
  · obtain ⟨c, hc⟩ := hshape.owned item hitem
    refine ⟨c, ?_⟩
    rw [hchunks]
    refine (if_neg fun hfreed => ?_).trans hc
    have hzero := hshape.empty item.1 (List.mem_of_mem_drop hfreed)
    rw [allocatedOf_of_some s.pool item.1 c hc, (hshape.chunks item.1 c hc).allocated] at hzero
    have hmem := (mem_liveOf s.live item.1 item.2).mpr hitem
    rw [List.length_eq_zero_iff.mp hzero] at hmem
    simp at hmem
  · have hlength := hperm.length_eq
    have hstats' := hshape.stats
    rw [List.length_append] at hlength
    show pool.totalChunksAllocated = pool.totalChunksFreed + (all pool).length
    rw [hstats.1, hstats.2]
    omega
  · have hk : k ∈ pool.usedChunks := hk
    show 0 < allocatedOf pool k
    rw [hcount k ((hplace k).2.1 hk)]
    rw [hused] at hk
    exact h.busy k hk

/-- How many empty chunks are kept. -/
def keepCount (pool : Pool) (nToKeep : ℕ) (keepRecentlyUsed : Bool) : ℕ :=
  if keepRecentlyUsed && decide (nToKeep < pool.nEmptyChunks - pool.minEmptyChunks) then
    pool.nEmptyChunks - pool.minEmptyChunks else nToKeep

/-- What is empty and is not kept is freed, and nothing else is. -/
theorem clean_sound {s : State} (h : Sound s) (nToKeep : ℕ) (keepRecentlyUsed : Bool)
    (sorted : List ChunkPtr) (hperm : sorted.Perm s.pool.usedChunks) :
    ∃ pool, mpPoolClean s.pool nToKeep keepRecentlyUsed sorted = some pool ∧ Sound ⟨pool, s.live⟩ ∧
      pool.emptyChunks = s.pool.emptyChunks.take (keepCount s.pool nToKeep keepRecentlyUsed) ∧
      pool.minEmptyChunks = pool.nEmptyChunks ∧
      ∀ k, pool.chunks k =
        if k ∈ s.pool.emptyChunks.drop (keepCount s.pool nToKeep keepRecentlyUsed) then none
        else s.pool.chunks k := by
  obtain ⟨pool, hsort, hsound, hempty, hn, hmin, hchunks⟩ := sortUsedChunks_sound h sorted hperm
  have hcount : keepCount s.pool nToKeep keepRecentlyUsed = keepCount pool nToKeep keepRecentlyUsed := by
    unfold keepCount
    rw [hn, hmin]
  rw [hcount, ← hempty, ← hchunks]
  unfold mpPoolClean
  simp only [hsort, Option.map_some]
  show ∃ pool', some (if pool.emptyChunks.drop (keepCount pool nToKeep keepRecentlyUsed) = [] then _ else _) =
    some pool' ∧ _
  split
  · next hnone =>
    have hwhole : pool.emptyChunks.take (keepCount pool nToKeep keepRecentlyUsed) = pool.emptyChunks :=
      List.take_of_length_le (List.drop_eq_nil_iff.mp hnone)
    refine ⟨_, rfl, ?_, hwhole.symm, rfl, fun k => ?_⟩
    · have hshape := hsound.shape
      exact ⟨⟨hshape.nodup, hshape.listed, hshape.empty, hshape.used, hshape.full, hshape.nEmpty,
        Nat.le_refl _, hshape.chunks, hshape.owned, hshape.live, hshape.stats⟩, hsound.capacity, hsound.busy⟩
    · rw [hnone, if_neg (by simp)]
  · refine ⟨_, rfl, ?_, rfl, rfl, fun k => rfl⟩
    exact sound_freed hsound _ _ rfl rfl rfl rfl rfl rfl ⟨rfl, rfl⟩ rfl

theorem step_sound {s : State} (h : Sound s) (e : Event) (he : Possible s e) :
    ∃ s', step s e = some s' ∧ Sound s' := by
  cases e with
  | get new =>
    obtain ⟨item, pool, hget, hsound⟩ := get_sound h new he
    exact ⟨_, by rw [step, hget]; rfl, hsound⟩
  | release item =>
    obtain ⟨pool, hrelease, hsound⟩ := release_sound h item he
    exact ⟨_, by rw [step, hrelease]; rfl, hsound⟩
  | clean nToKeep keepRecentlyUsed sorted =>
    obtain ⟨pool, hclean, hsound, -⟩ := clean_sound h nToKeep keepRecentlyUsed sorted he.1
    exact ⟨_, by rw [step, hclean]; rfl, hsound⟩

def Next (s s' : State) : Prop := ∃ e, Possible s e ∧ step s e = some s'

abbrev Reached (itemSize chunkCapacity : ℕ) (s : State) : Prop :=
  Relation.ReflTransGen Next (start itemSize chunkCapacity) s

theorem start_sound (itemSize chunkCapacity : ℕ) : Sound (start itemSize chunkCapacity) := by
  refine ⟨⟨List.nodup_nil, fun k => by simp [all, start, mpPoolNew], fun k hk => ?_, fun k hk => ?_, fun k hk => ?_, rfl,
    Nat.le_refl _, fun k c hc => ?_, fun item hitem => ?_, List.nodup_nil, rfl⟩,
    two_le_capacity itemSize chunkCapacity, fun k hk => ?_⟩
  · simp [start, mpPoolNew] at hk
  · simp [start, mpPoolNew] at hk
  · simp [start, mpPoolNew] at hk
  · simp [start, mpPoolNew] at hc
  · simp [start] at hitem
  · simp [start, mpPoolNew] at hk

theorem reached_sound {itemSize chunkCapacity : ℕ} {s : State} (h : Reached itemSize chunkCapacity s) :
    Sound s := by
  induction h with
  | refl => exact start_sound itemSize chunkCapacity
  | tail _ hnext ih =>
    obtain ⟨e, he, hstep⟩ := hnext
    obtain ⟨s', hs', hsound⟩ := step_sound ih e he
    obtain rfl := Option.some.inj (hs'.symm.trans hstep)
    exact hsound

/-- What the code makes of an event that is possible. -/
def after (s : State) (e : Event) : State := (step s e).getD s

theorem Reached.after {itemSize chunkCapacity : ℕ} {s : State} (h : Reached itemSize chunkCapacity s)
    (e : Event) (he : Possible s e) : Reached itemSize chunkCapacity (after s e) := by
  obtain ⟨s', hs', -⟩ := step_sound (reached_sound h) e he
  exact h.tail ⟨e, he, by rw [PoolRuns.after, hs']; rfl⟩

/-- The items are so large that a chunk has room for two. -/
theorem start_pairs : start 12000 (32 * 1024) = ⟨mpPoolNew 2, []⟩ := by
  have hround : roundToPowerOf2 (if MAX_CHUNK < 32 * 1024 then MAX_CHUNK else 32 * 1024) = 32768 := by decide
  have hgrow : growChunk (itemAllocSize 12000 * 2 + CHUNK_OVERHEAD) 32768 = 32768 := by
    rw [growChunk, if_neg (by decide)]
  have hcapacity : newChunkCapacity 12000 (32 * 1024) = 2 := by
    simp only [newChunkCapacity, chunkBytes, hround, hgrow]
    decide
  rw [start, hcapacity]

/-- Three items are handed out, from two chunks, and the first one is given back. -/
def busy : State :=
  [.get 7, .get 8, .get 8, .release (7, 0)].foldl after ⟨mpPoolNew 2, []⟩

theorem busy_reached : Reached 12000 (32 * 1024) busy := by
  have hstart : Reached 12000 (32 * 1024) ⟨mpPoolNew 2, []⟩ := by
    rw [Reached, start_pairs]
  exact (((hstart.after (.get 7) rfl).after (.get 8) rfl).after (.get 8) rfl).after
    (.release (7, 0)) (List.mem_cons_of_mem _ (List.mem_cons_of_mem _ List.mem_cons_self))

/-- No assertion on what is handed out and counted fails, whatever the users do. -/
theorem assertions_hold (itemSize chunkCapacity : ℕ) (s : State) (h : Reached itemSize chunkCapacity s)
    (e : Event) (he : Possible s e) : (step s e).isSome ∧ mpPoolAssertOk s.pool = true := by
  have hsound := reached_sound h
  obtain ⟨s', hs', -⟩ := step_sound hsound e he
  exact ⟨by rw [hs']; rfl, mpPoolAssertOk_of hsound⟩

theorem assertions_hold_pairs : (step busy (.release (7, 1))).isSome :=
  (assertions_hold 12000 (32 * 1024) busy busy_reached (.release (7, 1))
    (List.mem_cons_of_mem _ List.mem_cons_self)).1

/-- An item in use is used once, lies within its chunk, which is not freed, and is not on its free list. -/
theorem items_apart (itemSize chunkCapacity : ℕ) (s : State) (h : Reached itemSize chunkCapacity s) :
    s.live.Nodup ∧ ∀ k i, (k, i) ∈ s.live → ∃ c, s.pool.chunks k = some c ∧
      i < s.pool.newChunkCapacity ∧ i ∉ c.firstFree ∧ k ∉ s.pool.emptyChunks := by
  have hsound := reached_sound h
  have hshape := hsound.shape
  refine ⟨hshape.live, fun k i hitem => ?_⟩
  obtain ⟨c, hc⟩ := hshape.owned (k, i) hitem
  have hok := hshape.chunks k c hc
  have hi := (mem_liveOf s.live k i).mpr hitem
  have hnodup : (c.firstFree ++ liveOf s.live k).Nodup := hok.carved.nodup_iff.mpr List.nodup_range
  rw [List.nodup_append] at hnodup
  have hcarved := List.mem_range.mp (hok.carved.mem_iff.mp (List.mem_append_right _ hi))
  refine ⟨c, hc, Nat.lt_of_lt_of_le hcarved hok.room, fun hfree => hnodup.2.2 i hfree i hi rfl, fun hempty => ?_⟩
  have hzero := hshape.empty k hempty
  rw [allocatedOf_of_some s.pool k c hc, hok.allocated] at hzero
  rw [List.length_eq_zero_iff.mp hzero] at hi
  simp at hi

theorem items_apart_pairs : ∃ c, busy.pool.chunks 7 = some c ∧ c.firstFree = [0] ∧ 1 ∉ c.firstFree := by
  obtain ⟨c, hc, -, hfree, -⟩ :=
    (items_apart 12000 (32 * 1024) busy busy_reached).2 7 1 (by decide)
  obtain rfl := Option.some.inj hc
  exact ⟨_, rfl, rfl, hfree⟩

/-- The empty chunks that were not needed since the pool was cleaned, as the counters have it. -/
def idle (pool : Pool) : List ChunkPtr := pool.emptyChunks.drop (pool.nEmptyChunks - pool.minEmptyChunks)

/-- How the empty chunks change: the first one is taken, or one is put in front. -/
inductive EmptyStep (pool pool' : Pool) : Prop where
  | same (hempty : pool'.emptyChunks = pool.emptyChunks) (hn : pool'.nEmptyChunks = pool.nEmptyChunks)
      (hmin : pool'.minEmptyChunks = pool.minEmptyChunks)
  | take (k : ChunkPtr) (hempty : pool.emptyChunks = k :: pool'.emptyChunks)
      (hn : pool'.nEmptyChunks = pool.nEmptyChunks - 1)
      (hmin : pool'.minEmptyChunks = min (pool.nEmptyChunks - 1) pool.minEmptyChunks)
  | put (k : ChunkPtr) (hempty : pool'.emptyChunks = k :: pool.emptyChunks)
      (hn : pool'.nEmptyChunks = pool.nEmptyChunks + 1) (hmin : pool'.minEmptyChunks = pool.minEmptyChunks)

theorem usedChunk_empty (pool : Pool) (new : ChunkPtr) : EmptyStep pool (usedChunk pool new).2 := by
  unfold usedChunk
  split
  · exact .same rfl rfl rfl
  split
  · next k rest hempty =>
    refine .take k hempty rfl ?_
    show (if pool.nEmptyChunks - 1 < pool.minEmptyChunks then pool.nEmptyChunks - 1 else pool.minEmptyChunks) = _
    split <;> omega
  · exact .same rfl rfl rfl

theorem get_empty (pool pool' : Pool) (new : ChunkPtr) (item : Item)
    (h : mpPoolGet pool new = some (item, pool')) : EmptyStep pool pool' := by
  have hchunk := usedChunk_empty pool new
  unfold mpPoolGet at h
  generalize usedChunk pool new = r at h hchunk
  obtain ⟨k, pool₁⟩ := r
  simp only at h
  split at h
  · simp at h
  split at h
  · simp at h
  split at h
  · simp at h
  have hpool' := (Prod.mk.inj (Option.some.inj h)).2
  have hfields : pool'.emptyChunks = pool₁.emptyChunks ∧ pool'.nEmptyChunks = pool₁.nEmptyChunks ∧
      pool'.minEmptyChunks = pool₁.minEmptyChunks := by
    rw [← hpool']
    split <;> exact ⟨rfl, rfl, rfl⟩
  obtain ⟨hempty', hn', hmin'⟩ := hfields
  cases hchunk with
  | same hempty hn hmin => exact .same (hempty'.trans hempty) (hn'.trans hn) (hmin'.trans hmin)
  | take k hempty hn hmin => exact .take k (by rw [hempty']; exact hempty) (hn'.trans hn) (hmin'.trans hmin)
  | put k hempty hn hmin => exact .put k (hempty'.trans hempty) (hn'.trans hn) (hmin'.trans hmin)

theorem release_empty (pool pool' : Pool) (item : Item) (h : mpPoolRelease pool item = some pool') :
    EmptyStep pool pool' := by
  unfold mpPoolRelease at h
  simp only at h
  split at h
  · simp at h
  split at h
  · simp at h
  split at h
  · exact Option.some.inj h ▸ .same rfl rfl rfl
  split at h
  · exact Option.some.inj h ▸ .put item.1 rfl rfl rfl
  · exact Option.some.inj h ▸ .same rfl rfl rfl

/-- The chunks that stay idle are the ones that stay empty. -/
theorem idle_step {s s' : State} (h : Sound s) (hstep : EmptyStep s.pool s'.pool) (k : ChunkPtr) :
    k ∈ idle s'.pool ↔ k ∈ idle s.pool ∧ k ∈ s'.pool.emptyChunks := by
  have hlength := h.shape.nEmpty
  have hmin := h.shape.minEmpty
  unfold idle
  cases hstep with
  | same hempty' hn' hmin' =>
    rw [hempty', hn', hmin', iff_self_and]
    exact List.mem_of_mem_drop
  | take k' hempty' hn' hmin' =>
    have hnodup := h.shape.nodup
    simp only [all, hempty', List.nodup_append, List.nodup_cons] at hnodup
    have hout := hnodup.1.1.1
    rw [hempty', List.length_cons] at hlength
    rw [hempty', hn', hmin']
    rcases Nat.lt_or_ge s.pool.minEmptyChunks s.pool.nEmptyChunks with hless | hall
    · have hone : s.pool.nEmptyChunks - s.pool.minEmptyChunks =
          (s.pool.nEmptyChunks - 1 - min (s.pool.nEmptyChunks - 1) s.pool.minEmptyChunks) + 1 := by omega
      rw [hone, List.drop_succ_cons, iff_self_and]
      exact List.mem_of_mem_drop
    · have hfirst : s.pool.nEmptyChunks - s.pool.minEmptyChunks = 0 := by omega
      have hrest : s.pool.nEmptyChunks - 1 - min (s.pool.nEmptyChunks - 1) s.pool.minEmptyChunks = 0 := by omega
      rw [hfirst, hrest, List.drop_zero, List.drop_zero]
      exact ⟨fun hk => ⟨List.mem_cons_of_mem k' hk, hk⟩, fun hk => hk.2⟩
  | put k' hempty' hn' hmin' =>
    have hone : s.pool.nEmptyChunks + 1 - s.pool.minEmptyChunks =
        (s.pool.nEmptyChunks - s.pool.minEmptyChunks) + 1 := by omega
    rw [hempty', hn', hmin', hone, List.drop_succ_cons, iff_self_and]
    exact fun hk => List.mem_cons_of_mem k' (List.mem_of_mem_drop hk)

/-- What has been since the pool was cleaned: the states, the last one first. -/
inductive Since (s₀ : State) : List State → State → Prop where
  | start : Since s₀ [s₀] s₀
  | next (seen : List State) (s s' : State) (e : Event) (h : Since s₀ seen s) (he : Possible s e)
      (hclean : ∀ nToKeep keep sorted, e ≠ .clean nToKeep keep sorted) (hstep : step s e = some s') :
      Since s₀ (s' :: seen) s'

theorem since_idle {s₀ s : State} {seen : List State} (h₀ : Sound s₀)
    (hmin : s₀.pool.minEmptyChunks = s₀.pool.nEmptyChunks) (h : Since s₀ seen s) :
    Sound s ∧ ∀ k, k ∈ idle s.pool ↔ ∀ t ∈ seen, k ∈ t.pool.emptyChunks := by
  induction h with
  | start =>
    refine ⟨h₀, fun k => ?_⟩
    simp [idle, hmin]
  | next seen s s' e _ he hclean hstep ih =>
    obtain ⟨hsound, hidle⟩ := ih
    obtain ⟨t, ht, hsound'⟩ := step_sound hsound e he
    obtain rfl := Option.some.inj (ht.symm.trans hstep)
    have hempty : EmptyStep s.pool t.pool := by
      cases e with
      | get new =>
        obtain ⟨⟨item, pool⟩, hget, rfl⟩ := Option.map_eq_some_iff.mp hstep
        exact get_empty s.pool pool new item hget
      | release item =>
        obtain ⟨pool, hrelease, rfl⟩ := Option.map_eq_some_iff.mp hstep
        exact release_empty s.pool pool item hrelease
      | clean nToKeep keep sorted => exact absurd rfl (hclean nToKeep keep sorted)
    refine ⟨hsound', fun k => ?_⟩
    rw [idle_step hsound hempty, hidle]
    simp [and_comm]

/-- `mp_pool_garbage_collect` frees a chunk if nobody needed it since the pool was cleaned, and only then. -/
theorem collects_idle (itemSize chunkCapacity : ℕ) (s₁ s₀ s s' : State) (seen : List State)
    (nToKeep : ℕ) (keep : Bool) (sorted sorted' : List ChunkPtr) (h₁ : Reached itemSize chunkCapacity s₁)
    (he₁ : Possible s₁ (.clean nToKeep keep sorted)) (hstep₁ : step s₁ (.clean nToKeep keep sorted) = some s₀)
    (hsince : Since s₀ seen s) (he : Possible s (.clean 0 true sorted'))
    (hstep : step s (.clean 0 true sorted') = some s') (k : ChunkPtr) (c : Chunk)
    (hc : s.pool.chunks k = some c) :
    s'.pool.chunks k = none ↔ ∀ t ∈ seen, k ∈ t.pool.emptyChunks := by
  obtain ⟨pool₀, hclean₀, hsound₀, -, hmin₀, -⟩ :=
    clean_sound (reached_sound h₁) nToKeep keep sorted he₁.1
  obtain rfl : (⟨pool₀, s₁.live⟩ : State) = s₀ := by
    rw [step, hclean₀] at hstep₁
    exact Option.some.inj hstep₁
  obtain ⟨hsound, hidle⟩ := since_idle hsound₀ hmin₀ hsince
  obtain ⟨pool, hclean, -, -, -, hchunks⟩ := clean_sound hsound 0 true sorted' he.1
  obtain rfl : (⟨pool, s.live⟩ : State) = s' := by
    rw [step, hclean] at hstep
    exact Option.some.inj hstep
  have hcount : keepCount s.pool 0 true = s.pool.nEmptyChunks - s.pool.minEmptyChunks := by
    unfold keepCount
    rw [Bool.true_and]
    split
    · rfl
    · next hnone =>
      rw [decide_eq_true_iff] at hnone
      omega
  rw [← hidle k, idle]
  show pool.chunks k = none ↔ _
  rw [hchunks, hcount, hc]
  simp

/-- All items were given back, and the pool was cleaned of what nobody needed. -/
def cleaned : State := [.release (7, 1), .release (8, 0), .clean 0 true []].foldl after busy

/-- One item was needed since then. -/
def needed : State := after cleaned (.get 9)

theorem collects_idle_pairs : ∃ s', step (after needed (.release (8, 0))) (.clean 0 true []) = some s' ∧
    s'.pool.chunks 7 = none ∧ s'.pool.chunks 8 ≠ none := by
  have hempty := (busy_reached.after (.release (7, 1)) (List.mem_cons_of_mem _ List.mem_cons_self)).after
    (.release (8, 0)) List.mem_cons_self
  have hsince : Since cleaned [after needed (.release (8, 0)), needed, cleaned] (after needed (.release (8, 0))) :=
    .next _ needed _ (.release (8, 0)) (.next _ cleaned _ (.get 9) .start rfl (by simp) rfl)
      List.mem_cons_self (by simp) rfl
  have hcollects := fun s' hstep => collects_idle 12000 (32 * 1024) _ cleaned _ s' _ 0 true [] [] hempty
    ⟨List.Perm.nil, List.Pairwise.nil⟩ rfl hsince ⟨List.Perm.nil, List.Pairwise.nil⟩ hstep
  refine ⟨_, rfl, (hcollects _ rfl 7 _ rfl).mpr ?_, fun h => ?_⟩
  · simp only [List.forall_mem_cons]
    exact ⟨by decide, by decide, by decide, by simp⟩
  · have hin := (hcollects _ rfl 8 _ rfl).mp h needed (by simp)
    exact absurd hin (by decide)

end IrcdHybrid.PoolRuns
