import IrcdHybrid.Dbuf
import IrcdHybrid.RefPool
import Mathlib.Algebra.BigOperators.Group.Finset.Basic
import Mathlib.Algebra.Order.BigOperators.Group.Finset

/-!
Queues over shared blocks. A block is in the pool, and a queue refers to it by its address; a
message that goes to many is one block on many queues, each with its own read offset. `view`
is the queue with the blocks looked up, and the operations do to it what those of `Dbuf` do
to a queue that owns its blocks. Reading a block that is not in the pool is an error.
-/

namespace IrcdHybrid.SharedDbuf

open CString Dbuf RefPool

abbrev BlockPool := Pool DbufBlock

/-- `struct dbuf_queue`. -/
structure Queue where
  blocks : List ℕ
  totalSize : ℕ
  pos : ℕ

def Queue.empty : Queue := ⟨[], 0, 0⟩

def dbufAdd (q : Queue) (i : ℕ) (p : BlockPool) : Option (Queue × BlockPool) :=
  (p.item i).bind (fun b => (p.hold i).map
    (fun p => (⟨q.blocks ++ [i], q.totalSize + b.data.length, q.pos⟩, p)))

def deleteLoop : List ℕ → ℕ → ℕ → ℕ → BlockPool → Option (Queue × BlockPool)
  | [], total, pos, count, p => if count = 0 ∨ total = 0 then some (⟨[], total, pos⟩, p) else none
  | i :: is, total, pos, count, p =>
    if count = 0 ∨ total = 0 then some (⟨i :: is, total, pos⟩, p)
    else (p.item i).bind (fun b =>
      let avail := b.data.length - pos
      if avail ≤ count then
        (p.drop i).bind (fun p => deleteLoop is (total - avail) 0 (count - avail) p)
      else some (⟨i :: is, total - count, pos + count⟩, p))

def dbufDelete (q : Queue) (count : ℕ) (p : BlockPool) : Option (Queue × BlockPool) :=
  deleteLoop q.blocks q.totalSize q.pos count p

/-- The block that `dbuf_put` writes to, in its queue. -/
structure Target where
  blocks : List ℕ
  addr : ℕ
  pool : BlockPool

def freshTarget (q : Queue) (p : BlockPool) : Target :=
  ⟨q.blocks ++ [(p.alloc dbufAlloc).1], (p.alloc dbufAlloc).1, (p.alloc dbufAlloc).2⟩

def putTarget (q : Queue) (p : BlockPool) : Option Target :=
  match if q.totalSize = 0 then none else q.blocks.getLast? with
  | none => some (freshTarget q p)
  | some i => (p.item i).map (fun b =>
    if dbufBlockSize - b.data.length = 0 then freshTarget q p else ⟨q.blocks, i, p⟩)

def putStep (q : Queue) (buf : CStr) (p : BlockPool) : Option ((Queue × CStr) × BlockPool) :=
  (putTarget q p).bind (fun t => (t.pool.item t.addr).bind (fun b =>
    let avail := min (dbufBlockSize - b.data.length) buf.length
    (t.pool.write t.addr (b.fill buf)).map
      (fun p => ((⟨t.blocks, q.totalSize + avail, q.pos⟩, buf.drop avail), p))))

def putLoop : ℕ → Queue → CStr → BlockPool → Option (Queue × BlockPool)
  | 0, q, _, p => some (q, p)
  | _ + 1, q, [], p => some (q, p)
  | fuel + 1, q, c :: buf, p =>
    (putStep q (c :: buf) p).bind (fun res => putLoop fuel res.1.1 res.1.2 res.2)

def dbufPut (q : Queue) (buf : CStr) (p : BlockPool) : Option (Queue × BlockPool) :=
  putLoop buf.length q buf p

/-- `vsnprintf` behind what is there; a text that does not fit ends in a zero byte. -/
def appended (b : DbufBlock) (text : CStr) : DbufBlock where
  data :=
    if b.data.length + text.length < dbufBlockSize then b.data ++ text
    else (b.data ++ text.take (dbufBlockSize - b.data.length - 1) ++ ['\x00']).take dbufBlockSize
  size_le := by
    split
    · rw [List.length_append]
      omega
    · exact List.length_take_le _ _

def ircdBufsize : ℕ := 512

/-- `send_format`, behind what `dbuf_put_fmt` may have put. -/
def formatted (b : DbufBlock) (text : CStr) : DbufBlock where
  data := (appended b text).data.take (ircdBufsize - 2) ++ ['\r', '\n']
  size_le := by
    have hlen := List.length_take_le (ircdBufsize - 2) (appended b text).data
    rw [List.length_append]
    show _ + 2 ≤ 1024
    have hsize : ircdBufsize = 512 := rfl
    omega

def block (p : BlockPool) (i : ℕ) : DbufBlock := (p.item i).getD dbufAlloc

def view (p : BlockPool) (q : Queue) : DbufQueue := ⟨q.blocks.map (block p), q.totalSize, q.pos⟩

theorem view_congr {p p' : BlockPool} (q : Queue) (h : ∀ i ∈ q.blocks, p'.item i = p.item i) :
    view p' q = view p q := by
  have hmap : q.blocks.map (block p') = q.blocks.map (block p) := by
    apply List.map_congr_left
    intro i hi
    unfold block
    rw [h i hi]
  unfold view
  rw [hmap]

theorem item_eq_block {p : BlockPool} {holds : ℕ → ℕ} (h : Counts p holds) {i : ℕ}
    (hi : 0 < holds i) : p.item i = some (block p i) := by
  obtain ⟨a, ha⟩ := h.item_of_held hi
  unfold block Pool.item
  rw [ha]
  rfl

theorem dbufAdd_spec {p : BlockPool} {holds : ℕ → ℕ} (h : Counts p holds) (q : Queue) (i : ℕ)
    (hi : 0 < holds i) :
    ∃ p', dbufAdd q i p =
        some (⟨q.blocks ++ [i], q.totalSize + (block p i).data.length, q.pos⟩, p') ∧
      Counts p' (fun j => holds j + [i].count j) ∧ p'.next = p.next ∧ p'.item = p.item := by
  obtain ⟨p', hhold, hcounts, hnext, hitem⟩ := counts_hold h hi
  unfold dbufAdd
  rw [item_eq_block h hi, Option.bind_some, hhold]
  exact ⟨p', rfl, hcounts, hnext, hitem⟩

/-- Deleting drops the queue's holds on the blocks it is done with, and is deleting from the
queue that owns its blocks. -/
theorem deleteLoop_view (is : List ℕ) (total pos count : ℕ) {p : BlockPool} {holds : ℕ → ℕ}
    (h : Counts p holds) (hheld : ∀ i, is.count i ≤ holds i)
    (hwf : WellFormed (view p ⟨is, total, pos⟩)) :
    ∃ front q p', deleteLoop is total pos count p = some (q, p') ∧ is = front ++ q.blocks ∧
      Counts p' (fun i => holds i - front.count i) ∧ p'.next = p.next ∧ Keeps p p' ∧
      view p q = Dbuf.deleteLoop (is.map (block p)) total pos count := by
  induction is generalizing total pos count p holds with
  | nil =>
    have htotal : total = 0 := (totalSize_eq_zero_iff _ hwf).mpr rfl
    refine ⟨[], ⟨[], total, pos⟩, p, ?_, rfl, h, rfl, fun i a ha => ha, rfl⟩
    unfold deleteLoop
    rw [if_pos (Or.inr htotal)]
  | cons i is ih =>
    have hpos : 0 < holds i := by
      have hcount := hheld i
      rw [List.count_cons_self] at hcount
      omega
    unfold deleteLoop Dbuf.deleteLoop
    rw [List.map_cons]
    by_cases hstop : count = 0 ∨ total = 0
    · rw [if_pos hstop]
      refine ⟨[], ⟨i :: is, total, pos⟩, p, rfl, rfl, h, rfl, fun i a ha => ha, ?_⟩
      dsimp only
      rw [if_pos hstop]
      rfl
    · rw [if_neg hstop, item_eq_block h hpos, Option.bind_some]
      dsimp only
      rw [if_neg hstop]
      by_cases havail : (block p i).data.length - pos ≤ count
      · rw [if_pos havail]
        simp only [havail, ↓reduceIte]
        obtain ⟨p₁, hdrop, hcounts₁, hnext₁, hkeep₁⟩ := counts_drop h hpos
        have hheld₁ : ∀ j, is.count j ≤ holds j - [i].count j := by
          intro j
          have hcount := hheld j
          rw [← List.singleton_append, List.count_append] at hcount
          omega
        have hsame : ∀ j ∈ is, p₁.item j = p.item j := by
          intro j hj
          have hcount := List.count_pos_iff.mpr hj
          exact hcounts₁.item_kept hkeep₁ (lt_of_lt_of_le hcount (hheld₁ j))
        have hview : ∀ total pos, view p₁ ⟨is, total, pos⟩ = view p ⟨is, total, pos⟩ :=
          fun total pos => view_congr ⟨is, total, pos⟩ hsame
        have hrest := (wellFormed_tail (block p i) (is.map (block p)) total pos hwf).2
        obtain ⟨front, q, p₂, hloop, hsplit, hcounts₂, hnext₂, hkeep₂, heq⟩ :=
          ih (total - ((block p i).data.length - pos)) 0 (count - ((block p i).data.length - pos))
            hcounts₁ hheld₁ (by rw [hview]; exact hrest)
        have hblocks : is.map (block p₁) = is.map (block p) := by
          apply List.map_congr_left
          intro j hj
          unfold block
          rw [hsame j hj]
        refine ⟨i :: front, q, p₂, ?_, ?_, hcounts₂.congr ?_, hnext₂.trans hnext₁, ?_, ?_⟩
        · rw [hdrop, Option.bind_some]
          exact hloop
        · rw [hsplit]
          rfl
        · intro j
          rw [← List.singleton_append, List.count_append]
          omega
        · exact fun j a ha => hkeep₁ j a (hkeep₂ j a ha)
        · rw [← hblocks, ← heq]
          symm
          apply view_congr
          intro j hj
          exact hsame j (by rw [hsplit]; exact List.mem_append_right _ hj)
      · rw [if_neg havail]
        simp only [havail, ↓reduceIte]
        exact ⟨[], ⟨i :: is, total - count, pos + count⟩, p, rfl, rfl, h, rfl,
          fun i a ha => ha, rfl⟩

/-- A queue whose blocks are its own. -/
structure Owned (q : Queue) (holds : ℕ → ℕ) : Prop where
  one : ∀ i ∈ q.blocks, holds i = 1
  nodup : q.blocks.Nodup

/-- What writing to a queue does: the queue has got some more blocks, no other block changed, and
the queue is as if it owned its blocks. -/
structure Written (p p' : BlockPool) (holds : ℕ → ℕ) (q q' : Queue) (fresh : List ℕ) : Prop where
  counts : Counts p' (fun i => holds i + fresh.count i)
  blocks : q'.blocks = q.blocks ++ fresh
  fresh_new : ∀ i ∈ fresh, holds i = 0
  fresh_nodup : fresh.Nodup
  others : ∀ i, i ∉ q'.blocks → p'.item i = p.item i
  next_le : p.next ≤ p'.next
  fresh_ge : ∀ i ∈ fresh, p.next ≤ i

theorem written_nil {p : BlockPool} {holds : ℕ → ℕ} (h : Counts p holds) (q : Queue) :
    Written p p holds q q [] :=
  ⟨h, (List.append_nil _).symm, fun _ hi => absurd hi (List.not_mem_nil), List.nodup_nil,
    fun _ _ => rfl, Nat.le_refl _, fun _ hi => absurd hi (List.not_mem_nil)⟩

theorem Written.owned {p p' : BlockPool} {holds : ℕ → ℕ} {q q' : Queue} {fresh : List ℕ}
    (h : Written p p' holds q q' fresh) (howned : Owned q holds) :
    Owned q' (fun i => holds i + fresh.count i) := by
  have hdisjoint : ∀ i ∈ q.blocks, i ∉ fresh := by
    intro i hi hmem
    have hone := howned.one i hi
    have hzero := h.fresh_new i hmem
    omega
  refine ⟨?_, ?_⟩
  · intro i hi
    rw [h.blocks] at hi
    show holds i + fresh.count i = 1
    rcases List.mem_append.mp hi with hi | hi
    · rw [howned.one i hi, List.count_eq_zero_of_not_mem (hdisjoint i hi)]
    · rw [h.fresh_new i hi, List.count_eq_one_of_mem h.fresh_nodup hi]
  · rw [h.blocks]
    exact List.nodup_append.mpr ⟨howned.nodup, h.fresh_nodup,
      fun i hi j hj heq => hdisjoint i hi (heq ▸ hj)⟩

/-- The target is the block that the owning queue would write to, or a new one. -/
theorem putTarget_spec {p : BlockPool} {holds : ℕ → ℕ} (h : Counts p holds) (q : Queue)
    (howned : Owned q holds) :
    ∃ t front fresh, putTarget q p = some t ∧ t.blocks = front ++ [t.addr] ∧
      Written p t.pool holds q ⟨t.blocks, q.totalSize, q.pos⟩ fresh ∧
      t.addr ∉ front ∧ (∀ i ∈ front, t.pool.item i = p.item i) ∧
      Dbuf.putBlock (view p q) = (front.map (block p), block t.pool t.addr) := by
  have hnew : holds p.next = 0 := h.gone _ (h.beyond _ (Nat.le_refl _)).1
  have hfresh : Written p (freshTarget q p).pool holds q
      ⟨(freshTarget q p).blocks, q.totalSize, q.pos⟩ [p.next] := by
    refine ⟨counts_alloc h dbufAlloc, rfl, ?_, List.nodup_singleton _, ?_, Nat.le_succ _,
      fun _ hi => (List.mem_singleton.mp hi).ge⟩
    · intro i hi
      rw [List.mem_singleton.mp hi]
      exact hnew
    · intro i hi
      have hne : i ≠ p.next := fun heq => hi (List.mem_append_right _ (by simp [heq, Pool.alloc]))
      show (p.alloc dbufAlloc).2.item i = _
      rw [item_alloc, Function.update_of_ne hne]
  have hnot : p.next ∉ q.blocks := by
    intro hmem
    have hone := howned.one _ hmem
    omega
  have hsame : ∀ i ∈ q.blocks, (freshTarget q p).pool.item i = p.item i := by
    intro i hi
    show (p.alloc dbufAlloc).2.item i = _
    rw [item_alloc, Function.update_of_ne]
    rintro rfl
    exact hnot hi
  have hblock : block (freshTarget q p).pool (freshTarget q p).addr = dbufAlloc := by
    show ((p.alloc dbufAlloc).2.item p.next).getD dbufAlloc = dbufAlloc
    rw [item_alloc, Function.update_self]
    rfl
  have hlast : (view p q).blocks.getLast? = q.blocks.getLast?.map (block p) := List.getLast?_map
  have hstart : (if (view p q).totalSize = 0 then none else (view p q).blocks.getLast?) =
      (if q.totalSize = 0 then none else q.blocks.getLast?).map (block p) := by
    rw [hlast]
    show (if q.totalSize = 0 then none else _) = _
    split
    · rfl
    · rfl
  unfold putTarget Dbuf.putBlock
  rw [hstart]
  cases hcase : (if q.totalSize = 0 then none else q.blocks.getLast?) with
  | none =>
    exact ⟨_, q.blocks, [p.next], rfl, rfl, hfresh, hnot, hsame,
      congrArg (Prod.mk _) hblock.symm⟩
  | some i =>
    have hget : q.blocks.getLast? = some i := by
      by_cases hz : q.totalSize = 0
      · rw [if_pos hz] at hcase
        exact absurd hcase (by simp)
      · rwa [if_neg hz] at hcase
    obtain ⟨front, hsplit⟩ := List.getLast?_eq_some_iff.mp hget
    have hi : 0 < holds i := by
      rw [howned.one i (by rw [hsplit]; simp)]
      exact Nat.one_pos
    have hfront : i ∉ front := by
      have hnodup := howned.nodup
      rw [hsplit] at hnodup
      have hdisj := (List.nodup_append.mp hnodup).2.2
      exact fun hmem => hdisj i hmem i (List.mem_singleton_self i) rfl
    dsimp only
    rw [item_eq_block h hi, Option.map_some, Option.map_some]
    dsimp only
    by_cases hfull : dbufBlockSize - (block p i).data.length = 0
    · rw [if_pos hfull, if_pos hfull]
      exact ⟨_, q.blocks, [p.next], rfl, rfl, hfresh, hnot, hsame,
        congrArg (Prod.mk _) hblock.symm⟩
    · rw [if_neg hfull, if_neg hfull]
      refine ⟨⟨q.blocks, i, p⟩, front, [], rfl, hsplit, ⟨h, ?_, ?_, List.nodup_nil, ?_,
        Nat.le_refl _, fun _ hj => absurd hj (List.not_mem_nil)⟩, hfront, fun j hj => rfl, ?_⟩
      · exact (List.append_nil _).symm
      · exact fun j hj => absurd hj (List.not_mem_nil)
      · exact fun j hj => rfl
      · show ((q.blocks.map (block p)).dropLast, block p i) = _
        rw [hsplit, List.map_append, List.map_cons, List.map_nil, List.dropLast_concat]

theorem putStep_view {p : BlockPool} {holds : ℕ → ℕ} (h : Counts p holds) (q : Queue)
    (buf : CStr) (howned : Owned q holds) :
    ∃ q' p' fresh, putStep q buf p = some ((q', (Dbuf.putStep (view p q) buf).2), p') ∧
      Written p p' holds q q' fresh ∧ view p' q' = (Dbuf.putStep (view p q) buf).1 := by
  obtain ⟨t, front, fresh, htarget, hblocks, hwritten, haddr, hsame, hputBlock⟩ :=
    putTarget_spec h q howned
  have howned' := hwritten.owned howned
  have hmem : t.addr ∈ t.blocks := by rw [hblocks]; simp
  have hheld : 0 < holds t.addr + fresh.count t.addr := by
    rw [howned'.one t.addr hmem]
    exact Nat.one_pos
  obtain ⟨p', hwrite, hcounts, hnext, hitem⟩ :=
    counts_write hwritten.counts hheld ((block t.pool t.addr).fill buf)
  have hstep : putStep q buf p = some ((⟨t.blocks, q.totalSize +
      min (dbufBlockSize - (block t.pool t.addr).data.length) buf.length, q.pos⟩,
      buf.drop (min (dbufBlockSize - (block t.pool t.addr).data.length) buf.length)), p') := by
    unfold putStep
    rw [htarget, Option.bind_some, item_eq_block hwritten.counts hheld, Option.bind_some]
    dsimp only
    rw [hwrite]
    rfl
  unfold Dbuf.putStep
  rw [hputBlock]
  refine ⟨_, p', fresh, hstep, ⟨hcounts, hwritten.blocks, hwritten.fresh_new,
    hwritten.fresh_nodup, ?_, hwritten.next_le.trans hnext.ge, hwritten.fresh_ge⟩, ?_⟩
  · intro i hi
    have hne : i ≠ t.addr := fun heq => hi (heq ▸ hmem)
    rw [hitem, Function.update_of_ne hne]
    exact hwritten.others i hi
  · have hmap : t.blocks.map (block p') =
        front.map (block p) ++ [(block t.pool t.addr).fill buf] := by
      rw [hblocks, List.map_append, List.map_cons, List.map_nil]
      have hfront : front.map (block p') = front.map (block p) := by
        apply List.map_congr_left
        intro i hi
        have hne : i ≠ t.addr := fun heq => haddr (heq ▸ hi)
        unfold block
        rw [hitem, Function.update_of_ne hne, hsame i hi]
      have hlast : block p' t.addr = (block t.pool t.addr).fill buf := by
        show (p'.item t.addr).getD dbufAlloc = _
        rw [hitem, Function.update_self]
        rfl
      rw [hfront, hlast]
    unfold view
    dsimp only
    rw [hmap]

/-- `dbuf_put` on a queue that owns its blocks. -/
theorem putLoop_view (fuel : ℕ) {p : BlockPool} {holds : ℕ → ℕ} (h : Counts p holds) (q : Queue)
    (buf : CStr) (howned : Owned q holds) :
    ∃ q' p' fresh, putLoop fuel q buf p = some (q', p') ∧ Written p p' holds q q' fresh ∧
      view p' q' = Dbuf.putLoop fuel (view p q) buf := by
  induction fuel generalizing p holds q buf with
  | zero =>
    exact ⟨q, p, [], rfl, written_nil h q, rfl⟩
  | succ fuel ih =>
    cases buf with
    | nil =>
      exact ⟨q, p, [], rfl, written_nil h q, rfl⟩
    | cons c buf =>
      obtain ⟨q₁, p₁, fresh₁, hstep, hwritten₁, hview₁⟩ := putStep_view h q (c :: buf) howned
      obtain ⟨q₂, p₂, fresh₂, hloop, hwritten₂, hview₂⟩ :=
        ih hwritten₁.counts q₁ (Dbuf.putStep (view p q) (c :: buf)).2 (hwritten₁.owned howned)
      refine ⟨q₂, p₂, fresh₁ ++ fresh₂, ?_, ⟨?_, ?_, ?_, ?_, ?_,
        hwritten₁.next_le.trans hwritten₂.next_le, ?_⟩, ?_⟩
      · unfold putLoop
        rw [hstep, Option.bind_some]
        exact hloop
      · apply hwritten₂.counts.congr
        intro i
        rw [List.count_append]
        omega
      · rw [hwritten₂.blocks, hwritten₁.blocks, List.append_assoc]
      · intro i hi
        rcases List.mem_append.mp hi with hi | hi
        · exact hwritten₁.fresh_new i hi
        · have hzero := hwritten₂.fresh_new i hi
          omega
      · refine List.nodup_append.mpr ⟨hwritten₁.fresh_nodup, hwritten₂.fresh_nodup, ?_⟩
        rintro i hi j hj rfl
        have hzero := hwritten₂.fresh_new i hj
        have hcount := List.count_pos_iff.mpr hi
        omega
      · intro i hi
        have hi₁ : i ∉ q₁.blocks := by
          intro hmem
          apply hi
          rw [hwritten₂.blocks]
          exact List.mem_append_left _ hmem
        rw [hwritten₂.others i hi, hwritten₁.others i hi₁]
      · intro i hi
        rcases List.mem_append.mp hi with hi | hi
        · exact hwritten₁.fresh_ge i hi
        · exact hwritten₁.next_le.trans (hwritten₂.fresh_ge i hi)
      · rw [hview₂, hview₁]
        rfl

end IrcdHybrid.SharedDbuf
