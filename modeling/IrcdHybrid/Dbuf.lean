import IrcdHybrid.CString

/-!
The receive queue: a list of blocks of at most 1024 bytes, the read offset into
the first one, and a running total. A well-formed queue is the flat list of its
unread bytes, and `dbuf_put` and `dbuf_delete` append to and drop from that list.
-/

namespace IrcdHybrid.Dbuf

open CString

def dbufBlockSize : ℕ := 1024

structure DbufBlock where
  data : CStr
  size_le : data.length ≤ dbufBlockSize
  deriving DecidableEq

structure DbufQueue where
  blocks : List DbufBlock
  totalSize : ℕ
  pos : ℕ
  deriving DecidableEq

def empty : DbufQueue := ⟨[], 0, 0⟩

/-- The unread bytes. -/
def bytes (q : DbufQueue) : CStr := (q.blocks.flatMap DbufBlock.data).drop q.pos

/-- The read offset is inside the first block, no block is empty, and the total
counts the unread bytes. -/
structure WellFormed (q : DbufQueue) : Prop where
  pos_lt : ∀ b bs, q.blocks = b :: bs → q.pos < b.data.length
  pos_nil : q.blocks = [] → q.pos = 0
  data_ne : ∀ b ∈ q.blocks, b.data ≠ []
  total : q.totalSize = (bytes q).length

/-- `memcpy` of the bytes of `buf` that fit behind the ones already stored. -/
def DbufBlock.fill (b : DbufBlock) (buf : CStr) : DbufBlock where
  data := (b.data ++ buf).take dbufBlockSize
  size_le := List.length_take_le _ _

/-- `dbuf_alloc` -/
def dbufAlloc : DbufBlock := ⟨[], Nat.zero_le _⟩

/-- The block that `dbuf_put` writes to and the blocks before it: the last one,
or a new one when there is none or the last one is full. -/
def putBlock (q : DbufQueue) : List DbufBlock × DbufBlock :=
  match if q.totalSize = 0 then none else q.blocks.getLast? with
  | none => (q.blocks, dbufAlloc)
  | some b =>
    if dbufBlockSize - b.data.length = 0 then (q.blocks, dbufAlloc) else (q.blocks.dropLast, b)

/-- One pass of the loop of `dbuf_put`, with the bytes left over. -/
def putStep (q : DbufQueue) (buf : CStr) : DbufQueue × CStr :=
  let (front, b) := putBlock q
  let avail := min (dbufBlockSize - b.data.length) buf.length
  (⟨front ++ [b.fill buf], q.totalSize + avail, q.pos⟩, buf.drop avail)

def putLoop : ℕ → DbufQueue → CStr → DbufQueue
  | 0, q, _ => q
  | _ + 1, q, [] => q
  | fuel + 1, q, c :: buf => putLoop fuel (putStep q (c :: buf)).1 (putStep q (c :: buf)).2

/-- `dbuf_put`: every pass of its loop stores at least one byte. -/
def dbufPut (q : DbufQueue) (buf : CStr) : DbufQueue := putLoop buf.length q buf

def deleteLoop : List DbufBlock → ℕ → ℕ → ℕ → DbufQueue
  | [], total, pos, _ => ⟨[], total, pos⟩
  | b :: bs, total, pos, count =>
    if count = 0 ∨ total = 0 then ⟨b :: bs, total, pos⟩
    else
      let avail := b.data.length - pos
      if avail ≤ count then deleteLoop bs (total - avail) 0 (count - avail)
      else ⟨b :: bs, total - count, pos + count⟩

/-- `dbuf_delete` -/
def dbufDelete (q : DbufQueue) (count : ℕ) : DbufQueue :=
  deleteLoop q.blocks q.totalSize q.pos count

theorem wellFormed_empty : WellFormed empty where
  pos_lt := by simp [empty]
  pos_nil := by simp [empty]
  data_ne := by simp [empty]
  total := by simp [empty, bytes]

theorem pos_le (q : DbufQueue) (h : WellFormed q) :
    q.pos ≤ (q.blocks.flatMap DbufBlock.data).length := by
  rcases hb : q.blocks with _ | ⟨b, bs⟩
  · simp [h.pos_nil hb]
  · have := h.pos_lt b bs hb
    simp only [List.flatMap_cons, List.length_append]
    omega

/-- `dbuf_length` is zero exactly on the queue without blocks. -/
theorem totalSize_eq_zero_iff (q : DbufQueue) (h : WellFormed q) :
    q.totalSize = 0 ↔ q.blocks = [] := by
  rw [h.total, bytes, List.length_drop]
  rcases hb : q.blocks with _ | ⟨b, bs⟩
  · simp
  · have := h.pos_lt b bs hb
    simp only [List.flatMap_cons, List.length_append, reduceCtorEq, iff_false]
    omega

theorem wellFormed_tail (b : DbufBlock) (bs : List DbufBlock) (total pos : ℕ)
    (h : WellFormed ⟨b :: bs, total, pos⟩) :
    bytes ⟨b :: bs, total, pos⟩ = b.data.drop pos ++ bs.flatMap DbufBlock.data ∧
      WellFormed ⟨bs, total - (b.data.length - pos), 0⟩ := by
  have hpos : pos < b.data.length := h.pos_lt b bs rfl
  have hdata : ∀ b' ∈ bs, b'.data ≠ [] := fun b' hb' => h.data_ne b' (List.mem_cons_of_mem b hb')
  have hbytes : bytes ⟨b :: bs, total, pos⟩ =
      b.data.drop pos ++ bs.flatMap DbufBlock.data := by
    simp [bytes, List.drop_append_of_le_length hpos.le]
  refine ⟨hbytes, ?_, fun _ => rfl, hdata, ?_⟩
  · rintro b' bs' rfl
    exact List.length_pos_of_ne_nil (hdata b' List.mem_cons_self)
  · have htotal := h.total
    rw [hbytes] at htotal
    simp only [List.length_append, List.length_drop] at htotal
    simp only [bytes, List.drop_zero]
    omega

theorem deleteLoop_spec (bs : List DbufBlock) (total pos count : ℕ)
    (h : WellFormed ⟨bs, total, pos⟩) :
    WellFormed (deleteLoop bs total pos count) ∧
      bytes (deleteLoop bs total pos count) = (bytes ⟨bs, total, pos⟩).drop count := by
  induction bs generalizing total pos count with
  | nil => exact ⟨h, by simp [deleteLoop, bytes]⟩
  | cons b bs ih =>
    have hpos : pos < b.data.length := h.pos_lt b bs rfl
    obtain ⟨hbytes, hrest⟩ := wellFormed_tail b bs total pos h
    have htotal : total = (b.data.length - pos) + (bs.flatMap DbufBlock.data).length := by
      have := h.total
      rw [hbytes] at this
      simpa using this
    unfold deleteLoop
    by_cases hstop : count = 0 ∨ total = 0
    · rw [if_pos hstop]
      refine ⟨h, ?_⟩
      rcases hstop with rfl | rfl
      · simp
      · omega
    · rw [if_neg hstop]
      by_cases havail : b.data.length - pos ≤ count
      · simp only [havail, ↓reduceIte]
        obtain ⟨hwf, hb⟩ := ih _ 0 (count - (b.data.length - pos)) hrest
        refine ⟨hwf, ?_⟩
        have hdrop : (b.data.drop pos).drop count = [] :=
          List.drop_eq_nil_of_le (by simpa only [List.length_drop] using havail)
        rw [hb, hbytes, List.drop_append, hdrop]
        simp [bytes]
      · simp only [havail, ↓reduceIte]
        have hlt : pos + count < b.data.length := by omega
        have hkeep : bytes ⟨b :: bs, total - count, pos + count⟩ =
            b.data.drop (pos + count) ++ bs.flatMap DbufBlock.data := by
          simp [bytes, List.drop_append_of_le_length hlt.le]
        refine ⟨⟨?_, by simp, h.data_ne, ?_⟩, ?_⟩
        · rintro b' bs' heq
          obtain ⟨rfl, rfl⟩ := List.cons.inj heq
          exact hlt
        · rw [hkeep]
          simp only [List.length_append, List.length_drop]
          omega
        · rw [hkeep, hbytes, List.drop_append_of_le_length (by simp; omega), List.drop_drop]

theorem dbufDelete_wellFormed (q : DbufQueue) (count : ℕ) (h : WellFormed q) :
    WellFormed (dbufDelete q count) := (deleteLoop_spec _ _ _ count h).1

/-- `dbuf_delete` drops bytes from the front. -/
theorem bytes_dbufDelete (q : DbufQueue) (count : ℕ) (h : WellFormed q) :
    bytes (dbufDelete q count) = (bytes q).drop count := (deleteLoop_spec _ _ _ count h).2

theorem append_spec (q : DbufQueue) (b : DbufBlock) (h : WellFormed q) (hb : b.data ≠ []) :
    WellFormed ⟨q.blocks ++ [b], q.totalSize + b.data.length, q.pos⟩ ∧
      bytes ⟨q.blocks ++ [b], q.totalSize + b.data.length, q.pos⟩ = bytes q ++ b.data := by
  have hbytes : bytes ⟨q.blocks ++ [b], q.totalSize + b.data.length, q.pos⟩ =
      bytes q ++ b.data := by
    have hle := pos_le q h
    simp only [bytes, List.flatMap_append, List.flatMap_singleton]
    rw [List.drop_append_of_le_length hle]
  refine ⟨⟨?_, by simp, ?_, ?_⟩, hbytes⟩
  · intro b' bs heq
    show q.pos < b'.data.length
    cases hq : q.blocks with
    | nil =>
      rw [hq] at heq
      obtain ⟨rfl, -⟩ := List.cons.inj heq
      rw [h.pos_nil hq]
      exact List.length_pos_of_ne_nil hb
    | cons c cs =>
      rw [hq] at heq
      obtain ⟨rfl, -⟩ := List.cons.inj heq
      exact h.pos_lt c cs hq
  · intro b' hb'
    rcases List.mem_append.mp hb' with hb' | hb'
    · exact h.data_ne b' hb'
    · rw [List.mem_singleton.mp hb']
      exact hb
  · show q.totalSize + b.data.length = _
    rw [hbytes, List.length_append, h.total]

/-- Storing bytes in the last block, be it new or partly filled. -/
theorem fill_spec (q : DbufQueue) (front : List DbufBlock) (b : DbufBlock) (buf : CStr)
    (h : WellFormed q) (hbuf : buf ≠ []) (hroom : b.data.length < dbufBlockSize)
    (hdata : front.flatMap DbufBlock.data ++ b.data = q.blocks.flatMap DbufBlock.data)
    (hfront : ∀ b' ∈ front, b'.data ≠ [])
    (hhead : ∀ b' bs, front ++ [b] = b' :: bs → q.pos < b'.data.length ∨ q.pos = 0) :
    let avail := min (dbufBlockSize - b.data.length) buf.length
    0 < avail ∧ WellFormed ⟨front ++ [b.fill buf], q.totalSize + avail, q.pos⟩ ∧
      bytes ⟨front ++ [b.fill buf], q.totalSize + avail, q.pos⟩ = bytes q ++ buf.take avail := by
  have hpos : 0 < buf.length := List.length_pos_of_ne_nil hbuf
  have hstored : (b.fill buf).data =
      b.data ++ buf.take (min (dbufBlockSize - b.data.length) buf.length) := by
    simp [DbufBlock.fill, List.take_append, List.take_of_length_le hroom.le, List.take_eq_take_iff]
  have hbytes : bytes ⟨front ++ [b.fill buf],
      q.totalSize + min (dbufBlockSize - b.data.length) buf.length, q.pos⟩ =
      bytes q ++ buf.take (min (dbufBlockSize - b.data.length) buf.length) := by
    have hle := pos_le q h
    simp only [bytes, List.flatMap_append, List.flatMap_singleton, hstored]
    rw [← List.append_assoc, hdata, List.drop_append_of_le_length hle]
  refine ⟨by omega, ⟨?_, by simp, ?_, ?_⟩, hbytes⟩
  · intro b' bs heq
    cases front with
    | nil =>
      obtain ⟨rfl, rfl⟩ := List.cons.inj heq
      have := hhead b [] rfl
      change q.pos < (b.fill buf).data.length
      rw [hstored, List.length_append, List.length_take]
      omega
    | cons c front =>
      obtain ⟨rfl, rfl⟩ := List.cons.inj heq
      have hne := List.length_pos_of_ne_nil (hfront c List.mem_cons_self)
      change q.pos < c.data.length
      rcases hhead c (front ++ [b]) rfl with hlt | hzero <;> omega
  · intro b' hb'
    rcases List.mem_append.mp hb' with hb' | hb'
    · exact hfront b' hb'
    · rw [List.mem_singleton.mp hb']
      intro hnil
      have := congrArg List.length hnil
      rw [hstored, List.length_append, List.length_take, List.length_nil] at this
      omega
  · change q.totalSize + _ = _
    rw [hbytes, List.length_append, List.length_take, h.total]
    omega

theorem putStep_spec (q : DbufQueue) (buf : CStr) (h : WellFormed q) (hbuf : buf ≠ []) :
    ∃ k, 0 < k ∧ (putStep q buf).2 = buf.drop k ∧ WellFormed (putStep q buf).1 ∧
      bytes (putStep q buf).1 = bytes q ++ buf.take k := by
  have hfresh : ∀ b' bs, q.blocks ++ [dbufAlloc] = b' :: bs →
      q.pos < b'.data.length ∨ q.pos = 0 := by
    intro b' bs heq
    cases hb : q.blocks with
    | nil => exact Or.inr (h.pos_nil hb)
    | cons c cs =>
      rw [hb] at heq
      obtain ⟨rfl, _⟩ := List.cons.inj heq
      exact Or.inl (h.pos_lt c cs hb)
  have hnew := fill_spec q q.blocks dbufAlloc buf h hbuf (by decide) (by simp [dbufAlloc])
    h.data_ne hfresh
  simp only [putStep, putBlock]
  split
  · exact ⟨_, hnew.1, rfl, hnew.2⟩
  · rename_i b hlast
    have hlast : q.blocks.getLast? = some b := by
      by_cases hz : q.totalSize = 0
      · simp [hz] at hlast
      · simpa [hz] using hlast
    split
    · exact ⟨_, hnew.1, rfl, hnew.2⟩
    · rename_i hroom
      obtain ⟨front, hsplit⟩ := List.getLast?_eq_some_iff.mp hlast
      have hdrop : q.blocks.dropLast = front := by simp [hsplit]
      rw [hdrop]
      have hold := fill_spec q front b buf h hbuf (by omega) (by simp [hsplit])
        (fun b' hb' => h.data_ne b' (by simp [hsplit, hb']))
        (fun b' bs heq => Or.inl (h.pos_lt b' bs (hsplit.trans heq)))
      exact ⟨_, hold.1, rfl, hold.2⟩

theorem putLoop_spec (fuel : ℕ) (q : DbufQueue) (buf : CStr) (h : WellFormed q)
    (hfuel : buf.length ≤ fuel) :
    WellFormed (putLoop fuel q buf) ∧ bytes (putLoop fuel q buf) = bytes q ++ buf := by
  induction fuel generalizing q buf with
  | zero =>
    obtain rfl := List.length_eq_zero_iff.mp (Nat.le_zero.mp hfuel)
    exact ⟨h, by simp [putLoop]⟩
  | succ fuel ih =>
    cases buf with
    | nil => exact ⟨h, by simp [putLoop]⟩
    | cons c buf =>
      obtain ⟨k, hk, hrest, hwf, hbytes⟩ := putStep_spec q (c :: buf) h (by simp)
      have hlen : ((putStep q (c :: buf)).2).length ≤ fuel := by
        rw [hrest, List.length_drop]
        simp only [List.length_cons] at hfuel ⊢
        omega
      obtain ⟨hwf', hbytes'⟩ := ih _ _ hwf hlen
      refine ⟨hwf', ?_⟩
      simp only [putLoop]
      rw [hbytes', hbytes, hrest, List.append_assoc, List.take_append_drop]

theorem dbufPut_wellFormed (q : DbufQueue) (buf : CStr) (h : WellFormed q) :
    WellFormed (dbufPut q buf) := (putLoop_spec _ q buf h le_rfl).1

/-- `dbuf_put` appends bytes at the back. -/
theorem bytes_dbufPut (q : DbufQueue) (buf : CStr) (h : WellFormed q) :
    bytes (dbufPut q buf) = bytes q ++ buf := (putLoop_spec _ q buf h le_rfl).2

end IrcdHybrid.Dbuf
