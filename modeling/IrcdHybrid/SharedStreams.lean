import IrcdHybrid.SharedDbuf

/-!
The send and receive queues of all connections, over one pool of blocks, with the steps that
dbuf.c lets the rest of the server take. To use a block that is not there is an error, and so is
to format into one that is shared. What a step asks of its caller stands with its lemma: then it
is no error, every queue gives out what was put into it, a block goes when nobody holds it any
more, and a block that is shared is not written to.
-/

namespace IrcdHybrid.SharedStreams

open CString Dbuf RefPool SharedDbuf

inductive Side where
  | sendq
  | recvq
  deriving DecidableEq

/-- A queue, and what has been put into it and taken from it so far. -/
structure Stream where
  queue : Queue
  queued : CStr
  taken : CStr

def Stream.new : Stream := ⟨Queue.empty, [], []⟩

/-- The pool, the queues that are open, the blocks that senders hold (those still being formatted
and those being sent), the flags of the connections, and the calls to sockets so far. -/
structure State (κ : Type*) where
  pool : BlockPool
  opened : Finset (κ × Side)
  stream : κ × Side → Stream
  building : List ℕ
  sending : List ℕ
  dead : κ → Bool
  closing : κ → Bool
  blocked : κ → Bool
  calls : ℕ

variable {κ : Type*} [DecidableEq κ]

def State.init : State κ :=
  ⟨Pool.empty, ∅, fun _ => Stream.new, [], [], fun _ => false, fun _ => false, fun _ => false, 0⟩

section

variable (s : State κ)

def State.setStream (k : κ × Side) (st : Stream) (p : BlockPool) : State κ :=
  { s with stream := Function.update s.stream k st, pool := p }

def State.setSenders (p : BlockPool) (building sending : List ℕ) : State κ :=
  { s with pool := p, building := building, sending := sending }

def State.sendq (c : κ) : Queue := (s.stream (c, .sendq)).queue

def State.connect (k : κ × Side) : State κ :=
  if k ∈ s.opened then s
  else { s with
    opened := insert k s.opened, stream := Function.update s.stream k Stream.new }

def State.alloc : State κ :=
  s.setSenders (s.pool.alloc dbufAlloc).2 ((s.pool.alloc dbufAlloc).1 :: s.building) s.sending

/-- The block to format into; `dbuf_put_args` asserts that nobody else holds it. -/
def State.target (i : ℕ) : Option DbufBlock :=
  (s.pool.cell i).bind (fun c => if c.refs = 1 then some c.item else none)

def State.putFmt (i : ℕ) (text : CStr) : Option (State κ) :=
  (s.target i).bind (fun b =>
    (s.pool.write i (appended b text)).map (fun p => s.setSenders p s.building s.sending))

/-- `send_format`, with which a block is finished. -/
def State.sendFormat (i : ℕ) (text : CStr) : Option (State κ) :=
  (s.target i).bind (fun b =>
    (s.pool.write i (formatted b text)).map
      (fun p => s.setSenders p (s.building.erase i) (i :: s.sending)))

def State.add (i : ℕ) (c : κ) : Option (State κ) :=
  (s.pool.item i).bind (fun b =>
    let st := s.stream (c, .sendq)
    (dbufAdd st.queue i s.pool).map (fun res =>
      s.setStream (c, .sendq) ⟨res.1, st.queued ++ b.data, st.taken⟩ res.2))

def State.refFree (i : ℕ) : Option (State κ) :=
  (s.pool.drop i).map (fun p => s.setSenders p s.building (s.sending.erase i))

/-- Deleting from a queue, with the bytes that somebody has got. -/
def State.delete (k : κ × Side) (count : ℕ) (got : CStr) : Option (State κ) :=
  let st := s.stream k
  (dbufDelete st.queue count s.pool).map
    (fun res => s.setStream k ⟨res.1, st.queued, st.taken ++ got⟩ res.2)

/-- What `send` is offered: the rest of the first block. -/
def State.offered (c : κ) : Option CStr :=
  (s.sendq c).blocks.head?.bind (fun i =>
    (s.pool.item i).map (fun b => b.data.drop (s.sendq c).pos))

/-- The deletion that follows a write. -/
def State.written (c : κ) (sent : CStr) : Option (State κ) :=
  s.delete (c, .sendq) sent.length sent

/-- `dbuf_clear`. -/
def State.clear (k : κ × Side) : Option (State κ) :=
  s.delete k (s.stream k).queue.totalSize (bytes (view s.pool (s.stream k).queue))

def State.put (c : κ) (buf : CStr) : Option (State κ) :=
  let st := s.stream (c, .recvq)
  (dbufPut st.queue buf s.pool).map (fun res =>
    s.setStream (c, .recvq) ⟨res.1, st.queued ++ buf, st.taken⟩ res.2)

/-- The deletion in `extract_one_line`. -/
def State.consume (c : κ) (n : ℕ) : Option (State κ) :=
  s.delete (c, .recvq) n ((bytes (view s.pool (s.stream (c, .recvq)).queue)).take n)

/-- The places of a block on the queues, and the senders that have it. -/
def State.holders (i : ℕ) : ℕ :=
  (∑ k ∈ s.opened, (s.stream k).queue.blocks.count i) +
    (s.building.count i + s.sending.count i)

theorem holders_split (k : κ × Side) (hk : k ∈ s.opened) (i : ℕ) :
    s.holders i = (s.stream k).queue.blocks.count i +
      ((∑ k' ∈ s.opened.erase k, (s.stream k').queue.blocks.count i) +
        (s.building.count i + s.sending.count i)) := by
  unfold State.holders
  rw [← Finset.add_sum_erase s.opened _ hk, Nat.add_assoc]

theorem holders_setStream (k : κ × Side) (hk : k ∈ s.opened) (st : Stream) (p : BlockPool) (i : ℕ) :
    (s.setStream k st p).holders i + (s.stream k).queue.blocks.count i =
      s.holders i + st.queue.blocks.count i := by
  have hrest : ∑ k' ∈ s.opened.erase k,
      ((s.setStream k st p).stream k').queue.blocks.count i =
      ∑ k' ∈ s.opened.erase k, (s.stream k').queue.blocks.count i := by
    apply Finset.sum_congr rfl
    intro k' hk'
    show ((Function.update s.stream k st) k').queue.blocks.count i = _
    rw [Function.update_of_ne (Finset.ne_of_mem_erase hk')]
  have hself : ((s.setStream k st p).stream k).queue.blocks.count i =
      st.queue.blocks.count i := by
    show ((Function.update s.stream k st) k).queue.blocks.count i = _
    rw [Function.update_self]
  rw [holders_split s k hk, holders_split (s.setStream k st p) k hk, hself]
  show _ + ((∑ k' ∈ s.opened.erase k, ((s.setStream k st p).stream k').queue.blocks.count i) +
    (s.building.count i + s.sending.count i)) + _ = _
  rw [hrest]
  omega

omit [DecidableEq κ] in
theorem holders_setSenders (p : BlockPool) (building sending : List ℕ) (i : ℕ) :
    (s.setSenders p building sending).holders i + (s.building.count i + s.sending.count i) =
      s.holders i + (building.count i + sending.count i) := by
  unfold State.holders State.setSenders
  dsimp only
  omega

theorem count_le_holders (k : κ × Side) (hk : k ∈ s.opened) (i : ℕ) :
    (s.stream k).queue.blocks.count i ≤ s.holders i := by
  rw [holders_split s k hk]
  omega

/-- On two queues, or on a queue and with a sender: a hold beside those of the queue. -/
theorem count_lt_holders (k k' : κ × Side) (hk : k ∈ s.opened)
    (hk' : k' ∈ s.opened) (hne : k' ≠ k) (i : ℕ) (hi : i ∈ (s.stream k').queue.blocks) :
    (s.stream k).queue.blocks.count i < s.holders i := by
  have hcount := List.count_pos_iff.mpr hi
  have hsplit := Finset.add_sum_erase (s.opened.erase k)
    (fun k => (s.stream k).queue.blocks.count i) (Finset.mem_erase.mpr ⟨hne, hk'⟩)
  rw [holders_split s k hk]
  omega

theorem count_lt_holders_of_sender (k : κ × Side) (hk : k ∈ s.opened) (i : ℕ)
    (hi : i ∈ s.building ∨ i ∈ s.sending) :
    (s.stream k).queue.blocks.count i < s.holders i := by
  rw [holders_split s k hk]
  rcases hi with hi | hi
  · have hcount := List.count_pos_iff.mpr hi
    omega
  · have hcount := List.count_pos_iff.mpr hi
    omega

end

/-- The queue stands for what was put into it and not yet taken. -/
structure Faithful (p : BlockPool) (st : Stream) : Prop where
  wellFormed : WellFormed (view p st.queue)
  stream : st.taken ++ bytes (view p st.queue) = st.queued

structure Inv (s : State κ) : Prop where
  counts : Counts s.pool s.holders
  building : ∀ i ∈ s.building, s.holders i = 1
  sending : ∀ i ∈ s.sending, ∃ b, s.pool.item i = some b ∧ b.data ≠ []
  own : ∀ k ∈ s.opened, k.2 = .recvq → Owned (s.stream k).queue s.holders
  faithful : ∀ k ∈ s.opened, Faithful s.pool (s.stream k)

theorem faithful_congr {p p' : BlockPool} {st : Stream} (h : Faithful p st)
    (hitem : ∀ i ∈ st.queue.blocks, p'.item i = p.item i) : Faithful p' st := by
  have hview := view_congr st.queue hitem
  refine ⟨?_, ?_⟩
  · rw [hview]
    exact h.wellFormed
  · rw [hview]
    exact h.stream

theorem faithful_new (p : BlockPool) : Faithful p Stream.new := ⟨wellFormed_empty, rfl⟩

omit [DecidableEq κ] in
theorem inv_init : Inv (State.init : State κ) where
  counts := counts_empty
  building := fun _ hi => absurd hi (List.not_mem_nil)
  sending := fun _ hi => absurd hi (List.not_mem_nil)
  own := fun k hk => absurd hk (Finset.notMem_empty k)
  faithful := fun k hk => absurd hk (Finset.notMem_empty k)

/-- A step that changes one queue: blocks that are held elsewhere stay as they are, and the
queue gets no block of a queue that owns its blocks. -/
theorem inv_setStream {s : State κ} (h : Inv s) {k : κ × Side} (hk : k ∈ s.opened) (st : Stream)
    (p : BlockPool) (hcounts : Counts p (s.setStream k st p).holders)
    (hkeep : ∀ i, (s.stream k).queue.blocks.count i < s.holders i → p.item i = s.pool.item i)
    (hnew : ∀ i ∈ st.queue.blocks,
      i ∈ (s.stream k).queue.blocks ∨ s.holders i = 0 ∨ i ∈ s.sending)
    (hown : k.2 = .recvq → Owned st.queue (s.setStream k st p).holders)
    (hfaithful : Faithful p st) : Inv (s.setStream k st p) := by
  have hsum := holders_setStream s k hk st p
  -- a block that is held once, and not by this queue, does not get on it
  have hnot : ∀ i, s.holders i = 1 → (s.stream k).queue.blocks.count i < s.holders i →
      i ∉ s.sending → i ∉ st.queue.blocks := by
    intro i hone hlt hsending hmem
    rcases hnew i hmem with hold | hzero | hsend
    · have hcount := List.count_pos_iff.mpr hold
      omega
    · omega
    · exact hsending hsend
  have hsame : ∀ i, s.holders i = 1 → (s.stream k).queue.blocks.count i < s.holders i →
      i ∉ s.sending → (s.setStream k st p).holders i = 1 := by
    intro i hone hlt hsending
    have hcount := List.count_eq_zero_of_not_mem (hnot i hone hlt hsending)
    have hi := hsum i
    omega
  refine ⟨hcounts, ?_, ?_, ?_, ?_⟩
  · intro i hi
    have hone := h.building i hi
    apply hsame i hone (count_lt_holders_of_sender s k hk i (Or.inl hi))
    intro hsend
    have hsplit := holders_split s k hk i
    have hb := List.count_pos_iff.mpr (show i ∈ s.building from hi)
    have hs := List.count_pos_iff.mpr hsend
    omega
  · intro i hi
    obtain ⟨b, hb, hne⟩ := h.sending i hi
    exact ⟨b, (hkeep i (count_lt_holders_of_sender s k hk i (Or.inr hi))).trans hb, hne⟩
  · intro k' hk' hrecv
    show Owned ((Function.update s.stream k st) k').queue _
    by_cases heq : k' = k
    · subst heq
      rw [Function.update_self]
      exact hown hrecv
    · rw [Function.update_of_ne heq]
      have howned := h.own k' hk' hrecv
      refine ⟨?_, howned.nodup⟩
      intro i hi
      have hone := howned.one i hi
      apply hsame i hone (count_lt_holders s k k' hk hk' heq i hi)
      intro hsend
      have hlt := count_lt_holders_of_sender s k' hk' i (Or.inr hsend)
      have hcount := List.count_pos_iff.mpr hi
      omega
  · intro k' hk'
    show Faithful p ((Function.update s.stream k st) k')
    by_cases heq : k' = k
    · rw [heq, Function.update_self]
      exact hfaithful
    · rw [Function.update_of_ne heq]
      apply faithful_congr (h.faithful k' hk')
      intro i hi
      exact hkeep i (count_lt_holders s k k' hk hk' heq i hi)

/-- Deleting from an open queue: the bytes that come off are the first of the stream. -/
theorem delete_spec {s : State κ} (h : Inv s) {k : κ × Side} (hk : k ∈ s.opened) (count : ℕ)
    (got : CStr) (hgot : got = (bytes (view s.pool (s.stream k).queue)).take count) :
    ∃ q p, s.delete k count got =
        some (s.setStream k ⟨q, (s.stream k).queued, (s.stream k).taken ++ got⟩ p) ∧
      Inv (s.setStream k ⟨q, (s.stream k).queued, (s.stream k).taken ++ got⟩ p) ∧
      p.next = s.pool.next ∧ Keeps s.pool p ∧
      ∀ i ∈ q.blocks, i ∈ (s.stream k).queue.blocks := by
  have hfaithful := h.faithful k hk
  obtain ⟨front, q, p, hdelete, hsplit, hcounts, hnext, hkeep, hview⟩ :=
    deleteLoop_view (s.stream k).queue.blocks (s.stream k).queue.totalSize
      (s.stream k).queue.pos count h.counts (count_le_holders s k hk) hfaithful.wellFormed
  have hview' : view s.pool q = Dbuf.dbufDelete (view s.pool (s.stream k).queue) count := hview
  have hsum := holders_setStream s k hk
    ⟨q, (s.stream k).queued, (s.stream k).taken ++ got⟩ p
  have hcount : ∀ i, (s.stream k).queue.blocks.count i = front.count i + q.blocks.count i := by
    intro i
    rw [hsplit, List.count_append]
  have hholders : ∀ i, (s.setStream k
      ⟨q, (s.stream k).queued, (s.stream k).taken ++ got⟩ p).holders i =
      s.holders i - front.count i := by
    intro i
    have hle := count_le_holders s k hk i
    have hi := hsum i
    have hc := hcount i
    dsimp only at hi
    omega
  have hitem : ∀ i, 0 < s.holders i - front.count i → p.item i = s.pool.item i :=
    fun i hi => hcounts.item_kept hkeep hi
  have hmem : ∀ i ∈ q.blocks, i ∈ (s.stream k).queue.blocks := by
    intro i hi
    rw [hsplit]
    exact List.mem_append_right _ hi
  have hviews : view p q = view s.pool q := by
    apply view_congr
    intro i hi
    apply hitem i
    have hle := count_le_holders s k hk i
    have hc := hcount i
    have hpos := List.count_pos_iff.mpr hi
    omega
  refine ⟨q, p, ?_, inv_setStream h hk ⟨q, (s.stream k).queued, (s.stream k).taken ++ got⟩ p
    (hcounts.congr hholders) ?_ (fun i hi => Or.inl (hmem i hi)) ?_ ?_, hnext, hkeep, hmem⟩
  · show Option.map _ (SharedDbuf.deleteLoop _ _ _ count s.pool) = _
    rw [hdelete]
    rfl
  · intro i hlt
    apply hitem i
    have hc := hcount i
    omega
  · intro hrecv
    have howned := h.own k hk hrecv
    have hnodup := howned.nodup
    rw [hsplit] at hnodup
    refine ⟨?_, hnodup.of_append_right⟩
    intro i hi
    have hfront : i ∉ front := fun hf => (List.nodup_append.mp hnodup).2.2 i hf i hi rfl
    rw [hholders i, howned.one i (hmem i hi), List.count_eq_zero_of_not_mem hfront]
  · refine ⟨?_, ?_⟩
    · show WellFormed (view p q)
      rw [hviews, hview']
      exact dbufDelete_wellFormed _ count hfaithful.wellFormed
    · show (s.stream k).taken ++ got ++ bytes (view p q) = (s.stream k).queued
      rw [hviews, hview', bytes_dbufDelete _ count hfaithful.wellFormed, hgot, List.append_assoc,
        List.take_append_drop]
      exact hfaithful.stream

/-- A step of the senders, on blocks that are on no queue. -/
theorem inv_senders {s : State κ} (h : Inv s) (p : BlockPool) (building sending : List ℕ)
    (hcounts : Counts p (s.setSenders p building sending).holders)
    (hkeep : ∀ k ∈ s.opened, ∀ i ∈ (s.stream k).queue.blocks, p.item i = s.pool.item i)
    (hbuilding : ∀ i ∈ building, (s.setSenders p building sending).holders i = 1)
    (hsending : ∀ i ∈ sending, ∃ b, p.item i = some b ∧ b.data ≠ [])
    (hfewer : ∀ i, building.count i + sending.count i ≤
      s.building.count i + s.sending.count i ∨ s.holders i = 0) :
    Inv (s.setSenders p building sending) := by
  refine ⟨hcounts, hbuilding, hsending, ?_, ?_⟩
  · intro k hk hrecv
    have howned := h.own k hk hrecv
    refine ⟨?_, howned.nodup⟩
    intro i hi
    have hone := howned.one i hi
    have hcount := List.count_pos_iff.mpr hi
    have hsplit := holders_split s k hk i
    have hsum := holders_setSenders s p building sending i
    have hle := count_le_holders (s.setSenders p building sending) k hk i
    change 0 < (s.stream k).queue.blocks.count i at hcount
    change (s.stream k).queue.blocks.count i ≤ _ at hle
    rcases hfewer i with hfewer | hzero
    · omega
    · omega
  · intro k hk
    exact faithful_congr (h.faithful k hk) (hkeep k hk)

/-- A block that nobody formats and that is on no receive queue. -/
def Sealed (s : State κ) (i : ℕ) : Prop :=
  i < s.pool.next ∧ i ∉ s.building ∧
    ∀ k ∈ s.opened, k.2 = .recvq → i ∉ (s.stream k).queue.blocks

/-- Such blocks are left alone. -/
def Frozen (s s' : State κ) : Prop :=
  ∀ i, Sealed s i → Sealed s' i ∧ ∀ b, s'.pool.item i = some b → s.pool.item i = some b

omit [DecidableEq κ] in
theorem Frozen.refl (s : State κ) : Frozen s s := fun _ h => ⟨h, fun _ hb => hb⟩

omit [DecidableEq κ] in
theorem Frozen.trans {s s' s'' : State κ} (h : Frozen s s') (h' : Frozen s' s'') : Frozen s s'' :=
  fun i hi => ⟨(h' i (h i hi).1).1, fun b hb => (h i hi).2 b ((h' i (h i hi).1).2 b hb)⟩

omit [DecidableEq κ] in
theorem Inv.sealed {s : State κ} (h : Inv s) {i : ℕ} (hi : 2 ≤ s.holders i) : Sealed s i := by
  refine ⟨h.counts.lt_next (by omega), ?_, ?_⟩
  · intro hmem
    have hone := h.building i hmem
    omega
  · intro k hk hrecv hmem
    have hone := (h.own k hk hrecv).one i hmem
    omega

theorem frozen_setStream {s : State κ} {k : κ × Side} (hk : k ∈ s.opened) (st : Stream)
    (p : BlockPool) (hnext : s.pool.next ≤ p.next)
    (hkeep : ∀ i, Sealed s i → ∀ b, p.item i = some b → s.pool.item i = some b)
    (hnew : k.2 = .recvq → ∀ i ∈ st.queue.blocks,
      i ∈ (s.stream k).queue.blocks ∨ s.pool.next ≤ i) : Frozen s (s.setStream k st p) := by
  intro i hi
  refine ⟨⟨lt_of_lt_of_le hi.1 hnext, hi.2.1, ?_⟩, hkeep i hi⟩
  intro k' hk' hrecv
  show i ∉ ((Function.update s.stream k st) k').queue.blocks
  by_cases heq : k' = k
  · subst heq
    rw [Function.update_self]
    intro hmem
    rcases hnew hrecv i hmem with hold | hge
    · exact hi.2.2 k' hk' hrecv hold
    · have hlt := hi.1
      omega
  · rw [Function.update_of_ne heq]
    exact hi.2.2 k' hk' hrecv

omit [DecidableEq κ] in
theorem frozen_senders {s : State κ} (p : BlockPool) (building sending : List ℕ)
    (hnext : s.pool.next ≤ p.next) (hnew : ∀ i ∈ building, i ∈ s.building ∨ s.pool.next ≤ i)
    (hkeep : ∀ i, Sealed s i → ∀ b, p.item i = some b → s.pool.item i = some b) :
    Frozen s (s.setSenders p building sending) := by
  intro i hi
  refine ⟨⟨lt_of_lt_of_le hi.1 hnext, ?_, hi.2.2⟩, hkeep i hi⟩
  intro hmem
  rcases hnew i hmem with hold | hge
  · exact hi.2.1 hold
  · have hlt := hi.1
    omega

/-- What every step keeps, and the blocks that senders hold after it. -/
structure Leads (s s' : State κ) (building sending : List ℕ) : Prop where
  inv : Inv s'
  frozen : Frozen s s'
  opened : s'.opened = s.opened
  building_eq : s'.building = building
  sending_eq : s'.sending = sending

/-- The step is no error. -/
def Good (s : State κ) (building sending : List ℕ) (res : Option (State κ)) : Prop :=
  ∃ s', res = some s' ∧ Leads s s' building sending

/-- The queues are nothing to the flags of the connections. -/
def SameQueues (s s' : State κ) : Prop := s' = { s with
  dead := s'.dead, closing := s'.closing, blocked := s'.blocked, calls := s'.calls }

omit [DecidableEq κ] in
theorem Inv.flags {s s' : State κ} (h : Inv s) (hs : SameQueues s s') : Inv s' := by
  rw [hs]
  exact ⟨h.counts, h.building, h.sending, h.own, h.faithful⟩

omit [DecidableEq κ] in
theorem good_flags {s s' : State κ} (hs : SameQueues s s') {building sending : List ℕ}
    {res : Option (State κ)} (h : Good s' building sending res) : Good s building sending res := by
  obtain ⟨s'', hres, hleads⟩ := h
  refine ⟨s'', hres, hleads.inv, ?_, ?_, hleads.building_eq, hleads.sending_eq⟩
  · rw [hs] at hleads
    exact hleads.frozen
  · rw [hs] at hleads
    exact hleads.opened

omit [DecidableEq κ] in
theorem good_some {s s' : State κ} (h : Inv s) (hs : SameQueues s s') :
    Good s s.building s.sending (some s') := by
  apply good_flags hs
  refine ⟨s', rfl, h.flags hs, Frozen.refl s', rfl, ?_, ?_⟩
  · rw [hs]
  · rw [hs]

omit [DecidableEq κ] in
theorem good_after {s s' : State κ} {building sending building' sending' : List ℕ}
    {res : Option (State κ)} (h : Leads s s' building sending)
    (hres : Good s' building' sending' res) : Good s building' sending' res := by
  obtain ⟨s'', hres, hleads⟩ := hres
  exact ⟨s'', hres, hleads.inv, h.frozen.trans hleads.frozen, hleads.opened.trans h.opened,
    hleads.building_eq, hleads.sending_eq⟩

omit [DecidableEq κ] in
theorem good_bind {s : State κ} {building sending building' sending' : List ℕ}
    {res : Option (State κ)} {f : State κ → Option (State κ)} (h : Good s building sending res)
    (hf : ∀ s', Leads s s' building sending → Good s' building' sending' (f s')) :
    Good s building' sending' (res.bind f) := by
  obtain ⟨s', rfl, hleads⟩ := h
  exact good_after hleads (hf s' hleads)

theorem good_delete {s : State κ} (h : Inv s) {k : κ × Side} (hk : k ∈ s.opened) (count : ℕ)
    (got : CStr) (hgot : got = (bytes (view s.pool (s.stream k).queue)).take count) :
    Good s s.building s.sending (s.delete k count got) := by
  obtain ⟨q, p, hdelete, hinv, hnext, hkeep, hmem⟩ := delete_spec h hk count got hgot
  rw [hdelete]
  exact ⟨_, rfl, hinv, frozen_setStream hk _ p hnext.ge (fun i _ b hb => hkeep i b hb)
    (fun _ i hi => Or.inl (hmem i hi)), rfl, rfl, rfl⟩

theorem good_clear {s : State κ} (h : Inv s) {k : κ × Side} (hk : k ∈ s.opened) :
    Good s s.building s.sending (s.clear k) := by
  apply good_delete h hk
  have htotal := (h.faithful k hk).wellFormed.total
  change (s.stream k).queue.totalSize = _ at htotal
  rw [htotal, List.take_length]

theorem good_consume {s : State κ} (h : Inv s) {c : κ} (hk : (c, Side.recvq) ∈ s.opened) (n : ℕ) :
    Good s s.building s.sending (s.consume c n) :=
  good_delete h hk n _ rfl

theorem held_of_queue {s : State κ} {k : κ × Side} (hk : k ∈ s.opened) {i : ℕ}
    (hi : i ∈ (s.stream k).queue.blocks) : 0 < s.holders i :=
  lt_of_lt_of_le (List.count_pos_iff.mpr hi) (count_le_holders s k hk i)

/-- There is something to offer to a socket as long as something is queued. -/
theorem offered_spec {s : State κ} (h : Inv s) {c : κ} (hk : (c, Side.sendq) ∈ s.opened)
    (hsize : (s.sendq c).totalSize ≠ 0) :
    ∃ rest, s.offered c = some rest ∧
      ∃ more, bytes (view s.pool (s.sendq c)) = rest ++ more := by
  have hwf := (h.faithful _ hk).wellFormed
  have hempty := totalSize_eq_zero_iff _ hwf
  unfold State.offered
  cases hblocks : (s.sendq c).blocks with
  | nil =>
    have hnil : (view s.pool (s.stream (c, .sendq)).queue).blocks = [] :=
      congrArg (List.map (block s.pool)) hblocks
    exact absurd (hempty.mpr hnil) hsize
  | cons i is =>
    have hheld : 0 < s.holders i := held_of_queue hk (by
      show i ∈ (s.sendq c).blocks
      rw [hblocks]
      exact List.mem_cons_self ..)
    have hview : view s.pool (s.sendq c) = ⟨block s.pool i :: is.map (block s.pool),
        (s.sendq c).totalSize, (s.sendq c).pos⟩ := by
      unfold view
      rw [hblocks]
      rfl
    change WellFormed (view s.pool (s.sendq c)) at hwf
    rw [hview] at hwf ⊢
    rw [List.head?_cons, Option.bind_some, item_eq_block h.counts hheld]
    exact ⟨_, rfl, _, (wellFormed_tail _ _ _ _ hwf).1⟩

theorem good_written {s : State κ} (h : Inv s) {c : κ} (hk : (c, Side.sendq) ∈ s.opened)
    {sent more : CStr} (hsent : bytes (view s.pool (s.sendq c)) = sent ++ more) :
    Good s s.building s.sending (s.written c sent) := by
  apply good_delete h hk
  change sent = (bytes (view s.pool (s.sendq c))).take sent.length
  rw [hsent, List.take_left]

theorem good_put {s : State κ} (h : Inv s) {c : κ} (hk : (c, Side.recvq) ∈ s.opened)
    (buf : CStr) : Good s s.building s.sending (s.put c buf) := by
  unfold State.put
  dsimp only
  have howned := h.own _ hk rfl
  have hfaithful := h.faithful _ hk
  obtain ⟨q, p, fresh, hput, hwritten, hview⟩ :=
    putLoop_view buf.length h.counts (s.stream (c, .recvq)).queue buf howned
  have hput' : dbufPut (s.stream (c, .recvq)).queue buf s.pool = some (q, p) := hput
  have hview' : view p q = Dbuf.dbufPut (view s.pool (s.stream (c, .recvq)).queue) buf := hview
  rw [hput']
  have hsum := holders_setStream s _ hk ⟨q, (s.stream (c, .recvq)).queued ++ buf,
    (s.stream (c, .recvq)).taken⟩ p
  have hholders : ∀ i, (s.setStream (c, .recvq) ⟨q, (s.stream (c, .recvq)).queued ++ buf,
      (s.stream (c, .recvq)).taken⟩ p).holders i = s.holders i + fresh.count i := by
    intro i
    have hi := hsum i
    rw [hwritten.blocks, List.count_append] at hi
    omega
  refine ⟨_, rfl, inv_setStream h hk _ p (hwritten.counts.congr hholders) ?_ ?_ ?_ ?_,
    frozen_setStream hk _ p hwritten.next_le ?_ ?_, rfl, rfl, rfl⟩
  · intro i hlt
    apply hwritten.others
    rw [hwritten.blocks]
    intro hmem
    rcases List.mem_append.mp hmem with hmem | hmem
    · have hone := howned.one i hmem
      have hcount := List.count_pos_iff.mpr hmem
      omega
    · have hzero := hwritten.fresh_new i hmem
      omega
  · intro i hi
    change i ∈ q.blocks at hi
    rw [hwritten.blocks] at hi
    rcases List.mem_append.mp hi with hi | hi
    · exact Or.inl hi
    · exact Or.inr (Or.inl (hwritten.fresh_new i hi))
  · intro _
    have howned' := hwritten.owned howned
    exact ⟨fun i hi => (hholders i).trans (howned'.one i hi), howned'.nodup⟩
  · refine ⟨?_, ?_⟩
    · show WellFormed (view p q)
      rw [hview']
      exact dbufPut_wellFormed _ buf hfaithful.wellFormed
    · show (s.stream (c, .recvq)).taken ++ bytes (view p q) = (s.stream (c, .recvq)).queued ++ buf
      rw [hview', bytes_dbufPut _ buf hfaithful.wellFormed, ← List.append_assoc,
        hfaithful.stream]
  · intro i hi b hb
    refine (hwritten.others i ?_).symm.trans hb
    rw [hwritten.blocks]
    intro hmem
    rcases List.mem_append.mp hmem with hmem | hmem
    · exact hi.2.2 _ hk rfl hmem
    · have hge := hwritten.fresh_ge i hmem
      have hlt := hi.1
      omega
  · intro _ i hi
    change i ∈ q.blocks at hi
    rw [hwritten.blocks] at hi
    exact (List.mem_append.mp hi).imp_right (hwritten.fresh_ge i)

theorem good_add {s : State κ} (h : Inv s) {i : ℕ} (hi : i ∈ s.sending) {c : κ}
    (hk : (c, Side.sendq) ∈ s.opened) : Good s s.building s.sending (s.add i c) := by
  unfold State.add
  dsimp only
  obtain ⟨b, hb, hne⟩ := h.sending i hi
  have hheld := h.counts.held_of_item hb
  have hblock : block s.pool i = b := Option.some.inj ((item_eq_block h.counts hheld).symm.trans hb)
  obtain ⟨p, hadd, hcounts, hnext, hitem⟩ :=
    dbufAdd_spec h.counts (s.stream (c, .sendq)).queue i hheld
  rw [hblock] at hadd
  rw [hb, Option.bind_some, hadd]
  have hfaithful := h.faithful _ hk
  have hsum := holders_setStream s _ hk ⟨⟨(s.stream (c, .sendq)).queue.blocks ++ [i],
    (s.stream (c, .sendq)).queue.totalSize + b.data.length,
    (s.stream (c, .sendq)).queue.pos⟩, (s.stream (c, .sendq)).queued ++ b.data,
    (s.stream (c, .sendq)).taken⟩ p
  refine ⟨_, rfl, inv_setStream h hk _ p (hcounts.congr ?_) ?_ ?_
    (fun hrecv => absurd hrecv (by simp)) ?_, frozen_setStream hk _ p hnext.ge
    (fun j _ b' hb' => by rwa [hitem] at hb') (fun hrecv => absurd hrecv (by simp)), rfl, rfl, rfl⟩
  · intro j
    have hj := hsum j
    rw [List.count_append] at hj
    dsimp only
    omega
  · exact fun j _ => congrFun hitem j
  · intro j hj
    rcases List.mem_append.mp hj with hj | hj
    · exact Or.inl hj
    · exact Or.inr (Or.inr (List.mem_singleton.mp hj ▸ hi))
  · have hview : view p ⟨(s.stream (c, .sendq)).queue.blocks ++ [i],
        (s.stream (c, .sendq)).queue.totalSize + b.data.length,
        (s.stream (c, .sendq)).queue.pos⟩ =
        ⟨(view s.pool (s.stream (c, .sendq)).queue).blocks ++ [b],
          (view s.pool (s.stream (c, .sendq)).queue).totalSize + b.data.length,
          (view s.pool (s.stream (c, .sendq)).queue).pos⟩ := by
      unfold view block
      rw [hitem, List.map_append, List.map_cons, List.map_nil, hb]
      rfl
    obtain ⟨hwf, hbytes⟩ := append_spec _ b hfaithful.wellFormed hne
    refine ⟨?_, ?_⟩
    · rw [hview]
      exact hwf
    · show (s.stream (c, .sendq)).taken ++ bytes (view p _) = (s.stream (c, .sendq)).queued ++ b.data
      rw [hview, hbytes, ← List.append_assoc, hfaithful.stream]

theorem alloc_spec {s : State κ} (h : Inv s) :
    Leads s s.alloc (s.pool.next :: s.building) s.sending := by
  have hnew : s.holders s.pool.next = 0 :=
    h.counts.gone _ (h.counts.beyond _ (Nat.le_refl _)).1
  have hitem : ∀ i, i ≠ s.pool.next → (s.pool.alloc dbufAlloc).2.item i = s.pool.item i := by
    intro i hi
    rw [item_alloc, Function.update_of_ne hi]
  have hheld : ∀ i, 0 < s.holders i → i ≠ s.pool.next := by
    rintro i hi rfl
    omega
  have hholders : ∀ i, s.alloc.holders i = s.holders i + [s.pool.next].count i := by
    intro i
    have hsum := holders_setSenders s (s.pool.alloc dbufAlloc).2
      (s.pool.next :: s.building) s.sending i
    have hcons : (s.pool.next :: s.building).count i =
        [s.pool.next].count i + s.building.count i := by
      rw [show s.pool.next :: s.building = [s.pool.next] ++ s.building from rfl,
        List.count_append]
    change s.alloc.holders i + _ = _ at hsum
    omega
  refine ⟨inv_senders h _ _ _ ((counts_alloc h.counts dbufAlloc).congr hholders) ?_ ?_ ?_ ?_,
    frozen_senders _ _ _ (Nat.le_succ _) ?_ ?_, rfl, rfl, rfl⟩
  · exact fun k hk i hi => hitem i (hheld i (held_of_queue hk hi))
  · intro i hi
    change i ∈ s.pool.next :: s.building at hi
    refine (hholders i).trans ?_
    rw [count_one]
    rcases List.mem_cons.mp hi with rfl | hi
    · rw [if_pos rfl, hnew]
    · have hone := h.building i hi
      rw [if_neg (hheld i (by omega)), hone]
  · intro i hi
    obtain ⟨b, hb, hne⟩ := h.sending i hi
    exact ⟨b, (hitem i (hheld i (h.counts.held_of_item hb))).trans hb, hne⟩
  · intro i
    by_cases hi : i = s.pool.next
    · exact Or.inr (hi ▸ hnew)
    · refine Or.inl (le_of_eq ?_)
      show (s.pool.next :: s.building).count i + _ = _
      rw [List.count_cons_of_ne (Ne.symm hi)]
  · intro i hi
    rcases List.mem_cons.mp hi with rfl | hi
    · exact Or.inr (Nat.le_refl _)
    · exact Or.inl hi
  · intro i hi b hb
    exact (hitem i hi.1.ne).symm.trans hb

/-- The block that a sender is formatting is on no queue, and on its way to nobody. -/
theorem not_queued_of_building {s : State κ} (h : Inv s) {i : ℕ} (hi : i ∈ s.building)
    {k : κ × Side} (hk : k ∈ s.opened) : i ∉ (s.stream k).queue.blocks := by
  intro hmem
  have hone := h.building i hi
  have hlt := count_lt_holders_of_sender s k hk i (Or.inl hi)
  have hcount := List.count_pos_iff.mpr hmem
  omega

omit [DecidableEq κ] in
theorem not_sending_of_building {s : State κ} (h : Inv s) {i : ℕ} (hi : i ∈ s.building) :
    i ∉ s.sending := by
  intro hmem
  have hone := h.building i hi
  have hb := List.count_pos_iff.mpr hi
  have hs := List.count_pos_iff.mpr hmem
  unfold State.holders at hone
  omega

omit [DecidableEq κ] in
theorem format_spec {s : State κ} (h : Inv s) {i : ℕ} (hi : i ∈ s.building) (b : DbufBlock) :
    s.target i = some (block s.pool i) ∧ ∃ p, s.pool.write i b = some p ∧ Counts p s.holders ∧
      p.next = s.pool.next ∧ p.item i = some b ∧ ∀ j, j ≠ i → p.item j = s.pool.item j := by
  have hone := h.building i hi
  obtain ⟨a, ha⟩ := h.counts.item_of_held (by omega : 0 < s.holders i)
  obtain ⟨p, hwrite, hcounts, hnext, hitem⟩ := counts_write h.counts (by omega : 0 < s.holders i) b
  refine ⟨?_, p, hwrite, hcounts, hnext, ?_, ?_⟩
  · unfold State.target block Pool.item
    rw [ha, Option.bind_some, if_pos hone]
    rfl
  · rw [hitem, Function.update_self]
  · intro j hj
    rw [hitem, Function.update_of_ne hj]

theorem good_putFmt {s : State κ} (h : Inv s) {i : ℕ} (hi : i ∈ s.building) (text : CStr) :
    Good s s.building s.sending (s.putFmt i text) := by
  obtain ⟨htarget, p, hwrite, hcounts, hnext, -, hother⟩ :=
    format_spec h hi (appended (block s.pool i) text)
  unfold State.putFmt
  rw [htarget, Option.bind_some, hwrite]
  refine ⟨_, rfl, inv_senders h p s.building s.sending hcounts ?_ h.building ?_
    (fun j => Or.inl (Nat.le_refl _)), frozen_senders p _ _ hnext.ge (fun _ hj => Or.inl hj) ?_,
    rfl, rfl, rfl⟩
  · intro k hk j hj
    exact hother j (fun heq => not_queued_of_building h hi hk (heq ▸ hj))
  · intro j hj
    obtain ⟨b, hb, hne⟩ := h.sending j hj
    exact ⟨b, (hother j (fun heq => not_sending_of_building h hi (heq ▸ hj))).trans hb, hne⟩
  · intro j hj b hb
    exact (hother j (fun heq => hj.2.1 (heq ▸ hi))).symm.trans hb

theorem good_sendFormat {s : State κ} (h : Inv s) {i : ℕ} (hi : i ∈ s.building) (text : CStr) :
    Good s (s.building.erase i) (i :: s.sending) (s.sendFormat i text) := by
  obtain ⟨htarget, p, hwrite, hcounts, hnext, hitem, hother⟩ :=
    format_spec h hi (formatted (block s.pool i) text)
  have hmove : ∀ j, (s.building.erase i).count j + (i :: s.sending).count j =
      s.building.count j + s.sending.count j := by
    intro j
    by_cases hj : j = i
    · have hpos := List.count_pos_iff.mpr hi
      rw [hj, List.count_erase_self, List.count_cons_self]
      omega
    · rw [List.count_erase_of_ne hj, List.count_cons_of_ne (Ne.symm hj)]
  have hholders : ∀ j, (s.setSenders p (s.building.erase i) (i :: s.sending)).holders j =
      s.holders j := by
    intro j
    have hsum := holders_setSenders s p (s.building.erase i) (i :: s.sending) j
    have hj := hmove j
    omega
  unfold State.sendFormat
  rw [htarget, Option.bind_some, hwrite]
  refine ⟨_, rfl, inv_senders h p _ _ (hcounts.congr hholders) ?_ ?_ ?_
    (fun j => Or.inl (le_of_eq (hmove j))), frozen_senders p _ _ hnext.ge
    (fun _ hj => Or.inl (List.mem_of_mem_erase hj)) ?_, rfl, rfl, rfl⟩
  · intro k hk j hj
    exact hother j (fun heq => not_queued_of_building h hi hk (heq ▸ hj))
  · intro j hj
    rw [hholders]
    exact h.building j (List.mem_of_mem_erase hj)
  · intro j hj
    by_cases heq : j = i
    · exact ⟨_, heq ▸ hitem, List.append_ne_nil_of_right_ne_nil _ (List.cons_ne_nil _ _)⟩
    · obtain ⟨b, hb, hne⟩ := h.sending j ((List.mem_cons.mp hj).resolve_left heq)
      exact ⟨b, (hother j heq).trans hb, hne⟩
  · intro j hj b hb
    exact (hother j (fun heq => hj.2.1 (heq ▸ hi))).symm.trans hb

theorem good_refFree {s : State κ} (h : Inv s) {i : ℕ} (hi : i ∈ s.sending) :
    Good s s.building (s.sending.erase i) (s.refFree i) := by
  have hpos := List.count_pos_iff.mpr hi
  have hheld : 0 < s.holders i := by
    unfold State.holders
    omega
  obtain ⟨p, hdrop, hcounts, hnext, hkeep⟩ := counts_drop h.counts hheld
  have hless : ∀ j, (s.sending.erase i).count j + [i].count j = s.sending.count j := by
    intro j
    rw [count_one]
    by_cases hj : j = i
    · rw [if_pos hj, hj, List.count_erase_self]
      omega
    · rw [if_neg hj, List.count_erase_of_ne hj]
      rfl
  have hholders : ∀ j, (s.setSenders p s.building (s.sending.erase i)).holders j =
      s.holders j - [i].count j := by
    intro j
    have hsum := holders_setSenders s p s.building (s.sending.erase i) j
    have hj := hless j
    omega
  have hitem : ∀ j, 0 < (s.setSenders p s.building (s.sending.erase i)).holders j →
      p.item j = s.pool.item j := by
    intro j hj
    rw [hholders j] at hj
    exact hcounts.item_kept hkeep hj
  unfold State.refFree
  rw [hdrop]
  refine ⟨_, rfl, inv_senders h p s.building _ (hcounts.congr hholders) ?_ ?_ ?_ ?_,
    frozen_senders p _ _ hnext.ge (fun _ hj => Or.inl hj) (fun j _ b hb => hkeep j b hb),
    rfl, rfl, rfl⟩
  · intro k hk j hj
    exact hitem j (lt_of_lt_of_le (List.count_pos_iff.mpr hj)
      (count_le_holders (s.setSenders p s.building (s.sending.erase i)) k hk j))
  · intro j hj
    have hne : j ≠ i := fun heq => not_sending_of_building h hj (heq ▸ hi)
    rw [hholders j, count_one, if_neg hne]
    exact h.building j hj
  · intro j hj
    obtain ⟨b, hb, hne⟩ := h.sending j (List.mem_of_mem_erase hj)
    refine ⟨b, (hitem j ?_).trans hb, hne⟩
    have hcount := List.count_pos_iff.mpr hj
    unfold State.holders
    exact Nat.add_pos_right _ (Nat.add_pos_right _ hcount)
  · intro j
    left
    have hj := hless j
    omega

theorem connect_spec {s : State κ} (h : Inv s) (k : κ × Side) :
    Inv (s.connect k) ∧ Frozen s (s.connect k) := by
  unfold State.connect
  by_cases hk : k ∈ s.opened
  · rw [if_pos hk]
    exact ⟨h, Frozen.refl s⟩
  · rw [if_neg hk]
    have hother : ∀ k' ∈ s.opened, Function.update s.stream k Stream.new k' = s.stream k' :=
      fun k' hk' => Function.update_of_ne (fun heq : k' = k => hk (heq ▸ hk')) ..
    have hholders : ∀ i, State.holders ({ s with
        opened := insert k s.opened, stream := Function.update s.stream k Stream.new } : State κ) i =
        s.holders i := by
      intro i
      have hsum : ∑ k' ∈ s.opened,
          (Function.update s.stream k Stream.new k').queue.blocks.count i =
          ∑ k' ∈ s.opened, (s.stream k').queue.blocks.count i := by
        apply Finset.sum_congr rfl
        intro k' hk'
        rw [hother k' hk']
      unfold State.holders
      dsimp only
      rw [Finset.sum_insert hk, hsum, Function.update_self]
      exact congrArg (· + _) (Nat.zero_add _)
    refine ⟨⟨h.counts.congr hholders, ?_, h.sending, ?_, ?_⟩,
      fun i hi => ⟨⟨hi.1, hi.2.1, ?_⟩, fun _ hb => hb⟩⟩
    · intro i hi
      rw [hholders]
      exact h.building i hi
    · intro k' hk' hrecv
      show Owned (Function.update s.stream k Stream.new k').queue _
      rcases Finset.mem_insert.mp hk' with rfl | hk'
      · rw [Function.update_self]
        exact ⟨fun i hi => absurd hi (List.not_mem_nil), List.nodup_nil⟩
      · rw [hother k' hk']
        have howned := h.own k' hk' hrecv
        exact ⟨fun i hi => (hholders i).trans (howned.one i hi), howned.nodup⟩
    · intro k' hk'
      show Faithful s.pool (Function.update s.stream k Stream.new k')
      rcases Finset.mem_insert.mp hk' with rfl | hk'
      · rw [Function.update_self]
        exact faithful_new s.pool
      · rw [hother k' hk']
        exact h.faithful k' hk'
    · intro k' hk' hrecv
      show i ∉ (Function.update s.stream k Stream.new k').queue.blocks
      rcases Finset.mem_insert.mp hk' with rfl | hk'
      · rw [Function.update_self]
        exact List.not_mem_nil
      · rw [hother k' hk']
        exact hi.2.2 k' hk' hrecv

end IrcdHybrid.SharedStreams
