import IrcdHybrid.SharedStreams

/-!
The senders of send.c, and what else happens to the queues. A message is formatted once, queued
on every connection it goes to, and let go; each connection writes what its socket takes, and
dies when a write fails or when too much is queued for it. In any order of these, whatever the
sockets answer, no step is an error, every queue keeps its stream, and what is shared is not
written to.
-/

namespace IrcdHybrid.SharedSend

open CString Dbuf RefPool SharedDbuf SharedStreams

/-- What `send` or `SSL_write` answers. -/
inductive Sent where
  | wrote (n : ℕ)
  | again
  | wantRead
  | failed

/-- What the senders ask of the rest of the server: the answers of the sockets, `get_sendq`,
`IsServer`, and the notices to operators, of a server's full queue and of a fake direction. -/
structure Env (κ : Type*) where
  socket : ℕ → Sent
  getSendq : κ → ℕ
  isServer : κ → Bool
  told : κ → State κ → List (κ × CStr)

variable {κ : Type*} [DecidableEq κ]

/-- A connection has both queues. -/
def Connected (s : State κ) (c : κ) : Prop := (c, Side.sendq) ∈ s.opened ∧ (c, Side.recvq) ∈ s.opened

instance (s : State κ) (c : κ) : Decidable (Connected s c) := inferInstanceAs (Decidable (_ ∧ _))

def clearBoth (c : κ) (s : State κ) : Option (State κ) :=
  (s.clear (c, .recvq)).bind fun s => s.clear (c, .sendq)

/-- `closing` stands for `FLAGS_CLOSING` and `FLAGS_KILLED`. -/
def isDefunct (s : State κ) (c : κ) : Bool := s.dead c || s.closing c

/-- `dead_link_on_write`, and `dead_link_on_read` up to its messages. -/
def deadLink (c : κ) (s : State κ) : Option (State κ) :=
  if isDefunct s c then some s
  else (clearBoth c s).bind fun s => some { s with dead := Function.update s.dead c true }

/-- `read_packet` on one chunk, up to the parsing. -/
def receive (c : κ) (buf : CStr) (s : State κ) : Option (State κ) :=
  if isDefunct s c then some s else s.put c buf

section Send

variable (env : Env κ)

/-- The loop of `send_queued_write`. Every turn that goes on takes bytes off the queue, so that its
length bounds the loop. -/
def writeLoop (c : κ) : ℕ → State κ → Option (State κ)
  | 0, s => some s
  | fuel + 1, s =>
    if (s.sendq c).totalSize = 0 then some s
    else (s.offered c).bind fun rest =>
      let next := { s with calls := s.calls + 1 }
      match env.socket s.calls with
      | .wrote n =>
        if (rest.take n).length = 0 then deadLink c next
        else (next.written c (rest.take n)).bind (writeLoop c fuel)
      | .again => some { next with blocked := Function.update s.blocked c true }
      | .wantRead => some next
      | .failed => deadLink c next

def sendQueuedWrite (c : κ) (s : State κ) : Option (State κ) :=
  if s.dead c || s.blocked c then some s else writeLoop env c (s.sendq c).totalSize s

/-- `send_message`; `tell` sends the notice. -/
def sendMessage (tell : κ → State κ → Option (State κ)) (i : ℕ) (c : κ) (s : State κ) :
    Option (State κ) :=
  (s.pool.item i).bind fun b =>
    if env.getSendq c < (s.sendq c).totalSize + b.data.length then
      (if env.isServer c then tell c s else some s).bind (deadLink c)
    else (s.add i c).bind (sendQueuedWrite env c)

/-- The loop of a sender: `test` is what it asks of a connection at its turn, and the number says
which of its messages this one gets, if there is no `Fake Dir` to tell of. -/
def sendAll (tell : κ → State κ → Option (State κ)) (test : State κ → κ → Bool) (blocks : List ℕ) :
    List (κ × Option ℕ) → State κ → Option (State κ)
  | [], s => some s
  | (c, message) :: targets, s =>
    (if Connected s c ∧ test s c = true then
      match message with
      | none => tell c s
      | some k => (blocks[k]?).elim (some s) fun i => sendMessage env tell i c s
    else some s).bind (sendAll tell test blocks targets)

def putAll (i : ℕ) : List CStr → State κ → Option (State κ)
  | [], s => some s
  | part :: parts, s => (s.putFmt i part).bind (putAll i parts)

/-- One message to many, or one to the own clients and one to the servers: `dbuf_alloc`,
`dbuf_put_fmt` for what stands in front, `send_format`, the loop, and `dbuf_ref_free`. Two messages
take turns at this in the source, each at its own block. -/
def sendto (tell : κ → State κ → Option (State κ)) (test : State κ → κ → Bool)
    (targets : List (κ × Option ℕ)) : List ℕ → List (List CStr × CStr) → State κ → Option (State κ)
  | blocks, [], s => sendAll env tell test blocks targets s
  | blocks, (parts, text) :: messages, s =>
    let i := s.pool.next
    (putAll i parts s.alloc).bind fun s =>
    (s.sendFormat i text).bind fun s =>
    (sendto tell test targets (blocks ++ [i]) messages s).bind fun s =>
    s.refFree i

/-- `sendto_one` to an operator, whose full queue is told to nobody. -/
def sendtoOne (c : κ) (text : CStr) (s : State κ) : Option (State κ) :=
  if s.dead c then some s
  else sendto env (fun _ s => some s) (fun _ _ => true) [(c, some 0)] [] [([], text)] s

/-- `sendto_realops_flags`: each operator gets a line with the own name. -/
def sendtoRealops : List (κ × CStr) → State κ → Option (State κ)
  | [], s => some s
  | (c, text) :: opers, s => (sendtoOne env c text s).bind (sendtoRealops opers)

def tellOpers (c : κ) (s : State κ) : Option (State κ) := sendtoRealops env (env.told c s) s

/-- `sendto_server`; `pass` stands for its tests of `one`, `caps` and `nocaps`. -/
def sendtoServer (links : List κ) (pass : κ → Bool) (text : CStr) (s : State κ) :
    Option (State κ) :=
  sendto env (tellOpers env) (fun s c => !s.dead c && pass c) (links.map fun c => (c, some 0)) []
    [([], text)] s

def sendqUnblocked (c : κ) (s : State κ) : Option (State κ) :=
  sendQueuedWrite env c { s with blocked := Function.update s.blocked c false }

/-- `close_connection`. -/
def closeConnection (c : κ) (s : State κ) : Option (State κ) :=
  (if s.dead c then some s else sendqUnblocked env c s).bind (clearBoth c)

/-- What happens to queues. `sendto` is any sender of send.c. -/
inductive Event (κ : Type*) where
  | connect (c : κ)
  | sendtoServer (links : List κ) (pass : κ → Bool) (text : CStr)
  | sendto (messages : List (List CStr × CStr)) (test : State κ → κ → Bool)
      (targets : List (κ × Option ℕ))
  | sendqUnblocked (c : κ)
  | readPacket (c : κ) (buf : CStr)
  | extractOneLine (c : κ) (n : ℕ)
  | deadLink (c : κ)
  | setClosing (c : κ)
  | closeConnection (c : κ)
  | freeClient (c : κ)

/-- An event at a connection that is there. -/
def ofConnection (c : κ) (f : State κ → Option (State κ)) (s : State κ) : Option (State κ) :=
  if Connected s c then f s else some s

def step (s : State κ) : Event κ → Option (State κ)
  | .connect c => some ((s.connect (c, .sendq)).connect (c, .recvq))
  | .sendtoServer links pass text => sendtoServer env links pass text s
  | .sendto messages test targets => sendto env (tellOpers env) test targets [] messages s
  | .sendqUnblocked c => ofConnection c (sendqUnblocked env c) s
  | .readPacket c buf => ofConnection c (receive c buf) s
  | .extractOneLine c n => ofConnection c (fun s => s.consume c n) s
  | .deadLink c => ofConnection c (deadLink c) s
  | .setClosing c => some { s with closing := Function.update s.closing c true }
  | .closeConnection c => ofConnection c (closeConnection env c) s
  | .freeClient c => ofConnection c (clearBoth c) s

end Send

/-- The events, each with what the rest of the server is like then. -/
def run : List (Env κ × Event κ) → State κ → Option (State κ)
  | [], s => some s
  | (env, e) :: events, s => (step env s e).bind (run events)

/-- The senders hold what they held before. -/
abbrev Fine (s : State κ) (res : Option (State κ)) : Prop := Good s s.building s.sending res

omit [DecidableEq κ] in
theorem fine_bind {s : State κ} {res : Option (State κ)} {f : State κ → Option (State κ)}
    (h : Fine s res) (hf : ∀ s', SharedStreams.Inv s' → s'.opened = s.opened →
      s'.sending = s.sending → Fine s' (f s')) : Fine s (res.bind f) := by
  apply good_bind h
  intro s' hs'
  have hfine := hf s' hs'.inv hs'.opened hs'.sending_eq
  unfold Fine at hfine
  rwa [hs'.building_eq, hs'.sending_eq] at hfine

omit [DecidableEq κ] in
theorem Connected.congr {s s' : State κ} {c : κ} (h : Connected s c) (hs : s'.opened = s.opened) :
    Connected s' c := by
  unfold Connected
  rwa [hs]

theorem fine_clearBoth {s : State κ} (h : Inv s) {c : κ} (hc : Connected s c) :
    Fine s (clearBoth c s) := by
  apply fine_bind (good_clear h hc.2)
  intro s' h' hopened _
  exact good_clear h' (hc.congr hopened).1

theorem fine_deadLink {s : State κ} (h : Inv s) {c : κ} (hc : Connected s c) :
    Fine s (deadLink c s) := by
  unfold deadLink
  split
  · exact good_some h rfl
  · apply fine_bind (fine_clearBoth h hc)
    intro s' h' _ _
    exact good_some h' rfl

section Send

variable (env : Env κ)

theorem fine_writeLoop (fuel : ℕ) {s : State κ} (h : Inv s) {c : κ} (hc : Connected s c) :
    Fine s (writeLoop env c fuel s) := by
  induction fuel generalizing s with
  | zero => exact good_some h rfl
  | succ fuel ih =>
    unfold writeLoop
    split
    · exact good_some h rfl
    next hsize =>
    obtain ⟨rest, hoffered, more, hbytes⟩ := offered_spec h hc.1 hsize
    rw [hoffered, Option.bind_some]
    dsimp only
    apply good_flags (show SameQueues s { s with calls := s.calls + 1 } from rfl)
    have hnext : SharedStreams.Inv { s with calls := s.calls + 1 } := h.flags rfl
    split
    · split
      · exact fine_deadLink hnext hc
      · next n _ _ =>
        have hsplit : bytes (view s.pool (s.sendq c)) = rest.take n ++ (rest.drop n ++ more) := by
          rw [← List.append_assoc, List.take_append_drop]
          exact hbytes
        apply fine_bind (good_written hnext hc.1 hsplit)
        intro s' h' hopened _
        exact ih h' (hc.congr hopened)
    · exact good_some hnext rfl
    · exact good_some hnext rfl
    · exact fine_deadLink hnext hc

theorem fine_sendQueuedWrite {s : State κ} (h : Inv s) {c : κ} (hc : Connected s c) :
    Fine s (sendQueuedWrite env c s) := by
  unfold sendQueuedWrite
  split
  · exact good_some h rfl
  · exact fine_writeLoop env _ h hc

/-- A notice is fine, whichever connection it is about. -/
def Telling (tell : κ → State κ → Option (State κ)) : Prop :=
  ∀ c s, SharedStreams.Inv s → Fine s (tell c s)

theorem fine_sendMessage {tell : κ → State κ → Option (State κ)} (htell : Telling tell)
    {s : State κ} (h : Inv s) {i : ℕ} (hi : i ∈ s.sending) {c : κ} (hc : Connected s c) :
    Fine s (sendMessage env tell i c s) := by
  obtain ⟨b, hb, -⟩ := h.sending i hi
  unfold sendMessage
  rw [hb, Option.bind_some]
  split
  · have hnotice : Fine s (if env.isServer c then tell c s else some s) := by
      split
      · exact htell c s h
      · exact good_some h rfl
    apply fine_bind hnotice
    intro s' h' hopened _
    exact fine_deadLink h' (hc.congr hopened)
  · apply fine_bind (good_add h hi hc.1)
    intro s' h' hopened _
    exact fine_sendQueuedWrite env h' (hc.congr hopened)

theorem fine_sendAll {tell : κ → State κ → Option (State κ)} (htell : Telling tell)
    (test : State κ → κ → Bool) (blocks : List ℕ) (targets : List (κ × Option ℕ)) {s : State κ}
    (h : Inv s) (hblocks : ∀ i ∈ blocks, i ∈ s.sending) :
    Fine s (sendAll env tell test blocks targets s) := by
  induction targets generalizing s with
  | nil => exact good_some h rfl
  | cons target targets ih =>
    obtain ⟨c, message⟩ := target
    unfold sendAll
    have hturn : Fine s (if Connected s c ∧ test s c = true then
        match message with
        | none => tell c s
        | some k => (blocks[k]?).elim (some s) fun i => sendMessage env tell i c s
      else some s) := by
      split
      · next hc =>
        cases message with
        | none => exact htell c s h
        | some k =>
          dsimp only
          cases hk : blocks[k]? with
          | none => exact good_some h rfl
          | some i => exact fine_sendMessage env htell h (hblocks i (List.mem_of_getElem? hk)) hc.1
      · exact good_some h rfl
    apply fine_bind hturn
    intro s' h' _ hsending
    exact ih h' (hsending ▸ hblocks)

end Send

theorem fine_putAll {i : ℕ} (parts : List CStr) {s : State κ} (h : Inv s) (hi : i ∈ s.building) :
    Fine s (putAll i parts s) := by
  induction parts generalizing s with
  | nil => exact good_some h rfl
  | cons part parts ih =>
    apply good_bind (good_putFmt h hi part)
    intro s' hs'
    have hfine := ih hs'.inv (hs'.building_eq ▸ hi)
    unfold Fine at hfine
    rwa [hs'.building_eq, hs'.sending_eq] at hfine

section Send

variable (env : Env κ)

/-- A sender's block is its own until it is formatted, then goes to the targets, and is let go at
last. -/
theorem fine_sendto {tell : κ → State κ → Option (State κ)} (htell : Telling tell)
    (test : State κ → κ → Bool) (targets : List (κ × Option ℕ)) (messages : List (List CStr × CStr))
    (blocks : List ℕ) {s : State κ} (h : Inv s) (hblocks : ∀ i ∈ blocks, i ∈ s.sending) :
    Fine s (sendto env tell test targets blocks messages s) := by
  induction messages generalizing s blocks with
  | nil => exact fine_sendAll env htell test blocks targets h hblocks
  | cons message messages ih =>
    obtain ⟨parts, text⟩ := message
    have halloc := alloc_spec h
    unfold sendto
    apply good_after halloc
    have hput := fine_putAll (i := s.pool.next) parts halloc.inv (List.mem_cons_self ..)
    apply good_bind hput
    intro s₂ h₂
    have hformat := good_sendFormat h₂.inv (i := s.pool.next) (by
      rw [h₂.building_eq]
      exact List.mem_cons_self ..) text
    rw [h₂.building_eq, h₂.sending_eq, halloc.building_eq, halloc.sending_eq,
      List.erase_cons_head] at hformat
    apply good_bind hformat
    intro s₃ h₃
    have hsend := ih (blocks ++ [s.pool.next]) h₃.inv (by
      intro i hi
      rw [h₃.sending_eq]
      rcases List.mem_append.mp hi with hi | hi
      · exact List.mem_cons_of_mem _ (hblocks i hi)
      · rw [List.mem_singleton.mp hi]
        exact List.mem_cons_self ..)
    unfold Fine at hsend
    rw [h₃.building_eq, h₃.sending_eq] at hsend
    apply good_bind hsend
    intro s₄ h₄
    have hfree := good_refFree h₄.inv (i := s.pool.next) (by
      rw [h₄.sending_eq]
      exact List.mem_cons_self ..)
    rwa [h₄.building_eq, h₄.sending_eq, List.erase_cons_head] at hfree

theorem telling_opers : Telling (tellOpers env) := by
  intro c s h
  unfold tellOpers
  generalize env.told c s = opers
  induction opers generalizing s with
  | nil => exact good_some h rfl
  | cons oper opers ih =>
    have hone : Fine s (sendtoOne env oper.1 oper.2 s) := by
      unfold sendtoOne
      split
      · exact good_some h rfl
      · exact fine_sendto env (fun _ s' h' => good_some h' (show SameQueues s' s' from rfl)) _ _ _ [] h
          (by simp)
    apply fine_bind hone
    intro s' h' _ _
    exact ih s' h'

theorem fine_sendqUnblocked {s : State κ} (h : Inv s) {c : κ} (hc : Connected s c) :
    Fine s (sendqUnblocked env c s) :=
  have hsame : SameQueues s { s with blocked := Function.update s.blocked c false } := rfl
  good_flags hsame (fine_sendQueuedWrite env (h.flags hsame) hc)

theorem fine_closeConnection {s : State κ} (h : Inv s) {c : κ} (hc : Connected s c) :
    Fine s (closeConnection env c s) := by
  have hflush : Fine s (if s.dead c then some s else sendqUnblocked env c s) := by
    split
    · exact good_some h rfl
    · exact fine_sendqUnblocked env h hc
  apply fine_bind hflush
  intro s' h' hopened _
  exact fine_clearBoth h' (hc.congr hopened)

theorem fine_at {s : State κ} (h : Inv s) {c : κ} {f : State κ → Option (State κ)}
    (hf : Connected s c → Fine s (f s)) : Fine s (ofConnection c f s) := by
  unfold ofConnection
  split
  · next hc => exact hf hc
  · exact good_some h rfl

theorem step_spec {s : State κ} (h : Inv s) (e : Event κ) :
    ∃ s', step env s e = some s' ∧ SharedStreams.Inv s' ∧ Frozen s s' := by
  have hfine : ∀ {res : Option (State κ)}, Fine s res →
      ∃ s', res = some s' ∧ SharedStreams.Inv s' ∧ Frozen s s' := by
    rintro res ⟨s', hres, hleads⟩
    exact ⟨s', hres, hleads.inv, hleads.frozen⟩
  cases e with
  | connect c =>
    obtain ⟨hinv, hfrozen⟩ := connect_spec h (c, Side.sendq)
    obtain ⟨hinv', hfrozen'⟩ := connect_spec hinv (c, Side.recvq)
    exact ⟨_, rfl, hinv', hfrozen.trans hfrozen'⟩
  | sendtoServer links pass text =>
    exact hfine (fine_sendto env (telling_opers env) _ _ _ [] h (by simp))
  | sendto messages test targets =>
    exact hfine (fine_sendto env (telling_opers env) test targets messages [] h (by simp))
  | sendqUnblocked c => exact hfine (fine_at h (fine_sendqUnblocked env h))
  | readPacket c buf =>
    have hput : Connected s c → Fine s (if isDefunct s c then some s else s.put c buf) := by
      intro hc
      split
      · exact good_some h rfl
      · exact good_put h hc.2 buf
    exact hfine (fine_at (f := receive c buf) h hput)
  | extractOneLine c n => exact hfine (fine_at (f := fun s => s.consume c n) h (fun hc => good_consume h hc.2 n))
  | deadLink c => exact hfine (fine_at h (fine_deadLink h))
  | setClosing c => exact hfine (good_some h rfl)
  | closeConnection c => exact hfine (fine_at h (fine_closeConnection env h))
  | freeClient c => exact hfine (fine_at h (fine_clearBoth h))

end Send

theorem run_spec (events : List (Env κ × Event κ)) {s : State κ} (h : Inv s) :
    ∃ s', run events s = some s' ∧ SharedStreams.Inv s' ∧ Frozen s s' := by
  induction events generalizing s with
  | nil => exact ⟨s, rfl, h, Frozen.refl s⟩
  | cons event events ih =>
    obtain ⟨s₁, hstep, hinv, hfrozen⟩ := step_spec event.1 h event.2
    obtain ⟨s₂, hrun, hinv₂, hfrozen₂⟩ := ih hinv
    refine ⟨s₂, ?_, hinv₂, hfrozen.trans hfrozen₂⟩
    unfold run
    rw [hstep, Option.bind_some]
    exact hrun

/-- What the state shows of a run. -/
structure Kept (s : State κ) : Prop where
  stream : ∀ k ∈ s.opened, (s.stream k).taken ++ bytes (view s.pool (s.stream k).queue) =
    (s.stream k).queued
  total : ∀ k ∈ s.opened, (s.stream k).queue.totalSize =
    (bytes (view s.pool (s.stream k).queue)).length
  released : ∀ i < s.pool.next, s.pool.released i = if s.holders i = 0 then 1 else 0
  alive : ∀ k ∈ s.opened, ∀ i ∈ (s.stream k).queue.blocks, (s.pool.item i).isSome = true

theorem kept_of_inv {s : State κ} (h : Inv s) : Kept s := by
  refine ⟨fun k hk => (h.faithful k hk).stream, fun k hk => (h.faithful k hk).wellFormed.total,
    fun i hi => h.counts.released_eq hi, ?_⟩
  intro k hk i hi
  rw [item_eq_block h.counts (held_of_queue hk hi)]
  rfl

/-- In any order of sends, partial writes, reads and clears, over any number of connections, no
block is used that is not there, every queue keeps its stream, and a block that has been shared
is not written to as long as it is there. -/
theorem shared_streams (before events : List (Env κ × Event κ)) :
    ∃ s s', run before (State.init : State κ) = some s ∧ run events s = some s' ∧ Kept s' ∧
      ∀ i b, 2 ≤ s.holders i → s'.pool.item i = some b → s.pool.item i = some b := by
  obtain ⟨s, hbefore, hinv, -⟩ := run_spec before (inv_init : Inv (State.init : State κ))
  obtain ⟨s', hrun, hinv', hfrozen⟩ := run_spec events hinv
  exact ⟨s, s', hbefore, hrun, kept_of_inv hinv',
    fun i b hi hb => (hfrozen i (hinv.sealed hi)).2 b hb⟩

end IrcdHybrid.SharedSend
