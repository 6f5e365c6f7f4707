import IrcdHybrid.Marks
import IrcdHybrid.Match

/-!
The three functions of send.c that mark connections with a serial number, so that a message
reaches each of them once however often the walk over members or servers comes by.
-/

namespace IrcdHybrid.FanOut

open CString Match Marks

variable {ι : Type*} [DecidableEq ι]

/-- The network as one server sees it. Everybody is reached through `direction`, the `from` of
the source: his own connection, or the server link that leads to him. -/
structure Net (ι : Type*) where
  me : ι
  direction : ι → ι
  myConnect : ι → Bool
  isServer : ι → Bool
  name : ι → CStr
  deaf : ι → Bool
  closing : ι → Bool
  caps : ι → ℕ
  capActive : ι → ℕ
  sendqLimit : ι → ℕ
  opers : List ι
  globalServers : List ι
  direction_connected : ∀ c, myConnect (direction c) = true
  direction_local : ∀ c, myConnect c = true → direction c = c
  remote_server : ∀ c, myConnect c = false → isServer (direction c) = true

structure Member (ι : Type*) where
  client : ι
  flags : ℕ

/-- A channel with its two lists of members. -/
structure Channel (net : Net ι) where
  members : List (Member ι)
  locmembers : List (Member ι)
  client_of_member : ∀ m ∈ members, net.isServer m.client = false
  nodup : (members.map Member.client).Nodup
  mem_locmembers : ∀ m, m ∈ locmembers ↔ m ∈ members ∧ net.myConnect m.client = true

/-- The form for clients, the form for servers, or a notice to the operators. -/
inductive Form where
  | toClient
  | toServer
  | notice
  deriving DecidableEq

structure Line where
  form : Form
  size : ℕ

/-- One call of `send_message`: how much was waiting, and whether the line was queued. -/
structure Handed (ι : Type*) where
  target : ι
  form : Form
  waiting : ℕ
  queued : Bool
  deriving DecidableEq

/-- The connections: their serial marks, what waits on their queues, which of them are dead, the
calls to the sockets so far and the lines handed to them. -/
structure State (ι : Type*) where
  marks : Stamps ι
  sendq : ι → ℕ
  dead : ι → Bool
  writes : ℕ
  handed : List (Handed ι)

def State.isDefunct (net : Net ι) (s : State ι) (c : ι) : Bool := s.dead c || net.closing c

section Send

/-- What the sockets take and whether they fail, and how long the notices to operators are. -/
structure World where
  socket : ℕ → ℕ × Bool
  noticeSize : ℕ → ℕ

variable (net : Net ι) (world : World)

/-- `dead_link_on_write`. -/
def deadLinkOnWrite (c : ι) (s : State ι) : State ι :=
  if s.isDefunct net c then s
  else { s with sendq := Function.update s.sendq c 0, dead := Function.update s.dead c true }

/-- `send_queued_write`; a blocked connection is one that takes nothing. -/
def sendQueuedWrite (c : ι) (s : State ι) : State ι :=
  if s.dead c || s.sendq c == 0 then s
  else
    let sent := world.socket s.writes
    let s := { s with
      sendq := Function.update s.sendq c (s.sendq c - sent.1), writes := s.writes + 1 }
    if sent.2 then deadLinkOnWrite net c s else s

def State.hand (s : State ι) (c : ι) (line : Line) (queued : Bool) : State ι :=
  { s with handed := s.handed ++ [⟨c, line.form, s.sendq c, queued⟩] }

/-- `send_message`; `overflow` is what happens before a connection with a full queue is dropped. -/
def sendOrDrop (overflow : State ι → State ι) (c : ι) (line : Line) (s : State ι) : State ι :=
  if net.sendqLimit c < s.sendq c + line.size then
    deadLinkOnWrite net c (overflow (s.hand c line false))
  else
    let s := s.hand c line true
    sendQueuedWrite net world c { s with sendq := Function.update s.sendq c (s.sendq c + line.size) }

/-- `sendto_realops_flags` to the local operators that take server notices. -/
def sendtoRealopsFlags (s : State ι) : State ι :=
  net.opers.foldl (fun s o =>
    let c := net.direction o
    if s.dead c then s else sendOrDrop net world id c ⟨.notice, world.noticeSize s.writes⟩ s) s

def sendMessage (c : ι) (line : Line) (s : State ι) : State ι :=
  sendOrDrop net world (if net.isServer c then sendtoRealopsFlags net world else id) c line s

def sendMessageRemote (c : ι) (sender : ι) (line : Line) (s : State ι) : State ι :=
  if c = net.direction sender then sendtoRealopsFlags net world s
  else sendMessage net world c line s

end Send

section Calls

variable (net : Net ι) (world : World)

def nextSerial (s : State ι) : State ι := { s with marks := s.marks.next (2 ^ 64) }

def State.setSerial (s : State ι) (c : ι) : State ι := { s with marks := s.marks.mark c }

/-- The members that `sendto_channel_butone` does not skip. -/
def takes (one : Option ι) (type : ℕ) (s : State ι) (m : Member ι) : Bool :=
  !(s.isDefunct net m.client || net.deaf m.client ||
    one.any (fun o => net.direction m.client == net.direction o)) &&
  !(type != 0 && m.flags &&& type == 0)

def butoneTurn (one : Option ι) (sender : ι) (type : ℕ) (localBuf remoteBuf : Line)
    (s : State ι) (m : Member ι) : State ι :=
  if takes net one type s m then
    let link := net.direction m.client
    let s' :=
      if net.myConnect m.client then sendMessage net world m.client localBuf s
      else if s.marks.seen link then s
      else sendMessageRemote net world link sender remoteBuf s
    s'.setSerial link
  else s

def sendtoChannelButone (one : Option ι) (sender : ι) (chan : Channel net) (type : ℕ)
    (localSize remoteSize : ℕ) (s : State ι) : State ι :=
  chan.members.foldl
    (butoneTurn net world one sender type ⟨.toClient, localSize⟩ ⟨.toServer, remoteSize⟩)
    (nextSerial s)

def hasCap (c : ι) (cap : ℕ) : Bool := net.capActive c &&& cap == cap

def commonTurn (user : ι) (cap : ℕ) (buffer : Line) (s : State ι) (m : Member ι) : State ι :=
  if m.client = user || s.isDefunct net m.client || s.marks.seen m.client then s
  else if !hasCap net m.client cap then s
  else sendMessage net world m.client buffer (s.setSerial m.client)

def sendtoCommonChannelsLocal (user : ι) (channels : List (Channel net)) (touser : Bool)
    (cap size : ℕ) (s : State ι) : State ι :=
  let s := channels.foldl (fun s chan =>
    chan.locmembers.foldl (commonTurn net world user cap ⟨.toClient, size⟩) s) (nextSerial s)
  if touser && net.myConnect user && !s.dead user && !s.marks.seen user && hasCap net user cap then
    sendMessage net world user ⟨.toClient, size⟩ s
  else s

def isCapable (c : ι) (cap : ℕ) : Bool := net.caps c &&& cap != 0

def matchTurn (source : ι) (mask : CStr) (cap : ℕ) (buffer : Line) (s : State ι) (t : ι) :
    State ι :=
  let link := net.direction t
  if t = net.me || link == net.direction source then s
  else if s.marks.seen link then s
  else if matchMask mask (net.name t) != 0 then s
  else
    let s := s.setSerial link
    if !isCapable net link cap then s else sendMessageRemote net world link source buffer s

def sendtoMatchServs (source : ι) (mask : CStr) (cap size : ℕ) (s : State ι) : State ι :=
  net.globalServers.foldl (matchTurn net world source mask cap ⟨.toServer, size⟩) (nextSerial s)

end Calls

section Requests

variable (net : Net ι) (world : World)

/-- A call of one of the three functions. -/
inductive Request (net : Net ι) where
  | channelButone (one : Option ι) (sender : ι) (chan : Channel net)
    (type localSize remoteSize : ℕ)
  | commonLocal (user : ι) (channels : List (Channel net)) (touser : Bool) (cap size : ℕ)
  | matchServs (source : ι) (mask : CStr) (cap size : ℕ)

def Request.run : Request net → State ι → State ι
  | .channelButone one sender chan type localSize remoteSize =>
    sendtoChannelButone net world one sender chan type localSize remoteSize
  | .commonLocal user channels touser cap size =>
    sendtoCommonChannelsLocal net world user channels touser cap size
  | .matchServs source mask cap size => sendtoMatchServs net world source mask cap size

/-- The connections that should get the message, as the flags are in `s`. -/
def Request.Due (s : State ι) (c : ι) : Request net → Prop
  | .channelButone one sender chan type _ _ => ∃ m ∈ chan.members, takes net one type s m = true ∧
    ((net.myConnect m.client = true ∧ c = m.client) ∨
      (net.myConnect m.client = false ∧ c = net.direction m.client ∧ c ≠ net.direction sender))
  | .commonLocal user channels touser cap _ =>
    (∃ chan ∈ channels, ∃ m ∈ chan.locmembers, c = m.client ∧ c ≠ user ∧
      s.isDefunct net c = false ∧ hasCap net c cap = true) ∨
    (touser = true ∧ c = user ∧ net.myConnect user = true ∧ s.dead user = false ∧
      hasCap net user cap = true)
  | .matchServs source mask cap _ => ∃ t ∈ net.globalServers, t ≠ net.me ∧
    c = net.direction t ∧ c ≠ net.direction source ∧ matchMask mask (net.name t) = 0 ∧
    isCapable net c cap = true

/-- What a connection gets. -/
def Request.line (c : ι) : Request net → Line
  | .channelButone _ _ _ _ localSize remoteSize =>
    if net.isServer c then ⟨.toServer, remoteSize⟩ else ⟨.toClient, localSize⟩
  | .commonLocal _ _ _ _ size => ⟨.toClient, size⟩
  | .matchServs _ _ _ size => ⟨.toServer, size⟩

end Requests

/-- The states after `n` calls, for networks that may change from one call to the next, with
anything else in between: other lines, deaths, and new connections, whose mark is 0. -/
inductive Reaches : ℕ → State ι → Prop where
  | start (s : State ι) (hround : s.marks.round = 0) (hstamp : ∀ c, s.marks.stamp c = 0) :
    Reaches 0 s
  | call (n : ℕ) (s : State ι) (net : Net ι) (world : World) (request : Request net)
    (hs : Reaches n s) : Reaches (n + 1) (request.run net world s)
  | other (n : ℕ) (s s' : State ι) (hs : Reaches n s) (hround : s'.marks.round = s.marks.round)
    (hstamp : ∀ c, s'.marks.stamp c = s.marks.stamp c ∨ s'.marks.stamp c = 0) : Reaches n s'

/-- The lines that are not notices to operators. -/
def State.lines (s : State ι) : List (Handed ι) := s.handed.filter (fun h => h.form != .notice)

/-- Between `s` and `s'` the lines `hs` are handed over, each the line of its connection. A line
is queued unless the queue is too full for it, and then the connection is dead. -/
structure Delivers (net : Net ι) (line : ι → Line) (s s' : State ι) (hs : List (Handed ι)) :
    Prop where
  counts : ∀ n, s.marks.Counts n → s'.marks.Counts n
  dead_mono : ∀ c, s.dead c = true → s'.dead c = true
  lines_eq : s'.lines = s.lines ++ hs
  form_eq : ∀ h ∈ hs, h.form = (line h.target).form
  queued_eq : ∀ h ∈ hs,
    h.queued = decide (h.waiting + (line h.target).size ≤ net.sendqLimit h.target)
  dropped : ∀ h ∈ hs, h.queued = true ∨ s'.isDefunct net h.target = true

section Delivery

variable {net : Net ι} {line : ι → Line} {s t u : State ι} {hs hs' : List (Handed ι)}

omit [DecidableEq ι] in
theorem isDefunct_mono (h : ∀ c, s.dead c = true → t.dead c = true) (c : ι)
    (hc : s.isDefunct net c = true) : t.isDefunct net c = true := by
  unfold State.isDefunct at *
  rcases Bool.or_eq_true_iff.mp hc with hc | hc
  · rw [h c hc, Bool.true_or]
  · rw [hc, Bool.or_true]

omit [DecidableEq ι] in
theorem Delivers.refl (s : State ι) : Delivers net line s s [] :=
  ⟨fun _ h => h, fun _ h => h, (List.append_nil _).symm, by simp, by simp, by simp⟩

omit [DecidableEq ι] in
theorem Delivers.trans (h : Delivers net line s t hs) (h' : Delivers net line t u hs') :
    Delivers net line s u (hs ++ hs') := by
  refine ⟨fun n hn => h'.counts n (h.counts n hn), fun c hc => h'.dead_mono c (h.dead_mono c hc),
    ?_, ?_, ?_, ?_⟩
  · rw [h'.lines_eq, h.lines_eq, List.append_assoc]
  · intro x hx
    exact (List.mem_append.mp hx).elim (h.form_eq x) (h'.form_eq x)
  · intro x hx
    exact (List.mem_append.mp hx).elim (h.queued_eq x) (h'.queued_eq x)
  · intro x hx
    rcases List.mem_append.mp hx with hx | hx
    · exact (h.dropped x hx).imp_right (isDefunct_mono h'.dead_mono x.target)
    · exact h'.dropped x hx

omit [DecidableEq ι] in
/-- A step that hands no line over and leaves the marks, whatever it does to the queues. -/
theorem Delivers.quiet (hmarks : t.marks = s.marks)
    (hdead : ∀ c, s.dead c = true → t.dead c = true) (hlines : t.lines = s.lines) :
    Delivers net line s t [] :=
  ⟨fun _ h => hmarks ▸ h, hdead, by rw [hlines, List.append_nil], by simp, by simp, by simp⟩

omit [DecidableEq ι] in
theorem Delivers.after_quiet (h : Delivers net line s t []) (h' : Delivers net line t u hs) :
    Delivers net line s u hs :=
  h.trans h'

end Delivery

section Sending

variable (net : Net ι) (world : World) (line : ι → Line)

theorem deadLinkOnWrite_marks (c : ι) (s : State ι) :
    (deadLinkOnWrite net c s).marks = s.marks := by
  unfold deadLinkOnWrite
  split <;> rfl

theorem deadLinkOnWrite_delivers (c : ι) (s : State ι) :
    Delivers net line s (deadLinkOnWrite net c s) [] := by
  unfold deadLinkOnWrite
  split
  · exact Delivers.refl s
  · refine Delivers.quiet rfl (fun d hd => ?_) rfl
    by_cases hdc : d = c
    · simp [hdc]
    · simpa [Function.update_of_ne hdc] using hd

theorem isDefunct_deadLinkOnWrite (c : ι) (s : State ι) :
    (deadLinkOnWrite net c s).isDefunct net c = true := by
  unfold deadLinkOnWrite
  split
  · assumption
  · simp [State.isDefunct]

theorem sendQueuedWrite_marks (c : ι) (s : State ι) :
    (sendQueuedWrite net world c s).marks = s.marks := by
  unfold sendQueuedWrite
  split
  · rfl
  · dsimp only
    split
    · rw [deadLinkOnWrite_marks]
    · rfl

theorem sendQueuedWrite_delivers (c : ι) (s : State ι) :
    Delivers net line s (sendQueuedWrite net world c s) [] := by
  unfold sendQueuedWrite
  split
  · exact Delivers.refl s
  · dsimp only
    split
    · apply Delivers.after_quiet _ (deadLinkOnWrite_delivers net line c _)
      exact Delivers.quiet rfl (fun _ h => h) rfl
    · exact Delivers.quiet rfl (fun _ h => h) rfl

omit [DecidableEq ι] in
/-- The line itself is the one that is written down, a notice is not. -/
theorem hand_delivers (c : ι) (l : Line) (queued : Bool) (s t : State ι)
    (hform : l.form ≠ .notice) (hl : line c = l)
    (hqueued : queued = decide (s.sendq c + l.size ≤ net.sendqLimit c))
    (ht : Delivers net line (s.hand c l queued) t [])
    (hdropped : queued = true ∨ t.isDefunct net c = true) :
    Delivers net line s t [⟨c, l.form, s.sendq c, queued⟩] := by
  refine ⟨ht.counts, ht.dead_mono, ?_, ?_, ?_, ?_⟩
  · rw [ht.lines_eq, List.append_nil]
    unfold State.lines State.hand
    rw [List.filter_append]
    simp [hform]
  · simp [hl]
  · simp [hl, hqueued]
  · simpa using hdropped

theorem sendOrDrop_delivers (overflow : State ι → State ι) (c : ι) (l : Line) (s : State ι)
    (hform : l.form ≠ .notice) (hl : line c = l)
    (hoverflow : ∀ s, Delivers net line s (overflow s) []) :
    ∃ h, Delivers net line s (sendOrDrop net world overflow c l s) [h] ∧ h.target = c := by
  unfold sendOrDrop
  split
  · rename_i hfull
    refine ⟨⟨c, l.form, s.sendq c, false⟩, hand_delivers net line c l false s _ hform hl ?_ ?_ ?_,
      rfl⟩
    · simpa using hfull
    · exact (hoverflow _).after_quiet (deadLinkOnWrite_delivers net line c _)
    · exact Or.inr (isDefunct_deadLinkOnWrite net c _)
  · rename_i hroom
    refine ⟨⟨c, l.form, s.sendq c, true⟩, hand_delivers net line c l true s _ hform hl ?_ ?_ ?_,
      rfl⟩
    · simpa using hroom
    · apply Delivers.after_quiet _ (sendQueuedWrite_delivers net world line c _)
      exact Delivers.quiet rfl (fun _ h => h) rfl
    · exact Or.inl rfl

theorem sendOrDrop_marks (overflow : State ι → State ι) (c : ι) (l : Line) (s : State ι)
    (hoverflow : ∀ s, (overflow s).marks = s.marks) :
    (sendOrDrop net world overflow c l s).marks = s.marks := by
  unfold sendOrDrop
  split
  · rw [deadLinkOnWrite_marks, hoverflow]
    rfl
  · dsimp only
    rw [sendQueuedWrite_marks]
    rfl

theorem sendOrDrop_notice (c : ι) (size : ℕ) (s : State ι) :
    Delivers net line s (sendOrDrop net world id c ⟨.notice, size⟩ s) [] := by
  have hhand : ∀ queued, Delivers net line s (s.hand c ⟨.notice, size⟩ queued) [] := by
    intro queued
    refine Delivers.quiet rfl (fun _ h => h) ?_
    unfold State.lines State.hand
    rw [List.filter_append]
    simp
  unfold sendOrDrop
  split
  · exact (hhand false).after_quiet (deadLinkOnWrite_delivers net line c _)
  · apply (hhand true).after_quiet
    apply Delivers.after_quiet _ (sendQueuedWrite_delivers net world line c _)
    exact Delivers.quiet rfl (fun _ h => h) rfl

theorem sendtoRealopsFlags_spec (s : State ι) :
    Delivers net line s (sendtoRealopsFlags net world s) [] ∧
    (sendtoRealopsFlags net world s).marks = s.marks := by
  unfold sendtoRealopsFlags
  induction net.opers generalizing s with
  | nil => exact ⟨Delivers.refl s, rfl⟩
  | cons o opers ih =>
    rw [List.foldl_cons]
    dsimp only
    split
    · exact ih s
    · obtain ⟨hrest, hmarks⟩ := ih
        (sendOrDrop net world id (net.direction o) ⟨.notice, world.noticeSize s.writes⟩ s)
      refine ⟨(sendOrDrop_notice net world line _ _ s).after_quiet hrest, hmarks.trans ?_⟩
      exact sendOrDrop_marks net world id _ _ s (fun _ => rfl)

theorem sendMessage_delivers (c : ι) (l : Line) (s : State ι) (hform : l.form ≠ .notice)
    (hl : line c = l) :
    ∃ h, Delivers net line s (sendMessage net world c l s) [h] ∧ h.target = c := by
  apply sendOrDrop_delivers net world line _ c l s hform hl
  intro s
  split
  · exact (sendtoRealopsFlags_spec net world line s).1
  · exact Delivers.refl s

theorem sendMessage_marks (c : ι) (l : Line) (s : State ι) :
    (sendMessage net world c l s).marks = s.marks := by
  apply sendOrDrop_marks
  intro s
  split
  · exact (sendtoRealopsFlags_spec net world (fun _ => l) s).2
  · rfl

theorem sendMessageRemote_marks (c sender : ι) (l : Line) (s : State ι) :
    (sendMessageRemote net world c sender l s).marks = s.marks := by
  unfold sendMessageRemote
  split
  · exact (sendtoRealopsFlags_spec net world (fun _ => l) s).2
  · exact sendMessage_marks net world c l s

end Sending

section Loops

variable (net : Net ι) (world : World) (line : ι → Line)

def Seen (s : State ι) (c : ι) : Prop := s.marks.seen c = true

theorem setSerial_delivers (c : ι) (s : State ι) :
    Delivers net line s (s.setSerial c) [] :=
  ⟨fun n h => Stamps.Counts.mark s.marks n c h, fun _ h => h, (List.append_nil _).symm, by simp,
    by simp, by simp⟩

theorem seen_setSerial (s t : State ι) (c d : ι) (h : t.marks = s.marks) :
    Seen (t.setSerial c) d ↔ Seen s d ∨ d = c := by
  unfold Seen State.setSerial
  dsimp only
  rw [seen_mark, h]
  simp [or_comm]

variable {α : Type*} {key : α → ι} {pass : State ι → α → Prop} {blocked : ι → Prop}

omit [DecidableEq ι] in
/-- A loop whose turns are turns of a round goes through a round. -/
theorem foldl_round (turn : State ι → α → State ι)
    (inv : List α → State ι → Prop)
    (hturn : ∀ x xs s, inv (x :: xs) s → inv xs (turn s x) ∧
      ∃ hs, Delivers net line s (turn s x) hs ∧
        Turn key pass blocked Seen x s (turn s x) (hs.map Handed.target))
    (xs : List α) (s : State ι) (h : inv xs s) :
    ∃ hs, Delivers net line s (xs.foldl turn s) hs ∧
      Round key pass blocked Seen xs s (xs.foldl turn s) (hs.map Handed.target) := by
  induction xs generalizing s with
  | nil => exact ⟨[], Delivers.refl s, Round.nil s⟩
  | cons x xs ih =>
    obtain ⟨hinv, hs, hdelivers, hx⟩ := hturn x xs s h
    obtain ⟨hs', hdelivers', hrest⟩ := ih (turn s x) hinv
    refine ⟨hs ++ hs', hdelivers.trans hdelivers', ?_⟩
    rw [List.map_append]
    exact Round.cons x xs s _ _ _ _ hx hrest

/-- Nobody comes back from the dead, so whoever takes a line at the end has taken it all along. -/
theorem takes_mono (one : Option ι) (type : ℕ) (s t : State ι) (m : Member ι)
    (hdead : ∀ c, s.dead c = true → t.dead c = true)
    (h : takes net one type t m = true) : takes net one type s m = true := by
  unfold takes at *
  cases hs : s.isDefunct net m.client with
  | false => cases ht : t.isDefunct net m.client with
    | false => rwa [ht] at h
    | true => simp [ht] at h
  | true => simp [isDefunct_mono hdead m.client hs] at h

end Loops

section ChannelButone

variable (net : Net ι) (world : World) (one : Option ι) (sender : ι) (type : ℕ)
  (localSize remoteSize : ℕ)

/-- The line of a connection: servers get the form for servers. -/
def butoneLine (c : ι) : Line :=
  if net.isServer c then ⟨.toServer, remoteSize⟩ else ⟨.toClient, localSize⟩

/-- The link that the sender is behind gets nothing. -/
def FakeDirection (c : ι) : Prop := net.isServer c = true ∧ c = net.direction sender

theorem butoneTurn_spec (m : Member ι) (s : State ι) (hclient : net.isServer m.client = false)
    (hfree : net.myConnect m.client = true → ¬ Seen s m.client) :
    let s' := butoneTurn net world one sender type ⟨.toClient, localSize⟩ ⟨.toServer, remoteSize⟩ s m
    ∃ hs, Delivers net (butoneLine net localSize remoteSize) s s' hs ∧
      Turn (fun m => net.direction m.client) (fun s m => takes net one type s m = true)
        (FakeDirection net sender) Seen m s s' (hs.map Handed.target) := by
  intro s'
  set line := butoneLine net localSize remoteSize with hline
  by_cases htakes : takes net one type s m = true
  · -- whatever is handed over, the link is marked afterwards
    have hmarked : ∀ t hs, t.marks = s.marks → Delivers net line s t hs →
        s' = t.setSerial (net.direction m.client) →
        (hs.map Handed.target = [] ∧
          (Seen s (net.direction m.client) ∨ FakeDirection net sender (net.direction m.client)) ∨
        hs.map Handed.target = [net.direction m.client] ∧ ¬ Seen s (net.direction m.client) ∧
          ¬ FakeDirection net sender (net.direction m.client)) →
        ∃ hs, Delivers net line s s' hs ∧
          Turn (fun m => net.direction m.client) (fun s m => takes net one type s m = true)
            (FakeDirection net sender) Seen m s s' (hs.map Handed.target) := by
      intro t hs hmarks hdelivers heq hout
      have hall : Delivers net line s s' hs := by
        have h := hdelivers.trans (setSerial_delivers net line (net.direction m.client) t)
        rwa [List.append_nil, ← heq] at h
      refine ⟨hs, hall, fun y => takes_mono net one type s s' y hall.dead_mono, fun c => ?_, ?_⟩
      · rw [heq, seen_setSerial s t _ c hmarks]
        simp [htakes]
      · rcases hout with ⟨hnil, hwhy⟩ | ⟨hone, hwhy⟩
        · exact Or.inl ⟨hnil, fun _ => hwhy⟩
        · exact Or.inr ⟨hone, htakes, hwhy⟩
    have hs' : s' = (if net.myConnect m.client then
        sendMessage net world m.client ⟨.toClient, localSize⟩ s
        else if s.marks.seen (net.direction m.client) then s
        else sendMessageRemote net world (net.direction m.client) sender ⟨.toServer, remoteSize⟩
          s).setSerial (net.direction m.client) := by
      show butoneTurn net world one sender type _ _ s m = _
      unfold butoneTurn
      rw [if_pos htakes]
    cases hmine : net.myConnect m.client with
    | true =>
      have hdir : net.direction m.client = m.client := net.direction_local m.client hmine
      obtain ⟨h, hdelivers, htarget⟩ := sendMessage_delivers net world line m.client
        ⟨.toClient, localSize⟩ s (by simp) (by simp [hline, butoneLine, hclient])
      rw [hmine, if_pos rfl] at hs'
      refine hmarked _ [h] (sendMessage_marks net world _ _ s) hdelivers hs' (Or.inr ?_)
      rw [hdir]
      refine ⟨by simp [htarget], hfree hmine, fun hfake => ?_⟩
      exact absurd hfake.1 (by simp [hclient])
    | false =>
      have hserver := net.remote_server m.client hmine
      rw [hmine, if_neg (by simp)] at hs'
      by_cases hseen : s.marks.seen (net.direction m.client) = true
      · rw [if_pos hseen] at hs'
        exact hmarked s [] rfl (Delivers.refl s) hs' (Or.inl ⟨rfl, Or.inl hseen⟩)
      · rw [if_neg hseen] at hs'
        have hmarks := sendMessageRemote_marks net world (net.direction m.client) sender
          ⟨.toServer, remoteSize⟩ s
        by_cases hfake : net.direction m.client = net.direction sender
        · refine hmarked _ [] hmarks ?_ hs' (Or.inl ⟨rfl, Or.inr ⟨hserver, hfake⟩⟩)
          unfold sendMessageRemote
          rw [if_pos hfake]
          exact (sendtoRealopsFlags_spec net world line s).1
        · obtain ⟨h, hdelivers, htarget⟩ := sendMessage_delivers net world line
            (net.direction m.client) ⟨.toServer, remoteSize⟩ s (by simp)
            (by simp [hline, butoneLine, hserver])
          refine hmarked _ [h] hmarks ?_ hs' (Or.inr ⟨by simp [htarget], hseen, fun h => hfake h.2⟩)
          unfold sendMessageRemote
          rwa [if_neg hfake]
  · have hskip : s' = s := by
      show butoneTurn net world one sender type _ _ s m = s
      unfold butoneTurn
      rw [if_neg htakes]
    rw [hskip]
    exact ⟨[], Delivers.refl s, fun _ h => h, fun c => by simp [htakes],
      Or.inl ⟨rfl, fun h => absurd h htakes⟩⟩

/-- The members still to come are clients, once each, and those on this server are unmarked. -/
structure Ahead (ms : List (Member ι)) (s : State ι) : Prop where
  client : ∀ m ∈ ms, net.isServer m.client = false
  nodup : (ms.map Member.client).Nodup
  free : ∀ m ∈ ms, net.myConnect m.client = true → ¬ Seen s m.client

theorem butone_round (chan : Channel net) (s : State ι) (hs : ∀ c, ¬ Seen s c) :
    let s' := chan.members.foldl
      (butoneTurn net world one sender type ⟨.toClient, localSize⟩ ⟨.toServer, remoteSize⟩) s
    ∃ hs, Delivers net (butoneLine net localSize remoteSize) s s' hs ∧
      Round (fun m => net.direction m.client) (fun s m => takes net one type s m = true)
        (FakeDirection net sender) Seen chan.members s s' (hs.map Handed.target) := by
  apply foldl_round net (butoneLine net localSize remoteSize) _ (Ahead net)
  · intro m ms s h
    have hturn := butoneTurn_spec net world one sender type localSize remoteSize m s
      (h.client m List.mem_cons_self) (h.free m List.mem_cons_self)
    refine ⟨?_, hturn⟩
    obtain ⟨hs, _, hturn⟩ := hturn
    refine ⟨fun x hx => h.client x (List.mem_cons_of_mem m hx), (List.nodup_cons.mp h.nodup).2, ?_⟩
    intro x hx hmine hseen
    have hxm : x.client ≠ m.client := by
      intro heq
      exact (List.nodup_cons.mp h.nodup).1 (heq ▸ List.mem_map_of_mem hx)
    rcases (hturn.seen_iff x.client).mp hseen with hold | ⟨hkey, _⟩
    · exact h.free x (List.mem_cons_of_mem m hx) hmine hold
    · -- the turn marks a client of this server or a link, and `x` is neither
      cases hm : net.myConnect m.client with
      | true => exact hxm (hkey.trans (net.direction_local m.client hm))
      | false =>
        have hserver := net.remote_server m.client hm
        rw [← hkey, h.client x (List.mem_cons_of_mem m hx)] at hserver
        exact absurd hserver (by simp)
  · exact ⟨chan.client_of_member, chan.nodup, fun m _ _ => hs m.client⟩

end ChannelButone

section CommonChannels

variable (net : Net ι) (world : World) (user : ι) (channels : List (Channel net)) (cap size : ℕ)

/-- The members that the loop of `sendto_common_channels_local` does not skip for good. -/
def Shares (s : State ι) (m : Member ι) : Prop :=
  m.client ≠ user ∧ s.isDefunct net m.client = false ∧ hasCap net m.client cap = true

theorem commonTurn_spec (m : Member ι) (s : State ι) :
    let s' := commonTurn net world user cap ⟨.toClient, size⟩ s m
    ∃ hs, Delivers net (fun _ => ⟨.toClient, size⟩) s s' hs ∧
      Turn Member.client (Shares net user cap) (fun _ => False) Seen m s s'
        (hs.map Handed.target) := by
  intro s'
  by_cases hshares : Shares net user cap s m ∧ ¬ Seen s m.client
  · obtain ⟨⟨huser, hdefunct, hcap⟩, hseen⟩ := hshares
    have hs' : s' = sendMessage net world m.client ⟨.toClient, size⟩ (s.setSerial m.client) := by
      show commonTurn net world user cap _ s m = _
      unfold commonTurn
      unfold Seen at hseen
      simp [huser, hdefunct, hcap, hseen]
    obtain ⟨h, hdelivers, htarget⟩ := sendMessage_delivers net world
      (fun _ => ⟨.toClient, size⟩) m.client ⟨.toClient, size⟩ (s.setSerial m.client) (by simp) rfl
    have hall := (setSerial_delivers net (fun _ => ⟨.toClient, size⟩) m.client s).after_quiet
      hdelivers
    rw [← hs'] at hall
    refine ⟨[h], hall, fun y hy => ⟨hy.1, ?_, hy.2.2⟩, fun c => ?_, Or.inr ⟨?_, ?_⟩⟩
    · by_contra hy'
      rw [Bool.not_eq_false] at hy'
      exact absurd (isDefunct_mono hall.dead_mono y.client hy') (by simp [hy.2.1])
    · have hmarks : s'.marks = (s.setSerial m.client).marks := by
        rw [hs', sendMessage_marks]
      have hc := seen_setSerial s s m.client c rfl
      unfold Seen at hc ⊢
      rw [hmarks, hc]
      simp [Shares, huser, hdefunct, hcap]
    · simp [htarget]
    · exact ⟨⟨huser, hdefunct, hcap⟩, hseen, not_false⟩
  · have hs' : s' = s := by
      show commonTurn net world user cap _ s m = s
      unfold commonTurn
      by_cases hskip : (m.client = user || s.isDefunct net m.client || s.marks.seen m.client) = true
      · rw [if_pos hskip]
      · rw [if_neg hskip]
        unfold Shares Seen at hshares
        simp only [Bool.or_eq_true, decide_eq_true_eq, not_or, Bool.not_eq_true] at hskip
        rw [if_pos]
        by_contra hcap
        simp only [Bool.not_eq_true', Bool.not_eq_false] at hcap
        exact hshares ⟨⟨hskip.1.1, hskip.1.2, hcap⟩, by simp [hskip.2]⟩
    have hwhy : Shares net user cap s m → Seen s m.client := by
      intro h
      by_contra hseen
      exact hshares ⟨h, hseen⟩
    rw [hs']
    refine ⟨[], Delivers.refl s, fun _ h => h, fun c => ⟨Or.inl, ?_⟩, Or.inl ⟨rfl, ?_⟩⟩
    · rintro (hc | ⟨hc, h⟩)
      · exact hc
      · rw [hc]
        exact hwhy h
    · exact fun h => Or.inl (hwhy h)

/-- The loop over the channels is one loop over all their local members. -/
theorem common_round (s : State ι) :
    let s' := channels.foldl (fun s chan =>
      chan.locmembers.foldl (commonTurn net world user cap ⟨.toClient, size⟩) s) s
    ∃ hs, Delivers net (fun _ => ⟨.toClient, size⟩) s s' hs ∧
      Round Member.client (Shares net user cap) (fun _ => False) Seen
        (channels.flatMap Channel.locmembers) s s' (hs.map Handed.target) := by
  intro s'
  have hflat : s' = (channels.flatMap Channel.locmembers).foldl
      (commonTurn net world user cap ⟨.toClient, size⟩) s := by
    rw [List.foldl_flatMap]
  rw [hflat]
  apply foldl_round net (fun _ => ⟨.toClient, size⟩) _ (fun _ _ => True)
  · intro m ms s _
    exact ⟨trivial, commonTurn_spec net world user cap size m s⟩
  · trivial

end CommonChannels

section MatchServs

variable (net : Net ι) (world : World) (source : ι) (mask : CStr) (cap size : ℕ)

/-- The servers that the loop of `sendto_match_servs` marks the link of. -/
def Asked (t : ι) : Prop :=
  t ≠ net.me ∧ net.direction t ≠ net.direction source ∧ matchMask mask (net.name t) = 0

theorem matchTurn_spec (t : ι) (s : State ι) :
    let s' := matchTurn net world source mask cap ⟨.toServer, size⟩ s t
    ∃ hs, Delivers net (fun _ => ⟨.toServer, size⟩) s s' hs ∧
      Turn net.direction (fun _ t => Asked net source mask t)
        (fun c => isCapable net c cap = false) Seen t s s' (hs.map Handed.target) := by
  intro s'
  by_cases hasked : Asked net source mask t ∧ ¬ Seen s (net.direction t)
  · obtain ⟨⟨hme, hdir, hmatch⟩, hseen⟩ := hasked
    have hs' : s' = if !isCapable net (net.direction t) cap then s.setSerial (net.direction t)
        else sendMessage net world (net.direction t) ⟨.toServer, size⟩
          (s.setSerial (net.direction t)) := by
      show matchTurn net world source mask cap _ s t = _
      unfold matchTurn sendMessageRemote
      unfold Seen at hseen
      simp [hme, hdir, hmatch, hseen]
    have hseen_iff : s'.marks = (s.setSerial (net.direction t)).marks → ∀ c, Seen s' c ↔
        Seen s c ∨ c = net.direction t ∧ Asked net source mask t := by
      intro hmarks c
      have hc := seen_setSerial s s (net.direction t) c rfl
      unfold Seen at hc ⊢
      rw [hmarks, hc]
      simp [Asked, hme, hdir, hmatch]
    have hmark := setSerial_delivers net (fun _ => ⟨.toServer, size⟩) (net.direction t) s
    cases hcap : isCapable net (net.direction t) cap with
    | false =>
      rw [hcap, if_pos (by simp)] at hs'
      rw [← hs'] at hmark
      exact ⟨[], hmark, fun _ h => h, hseen_iff (by rw [hs']), Or.inl ⟨rfl, fun _ => Or.inr hcap⟩⟩
    | true =>
      rw [hcap, if_neg (by simp)] at hs'
      obtain ⟨h, hdelivers, htarget⟩ := sendMessage_delivers net world
        (fun _ => ⟨.toServer, size⟩) (net.direction t) ⟨.toServer, size⟩
        (s.setSerial (net.direction t)) (by simp) rfl
      rw [← hs'] at hdelivers
      refine ⟨[h], hmark.after_quiet hdelivers, fun _ h => h,
        hseen_iff (by rw [hs', sendMessage_marks]), Or.inr ⟨by simp [htarget], ?_, hseen, ?_⟩⟩
      · exact ⟨hme, hdir, hmatch⟩
      · simp [hcap]
  · have hs' : s' = s := by
      show matchTurn net world source mask cap _ s t = s
      unfold matchTurn
      unfold Asked Seen at hasked
      dsimp only
      by_cases hskip : (t = net.me || net.direction t == net.direction source) = true
      · rw [if_pos hskip]
      · rw [if_neg hskip]
        by_cases hseen : s.marks.seen (net.direction t) = true
        · rw [if_pos hseen]
        · rw [if_neg hseen, if_pos]
          simp only [Bool.or_eq_true, decide_eq_true_eq, not_or, beq_iff_eq] at hskip
          simp only [bne_iff_ne, ne_eq]
          exact fun hmatch => hasked ⟨⟨hskip.1, hskip.2, hmatch⟩, hseen⟩
    have hwhy : Asked net source mask t → Seen s (net.direction t) := by
      intro h
      by_contra hseen
      exact hasked ⟨h, hseen⟩
    rw [hs']
    refine ⟨[], Delivers.refl s, fun _ h => h, fun c => ⟨Or.inl, ?_⟩, Or.inl ⟨rfl, ?_⟩⟩
    · rintro (hc | ⟨hc, h⟩)
      · exact hc
      · rw [hc]
        exact hwhy h
    · exact fun h => Or.inl (hwhy h)

theorem match_round (s : State ι) :
    let s' := net.globalServers.foldl (matchTurn net world source mask cap ⟨.toServer, size⟩) s
    ∃ hs, Delivers net (fun _ => ⟨.toServer, size⟩) s s' hs ∧
      Round net.direction (fun _ t => Asked net source mask t)
        (fun c => isCapable net c cap = false) Seen net.globalServers s s'
        (hs.map Handed.target) := by
  apply foldl_round net (fun _ => ⟨.toServer, size⟩) _ (fun _ _ => True)
  · intro t ts s _
    exact ⟨trivial, matchTurn_spec net world source mask cap size t s⟩
  · trivial

end MatchServs

section Runs

variable (net : Net ι) (world : World)

/-- What a call does when nothing is marked as seen at its start. -/
structure Once (request : Request net) (s s' : State ι) (out : List (Handed ι)) : Prop where
  delivers : Delivers net (fun c => request.line net c) (nextSerial s) s' out
  nodup : (out.map Handed.target).Nodup
  due : ∀ h ∈ out, request.Due net s h.target
  complete : ∀ c, request.Due net s' c → c ∈ out.map Handed.target

theorem channelButone_once (one : Option ι) (sender : ι) (chan : Channel net)
    (type localSize remoteSize : ℕ) (s : State ι) (hs : ∀ c, ¬ Seen (nextSerial s) c) :
    ∃ out, Once net (.channelButone one sender chan type localSize remoteSize) s
      (sendtoChannelButone net world one sender chan type localSize remoteSize s) out := by
  obtain ⟨out, hdelivers, hround⟩ := butone_round net world one sender type localSize remoteSize
    chan (nextSerial s) hs
  refine ⟨out, hdelivers, hround.nodup, fun h hh => ?_, fun c hc => ?_⟩
  · obtain ⟨_, hblocked, m, hm, hkey, htakes⟩ :=
      hround.mem_out h.target (List.mem_map_of_mem hh)
    refine ⟨m, hm, htakes, ?_⟩
    cases hmine : net.myConnect m.client with
    | true => exact Or.inl ⟨rfl, hkey.symm.trans (net.direction_local m.client hmine)⟩
    | false =>
      refine Or.inr ⟨rfl, hkey.symm, fun hfake => hblocked ⟨?_, hfake⟩⟩
      rw [← hkey]
      exact net.remote_server m.client hmine
  · obtain ⟨m, hm, htakes, hwho⟩ := hc
    have hserved : net.direction m.client = c → ¬ FakeDirection net sender c →
        c ∈ out.map Handed.target := by
      intro hkey hfake
      subst hkey
      exact hround.served m hm htakes (hs _) hfake
    rcases hwho with ⟨hmine, hc⟩ | ⟨_, hc, hdir⟩
    · subst hc
      refine hserved (net.direction_local m.client hmine) fun hfake => ?_
      exact absurd hfake.1 (by simp [chan.client_of_member m hm])
    · exact hserved hc.symm fun hfake => hdir hfake.2

theorem matchServs_once (source : ι) (mask : CStr) (cap size : ℕ) (s : State ι)
    (hs : ∀ c, ¬ Seen (nextSerial s) c) :
    ∃ out, Once net (.matchServs source mask cap size) s
      (sendtoMatchServs net world source mask cap size s) out := by
  obtain ⟨out, hdelivers, hround⟩ := match_round net world source mask cap size (nextSerial s)
  refine ⟨out, hdelivers, hround.nodup, fun h hh => ?_, fun c hc => ?_⟩
  · obtain ⟨_, hblocked, t, ht, hkey, hme, hdir, hmatch⟩ :=
      hround.mem_out h.target (List.mem_map_of_mem hh)
    exact ⟨t, ht, hme, hkey.symm, hkey ▸ hdir, hmatch, by simpa using hblocked⟩
  · obtain ⟨t, ht, hme, hc, hdir, hmatch, hcap⟩ := hc
    subst hc
    exact hround.served t ht ⟨hme, hdir, hmatch⟩ (hs _) (by simp [hcap])

theorem commonLocal_once (user : ι) (channels : List (Channel net)) (touser : Bool)
    (cap size : ℕ) (s : State ι) (hs : ∀ c, ¬ Seen (nextSerial s) c) :
    ∃ out, Once net (.commonLocal user channels touser cap size) s
      (sendtoCommonChannelsLocal net world user channels touser cap size s) out := by
  obtain ⟨out, hdelivers, hround⟩ := common_round net world user channels cap size (nextSerial s)
  generalize ht : channels.foldl (fun s chan =>
    chan.locmembers.foldl (commonTurn net world user cap ⟨.toClient, size⟩) s) (nextSerial s) = t
    at hdelivers hround
  have hdue : ∀ h ∈ out, h.target ≠ user ∧ ∃ chan ∈ channels, ∃ m ∈ chan.locmembers,
      h.target = m.client ∧ h.target ≠ user ∧ s.isDefunct net h.target = false ∧
        hasCap net h.target cap = true := by
    intro h hh
    obtain ⟨_, _, m, hm, hkey, huser, hdefunct, hcap⟩ :=
      hround.mem_out h.target (List.mem_map_of_mem hh)
    obtain ⟨chan, hchan, hm⟩ := List.mem_flatMap.mp hm
    rw [hkey] at huser hdefunct hcap
    exact ⟨huser, chan, hchan, m, hm, hkey.symm, huser, hdefunct, hcap⟩
  have hshared : ∀ u : State ι, (∀ c, t.dead c = true → u.dead c = true) → ∀ c,
      (∃ chan ∈ channels, ∃ m ∈ chan.locmembers, c = m.client ∧ c ≠ user ∧
        u.isDefunct net c = false ∧ hasCap net c cap = true) → c ∈ out.map Handed.target := by
    rintro u hdead c ⟨chan, hchan, m, hm, hc, huser, hdefunct, hcap⟩
    subst hc
    refine hround.served m (List.mem_flatMap.mpr ⟨chan, hchan, hm⟩) ⟨huser, ?_, hcap⟩ (hs _)
      not_false
    by_contra hdef
    rw [Bool.not_eq_false] at hdef
    exact absurd (isDefunct_mono hdead m.client hdef) (by simp [hdefunct])
  -- the loop never marks the user himself
  have hunseen : t.marks.seen user = false := by
    by_contra hseen
    rw [Bool.not_eq_false] at hseen
    rcases hround.seen_cases user hseen with hold | ⟨m, _, hkey, huser, _⟩
    · exact hs user hold
    · exact huser hkey
  unfold sendtoCommonChannelsLocal
  rw [ht]
  dsimp only
  split
  · rename_i htouser
    simp only [Bool.and_eq_true, Bool.not_eq_true'] at htouser
    obtain ⟨⟨⟨⟨htouser, hmine⟩, hdead⟩, _⟩, hcap⟩ := htouser
    obtain ⟨last, hlast, htarget⟩ := sendMessage_delivers net world (fun _ => ⟨.toClient, size⟩)
      user ⟨.toClient, size⟩ t (by simp) rfl
    refine ⟨out ++ [last], hdelivers.trans hlast, ?_, fun h hh => ?_, fun c hc => ?_⟩
    · rw [List.map_append]
      refine List.nodup_append.mpr ⟨hround.nodup, by simp, ?_⟩
      intro c hc d hd heq
      obtain ⟨h, hh, hhc⟩ := List.mem_map.mp hc
      simp only [List.map_cons, List.map_nil, List.mem_singleton] at hd
      apply (hdue h hh).1
      rw [hhc, heq, hd, htarget]
    · rcases List.mem_append.mp hh with hh | hh
      · exact Or.inl (hdue h hh).2
      · rw [List.mem_singleton] at hh
        subst hh
        refine Or.inr ⟨htouser, htarget, hmine, ?_, hcap⟩
        by_contra hdead'
        rw [Bool.not_eq_false] at hdead'
        exact absurd (hdelivers.dead_mono user hdead') (by simp [hdead])
    · rw [List.map_append]
      apply List.mem_append.mpr
      rcases hc with hc | ⟨_, hc, _⟩
      · exact Or.inl (hshared _ hlast.dead_mono c hc)
      · right
        simp [hc, htarget]
  · rename_i hskip
    refine ⟨out, hdelivers, hround.nodup, fun h hh => Or.inl (hdue h hh).2, fun c hc => ?_⟩
    rcases hc with hc | ⟨htouser, _, hmine, hdead, hcap⟩
    · exact hshared t (fun _ h => h) c hc
    · exact absurd (by simp [htouser, hmine, hdead, hunseen, hcap]) hskip

theorem request_once (n : ℕ) (request : Request net) (s : State ι) (hs : s.marks.Counts n)
    (hn : n + 1 < 2 ^ 64) : ∃ out, Once net request s (request.run net world s) out := by
  have hfresh : ∀ c, ¬ Seen (nextSerial s) c := by
    intro c hseen
    have hnot := not_seen_next s.marks n (2 ^ 64) hs hn c
    unfold Seen nextSerial at hseen
    rw [hnot] at hseen
    exact absurd hseen (by simp)
  cases request with
  | channelButone one sender chan type localSize remoteSize =>
    exact channelButone_once net world one sender chan type localSize remoteSize s hfresh
  | commonLocal user channels touser cap size =>
    exact commonLocal_once net world user channels touser cap size s hfresh
  | matchServs source mask cap size =>
    exact matchServs_once net world source mask cap size s hfresh

end Runs

theorem reaches_counts (n : ℕ) (s : State ι) (h : Reaches n s) (hn : n < 2 ^ 64) :
    s.marks.Counts n := by
  induction h with
  | start s hround hstamp => exact ⟨hround, fun c => by rw [hstamp c]⟩
  | call n s net world request _ ih =>
    have hs := ih (by omega)
    obtain ⟨out, hout⟩ := request_once net world n request s hs hn
    exact hout.delivers.counts (n + 1) (Stamps.Counts.next s.marks n (2 ^ 64) hs hn)
  | other n s s' _ hround hstamp ih =>
    obtain ⟨hold, hstamps⟩ := ih hn
    refine ⟨hround.trans hold, fun c => ?_⟩
    rcases hstamp c with hc | hc
    · exact hc ▸ hstamps c
    · omega

/-- Whatever earlier calls left in the serial marks, a call hands the line of the connection
once to everybody who should get it and to nobody else. -/
theorem fan_out (n : ℕ) (s : State ι) (net : Net ι) (world : World) (request : Request net)
    (hs : Reaches n s) (hn : n + 1 < 2 ^ 64) :
    let s' := request.run net world s
    ∃ out, s'.lines = s.lines ++ out ∧ (out.map Handed.target).Nodup ∧
      (∀ h ∈ out, request.Due net s h.target ∧ h.form = (request.line net h.target).form ∧
        h.queued = decide (h.waiting + (request.line net h.target).size ≤
          net.sendqLimit h.target) ∧ (h.queued = true ∨ s'.isDefunct net h.target = true)) ∧
      ∀ c, request.Due net s' c → c ∈ out.map Handed.target := by
  intro s'
  obtain ⟨out, hout⟩ := request_once net world n request s (reaches_counts n s hs (by omega)) hn
  refine ⟨out, hout.delivers.lines_eq, hout.nodup, fun h hh => ?_, hout.complete⟩
  exact ⟨hout.due h hh, hout.delivers.form_eq h hh, hout.delivers.queued_eq h hh,
    hout.delivers.dropped h hh⟩

/-- A server with two users on a channel, the queue of the second nearly full. -/
def sampleNet : Net (Fin 3) where
  me := 0
  direction := id
  myConnect := fun _ => true
  isServer := fun _ => false
  name := fun _ => []
  deaf := fun _ => false
  closing := fun _ => false
  caps := fun _ => 0
  capActive := fun _ => 0
  sendqLimit := fun _ => 512
  opers := []
  globalServers := []
  direction_connected := by simp
  direction_local := by simp
  remote_server := by simp

def sampleChannel : Channel sampleNet where
  members := [⟨1, 0⟩, ⟨2, 0⟩]
  locmembers := [⟨1, 0⟩, ⟨2, 0⟩]
  client_of_member := by simp [sampleNet]
  nodup := by simp
  mem_locmembers := by simp [sampleNet]

def sampleState : State (Fin 3) where
  marks := ⟨fun _ => 0, 0⟩
  sendq := fun c => if c = 2 then 500 else 0
  dead := fun _ => false
  writes := 0
  handed := []

def sampleWorld : World where
  socket := fun _ => (0, false)
  noticeSize := fun _ => 0

def sampleRequest : Request sampleNet := .channelButone (some 1) 1 sampleChannel 0 20 20

theorem fan_out_sample : ∃ out, (sampleRequest.run sampleNet sampleWorld sampleState).lines =
    sampleState.lines ++ out ∧ (out.map Handed.target).Nodup := by
  obtain ⟨out, hlines, hnodup, _⟩ := fan_out 0 sampleState sampleNet sampleWorld sampleRequest
    (Reaches.start sampleState rfl (fun _ => rfl)) (by omega)
  exact ⟨out, hlines, hnodup⟩

/-- Who should get a message does not always get it queued: a full queue is a dropped link. -/
theorem full_queue_drops : Reaches 0 sampleState ∧
    ¬ ∃ out, (sampleRequest.run sampleNet sampleWorld sampleState).lines =
      sampleState.lines ++ out ∧
      ∀ c, sampleRequest.Due sampleNet sampleState c →
        ∃ h ∈ out, h.target = c ∧ h.queued = true := by
  refine ⟨Reaches.start sampleState rfl (fun _ => rfl), ?_⟩
  rintro ⟨out, hlines, hall⟩
  have hrun : (sampleRequest.run sampleNet sampleWorld sampleState).lines =
      [⟨2, .toClient, 500, false⟩] := by decide +kernel
  obtain ⟨h, hh, _, hqueued⟩ := hall 2 ⟨⟨2, 0⟩, by simp [sampleChannel], by decide +kernel,
    Or.inl ⟨rfl, rfl⟩⟩
  rw [hrun] at hlines
  have hout : out = [⟨2, .toClient, 500, false⟩] := by
    simpa [sampleState, State.lines] using hlines.symm
  rw [hout, List.mem_singleton] at hh
  subst hh
  exact absurd hqueued (by simp)

end IrcdHybrid.FanOut
