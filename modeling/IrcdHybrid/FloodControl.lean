import IrcdHybrid.Packet

/-!
Flood control of registered clients. So many lines are read at once, and two more for every run of
`flood_recalc`. An INVITE, though, gives a client all of them back.
-/

namespace IrcdHybrid.FloodControl

open CString Dbuf Packet Segments

/-- What a handler does to the limits. PRIVMSG, KICK, TOPIC and others call `flood_endgrace` for a
client that is still in its grace period, and INVITE does for one that is not. -/
inductive Effect where
  | none
  | ending
  | invite
  deriving DecidableEq

structure Handled where
  effect : Effect
  defunct : Bool
  exempt : Bool

/-- The lines handed to `client_dopacket` and what they did. -/
abbrev Log := List (CStr × Effect)

abbrev Client := Conn Log

def maxFloodBurst : ℕ := maxFlood * 8

def floodEndgrace (c : Client) : Client :=
  { c with floodDone := true, allowRead := maxFlood, sentParsed := 0 }

def react (c : Client) : Effect → Client
  | .none => c
  | .ending => if !c.floodDone then floodEndgrace c else c
  | .invite => if c.floodDone then floodEndgrace c else c

inductive Event where
  | recv (chunk : CStr)
  | recalc
  deriving DecidableEq

section

variable (handle : Client → CStr → Handled) (recvqLimit : ℕ)

/-- A line that is parsed. -/
def take (c : Client) (line : CStr) : Client :=
  let res := handle c line
  react { c with
    defunct := res.defunct, canFlood := res.exempt, kept := c.kept ++ [(line, res.effect)] } res.effect

/-- `flood_recalc`, which runs once a second. -/
def floodRecalc (l : Link Log) : Link Log :=
  parseClientQueued (take handle) { l with conn := { l.conn with
    sentParsed := if l.conn.floodDone then l.conn.sentParsed - 2 else 0 } }

def step (l : Link Log) : Event → Link Log
  | .recv chunk => readPacket (take handle) recvqLimit l chunk
  | .recalc => floodRecalc handle l

def run (l : Link Log) (events : List Event) : Link Log := events.foldl (step handle recvqLimit) l

end

/-- As `register_local_user` leaves it. -/
def registered (recvq : DbufQueue) : Link Log :=
  ⟨⟨.client, false, false, 0, maxFloodBurst, false, []⟩, recvq, []⟩

def invites (log : Log) : ℕ := log.countP fun line => line.2 = .invite

structure Limited (c : Client) : Prop where
  client : c.status = .client
  exempt : c.canFlood = false
  allow : c.floodDone = true → c.allowRead = maxFlood
  sent : c.sentParsed ≤ c.allowRead

/-- From `c` to `c'`, the lines count for `sentParsed`, but for `k` of them and for what INVITE gives
back. -/
def Charged (k : ℕ) (c c' : Client) : Prop :=
  c'.floodDone = true ∧ ∃ new, c'.kept = c.kept ++ new ∧
    new.length + c.sentParsed ≤ c'.sentParsed + k + 4 * invites new

theorem charged_same (k : ℕ) (c c' : Client) (hdone : c'.floodDone = true)
    (hkept : c'.kept = c.kept) (hsent : c.sentParsed ≤ c'.sentParsed + k) : Charged k c c' := by
  refine ⟨hdone, [], ?_, ?_⟩
  · rw [hkept, List.append_nil]
  · simpa [invites] using hsent

theorem Charged.trans {k k' : ℕ} {c c' c'' : Client} (h : Charged k c c') (h' : Charged k' c' c'') :
    Charged (k + k') c c'' := by
  obtain ⟨-, new, hnew, hle⟩ := h
  obtain ⟨hdone, new', hnew', hle'⟩ := h'
  refine ⟨hdone, new ++ new', ?_, ?_⟩
  · rw [hnew', hnew, List.append_assoc]
  · have hsum : invites (new ++ new') = invites new + invites new' := List.countP_append
    rw [List.length_append, hsum]
    omega

theorem parseClientQueued_client (parse : Client → CStr → Client) (l : Link Log)
    (hclient : l.conn.status = .client) (hexempt : l.conn.canFlood = false) :
    parseClientQueued parse l = clientLoop parse true (loopFuel l) l := by
  simp [parseClientQueued, isServerLink, hclient, hexempt]

theorem react_cases (c : Client) (effect : Effect) : react c effect = c ∨
    react c effect = floodEndgrace c ∧ (c.floodDone = true → effect = .invite) := by
  unfold react
  split
  · exact Or.inl rfl
  · split
    · next hnot => exact Or.inr ⟨rfl, fun hdone => by simp [hdone] at hnot⟩
    · exact Or.inl rfl
  · split
    · exact Or.inr ⟨rfl, fun _ => rfl⟩
    · exact Or.inl rfl

section

variable {handle : Client → CStr → Handled} (recvqLimit : ℕ)
  (hplain : ∀ c line, c.canFlood = false → (handle c line).exempt = false)

include hplain

theorem take_charged (c : Client) (line : CStr) (h : Limited c) (hless : c.sentParsed < c.allowRead) :
    Limited (counted (take handle) c line) ∧
      (c.floodDone = true → Charged 0 c (counted (take handle) c line)) := by
  have hexempt := hplain c line h.exempt
  unfold counted take
  generalize handle c line = res at hexempt
  obtain ⟨effect, defunct, exempt⟩ := res
  simp only at hexempt ⊢
  rcases react_cases { c with
      defunct := defunct, canFlood := exempt, kept := c.kept ++ [(line, effect)] } effect with
    heq | ⟨heq, hinvite⟩
  · rw [heq]
    refine ⟨⟨h.client, hexempt, h.allow, hless⟩, fun hdone => ⟨hdone, [(line, effect)], rfl, ?_⟩⟩
    simp only [List.length_singleton]
    omega
  · rw [heq]
    refine ⟨⟨h.client, hexempt, fun _ => rfl, Nat.le_of_ble_eq_true rfl⟩,
      fun hdone => ⟨rfl, [(line, effect)], rfl, ?_⟩⟩
    have hone : invites [(line, effect)] = 1 := by
      rw [hinvite hdone]
      rfl
    have hfive : c.allowRead = 5 := h.allow hdone
    simp only [List.length_singleton, floodEndgrace, hone]
    omega

theorem clientLoop_charged (fuel : ℕ) (l : Link Log) (h : Limited l.conn) :
    Limited (clientLoop (take handle) true fuel l).conn ∧
      (l.conn.floodDone = true → Charged 0 l.conn (clientLoop (take handle) true fuel l).conn) := by
  have hsame : Limited l.conn ∧ (l.conn.floodDone = true → Charged 0 l.conn l.conn) :=
    ⟨h, fun hdone => charged_same 0 _ _ hdone rfl le_rfl⟩
  induction fuel generalizing l with
  | zero => exact hsame
  | succ fuel ih =>
    unfold clientLoop at ih ⊢
    unfold lineLoop
    split
    · exact hsame
    next hfull =>
    rw [Bool.or_eq_true, not_or] at hfull
    have hless : l.conn.sentParsed < l.conn.allowRead := by simpa using hfull.2
    have hconn : (nextLine l).1.conn = l.conn := rfl
    generalize nextLine l = next at hconn
    obtain ⟨l', out⟩ := next
    cases out with
    | none =>
      dsimp only at hconn ⊢
      rwa [hconn]
    | some line =>
      obtain ⟨hlimited, hcharged⟩ := take_charged hplain l.conn line h hless
      rw [← hconn] at hlimited hcharged ⊢
      obtain ⟨hlimited', hcharged'⟩ := ih (clientDopacket (counted (take handle)) l' line) hlimited
        ⟨hlimited, fun hdone => charged_same 0 _ _ hdone rfl le_rfl⟩
      exact ⟨hlimited', fun hdone => (hcharged hdone).trans (hcharged' (hcharged hdone).1)⟩

theorem parseClientQueued_charged (l : Link Log) (h : Limited l.conn) :
    Limited (parseClientQueued (take handle) l).conn ∧
      (l.conn.floodDone = true → Charged 0 l.conn (parseClientQueued (take handle) l).conn) := by
  rw [parseClientQueued_client _ l h.client h.exempt]
  exact clientLoop_charged hplain _ l h

theorem step_charged (l : Link Log) (event : Event) (h : Limited l.conn) :
    Limited (step handle recvqLimit l event).conn ∧ (l.conn.floodDone = true →
      Charged (if event = .recalc then 2 else 0) l.conn (step handle recvqLimit l event).conn) := by
  cases event with
  | recv chunk =>
    rw [if_neg (by simp)]
    obtain ⟨hlimited, hcharged⟩ := parseClientQueued_charged hplain
      { l with recvq := dbufPut l.recvq chunk } h
    unfold step readPacket
    dsimp only
    split_ifs
    · exact ⟨h, fun hdone => charged_same 0 _ _ hdone rfl le_rfl⟩
    · exact ⟨hlimited, hcharged⟩
    · exact ⟨⟨hlimited.client, hlimited.exempt, hlimited.allow, hlimited.sent⟩, hcharged⟩
    · exact ⟨hlimited, hcharged⟩
  | recalc =>
    rw [if_pos rfl]
    unfold step floodRecalc
    dsimp only
    generalize hsent : (if l.conn.floodDone then l.conn.sentParsed - 2 else 0) = sent
    have hless : sent ≤ l.conn.sentParsed := by
      rw [← hsent]
      split <;> omega
    obtain ⟨hlimited, hcharged⟩ := parseClientQueued_charged hplain
      { l with conn := { l.conn with sentParsed := sent } }
      ⟨h.client, h.exempt, h.allow, hless.trans h.sent⟩
    refine ⟨hlimited, fun hdone => ?_⟩
    rw [if_pos hdone] at hsent
    have hfewer : Charged 2 l.conn { l.conn with sentParsed := sent } :=
      charged_same 2 _ _ hdone rfl (show l.conn.sentParsed ≤ sent + 2 by omega)
    exact hfewer.trans (hcharged hdone)

theorem run_charged (events : List Event) (l : Link Log) (h : Limited l.conn) :
    Limited (run handle recvqLimit l events).conn ∧ (l.conn.floodDone = true →
      Charged (2 * events.count .recalc) l.conn (run handle recvqLimit l events).conn) := by
  induction events generalizing l with
  | nil => exact ⟨h, fun hdone => charged_same _ _ _ hdone rfl (Nat.le_add_right _ _)⟩
  | cons event events ih =>
    obtain ⟨hlimited, hcharged⟩ := step_charged recvqLimit hplain l event h
    obtain ⟨hlimited', hcharged'⟩ := ih _ hlimited
    refine ⟨hlimited', fun hdone => ?_⟩
    have htrans := (hcharged hdone).trans (hcharged' (hcharged hdone).1)
    have hcount : (if event = .recalc then 2 else 0) + 2 * events.count .recalc =
        2 * (event :: events).count .recalc := by
      rw [List.count_cons]
      cases event with
      | recv chunk => simp
      | recalc =>
        simp only [if_true, beq_self_eq_true]
        omega
    rwa [hcount] at htrans

end

/-- Once its grace period is over, a client gets five lines and two a second through, in any stretch of
time, and up to four more for every INVITE. -/
theorem lines_limited (handle : Client → CStr → Handled) (recvqLimit : ℕ)
    (hplain : ∀ c line, c.canFlood = false → (handle c line).exempt = false) (recvq : DbufQueue)
    (before events : List Event) (hdone : (run handle recvqLimit (registered recvq) before).conn.floodDone = true) :
    ∃ new, (run handle recvqLimit (registered recvq) (before ++ events)).conn.kept =
        (run handle recvqLimit (registered recvq) before).conn.kept ++ new ∧
      new.length ≤ 5 + 2 * events.count .recalc + 4 * invites new := by
  obtain ⟨hlimited, -⟩ := run_charged recvqLimit hplain before (registered recvq)
    ⟨rfl, rfl, fun h => by simp [registered] at h, Nat.zero_le _⟩
  obtain ⟨hlimited', hcharged⟩ := run_charged recvqLimit hplain events _ hlimited
  obtain ⟨hdone', new, hnew, hle⟩ := hcharged hdone
  have hsent := hlimited'.sent
  rw [hlimited'.allow hdone'] at hsent
  have hfive : maxFlood = 5 := rfl
  refine ⟨new, ?_, by omega⟩
  unfold run at hnew ⊢
  rw [List.foldl_append, hnew]

/-- Every client PRIVMSGs. -/
def chatter : Client → CStr → Handled := fun _ _ => ⟨.ending, false, false⟩

theorem lines_limited_chatter : ∃ new,
    (run chatter 2560 (registered Dbuf.empty) [.recv "a\n".toList, .recv "b\nc\n".toList,
        .recalc]).conn.kept = ("a".toList, .ending) :: new ∧ new.length ≤ 7 + 4 * invites new :=
  lines_limited chatter 2560 (fun _ _ _ => rfl) Dbuf.empty [.recv "a\n".toList]
    [.recv "b\nc\n".toList, .recalc] rfl

/-- A client that may send one more line, and gets all of them back for an INVITE. -/
structure Unlimited (c : Client) : Prop where
  client : c.status = .client
  defunct : c.defunct = false
  exempt : c.canFlood = false
  done : c.floodDone = true
  room : c.sentParsed < c.allowRead

theorem parseClientQueued_inviting (handle : Client → CStr → Handled) (l : Link Log)
    (hconn : Unlimited l.conn) (h : WellFormed l.recvq)
    (hinvite : ∀ line ∈ segments isEol (bytes l.recvq), ∀ c, handle c (cutLine line) = ⟨.invite, false, false⟩)
    (hlast : EmptyLineLast isEol 2 (bytes l.recvq)) :
    (parseClientQueued (take handle) l).handed =
      l.handed ++ (segments isEol (bytes l.recvq)).map cutLine := by
  rw [parseClientQueued_client _ l hconn.client hconn.exempt]
  obtain ⟨hkeeps, hiff⟩ := lineLoop_spec (counted (take handle))
    (fun c => c.defunct || (true && c.allowRead ≤ c.sentParsed)) Unlimited
    (fun c hc => by simpa [hc.defunct] using hc.room) (loopFuel l) l
    (by
      intro line hline c hc
      unfold counted take
      rw [hinvite line hline c, react, if_pos hc.done]
      exact ⟨hc.client, rfl, rfl, rfl, Nat.le_of_ble_eq_true rfl⟩)
    hconn h (by simp only [loopFuel, h.total]; omega)
  have hlines := hkeeps.lines
  rwa [segments_of_free isEol _ (hiff.mpr hlast), List.map_nil, List.append_nil] at hlines

/-- INVITEs are read at once, however many there are, up to an empty line. -/
theorem invites_unlimited (handle : Client → CStr → Handled) (recvqLimit : ℕ) (l : Link Log) (chunk : CStr)
    (hconn : Unlimited l.conn) (h : WellFormed l.recvq)
    (hinvite : ∀ line ∈ segments isEol (bytes l.recvq ++ chunk), ∀ c,
      handle c (cutLine line) = ⟨.invite, false, false⟩)
    (hlast : EmptyLineLast isEol 2 (bytes l.recvq ++ chunk)) :
    (step handle recvqLimit l (.recv chunk)).handed =
      l.handed ++ (segments isEol (bytes l.recvq ++ chunk)).map cutLine := by
  rw [← bytes_dbufPut l.recvq chunk h] at hinvite hlast ⊢
  rw [← parseClientQueued_inviting handle { l with recvq := dbufPut l.recvq chunk } hconn
    (dbufPut_wellFormed l.recvq chunk h) hinvite hlast]
  unfold step readPacket
  dsimp only
  rw [if_neg (by simp [hconn.defunct])]
  split_ifs <;> rfl

def inviter : Client := ⟨.client, false, true, 4, maxFlood, false, []⟩

theorem invites_unlimited_inviter :
    (step (fun _ _ => ⟨.invite, false, false⟩) 2560 ⟨inviter, Dbuf.empty, []⟩ (.recv "i\ni\ni\n".toList)).handed =
      List.replicate 3 ['i'] :=
  invites_unlimited _ 2560 ⟨inviter, Dbuf.empty, []⟩ "i\ni\ni\n".toList
    ⟨rfl, rfl, rfl, rfl, by decide⟩ wellFormed_empty (fun _ _ _ => rfl)
    (by simp [Dbuf.empty, bytes, EmptyLineLast, isEol, dropSep, Free])

end IrcdHybrid.FloodControl
