import IrcdHybrid.BurstRun
import IrcdHybrid.SjoinHeader

/-!
The lines that `ms_sjoin` sends on. The header is printed from `modebuf` and `parabuf`;
`modebuf` is then used again, for the letters of the statuses that the local members
are told about. When the line is full the header is printed once more, from what
`modebuf` holds by then.
-/

namespace IrcdHybrid.SjoinRelay

open CString Numeral BanMask Channels Packing Wire Burst Sjoin ChannelMode BurstLines BurstRun
  SjoinHeader

def NUL : Char := Char.ofNat 0

/-- What stands in a buffer before the first NUL. -/
def text (buf : CStr) : CStr := buf.takeWhile (fun c => c != NUL)

/-- Characters that are written into a buffer from a place on. -/
def put (buf : CStr) (pos : ℕ) (s : CStr) : CStr := buf.take pos ++ (s ++ buf.drop (pos + s.length))

/-- `modebuf`, `mbuf` and `pargs`, the line in `uid_buf`, and the lines sent already. -/
structure Relay where
  modebuf : CStr
  mbuf : ℕ
  pargs : ℕ
  uidBuf : CStr
  sent : List CStr

/-- The letter of a status; with `MAXMODEPARAMS` of them the local members are told, and
the letters start again behind the sign. -/
def putStatus (r : Relay) (c : Char) : Relay :=
  let modebuf := put r.modebuf r.mbuf [c]
  if MAXMODEPARAMS ≤ r.pargs + 1 then
    { r with modebuf := put (put modebuf (r.mbuf + 1) [NUL]) 0 ['+'], mbuf := 1, pargs := 0 }
  else { r with modebuf := modebuf, mbuf := r.mbuf + 1, pargs := r.pargs + 1 }

def statusLetters (fl : Flags) : CStr :=
  (if fl.chanop then ['o'] else []) ++ ((if fl.halfop then ['h'] else []) ++
    (if fl.voice then ['v'] else []))

/-- A member on the line, or on the next one if he does not fit. -/
def relayMember (header : CStr → CStr) (r : Relay) (member : Membership) : Relay :=
  let uid := memberText member
  let r := if IRCD_BUFSIZE - 2 < r.uidBuf.length + uid.length then
    { r with uidBuf := header (text r.modebuf), sent := r.sent ++ [r.uidBuf] } else r
  (statusLetters member.flags).foldl putStatus { r with uidBuf := r.uidBuf ++ uid ++ [' '] }

/-- The client that a name in the list stands for, with the status he is given; `none` if
he is skipped. -/
def target (link : Link) (keepNewModes : Bool) (s : CStr) : Option Membership :=
  let (fl, name) := readStatus s noFlags
  match link.findChasing name with
  | some id => if link.behind id then some ⟨id, if keepNewModes then fl else noFlags⟩ else none
  | none => none

/-- The loop of `ms_sjoin` on one name of the list. -/
def relayName (link : Link) (keepNewModes : Bool) (header : CStr → CStr) (r : Relay) (s : CStr) :
    Relay :=
  match target link keepNewModes s with
  | some member => relayMember header r member
  | none => r

/-- The channel that a line is about, made if it is not there. -/
def chptrOf (link : Link) (name : CStr) (old : Option Channel) : Channel :=
  old.getD (makeChannel link.currentTime name)

/-- `newts`, once it is known whether to believe it. -/
def newTs (link : Link) (ts name : CStr) (old : Option Channel) : ℤ :=
  bogusTs link (strtol ts) (chptrOf link name old).creationtime

def decision (link : Link) (ts name : CStr) (old : Option Channel) : Decision :=
  decideTs old.isNone (newTs link ts name old) (chptrOf link name old).creationtime

/-- The channel with the timestamp and the modes settled. -/
def settled (link : Link) (ts name : CStr) (mode : Mode) (old : Option Channel) : Channel :=
  applyTs (decision link ts name old) mode old.isNone name (chptrOf link name old)

/-- `modebuf` with a text in front of what was there. -/
def printed (buf s : CStr) : CStr := put buf 0 (s ++ [NUL])

/-- The lines that `ms_sjoin` sends on for a line of the server `id`; `stale` is what an
earlier call has left in `modebuf`. -/
def relayLines (link : Link) (id stale ts name modes : CStr) (args : List CStr)
    (old : Option Channel) : List CStr :=
  if !checkChannelName name then []
  else
    match sjoinModes modes args noModes with
    | none => []
    | some (mode, rest) =>
      let chptr := chptrOf link name old
      let d := decision link ts name old
      let a := settled link ts name mode old
      let bufs := relayBufs modes d.keepNewModes a.mode chptr.mode
      let header := fun modebuf => relayHeader id d.creationtime a.name modebuf bufs.2
      if tooLong (header bufs.1) then []
      else
        let modebuf := printed (printed stale (setFinalMode a.mode chptr.mode).1) bufs.1
        let r := (tokens (rest.headD [])).foldl (relayName link d.keepNewModes header)
          ⟨put modebuf 0 ['+'], 1, 0, header bufs.1, []⟩
        let joined := (tokens (rest.headD [])).foldl (joinMember link d.keepNewModes) a
        if (joined.members = [] ∧ old.isNone) ∨ rest.headD [] = [] then r.sent.map sendFormat
        else (r.sent ++ [r.uidBuf.dropLast]).map sendFormat

/-- `ms_sjoin`: what is sent on. -/
def relay (link : Link) (id stale : CStr) (t : Table) (params : List CStr) : List CStr :=
  match params with
  | ts :: name :: modes :: arg :: args =>
    relayLines link id stale ts name modes (arg :: args) (hashFindChannel t name)
  | _ => []

def targets (link : Link) (keepNewModes : Bool) (names : List CStr) : List Membership :=
  names.filterMap (target link keepNewModes)

theorem joinMember_target (link : Link) (keep : Bool) (chptr : Channel) (s : CStr) :
    joinMember link keep chptr s =
      match target link keep s with
      | some member => joinOne true chptr member
      | none => chptr := by
  unfold joinMember target
  generalize readStatus s noFlags = p
  obtain ⟨fl, name⟩ := p
  dsimp only
  cases link.findChasing name with
  | none => rfl
  | some id =>
    dsimp only
    cases hbehind : link.behind id with
    | false => simp
    | true =>
      unfold joinOne
      cases hmember : chptr.isMember id <;> simp [hmember]

theorem foldl_joinMember_targets (link : Link) (keep : Bool) (names : List CStr) (chptr : Channel) :
    names.foldl (joinMember link keep) chptr =
      (targets link keep names).foldl (joinOne true) chptr := by
  induction names generalizing chptr with
  | nil => rfl
  | cons s names ih =>
    rw [List.foldl_cons, ih, joinMember_target]
    unfold targets
    cases htarget : target link keep s with
    | none => rw [List.filterMap_cons_none htarget]
    | some member => rw [List.filterMap_cons_some htarget, List.foldl_cons]

theorem foldl_relayName_targets (link : Link) (keep : Bool) (header : CStr → CStr)
    (names : List CStr) (r : Relay) :
    names.foldl (relayName link keep header) r =
      (targets link keep names).foldl (relayMember header) r := by
  induction names generalizing r with
  | nil => rfl
  | cons s names ih =>
    rw [List.foldl_cons, ih]
    unfold relayName targets
    cases htarget : target link keep s with
    | none => rw [List.filterMap_cons_none htarget]
    | some member => rw [List.filterMap_cons_some htarget, List.foldl_cons]

theorem mem_targets (link : Link) (keep : Bool) (names : List CStr) (member : Membership)
    (h : member ∈ targets link keep names) :
    (∃ s, link.findChasing s = some member.id) ∧ link.behind member.id = true ∧
      (keep = false → member.flags = noFlags) := by
  obtain ⟨s, _, htarget⟩ := List.mem_filterMap.mp h
  unfold target at htarget
  generalize readStatus s noFlags = p at htarget
  obtain ⟨fl, name⟩ := p
  dsimp only at htarget
  cases hfind : link.findChasing name with
  | none => simp [hfind] at htarget
  | some id =>
    rw [hfind] at htarget
    dsimp only at htarget
    split at htarget
    · next hbehind =>
      obtain rfl := Option.some.inj htarget
      exact ⟨⟨name, hfind⟩, hbehind, fun hkeep => by simp [hkeep]⟩
    · simp at htarget

theorem put_append (a b s : CStr) : put (a ++ b) a.length s = a ++ (s ++ b.drop s.length) := by
  simp [put, List.drop_append]

theorem put_letter (c₀ c : Char) (a b : CStr) :
    put (c₀ :: (a ++ b)) (1 + a.length) [c] = c₀ :: (a ++ c :: b.drop 1) := by
  have h := put_append (c₀ :: a) b [c]
  rwa [List.length_cons, Nat.add_comm] at h

theorem put_sign (c : Char) (buf : CStr) : put (c :: buf) 0 ['+'] = '+' :: buf := rfl

theorem printed_eq (buf s : CStr) : printed buf s = s ++ NUL :: buf.drop (s.length + 1) := by
  simp [printed, put]

theorem text_printed (s buf : CStr) (h : NUL ∉ s) : text (s ++ NUL :: buf) = s := by
  unfold text
  rw [List.takeWhile_append_of_pos (by
    intro c hc
    have hne : c ≠ NUL := fun heq => h (heq ▸ hc)
    simpa using hne)]
  simp

/-- The letters of the statuses, for which `ms_sjoin` has no mode. -/
def StatusLetters (s : CStr) : Prop := ∀ c ∈ s, c = 'o' ∨ c = 'h' ∨ c = 'v'

theorem statusLetters_letters (fl : Flags) : StatusLetters (statusLetters fl) := by
  intro c hc
  unfold statusLetters at hc
  rcases List.mem_append.mp hc with hc | hc
  · split at hc <;> simp_all
  rcases List.mem_append.mp hc with hc | hc
  · split at hc <;> simp_all
  · split at hc <;> simp_all

theorem statusLetters_concat (s : CStr) (c : Char) (hs : StatusLetters s)
    (hc : c = 'o' ∨ c = 'h' ∨ c = 'v') : StatusLetters (s ++ [c]) := by
  intro d hd
  rcases List.mem_append.mp hd with hd | hd
  · exact hs d hd
  · rwa [List.mem_singleton.mp hd]

/-- After `j` letters `modebuf` begins with them, and goes on as it did. After the sixth
there are always six of them, and nothing else. -/
inductive Lettered (start : CStr) : ℕ → Relay → Prop where
  | few (letters uidBuf : CStr) (sent : List CStr) (hletters : StatusLetters letters)
      (hfew : letters.length < MAXMODEPARAMS) :
      Lettered start letters.length
        ⟨'+' :: (letters ++ start.drop letters.length), 1 + letters.length, letters.length,
          uidBuf, sent⟩
  | many (j : ℕ) (letters before buf uidBuf : CStr) (sent : List CStr)
      (hletters : StatusLetters letters) (hbefore : StatusLetters before)
      (hlen : letters.length + before.length = MAXMODEPARAMS)
      (hfew : letters.length < MAXMODEPARAMS) (hj : MAXMODEPARAMS ≤ j) :
      Lettered start j
        ⟨'+' :: (letters ++ (before ++ NUL :: buf)), 1 + letters.length, letters.length,
          uidBuf, sent⟩

theorem putStatus_lines (r : Relay) (c : Char) :
    (putStatus r c).uidBuf = r.uidBuf ∧ (putStatus r c).sent = r.sent := by
  unfold putStatus
  dsimp only
  split <;> exact ⟨rfl, rfl⟩

theorem putStatus_lettered (start : CStr) (j : ℕ) (r : Relay) (c : Char)
    (hc : c = 'o' ∨ c = 'h' ∨ c = 'v') (h : Lettered start j r) :
    Lettered start (j + 1) (putStatus r c) := by
  have hmax : MAXMODEPARAMS = 6 := rfl
  cases h with
  | few letters uidBuf sent hletters hfew =>
    have hconcat := statusLetters_concat letters c hletters hc
    have hlen : (letters ++ [c]).length = letters.length + 1 := by simp
    have hbuf : put ('+' :: (letters ++ start.drop letters.length)) (1 + letters.length) [c] =
        '+' :: ((letters ++ [c]) ++ start.drop (letters.length + 1)) := by
      rw [put_letter, List.drop_drop]
      simp
    unfold putStatus
    dsimp only
    rw [hbuf]
    split
    · next hfull =>
      rw [show 1 + letters.length + 1 = 1 + (letters ++ [c]).length by omega, put_letter, put_sign]
      exact Lettered.many _ [] (letters ++ [c]) _ uidBuf sent (by simp [StatusLetters]) hconcat
        (by simp only [List.length_nil]; omega) (by simp [hmax]) hfull
    · have hstep := @Lettered.few start (letters ++ [c]) uidBuf sent hconcat (by omega)
      rw [hlen] at hstep
      rwa [Nat.add_assoc]
  | many _ letters before buf uidBuf sent hletters hbefore hlen hfew hj =>
    have hconcat := statusLetters_concat letters c hletters hc
    have hlenc : (letters ++ [c]).length = letters.length + 1 := by simp
    obtain ⟨b, before, rfl⟩ : ∃ b before', before = b :: before' :=
      List.exists_cons_of_length_pos (by omega)
    have hrest : StatusLetters before := fun d hd => hbefore d (List.mem_cons_of_mem b hd)
    have hbuf : put ('+' :: (letters ++ (b :: before ++ NUL :: buf))) (1 + letters.length) [c] =
        '+' :: ((letters ++ [c]) ++ (before ++ NUL :: buf)) := by
      rw [put_letter]
      simp
    rw [List.length_cons] at hlen
    unfold putStatus
    dsimp only
    rw [hbuf]
    split
    · next hfull =>
      have hnil : before = [] := List.length_eq_zero_iff.mp (by omega)
      rw [show 1 + letters.length + 1 = 1 + (letters ++ [c]).length by omega, put_letter, put_sign,
        hnil]
      exact Lettered.many _ [] (letters ++ [c]) _ uidBuf sent (by simp [StatusLetters]) hconcat
        (by simp only [List.length_nil]; omega) (by simp [hmax]) (by omega)
    · have hstep := @Lettered.many start (j + 1) (letters ++ [c]) before buf uidBuf sent
        hconcat hrest (by omega) (by omega) (by omega)
      rw [hlenc] at hstep
      rwa [Nat.add_assoc]

theorem foldl_putStatus_lettered (start : CStr) (j : ℕ) (r : Relay) (s : CStr)
    (hs : StatusLetters s) (h : Lettered start j r) :
    Lettered start (j + s.length) (s.foldl putStatus r) := by
  induction s generalizing j r with
  | nil => exact h
  | cons c s ih =>
    have hstep := putStatus_lettered start j r c (hs c List.mem_cons_self) h
    have hrest := ih (j + 1) _ (fun d hd => hs d (List.mem_cons_of_mem c hd)) hstep
    rw [List.length_cons, show j + (s.length + 1) = j + 1 + s.length by omega]
    exact hrest

theorem foldl_putStatus_lines (r : Relay) (s : CStr) :
    (s.foldl putStatus r).uidBuf = r.uidBuf ∧ (s.foldl putStatus r).sent = r.sent := by
  induction s generalizing r with
  | nil => exact ⟨rfl, rfl⟩
  | cons c s ih =>
    obtain ⟨hbuf, hsent⟩ := putStatus_lines r c
    rw [List.foldl_cons, (ih _).1, (ih _).2]
    exact ⟨hbuf, hsent⟩

theorem lettered_lines (start : CStr) (j : ℕ) (r : Relay) (uidBuf : CStr) (sent : List CStr)
    (h : Lettered start j r) : Lettered start j { r with uidBuf := uidBuf, sent := sent } := by
  cases h with
  | few letters _ _ hletters hfew => exact Lettered.few letters uidBuf sent hletters hfew
  | many _ letters before buf _ _ hletters hbefore hlen hfew hj =>
    exact Lettered.many j letters before buf uidBuf sent hletters hbefore hlen hfew hj

theorem nul_statusLetters (s : CStr) (h : StatusLetters s) : NUL ∉ s := by
  intro hmem
  rcases h NUL hmem with heq | heq | heq <;> exact absurd heq (by decide)

/-- What the next header gets for its modes: the letters over the front of the modes, or
six letters. -/
theorem text_lettered (field buf : CStr) (j : ℕ) (r : Relay) (hfield : NUL ∉ field)
    (h : Lettered (field ++ NUL :: buf) j r) (hj : j ≤ field.length ∨ MAXMODEPARAMS ≤ j) :
    ∃ letters, StatusLetters letters ∧
      ((j < MAXMODEPARAMS ∧ j ≤ field.length ∧ letters.length = j ∧
          text r.modebuf = '+' :: (letters ++ field.drop j)) ∨
        (MAXMODEPARAMS ≤ j ∧ letters.length = MAXMODEPARAMS ∧
          text r.modebuf = '+' :: letters)) := by
  have hplus : '+' ≠ NUL := by decide
  cases h with
  | few letters uidBuf sent hletters hfew =>
    have hle : letters.length ≤ field.length := by omega
    refine ⟨letters, hletters, Or.inl ⟨hfew, hle, rfl, ?_⟩⟩
    have hnul : NUL ∉ '+' :: (letters ++ field.drop letters.length) := by
      simp only [List.mem_cons, List.mem_append, not_or]
      exact ⟨hplus.symm, nul_statusLetters letters hletters,
        fun hmem => hfield (List.mem_of_mem_drop hmem)⟩
    have hprinted := text_printed _ buf hnul
    dsimp only
    rw [List.drop_append_of_le_length hle, ← List.append_assoc]
    exact hprinted
  | many _ letters before buf' uidBuf sent hletters hbefore hlen hfew hmany =>
    have hall : StatusLetters (letters ++ before) := by
      intro c hc
      rcases List.mem_append.mp hc with hc | hc
      · exact hletters c hc
      · exact hbefore c hc
    refine ⟨letters ++ before, hall, Or.inr ⟨hmany, by rw [List.length_append, hlen], ?_⟩⟩
    have hnul : NUL ∉ '+' :: (letters ++ before) := by
      simp only [List.mem_cons, not_or]
      exact ⟨hplus.symm, nul_statusLetters _ hall⟩
    have hprinted := text_printed _ buf' hnul
    dsimp only
    rw [← List.append_assoc]
    exact hprinted

/-- A split with `j` letters in `modebuf`: they cover flags only, or there are six of them
and nothing else, and then there must be no parameters. -/
def SplitOk (flags : ℕ) (params : CStr) (j : ℕ) : Prop :=
  (j < MAXMODEPARAMS ∧ j ≤ flags) ∨ (MAXMODEPARAMS ≤ j ∧ params = [])

instance (flags : ℕ) (params : CStr) (j : ℕ) : Decidable (SplitOk flags params j) :=
  inferInstanceAs (Decidable (_ ∨ _))

/-- Every split of the line that the members make, from a line of `len` bytes and `j` letters
on. The header is `base` bytes long without its modes, which are `width`. -/
def SplitsOk (flags base width : ℕ) (params : CStr) : List Membership → ℕ → ℕ → Prop
  | [], _, _ => True
  | member :: members, len, j =>
    let uid := (memberText member).length
    let next := j + (statusLetters member.flags).length
    if IRCD_BUFSIZE - 2 < len + uid then
      SplitOk flags params j ∧ SplitsOk flags base width params members
        (base + (if j < MAXMODEPARAMS then width else MAXMODEPARAMS + 1) + uid + 1) next
    else SplitsOk flags base width params members (len + uid + 1) next

instance decidableSplitsOk (flags base width : ℕ) (params : CStr) :
    (members : List Membership) → (len j : ℕ) →
      Decidable (SplitsOk flags base width params members len j)
  | [], _, _ => isTrue trivial
  | member :: members, len, j =>
    if hfull : IRCD_BUFSIZE - 2 < len + (memberText member).length then
      have := decidableSplitsOk flags base width params members
        (base + (if j < MAXMODEPARAMS then width else MAXMODEPARAMS + 1) +
          (memberText member).length + 1) (j + (statusLetters member.flags).length)
      decidable_of_iff (SplitOk flags params j ∧ SplitsOk flags base width params members
        (base + (if j < MAXMODEPARAMS then width else MAXMODEPARAMS + 1) +
          (memberText member).length + 1) (j + (statusLetters member.flags).length))
        (by conv_rhs => unfold SplitsOk
            simp only [hfull, if_true])
    else
      have := decidableSplitsOk flags base width params members
        (len + (memberText member).length + 1) (j + (statusLetters member.flags).length)
      decidable_of_iff (SplitsOk flags base width params members
        (len + (memberText member).length + 1) (j + (statusLetters member.flags).length))
        (by conv_rhs => unfold SplitsOk
            simp only [hfull, if_false])

/-- The modes of a header that is printed at a split: status letters over flags, or six of
them. -/
def Overwritten (field : CStr) (flags : ℕ) (params f : CStr) : Prop :=
  ∃ letters, StatusLetters letters ∧
    ((letters.length ≤ flags ∧ f = '+' :: (letters ++ field.drop letters.length)) ∨
      (params = [] ∧ f = '+' :: letters))

def lineOf (header : CStr → CStr) (p : CStr × List Membership) : CStr :=
  header p.1 ++ trailed memberText ' ' p.2

/-- The lines sent and the one being filled hold the members so far, in their order; the
first has the modes of the channel. -/
def Filled (header : CStr → CStr) (Good : CStr → Prop) (first : CStr)
    (members : List Membership) (r : Relay) : Prop :=
  ∃ (done : List (CStr × List Membership)) (f : CStr) (cur : List Membership),
    r.sent = done.map (lineOf header) ∧ r.uidBuf = lineOf header (f, cur) ∧
    (done ++ [(f, cur)]).flatMap Prod.snd = members ∧
    (∃ fs, (done ++ [(f, cur)]).map Prod.fst = first :: fs ∧ ∀ f ∈ fs, Good f) ∧
    (∀ p ∈ done, p.2 ≠ []) ∧ (cur = [] → done = []) ∧
    ∀ p ∈ done ++ [(f, cur)], (lineOf header p).length ≤ IRCD_BUFSIZE - 1

theorem lineOf_concat (header : CStr → CStr) (f : CStr) (cur : List Membership)
    (member : Membership) :
    lineOf header (f, cur ++ [member]) = lineOf header (f, cur) ++ memberText member ++ [' '] := by
  unfold lineOf
  rw [trailed_append, trailed_singleton]
  simp

theorem filled_append (header : CStr → CStr) (Good : CStr → Prop) (first : CStr)
    (members : List Membership) (r : Relay) (member : Membership)
    (hfits : r.uidBuf.length + (memberText member).length ≤ IRCD_BUFSIZE - 2)
    (h : Filled header Good first members r) :
    Filled header Good first (members ++ [member])
      { r with uidBuf := r.uidBuf ++ memberText member ++ [' '] } := by
  have hsize : IRCD_BUFSIZE = 512 := rfl
  obtain ⟨done, f, cur, hsent, hbuf, hmembers, ⟨fs, hfields, hgood⟩, hdone, _, hlen⟩ := h
  refine ⟨done, f, cur ++ [member], hsent, ?_, ?_, ⟨fs, ?_, hgood⟩, hdone, by simp, ?_⟩
  · show r.uidBuf ++ memberText member ++ [' '] = _
    rw [lineOf_concat, hbuf]
  · rw [← hmembers]
    simp
  · rw [← hfields]
    simp
  · intro p hp
    rcases List.mem_append.mp hp with hp | hp
    · exact hlen p (List.mem_append_left _ hp)
    · rw [List.mem_singleton.mp hp, lineOf_concat, ← hbuf]
      simp only [List.length_append, List.length_singleton]
      omega

theorem filled_split (header : CStr → CStr) (Good : CStr → Prop) (first f' : CStr)
    (members : List Membership) (r : Relay) (member : Membership) (hf' : Good f')
    (hempty : (header first).length + (memberText member).length ≤ IRCD_BUFSIZE - 2)
    (hfull : IRCD_BUFSIZE - 2 < r.uidBuf.length + (memberText member).length)
    (hfits : (header f').length + (memberText member).length ≤ IRCD_BUFSIZE - 2)
    (h : Filled header Good first members r) :
    Filled header Good first (members ++ [member])
      { r with
        uidBuf := header f' ++ memberText member ++ [' ']
        sent := r.sent ++ [r.uidBuf] } := by
  have hsize : IRCD_BUFSIZE = 512 := rfl
  obtain ⟨done, f, cur, hsent, hbuf, hmembers, ⟨fs, hfields, hgood⟩, hdone, hcur, hlen⟩ := h
  have hline : header f' ++ memberText member ++ [' '] = lineOf header (f', [member]) := by
    simp [lineOf]
  have hne : cur ≠ [] := by
    intro hnil
    rw [hcur hnil] at hfields
    have hfirst : f = first := (List.cons.inj hfields).1
    rw [hbuf, hnil, hfirst] at hfull
    simp only [lineOf, trailed_nil, List.append_nil] at hfull
    omega
  refine ⟨done ++ [(f, cur)], f', [member], ?_, hline, ?_, ⟨fs ++ [f'], ?_, ?_⟩, ?_, by simp, ?_⟩
  · show r.sent ++ [r.uidBuf] = _
    rw [hsent, hbuf]
    simp
  · rw [List.flatMap_append, hmembers]
    simp
  · rw [List.map_append, hfields]
    simp
  · intro g hg
    rcases List.mem_append.mp hg with hg | hg
    · exact hgood g hg
    · rwa [List.mem_singleton.mp hg]
  · intro p hp
    rcases List.mem_append.mp hp with hp | hp
    · exact hdone p hp
    · rw [List.mem_singleton.mp hp]
      exact hne
  · intro p hp
    rcases List.mem_append.mp hp with hp | hp
    · exact hlen p hp
    · rw [List.mem_singleton.mp hp, ← hline]
      simp only [List.length_append, List.length_singleton]
      omega

section Loop

variable (header : CStr → CStr) (base : ℕ) (field buf params first : CStr) (flags : ℕ)

theorem relayMember_filled (hheader : ∀ f, (header f).length = base + f.length)
    (hfirst : first.length = field.length + 1) (hfield : NUL ∉ field)
    (hflags : flags ≤ field.length) (hbase : base + field.length + 22 ≤ IRCD_BUFSIZE - 2)
    (members : List Membership) (r : Relay) (member : Membership) (j : ℕ)
    (hid : (memberText member).length ≤ 15)
    (hok : IRCD_BUFSIZE - 2 < r.uidBuf.length + (memberText member).length →
      SplitOk flags params j)
    (hletters : Lettered (field ++ NUL :: buf) j r)
    (h : Filled header (Overwritten field flags params) first members r) :
    Filled header (Overwritten field flags params) first (members ++ [member])
        (relayMember header r member) ∧
      Lettered (field ++ NUL :: buf) (j + (statusLetters member.flags).length)
        (relayMember header r member) ∧
      (relayMember header r member).uidBuf.length =
        (if IRCD_BUFSIZE - 2 < r.uidBuf.length + (memberText member).length then
          base + (if j < MAXMODEPARAMS then field.length + 1 else MAXMODEPARAMS + 1)
        else r.uidBuf.length) + (memberText member).length + 1 := by
  have hmax : MAXMODEPARAMS = 6 := rfl
  have hstatus := statusLetters_letters member.flags
  -- the letters come after the member is printed, and leave the lines alone
  have hfilled : ∀ r' : Relay, Filled header (Overwritten field flags params) first
      (members ++ [member]) r' → Filled header (Overwritten field flags params) first
      (members ++ [member]) ((statusLetters member.flags).foldl putStatus r') := by
    intro r' hr'
    obtain ⟨hbuf, hsent⟩ := foldl_putStatus_lines r' (statusLetters member.flags)
    unfold Filled
    rwa [hbuf, hsent]
  unfold relayMember
  dsimp only
  split
  · next hfull =>
    have hsplit := hok hfull
    have hj : j ≤ field.length ∨ MAXMODEPARAMS ≤ j := by
      rcases hsplit with ⟨_, hle⟩ | ⟨hmany, _⟩
      · exact Or.inl (by omega)
      · exact Or.inr hmany
    obtain ⟨letters, hl, htext⟩ := text_lettered field buf j r hfield hletters hj
    have hgood : Overwritten field flags params (text r.modebuf) ∧ (text r.modebuf).length =
        if j < MAXMODEPARAMS then field.length + 1 else MAXMODEPARAMS + 1 := by
      rcases htext with ⟨hfew, hle, hlen, heq⟩ | ⟨hmany, hlen, heq⟩
      · refine ⟨⟨letters, hl, Or.inl ⟨?_, by rw [hlen]; exact heq⟩⟩, ?_⟩
        · rcases hsplit with ⟨_, hle⟩ | ⟨hmany, _⟩ <;> omega
        · rw [if_pos hfew, heq]
          simp only [List.length_cons, List.length_append, List.length_drop]
          omega
      · refine ⟨⟨letters, hl, Or.inr ⟨?_, heq⟩⟩, ?_⟩
        · rcases hsplit with ⟨hfew, _⟩ | ⟨_, hnil⟩
          · omega
          · exact hnil
        · rw [if_neg (by omega), heq, List.length_cons, hlen]
    obtain ⟨hgood, hlen⟩ := hgood
    have hheaderLen := hheader (text r.modebuf)
    have hfirstLen := hheader first
    have hshort : (text r.modebuf).length ≤ field.length + 7 := by
      rw [hlen]
      split <;> omega
    refine ⟨hfilled _ (filled_split header _ first (text r.modebuf) members r member hgood
      (by omega) hfull (by omega) h), ?_, ?_⟩
    · exact foldl_putStatus_lettered _ j _ _ hstatus (lettered_lines _ j r _ _ hletters)
    · rw [(foldl_putStatus_lines _ _).1]
      simp only [List.length_append, List.length_singleton]
      omega
  · next hfits =>
    refine ⟨hfilled _ (filled_append header _ first members r member (by omega) h), ?_, ?_⟩
    · exact foldl_putStatus_lettered _ j _ _ hstatus (lettered_lines _ j r _ _ hletters)
    · rw [(foldl_putStatus_lines _ _).1]
      simp only [List.length_append, List.length_singleton]

theorem foldl_relayMember_filled (hheader : ∀ f, (header f).length = base + f.length)
    (hfirst : first.length = field.length + 1) (hfield : NUL ∉ field)
    (hflags : flags ≤ field.length) (hbase : base + field.length + 22 ≤ IRCD_BUFSIZE - 2)
    (members more : List Membership) (r : Relay) (j : ℕ)
    (hid : ∀ member ∈ more, (memberText member).length ≤ 15)
    (hok : SplitsOk flags base (field.length + 1) params more r.uidBuf.length j)
    (hletters : Lettered (field ++ NUL :: buf) j r)
    (h : Filled header (Overwritten field flags params) first members r) :
    Filled header (Overwritten field flags params) first (members ++ more)
      (more.foldl (relayMember header) r) := by
  induction more generalizing members r j with
  | nil => simpa using h
  | cons member more ih =>
    unfold SplitsOk at hok
    dsimp only at hok
    obtain ⟨hstep, hlettered, hlen⟩ := relayMember_filled header base field buf params first flags
      hheader hfirst hfield hflags hbase members r member j (hid member List.mem_cons_self)
      (fun hfull => by rw [if_pos hfull] at hok; exact hok.1) hletters h
    rw [List.foldl_cons, show members ++ member :: more = members ++ [member] ++ more by simp]
    refine ih _ _ _ (fun m hm => hid m (List.mem_cons_of_mem member hm)) ?_ hlettered hstep
    rw [hlen]
    split at hok
    · next hfull =>
      rw [if_pos hfull]
      exact hok.2
    · next hfits =>
      rw [if_neg hfits]
      exact hok

end Loop

end IrcdHybrid.SjoinRelay
