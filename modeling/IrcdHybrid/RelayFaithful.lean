import IrcdHybrid.RelaySteps

/-!
A server behind the one that relays a SJOIN. It has the channel as the relaying server
had it, and it ends with the channel as the relaying server has it, if the line is one
that `ms_sjoin` can relay: the timestamp can be printed, somebody is on the line, a zero
in place of the modes leaves the modes as they are, and no line is split where status
letters have spoilt the modes of the header.
-/

namespace IrcdHybrid.RelayFaithful

open CString Numeral BanMask Channels Packing Wire Burst Sjoin ChannelMode ChannelTable BurstLines
  BurstRun SjoinHeader SjoinRelay RelayLines RelaySteps

/-- The relaying server, with the server `id` behind one link, and the next server, which
gets its lines: it knows every client that may be relayed. -/
structure Peers (b c : Link) (id : CStr) : Prop where
  validSid : ValidSid id
  valid : ValidLink b
  source : ∃ source, c.source id = some source ∧ source.isServer = true
  known : ∀ s client, b.findChasing s = some client → b.behind client = true →
    c.findChasing client = some client ∧ c.behind client = true

/-- The channel that is kept under a name. -/
structure Held (name : CStr) (chptr : Channel) : Prop where
  live : Live chptr
  name : fold chptr.name = fold name
  time_ge : -2 ^ 63 ≤ chptr.creationtime

/-- The flags in the modes of the first header. -/
def headerFlags (modes : CStr) (keepNewModes : Bool) (mode : Mode) : ℕ :=
  if modes.head? ≠ some '0' ∧ keepNewModes then (flagTabs mode).length else 0

/-- The timestamp of the line does not become the channel's, or has no minus sign, which
`%lu` would not print. -/
def Printable (link : Link) (ts name : CStr) (old : Option Channel) : Prop :=
  0 ≤ newTs link ts name old ∨ ∃ chptr, old = some chptr ∧
    (chptr.creationtime = 0 ∨ chptr.creationtime < newTs link ts name old)

/-- The next server believes the timestamp that is sent on, where the modes of the line count. -/
def Alike (b c : Link) (ts name : CStr) (old : Option Channel) : Prop :=
  (decision b ts name old).keepNewModes = true →
    bogusTs c (decision b ts name old).creationtime (chptrOf c name old).creationtime =
      (decision b ts name old).creationtime

/-- What a line must be like for `ms_sjoin` to relay what it has done: the modes are read
as `mode`, and `last` is the list of members. -/
structure Careful (link : Link) (id ts name modes : CStr) (mode : Mode) (last : CStr)
    (old : Option Channel) : Prop where
  time : Printable link ts name old
  /-- Nobody on the line, and it is sent without a list of members, or not at all. -/
  members : old = none ∨
    targets link (decision link ts name old).keepNewModes (tokens last) ≠ [] ∨
    (last = [] ∧ ∃ chptr, old = some chptr ∧ settled link ts name mode old = chptr)
  /-- A zero is sent on as a zero, with the parameters that `set_final_mode` has left. -/
  zero : modes.head? = some '0' → (decision link ts name old).keepNewModes = true →
    if (decision link ts name old).keepOurModes then
      mergeModes mode (chptrOf link name old).mode = (chptrOf link name old).mode
    else mode = noModes ∧ (chptrOf link name old).mode.key = []
  /-- The status letters do not reach the letters of the parameters. -/
  splits :
    let d := decision link ts name old
    let a := settled link ts name mode old
    let bufs := relayBufs modes d.keepNewModes a.mode (chptrOf link name old).mode
    let base := (relayHeader id d.creationtime a.name [] bufs.2).length
    SplitsOk (headerFlags modes d.keepNewModes a.mode) base bufs.1.length bufs.2
      (targets link d.keepNewModes (tokens last)) (base + bufs.1.length) 0

/-- A line with a mode field whose parameters are there, and somebody in its list. -/
def WellFormedLine (line : CStr) : Prop :=
  ∃ sender ts name modes args mode last,
    parse line = some ⟨some sender, "SJOIN".toList, ts :: name :: modes :: args⟩ ∧ modes ≠ [] ∧
      sjoinModes modes args noModes = some (mode, [last]) ∧ tokens last ≠ []

theorem setFinalMode_self (m : Mode) : (setFinalMode m m).2 = [] := by
  unfold setFinalMode
  dsimp only
  cases m.key with
  | nil => simp
  | cons c key => simp

theorem setFinalMode_noModes (oldmode : Mode) (h : oldmode.key = []) :
    (setFinalMode noModes oldmode).2 = [] := by
  simp [setFinalMode, noModes, h]

/-- What the first header and those of the splits say of the modes. -/
structure HeaderOk (d : Decision) (oldmode mode : Mode) (bufs : CStr × CStr) (flags : ℕ)
    (ps : List CStr) : Prop where
  params : bufs.2 = trailed (fun w : CStr => w) ' ' ps
  words : ∀ p ∈ ps, Word p
  count : ps.length ≤ 2
  first : Word bufs.1 ∧ ∃ m, (∀ last, sjoinModes bufs.1 (ps ++ [last]) noModes =
    some (m, [last])) ∧ finalMode d m oldmode = mode ∧
      (d.keepNewModes = false → mergeModes m mode = mode)
  field : ∃ c field, bufs.1 = c :: field ∧ NUL ∉ field ∧ flags ≤ field.length ∧
    field.length ≤ 15 ∧ ∀ f, Overwritten field flags bufs.2 f → Word f ∧ ∃ m,
      (∀ last, sjoinModes f (ps ++ [last]) noModes = some (m, [last])) ∧ mergeModes m mode = mode

theorem headerOk_modes (d : Decision) (oldmode mode : Mode) (hkey : ValidKey mode.key)
    (hfinal : finalMode d mode oldmode = mode) (hkeep : d.keepNewModes = true) :
    HeaderOk d oldmode mode (channelModes mode) (flagTabs mode).length (modeParams mode) where
  params := channelModes_params mode
  words := word_modeParams mode hkey
  count := modeParams_count mode
  first := by
    refine ⟨word_modeLetters mode, mode, fun last => sjoinModes_modeLetters mode last hkey, hfinal,
      fun hnot => ?_⟩
    rw [hkeep] at hnot
    exact absurd hnot (by decide)
  field := by
    have hlen := modeLetters_length mode
    have hletters := word_modeLetters mode
    have htab : ∀ tab ∈ chanModes, tab.2 ≠ NUL := by decide
    rw [modeLetters_eq] at hlen hletters
    refine ⟨'+', (flagTabs mode).map Prod.snd ++ paramLetters mode, rfl, ?_, ?_, ?_, ?_⟩
    · intro hmem
      rcases List.mem_append.mp hmem with hmem | hmem
      · obtain ⟨tab, hin, heq⟩ := List.mem_map.mp hmem
        exact htab tab (List.mem_of_mem_filter hin) heq
      · unfold paramLetters at hmem
        split_ifs at hmem <;> revert hmem <;> decide
    · simp
    · rw [List.length_cons] at hlen
      omega
    · intro f hf
      exact ⟨word_overwritten _ f _ _ (fun hmem => hletters.no_space (List.mem_cons_of_mem _ hmem))
        hf, sjoinModes_overwritten mode f hkey hf⟩

theorem headerOk_zero (d : Decision) (oldmode mode : Mode) (bufs : CStr × CStr)
    (hbufs : bufs = (['0'], [])) (hfinal : finalMode d noModes oldmode = mode) :
    HeaderOk d oldmode mode bufs 0 [] where
  params := by rw [hbufs]; rfl
  words := by simp
  count := by simp
  first := by
    rw [hbufs]
    exact ⟨⟨by decide, by decide, by decide⟩, noModes, fun last => rfl, hfinal,
      fun _ => mergeModes_comm_noModes mode⟩
  field := by
    rw [hbufs]
    refine ⟨'0', [], rfl, by simp, by simp, by simp, fun f hf => ?_⟩
    exact ⟨word_overwritten [] f 0 [] (by simp) hf, noModes,
      fun last => sjoinModes_overwritten_nil f hf last, mergeModes_comm_noModes mode⟩

theorem finalMode_again (d : Decision) (mode oldmode : Mode) (hkeep : d.keepNewModes = true) :
    finalMode d (finalMode d mode oldmode) oldmode = finalMode d mode oldmode := by
  unfold finalMode
  rw [hkeep]
  cases d.keepOurModes with
  | false => rfl
  | true =>
    show mergeModes (mergeModes mode oldmode) oldmode = mergeModes mode oldmode
    rw [mergeModes_comm (mergeModes mode oldmode) oldmode, mergeModes_comm mode oldmode,
      mergeModes_again]

theorem headerOk (d : Decision) (modes : CStr) (mode oldmode : Mode) (hkey : ValidKey mode.key)
    (hold : ValidKey oldmode.key)
    (hzero : modes.head? = some '0' → d.keepNewModes = true →
      if d.keepOurModes then mergeModes mode oldmode = oldmode
      else mode = noModes ∧ oldmode.key = []) :
    ∃ ps, HeaderOk d oldmode (finalMode d mode oldmode)
      (relayBufs modes d.keepNewModes (finalMode d mode oldmode) oldmode)
      (headerFlags modes d.keepNewModes (finalMode d mode oldmode)) ps := by
  unfold relayBufs headerFlags
  by_cases hmodes : modes.head? ≠ some '0' ∧ d.keepNewModes = true
  · rw [if_pos hmodes, if_pos hmodes]
    exact ⟨_, headerOk_modes d oldmode _ (validKey_finalMode d mode oldmode hkey hold)
      (finalMode_again d mode oldmode hmodes.2) hmodes.2⟩
  · rw [if_neg hmodes, if_neg hmodes]
    have hbufs : (setFinalMode (finalMode d mode oldmode) oldmode).2 = [] ∧
        finalMode d noModes oldmode = finalMode d mode oldmode := by
      unfold finalMode
      cases hkeep : d.keepNewModes with
      | false => exact ⟨setFinalMode_self oldmode, rfl⟩
      | true =>
        have hhead : modes.head? = some '0' := by
          by_contra hne
          exact hmodes ⟨hne, hkeep⟩
        have heffect := hzero hhead hkeep
        cases hours : d.keepOurModes with
        | true =>
          rw [hours, if_pos rfl] at heffect
          show (setFinalMode (mergeModes mode oldmode) oldmode).2 = [] ∧
            mergeModes noModes oldmode = mergeModes mode oldmode
          rw [heffect]
          exact ⟨setFinalMode_self oldmode, mergeModes_comm_noModes oldmode⟩
        | false =>
          rw [hours, if_neg (by decide)] at heffect
          obtain ⟨rfl, hnokey⟩ := heffect
          exact ⟨setFinalMode_noModes oldmode hnokey, rfl⟩
    exact ⟨[], headerOk_zero d oldmode _ _ (by rw [hbufs.1]) hbufs.2⟩

theorem relayHeader_length (id name f params : CStr) (t : ℤ) :
    (relayHeader id t name f params).length =
      (relayHeader id t name [] params).length + f.length := by
  simp only [relayHeader, List.length_append, List.length_nil]
  omega

theorem relayHeader_short (id name params : CStr) (t : ℤ) (hid : ValidSid id)
    (hname : checkChannelName name = true) (hparams : params.length ≤ 60) :
    (relayHeader id t name [] params).length ≤ 150 := by
  have htime := formatTime_length t
  have hlen := checkChannelName_length name hname
  have hsid := hid.len
  have hcommand : " SJOIN ".toList.length = 7 := rfl
  simp only [CHANNELLEN] at hlen
  simp only [relayHeader, List.length_append, List.length_singleton, List.length_nil, hcommand]
  omega

theorem settled_mode (link : Link) (ts name : CStr) (mode : Mode) (old : Option Channel) :
    (settled link ts name mode old).mode =
      finalMode (decision link ts name old) mode (chptrOf link name old).mode :=
  applyTs_mode _ _ _ _ _

theorem settled_creationtime (link : Link) (ts name : CStr) (mode : Mode) (old : Option Channel) :
    (settled link ts name mode old).creationtime = (decision link ts name old).creationtime :=
  applyTs_creationtime _ _ _ _ _

/-- What `ms_sjoin` does to the channel, for a line that it accepts. -/
theorem sjoinChannel_settled (link : Link) (ts name modes : CStr) (args : List CStr)
    (old : Option Channel) (mode : Mode) (rest : List CStr) (hname : checkChannelName name = true)
    (hmodes : sjoinModes modes args noModes = some (mode, rest)) :
    sjoinChannel link ts name modes args old =
      let joined := (targets link (decision link ts name old).keepNewModes
        (tokens (rest.headD []))).foldl (joinOne true) (settled link ts name mode old)
      if joined.members = [] ∧ old.isNone then none else some joined := by
  unfold sjoinChannel
  rw [hname, hmodes]
  dsimp only
  rw [foldl_joinMember_targets]
  rfl

theorem chptrOf_wellFormed (link : Link) (name : CStr) (old : Option Channel)
    (hname : checkChannelName name = true) (hold : ∀ chptr, old = some chptr → Held name chptr) :
    ValidKey (chptrOf link name old).mode.key ∧
      checkChannelName (chptrOf link name old).name = true := by
  unfold chptrOf
  cases old with
  | none =>
    refine ⟨validKey_nil, ?_⟩
    show checkChannelName (strlcpy name (CHANNELLEN + 1)) = true
    rwa [strlcpy_name name hname]
  | some chptr =>
    have hwf := (hold chptr rfl).live.wellFormed
    exact ⟨hwf.key, hwf.name⟩

theorem settled_name (link : Link) (ts name : CStr) (mode : Mode) (old : Option Channel)
    (hname : checkChannelName name = true) (hold : ∀ chptr, old = some chptr → Held name chptr) :
    checkChannelName (settled link ts name mode old).name = true ∧
      fold (settled link ts name mode old).name = fold name := by
  have hchptr : checkChannelName (chptrOf link name old).name = true ∧
      fold (chptrOf link name old).name = fold name := by
    refine ⟨(chptrOf_wellFormed link name old hname hold).2, ?_⟩
    unfold chptrOf
    cases old with
    | none =>
      show fold (strlcpy name (CHANNELLEN + 1)) = fold name
      rw [strlcpy_name name hname]
    | some chptr => exact (hold chptr rfl).name
  unfold settled applyTs
  dsimp only
  split
  · exact hchptr
  · unfold loseTs
    dsimp only
    split
    · exact hchptr
    · rw [strlcpy_name name hname]
      exact ⟨hname, rfl⟩

theorem relayLines_nobody (link : Link) (id stale ts name modes : CStr) (args : List CStr)
    (old : Option Channel) (mode : Mode) (rest : List CStr)
    (hmodes : sjoinModes modes args noModes = some (mode, rest))
    (hnobody : targets link (decision link ts name old).keepNewModes
      (tokens (rest.headD [])) = [])
    (hold : old = none ∨ rest.headD [] = []) :
    relayLines link id stale ts name modes args old = [] := by
  unfold relayLines
  rw [hmodes]
  dsimp only
  rw [foldl_relayName_targets, foldl_joinMember_targets, hnobody, List.foldl_nil, List.foldl_nil]
  split
  · rfl
  split
  · rfl
  split
  · rfl
  · next hsent =>
    rcases hold with rfl | hempty
    · exact absurd (Or.inl ⟨rfl, rfl⟩) hsent
    · exact absurd (Or.inr hempty) hsent

theorem relayLines_somebody (link : Link) (hlink : ValidLink link) (id stale ts name modes : CStr)
    (args : List CStr) (old : Option Channel) (mode : Mode) (rest ps : List CStr)
    (hid : ValidSid id) (hname : checkChannelName name = true)
    (hold : ∀ chptr, old = some chptr → Held name chptr) (hkey : ValidKey mode.key)
    (hmodes : sjoinModes modes args noModes = some (mode, rest))
    (hsome : targets link (decision link ts name old).keepNewModes (tokens (rest.headD [])) ≠ [])
    (hcareful : Careful link id ts name modes mode (rest.headD []) old)
    (hheader : HeaderOk (decision link ts name old) (chptrOf link name old).mode
      (settled link ts name mode old).mode
      (relayBufs modes (decision link ts name old).keepNewModes (settled link ts name mode old).mode
        (chptrOf link name old).mode)
      (headerFlags modes (decision link ts name old).keepNewModes
        (settled link ts name mode old).mode) ps) :
    ∃ first g pairs,
      List.Forall₂ (IsLine (fun f => relayHeader id (settled link ts name mode old).creationtime
          (settled link ts name mode old).name f (trailed (fun w : CStr => w) ' ' ps)))
        (relayLines link id stale ts name modes args old) ((first, g) :: pairs) ∧
      g ++ pairs.flatMap Prod.snd = targets link (decision link ts name old).keepNewModes
        (tokens (rest.headD [])) ∧ g ≠ [] ∧
      (Word first ∧ ∃ m, (∀ last, sjoinModes first (ps ++ [last]) noModes = some (m, [last])) ∧
        finalMode (decision link ts name old) m (chptrOf link name old).mode =
          (settled link ts name mode old).mode ∧
        ((decision link ts name old).keepNewModes = false →
          mergeModes m (settled link ts name mode old).mode =
            (settled link ts name mode old).mode)) ∧
      ∀ p ∈ pairs, p.2 ≠ [] ∧ Word p.1 ∧ ∃ m,
        (∀ last, sjoinModes p.1 (ps ++ [last]) noModes = some (m, [last])) ∧
          mergeModes m (settled link ts name mode old).mode =
            (settled link ts name mode old).mode := by
  have hsize : IRCD_BUFSIZE = 512 := rfl
  have htime := settled_creationtime link ts name mode old
  have hsettledMode := settled_mode link ts name mode old
  obtain ⟨holdKey, _⟩ := chptrOf_wellFormed link name old hname hold
  have hfinalKey : ValidKey (settled link ts name mode old).mode.key := by
    rw [hsettledMode]
    exact validKey_finalMode _ mode _ hkey holdKey
  have haname := (settled_name link ts name mode old hname hold).1
  have hsplits := hcareful.splits
  generalize hd : decision link ts name old = d at *
  generalize ha : settled link ts name mode old = a at *
  generalize hc : chptrOf link name old = c at *
  dsimp only at hsplits
  have hlong := tooLong_relayHeader id d.creationtime a.name modes d.keepNewModes a.mode c.mode
    (by rw [hid.len]; decide) (checkChannelName_length a.name haname) hfinalKey.len holdKey.len
  have hparamsLen := (relayBufs_length modes d.keepNewModes a.mode c.mode hfinalKey.len
    holdKey.len).2
  generalize hbufs : relayBufs modes d.keepNewModes a.mode c.mode = bufs at *
  generalize headerFlags modes d.keepNewModes a.mode = flags at *
  obtain ⟨c₀, field, hfirst, hnul, hflags, hfieldLen, hmore⟩ := hheader.field
  have hshort := relayHeader_short id a.name bufs.2 d.creationtime hid haname hparamsLen
  have hvalid : ∀ member ∈ targets link d.keepNewModes (tokens (rest.headD [])),
      ValidId member.id := by
    intro member hmember
    obtain ⟨⟨s, hs⟩, _⟩ := mem_targets link _ _ member hmember
    exact hlink.findChasing s member.id hs
  -- the buffer before the loop: the modes of the header, with a sign for their first letter
  obtain ⟨buf, hbuf⟩ : ∃ buf, put (printed (printed stale (setFinalMode a.mode c.mode).1) bufs.1) 0
      ['+'] = '+' :: (field ++ NUL :: buf) := by
    rw [printed_eq, hfirst, List.cons_append, put_sign]
    exact ⟨_, rfl⟩
  have hfirstLen : bufs.1.length = field.length + 1 := by rw [hfirst, List.length_cons]
  have hheaderLen := relayHeader_length id a.name bufs.1 bufs.2 d.creationtime
  have hstart : Filled (fun f => relayHeader id d.creationtime a.name f bufs.2)
      (Overwritten field flags bufs.2) bufs.1 []
      ⟨'+' :: (field ++ NUL :: buf), 1, 0, relayHeader id d.creationtime a.name bufs.1 bufs.2,
        []⟩ := by
    refine ⟨[], bufs.1, [], rfl, by simp [lineOf], rfl, ⟨[], rfl, by simp⟩, by simp, fun _ => rfl,
      ?_⟩
    intro p hp
    rw [List.nil_append, List.mem_singleton] at hp
    rw [hp]
    simp only [lineOf, trailed_nil, List.append_nil]
    omega
  have hletters : Lettered (field ++ NUL :: buf) 0
      ⟨'+' :: (field ++ NUL :: buf), 1, 0, relayHeader id d.creationtime a.name bufs.1 bufs.2,
        []⟩ := Lettered.few [] _ _ (by simp [StatusLetters]) (by decide)
  have hfilled := foldl_relayMember_filled
    (fun f => relayHeader id d.creationtime a.name f bufs.2) _ field buf bufs.2 bufs.1 flags
    (fun f => relayHeader_length id a.name f bufs.2 d.creationtime) hfirstLen hnul hflags
    (by omega) [] (targets link d.keepNewModes (tokens (rest.headD []))) _ 0
    (fun member hm => memberText_length_le member (hvalid member hm))
    (by
      dsimp only
      rw [hheaderLen, ← hfirstLen]
      exact hsplits) hletters hstart
  rw [List.nil_append] at hfilled
  obtain ⟨g, pairs, hlines, hmembers, hg, hpairs⟩ := filled_lines _ _ bufs.1 _ _ hsome hvalid
    hfilled
  refine ⟨bufs.1, g, pairs, ?_, hmembers, hg, hheader.first, fun p hp => ?_⟩
  · rw [htime, ← hheader.params]
    have hnonempty : rest.headD [] ≠ [] := by
      intro hnil
      rw [hnil] at hsome
      exact hsome rfl
    have hjoined := foldl_joinOne_ne_nil true _ a hsome
    unfold relayLines
    rw [hname, hmodes]
    dsimp only
    rw [hd, ha, hc, hbufs, hbuf, hlong, foldl_relayName_targets, foldl_joinMember_targets]
    rw [if_neg (by decide), if_neg (by decide),
      if_neg (fun h => h.elim (fun hleft => hjoined hleft.1) hnonempty)]
    exact hlines
  · exact ⟨(hpairs p hp).1, hmore p.1 (hpairs p hp).2⟩

theorem setChannel_fold (t : Table) (name name' : CStr) (chptr : Option Channel)
    (h : fold name = fold name') : setChannel t name chptr = setChannel t name' chptr := by
  unfold setChannel
  rw [h]

theorem receive_more (c : Link) (id : CStr) (source : Source) (t : Table) (a b : Channel)
    (ps : List CStr) (lines : List CStr) (pairs : List (CStr × List Membership))
    (hid : ValidSid id) (hsource : c.source id = some source) (hserver : source.isServer = true)
    (hname : checkChannelName a.name = true) (hps : ∀ p ∈ ps, Word p) (hcount : ps.length ≤ 2)
    (hlines : List.Forall₂ (IsLine (fun f => relayHeader id a.creationtime a.name f
      (trailed (fun w : CStr => w) ' ' ps))) lines pairs)
    (hfields : ∀ p ∈ pairs, Word p.1 ∧ ∃ m,
      (∀ last, sjoinModes p.1 (ps ++ [last]) noModes = some (m, [last])) ∧
        mergeModes m a.mode = a.mode)
    (hmembers : ∀ p ∈ pairs, (∀ member ∈ p.2, ValidId member.id) ∧ Known c p.2)
    (hdecide : ∀ p ∈ pairs,
      decideTs false (bogusTs c (strtol (formatTime a.creationtime)) a.creationtime)
          a.creationtime = ⟨a.creationtime, true, true⟩ ∨
        ((∀ member ∈ p.2, member.flags = noFlags) ∧
          decideTs false (bogusTs c (strtol (formatTime a.creationtime)) a.creationtime)
            a.creationtime = ⟨a.creationtime, true, false⟩))
    (htime : b.creationtime = a.creationtime) (hmode : b.mode = a.mode) :
    lines.foldl (receive c) (setChannel t a.name (some b)) =
      setChannel t a.name (some ((pairs.flatMap Prod.snd).foldl (joinOne true) b)) := by
  induction hlines generalizing b with
  | nil => rfl
  | @cons line p lines pairs hline _ ih =>
    obtain ⟨w, rfl, htokens⟩ := hline
    obtain ⟨hword, m, hread, hmerge⟩ := hfields p List.mem_cons_self
    obtain ⟨hvalid, hknown⟩ := hmembers p List.mem_cons_self
    have hstep : receive c (setChannel t a.name (some b)) (relayHeader id a.creationtime a.name p.1
        (trailed (fun w : CStr => w) ' ' ps) ++ w) =
        setChannel (setChannel t a.name (some b)) a.name (sjoinStep c (described a m)
          (hashFindChannel (setChannel t a.name (some b)) a.name) p.2) :=
      receive_relayLine c id source _ a.creationtime (described a m) p.1 w ps p.2 hid hsource
        hserver hname rfl hword hps hcount (hread w) htokens hvalid hknown
    have hsettled := sjoinStep_settled c a b m p.2 htime hmode hmerge
      (hdecide p List.mem_cons_self)
    have hlater : ∀ q ∈ pairs, q ∈ p :: pairs := fun q hq => List.mem_cons_of_mem p hq
    obtain ⟨_, htime', hmode'⟩ := foldl_joinOne_settled true p.2 b
    rw [List.foldl_cons]
    dsimp only
    rw [hstep, hashFindChannel_setChannel, hsettled,
      setChannel_setChannel, List.flatMap_cons, List.foldl_append]
    exact ih _ (fun q hq => hfields q (hlater q hq)) (fun q hq => hmembers q (hlater q hq))
      (fun q hq => hdecide q (hlater q hq)) (htime'.trans htime) (hmode'.trans hmode)

section Settling

variable (b c : Link) (ts name : CStr) (mode : Mode) (old : Option Channel)

/-- A later line does not find the channel's timestamp an older one. -/
theorem decide_later (hold : ∀ chptr, old = some chptr → Held name chptr)
    (htime : Printable b ts name old) (halike : Alike b c ts name old) :
    let a := settled b ts name mode old
    let d' := decideTs false (bogusTs c (strtol (formatTime a.creationtime)) a.creationtime)
      a.creationtime
    d' = ⟨a.creationtime, true, true⟩ ∨
      ((decision b ts name old).keepNewModes = false ∧ d' = ⟨a.creationtime, true, false⟩) := by
  intro a d'
  have hlt := strtol_lt ts
  have ha : a.creationtime = (decision b ts name old).creationtime :=
    settled_creationtime b ts name mode old
  cases hcase : old with
  | none =>
    rw [hcase] at htime ha halike
    have hpos : 0 ≤ bogusTs b (strtol ts) b.currentTime := by
      rcases htime with hpos | ⟨chptr, hsome, _⟩
      · exact hpos
      · simp at hsome
    have ha : a.creationtime = bogusTs b (strtol ts) b.currentTime := ha
    have hread := strtol_formatTime_cases a.creationtime (by omega)
      (by rw [ha]; exact bogusTs_lt b _ _ hlt)
    have hown := bogusTs_own c (bogusTs b (strtol ts) b.currentTime) c.currentTime (halike rfl)
    refine Or.inl ?_
    show decideTs false (bogusTs c (strtol (formatTime a.creationtime)) a.creationtime)
      a.creationtime = _
    rw [hread.elim And.right (by omega), ha, hown]
    by_cases hzero : bogusTs b (strtol ts) b.currentTime = 0
    · rw [hzero, decideTs_zero]
    · exact decideTs_same _ hzero
  | some chptr =>
    have hheld := hold chptr hcase
    rw [hcase] at htime ha halike
    have htime : 0 ≤ bogusTs b (strtol ts) chptr.creationtime ∨ chptr.creationtime = 0 ∨
        chptr.creationtime < bogusTs b (strtol ts) chptr.creationtime := by
      rcases htime with hpos | ⟨chptr', hsome, hcases⟩
      · exact Or.inl hpos
      · rw [← Option.some.inj hsome] at hcases
        exact Or.inr hcases
    have hcases := decide_cases b c (strtol ts) chptr.creationtime hlt hheld.time_ge
      hheld.live.wellFormed.time_lt htime halike
    have hd : decision b ts name (some chptr) =
        decideTs false (bogusTs b (strtol ts) chptr.creationtime) chptr.creationtime := rfl
    rw [hd] at ha ⊢
    show decideTs false (bogusTs c (strtol (formatTime a.creationtime)) a.creationtime)
      a.creationtime = _ ∨ _ ∧ decideTs false (bogusTs c (strtol (formatTime a.creationtime))
        a.creationtime) a.creationtime = _
    rw [ha]
    rcases hcases with ⟨_, _, hlater⟩ | ⟨hkept, hlater⟩
    · exact Or.inl hlater
    · rw [hkept] at hlater ⊢
      exact hlater.imp (fun h => h) (fun h => ⟨rfl, h⟩)

/-- The first line leaves the next server's channel as the relaying server's. -/
theorem sjoinStep_settles (hname : checkChannelName name = true)
    (hold : ∀ chptr, old = some chptr → Held name chptr) (htime : Printable b ts name old)
    (halike : Alike b c ts name old)
    (m : Mode) (g : List Membership) (hg : g ≠ [])
    (hmode : finalMode (decision b ts name old) m (chptrOf b name old).mode =
      (settled b ts name mode old).mode)
    (hmerge : (decision b ts name old).keepNewModes = false →
      mergeModes m (settled b ts name mode old).mode = (settled b ts name mode old).mode)
    (hflags : (decision b ts name old).keepNewModes = false →
      ∀ member ∈ g, member.flags = noFlags) :
    sjoinStep c (described (settled b ts name mode old) m) old g =
      some (g.foldl (joinOne true) (settled b ts name mode old)) := by
  have hlt := strtol_lt ts
  cases hcase : old with
  | none =>
    rw [hcase] at htime hmode halike
    have hpos : 0 ≤ bogusTs b (strtol ts) b.currentTime := by
      rcases htime with hpos | ⟨chptr, hsome, _⟩
      · exact hpos
      · simp at hsome
    have hd : decision b ts name none = ⟨bogusTs b (strtol ts) b.currentTime, true, true⟩ := rfl
    have hm : m = mode := by
      rw [settled_mode, hd] at hmode
      simpa [finalMode, chptrOf, makeChannel, mergeModes_noModes] using hmode
    rw [hm]
    exact sjoinStep_none b c (strtol ts) mode name g hname hlt hpos (halike rfl) hg
  | some chptr =>
    have hheld := hold chptr hcase
    have hlater := decide_later b c ts name mode old hold htime halike
    rw [hcase] at htime hmode hmerge hflags hlater halike
    have hnum : 0 ≤ bogusTs b (strtol ts) chptr.creationtime ∨ chptr.creationtime = 0 ∨
        chptr.creationtime < bogusTs b (strtol ts) chptr.creationtime := by
      rcases htime with hpos | ⟨chptr', hsome, hcases⟩
      · exact Or.inl hpos
      · rw [← Option.some.inj hsome] at hcases
        exact Or.inr hcases
    have hcases := decide_cases b c (strtol ts) chptr.creationtime hlt hheld.time_ge
      hheld.live.wellFormed.time_lt hnum halike
    have hd : decision b ts name (some chptr) =
        decideTs false (bogusTs b (strtol ts) chptr.creationtime) chptr.creationtime := rfl
    rcases hcases with ⟨hkeep, hfirst, _⟩ | ⟨hkept, _⟩
    · rw [settled_mode] at hmode
      exact sjoinStep_first c (decision b ts name (some chptr)) mode m name chptr g hname hkeep
        hmode hfirst
    · have hnot : (decision b ts name (some chptr)).keepNewModes = false := by rw [hd, hkept]
      have ha : settled b ts name mode (some chptr) = chptr := by
        unfold settled
        rw [hd, hkept]
        rfl
      rw [ha] at hmerge hlater ⊢
      exact sjoinStep_settled c chptr chptr m g rfl rfl (hmerge hnot)
        (hlater.imp (fun h => h) (fun h => ⟨hflags hnot, h.2⟩))

end Settling

/-- The modes of a line are read with its parameters, and somebody is in its list. -/
theorem wellFormedLine (id name line : CStr) (ts : ℤ) (ps : List CStr)
    (p : CStr × List Membership) (m : Mode) (hid : ValidSid id) (hname : checkChannelName name = true)
    (hps : ∀ p ∈ ps, Word p) (hcount : ps.length ≤ 2) (hword : Word p.1)
    (hread : ∀ last, sjoinModes p.1 (ps ++ [last]) noModes = some (m, [last])) (hne : p.2 ≠ [])
    (hline : IsLine (fun f => relayHeader id ts name f (trailed (fun w : CStr => w) ' ' ps)) line
      p) : WellFormedLine line := by
  obtain ⟨w, rfl, htokens⟩ := hline
  refine ⟨id, formatTime ts, name, p.1, ps ++ [w], m, w, ?_, hword.ne_nil, hread w, ?_⟩
  · rw [parse_relayLine id name p.1 w ts ps hid.no_space hname hword hps hcount]
    rfl
  · rw [htokens]
    simpa using hne

/-- The lines for a SJOIN with somebody on it, on a server with the channel as it was. -/
theorem receive_relayLines (b c : Link) (id stale ts name modes : CStr) (args : List CStr)
    (tc : Table) (mode : Mode) (rest : List CStr) (hpeers : Peers b c id)
    (hname : checkChannelName name = true) (hkey : ValidKey mode.key)
    (hold : ∀ chptr, hashFindChannel tc name = some chptr → Held name chptr)
    (hmodes : sjoinModes modes args noModes = some (mode, rest))
    (hsome : targets b (decision b ts name (hashFindChannel tc name)).keepNewModes
      (tokens (rest.headD [])) ≠ [])
    (hcareful : Careful b id ts name modes mode (rest.headD []) (hashFindChannel tc name))
    (halike : Alike b c ts name (hashFindChannel tc name)) :
    (∀ line ∈ relayLines b id stale ts name modes args (hashFindChannel tc name),
      WellFormedLine line) ∧
    (relayLines b id stale ts name modes args (hashFindChannel tc name)).foldl (receive c) tc =
      setChannel tc name (some ((targets b (decision b ts name
        (hashFindChannel tc name)).keepNewModes (tokens (rest.headD []))).foldl (joinOne true)
          (settled b ts name mode (hashFindChannel tc name)))) := by
  obtain ⟨source, hsource, hserver⟩ := hpeers.source
  generalize hcase : hashFindChannel tc name = old at *
  have hsettledMode := settled_mode b ts name mode old
  obtain ⟨holdKey, _⟩ := chptrOf_wellFormed b name old hname hold
  obtain ⟨haname, hafold⟩ := settled_name b ts name mode old hname hold
  obtain ⟨ps, hheader⟩ := headerOk (decision b ts name old) modes mode (chptrOf b name old).mode
    hkey holdKey hcareful.zero
  rw [← hsettledMode] at hheader
  obtain ⟨first, g, pairs, hlines, hmembers, hg, ⟨hword, m, hread, hmode, hmerge⟩, hpairs⟩ :=
    relayLines_somebody b hpeers.valid id stale ts name modes args old mode rest ps hpeers.validSid
      hname hold hkey hmodes hsome hcareful hheader
  have hlater := decide_later b c ts name mode old hold hcareful.time halike
  -- who is on the lines is known to the next server, and has no status that does not count
  have hknown : ∀ member ∈ g ++ pairs.flatMap Prod.snd, ValidId member.id ∧
      (c.findChasing member.id = some member.id ∧ c.behind member.id = true) ∧
      ((decision b ts name old).keepNewModes = false → member.flags = noFlags) := by
    intro member hmember
    rw [hmembers] at hmember
    obtain ⟨⟨s, hs⟩, hbehind, hflags⟩ := mem_targets b _ _ member hmember
    exact ⟨hpeers.valid.findChasing s _ hs, hpeers.known s _ hs hbehind, hflags⟩
  have hfirst : ∀ member ∈ g, member ∈ g ++ pairs.flatMap Prod.snd :=
    fun member hm => List.mem_append_left _ hm
  have hmore : ∀ p ∈ pairs, ∀ member ∈ p.2, member ∈ g ++ pairs.flatMap Prod.snd :=
    fun p hp member hm => List.mem_append_right _ (List.mem_flatMap.mpr ⟨p, hp, hm⟩)
  obtain ⟨line, lines, hline, hlines, hsplit⟩ := List.forall₂_cons_right_iff.mp hlines
  rw [hsplit]
  refine ⟨?_, ?_⟩
  · have hrest : ∀ l ∈ lines, WellFormedLine l := by
      intro l hl
      obtain ⟨i, hi, rfl⟩ := List.mem_iff_getElem.mp hl
      have hi' : i < pairs.length := by rwa [← hlines.length_eq]
      have hmem := List.getElem_mem hi'
      obtain ⟨hne, hword', m', hread', _⟩ := hpairs _ hmem
      exact wellFormedLine id _ _ _ ps pairs[i] m' hpeers.validSid haname hheader.words
        hheader.count hword' hread' hne (hlines.get hi hi')
    intro l hl
    rcases List.mem_cons.mp hl with rfl | hl
    · exact wellFormedLine id _ l _ ps (first, g) m hpeers.validSid haname hheader.words
        hheader.count hword hread hg hline
    · exact hrest l hl
  · have hfind : hashFindChannel tc (settled b ts name mode old).name = old := by
      unfold hashFindChannel
      rw [hafold]
      exact hcase
    obtain ⟨w, rfl, htokens⟩ := hline
    have hstep : receive c tc (relayHeader id (settled b ts name mode old).creationtime
        (settled b ts name mode old).name first (trailed (fun w : CStr => w) ' ' ps) ++ w) =
        setChannel tc (settled b ts name mode old).name
          (sjoinStep c (described (settled b ts name mode old) m)
            (hashFindChannel tc (settled b ts name mode old).name) g) :=
      receive_relayLine c id source tc (settled b ts name mode old).creationtime
        (described (settled b ts name mode old) m) first w ps g hpeers.validSid hsource hserver
        haname rfl hword hheader.words hheader.count (hread w) htokens
        (fun member hm => (hknown member (hfirst member hm)).1)
        (fun member hm => (hknown member (hfirst member hm)).2.1)
    have hsettles := sjoinStep_settles b c ts name mode old hname hold hcareful.time halike m g
      hg hmode hmerge (fun hkeep member hm => (hknown member (hfirst member hm)).2.2 hkeep)
    obtain ⟨_, htime', hmode'⟩ := foldl_joinOne_settled true g (settled b ts name mode old)
    have hall := receive_more c id source tc (settled b ts name mode old)
      (g.foldl (joinOne true) (settled b ts name mode old)) ps lines pairs hpeers.validSid hsource
      hserver haname hheader.words hheader.count hlines
      (fun p hp => ⟨(hpairs p hp).2.1, (hpairs p hp).2.2⟩)
      (fun p hp => ⟨fun member hm => (hknown member (hmore p hp member hm)).1,
        fun member hm => (hknown member (hmore p hp member hm)).2.1⟩)
      (fun p hp => hlater.imp (fun h => h) (fun h =>
        ⟨fun member hm => (hknown member (hmore p hp member hm)).2.2 h.1, h.2⟩))
      htime' hmode'
    rw [List.foldl_cons, hstep, hfind, hsettles, hall, ← List.foldl_append, hmembers]
    exact setChannel_fold tc _ name _ hafold

def aliceId : CStr := "1AAAAAAAA".toList

def hubLink : Link := linkTo false "1AA".toList aliceId

theorem aliceId_valid : ValidId aliceId :=
  validId_of_all '1' "AAAAAAAA".toList (by decide) (by decide) (by decide)

theorem hubLink_peers : Peers hubLink hubLink "1AA".toList where
  validSid := ⟨by decide, by decide⟩
  valid := linkTo_valid false "1AA".toList aliceId aliceId_valid
  source := ⟨.server, by decide, rfl⟩
  known := by
    intro s client hfind hbehind
    have hclient : client = aliceId := by simpa [hubLink, linkTo] using hbehind
    rw [hclient]
    exact ⟨by decide, by decide⟩

def newLine : CStr := ":1AA SJOIN 5 #c +nk key :@1AAAAAAAA".toList

theorem newLine_careful (mode : Mode) (rest : List CStr)
    (h : sjoinModes "+nk".toList ["key".toList, "@1AAAAAAAA".toList] noModes =
      some (mode, rest)) :
    Careful hubLink "1AA".toList "5".toList "#c".toList "+nk".toList mode (rest.headD []) none ∧
      Alike hubLink hubLink "5".toList "#c".toList none := by
  have hread : sjoinModes "+nk".toList ["key".toList, "@1AAAAAAAA".toList] noModes =
      some (⟨{.noprivmsgs}, 0, "key".toList⟩, ["@1AAAAAAAA".toList]) := by decide
  rw [hread] at h
  obtain ⟨rfl, rfl⟩ := Prod.mk.inj (Option.some.inj h)
  exact ⟨⟨Or.inl (by decide), Or.inl rfl, fun hzero => absurd hzero (by decide), by decide⟩,
    fun _ => by decide⟩

/-- A channel with a key, and somebody on it who is not behind the link. -/
def keyChannel : Channel :=
  ⟨"#c".toList, 9, ⟨∅, 0, "key".toList⟩, [⟨"2BBAAAAAA".toList, noFlags⟩], [], [], []⟩

theorem keyChannel_held : Held "#c".toList keyChannel where
  live := by
    refine ⟨⟨by decide, by decide, ⟨by decide, by decide, by decide⟩, by decide, ?_, ?_, ?_⟩,
      by decide⟩
    · exact List.forall_mem_singleton.mpr
        (validId_of_all '2' "BBAAAAAA".toList (by decide) (by decide) (by decide))
    · intro type
      cases type <;> simp [keyChannel, Channel.list]
    · intro type
      cases type <;> simp [keyChannel, Channel.list, Distinct]
  name := rfl
  time_ge := by decide

def keyTable : Table := setChannel (fun _ => none) "#c".toList (some keyChannel)

end IrcdHybrid.RelayFaithful
