import IrcdHybrid.ChannelTable
import Mathlib.Data.Finset.Dedup
import Mathlib.Data.Finset.Lattice.Lemmas

/-!
The lines of a burst as the receiving server reads them. What one server
printed the other takes apart again: the modes with their parameters, the
members with their status, the masks. Each line thus stands for a step on the
receiver's channel.
-/

namespace IrcdHybrid.BurstLines

open CString Numeral BanMask Channels Packing Wire Burst Sjoin ChannelMode ChannelTable

theorem word_formatTime (t : ℤ) : Word (formatTime t) := by
  have hdigit : ∀ c ∈ formatTime t, isDigit c = true := fun c hc => isDigit_decimal _ c hc
  refine ⟨decimal_ne_nil _, fun hspace => ?_, fun hcolon => ?_⟩
  · exact absurd (hdigit ' ' hspace) (by decide)
  · exact absurd (hdigit ':' (List.mem_of_mem_head? hcolon)) (by decide)

theorem word_name (name : CStr) (h : checkChannelName name = true) : Word name := by
  cases name with
  | nil => simp [checkChannelName] at h
  | cons c p =>
    simp only [checkChannelName, Bool.and_eq_true, beq_iff_eq, List.all_eq_true] at h
    obtain ⟨⟨rfl, hchars⟩, _⟩ := h
    refine ⟨by simp, fun hspace => ?_, by simp⟩
    rcases List.mem_cons.mp hspace with heq | hmem
    · exact absurd heq (by decide)
    · exact absurd (hchars ' ' hmem) (by decide)

theorem word_modeLetters (m : Mode) : Word (modeLetters m) := by
  refine ⟨by simp [modeLetters], fun hspace => ?_, by simp [modeLetters]⟩
  have htab : ∀ tab ∈ chanModes, tab.2 ≠ ' ' := by decide
  unfold modeLetters at hspace
  rcases List.mem_cons.mp hspace with heq | hmem
  · exact absurd heq (by decide)
  rcases List.mem_append.mp hmem with hmem | hmem
  · obtain ⟨tab, hmem, heq⟩ := List.mem_map.mp hmem
    exact htab tab (List.mem_of_mem_filter hmem) heq
  rcases List.mem_append.mp hmem with hmem | hmem
  · split at hmem <;> simp at hmem
  · split at hmem <;> simp at hmem

theorem word_signedDecimal (n : ℤ) : Word (signedDecimal n) := by
  have hdigit : ∀ c ∈ decimal n.natAbs, isDigit c = true := fun c hc => isDigit_decimal _ c hc
  have hspace : ' ' ∉ decimal n.natAbs := fun hmem => absurd (hdigit ' ' hmem) (by decide)
  unfold signedDecimal
  split
  · exact ⟨by simp, by simp [hspace], by simp⟩
  · refine ⟨decimal_ne_nil _, hspace, fun hcolon => ?_⟩
    exact absurd (hdigit ':' (List.mem_of_mem_head? hcolon)) (by decide)

theorem word_modeParams (m : Mode) (h : ValidKey m.key) : ∀ w ∈ modeParams m, Word w := by
  intro w hw
  unfold modeParams at hw
  rcases List.mem_append.mp hw with hw | hw
  · split at hw
    · rw [List.mem_singleton.mp hw]
      exact word_signedDecimal _
    · simp at hw
  · split at hw
    · next hkey =>
      rw [List.mem_singleton.mp hw]
      exact ⟨hkey, h.no_space, h.no_colon⟩
    · simp at hw

theorem modeParams_count (m : Mode) : (modeParams m).length ≤ 2 := by
  unfold modeParams
  split_ifs <;> simp

theorem parse_sjoinLine (sid : CStr) (chptr : Channel) (g : List Membership) (hsid : ValidSid sid)
    (h : WellFormed chptr) :
    parse (sjoinLine sid chptr g) =
      some ⟨some sid, "SJOIN".toList, sjoinWords chptr ++ [joined memberText ' ' g]⟩ := by
  apply parse_trailing sid _ _ _ hsid.no_space ⟨by decide, by decide, by decide⟩
  · intro w hw
    rcases List.mem_append.mp hw with hw | hw
    · rcases List.mem_cons.mp hw with rfl | hw
      · exact word_formatTime _
      rcases List.mem_cons.mp hw with rfl | hw
      · exact word_name _ h.name
      · rw [List.mem_singleton.mp hw]
        exact word_modeLetters _
    · exact word_modeParams _ h.key w hw
  · have hcount := modeParams_count chptr.mode
    simp only [sjoinWords, List.length_append, List.length_cons, List.length_nil, MAXPARA]
    omega

theorem parse_bmaskLine (sid : CStr) (chptr : Channel) (type : ListType) (g : List Nuh)
    (hsid : ValidSid sid) (h : WellFormed chptr) :
    parse (bmaskLine sid chptr type g) =
      some ⟨some sid, "BMASK".toList, bmaskWords chptr type ++ [joined nuhText ' ' g]⟩ := by
  apply parse_trailing sid _ _ _ hsid.no_space ⟨by decide, by decide, by decide⟩
  · intro w hw
    rcases List.mem_cons.mp hw with rfl | hw
    · exact word_formatTime _
    rcases List.mem_cons.mp hw with rfl | hw
    · exact word_name _ h.name
    · rw [List.mem_singleton.mp hw]
      cases type <;> exact ⟨by decide, by decide, by decide⟩
  · simp [bmaskWords, MAXPARA]

/-- A time as the other side reads it: one below zero is printed as 2^64 less, which is too long
to be read. -/
theorem strtol_formatTime_cases (t : ℤ) (hge : -2 ^ 63 ≤ t) (hlt : t < 2 ^ 63) :
    (0 ≤ t ∧ strtol (formatTime t) = t) ∨ (t < 0 ∧ strtol (formatTime t) = 2 ^ 63 - 1) := by
  unfold formatTime
  rw [strtol_decimal_min]
  omega

theorem strtol_formatTime (t : ℤ) (hpos : 0 ≤ t) (hlt : t < 2 ^ 63) : strtol (formatTime t) = t := by
  have hcases := strtol_formatTime_cases t (by omega) hlt
  omega

theorem modeBit_of_mem (tab : SimpleMode × Char) (h : tab ∈ chanModes) :
    modeBit tab.2 = some tab.1 ∧ tab.2 ≠ 'k' ∧ tab.2 ≠ 'l' := by
  revert tab
  decide

theorem mem_chanModes (bit : SimpleMode) : bit ∈ chanModes.map Prod.fst := by
  cases bit <;> decide

theorem sjoinModes_flags (tabs : List (SimpleMode × Char)) (tail : CStr) (args : List CStr)
    (mode : Mode) (h : ∀ tab ∈ tabs, tab ∈ chanModes) :
    sjoinModes (tabs.map Prod.snd ++ tail) args mode =
      sjoinModes tail args { mode with mode := mode.mode ∪ (tabs.map Prod.fst).toFinset } := by
  induction tabs generalizing mode with
  | nil => simp
  | cons tab tabs ih =>
    obtain ⟨hbit, hk, hl⟩ := modeBit_of_mem tab (h tab List.mem_cons_self)
    have htail := ih (addBit tab.2 mode) (fun u hu => h u (List.mem_cons_of_mem tab hu))
    have hstep : ∀ modes, sjoinModes (tab.2 :: modes) args mode =
        sjoinModes modes args (addBit tab.2 mode) := by
      intro modes
      conv_lhs => unfold sjoinModes
      rw [if_neg (by simp [hk, hl])]
    rw [List.map_cons, List.cons_append, hstep, htail]
    simp only [addBit, hbit, List.map_cons, List.toFinset_cons]
    rw [Finset.insert_union, Finset.union_insert]

theorem toFinset_flags (m : Mode) :
    ((chanModes.filter (fun tab => decide (tab.1 ∈ m.mode))).map Prod.fst).toFinset = m.mode := by
  ext bit
  simp only [List.mem_toFinset, List.mem_map, List.mem_filter, decide_eq_true_eq]
  constructor
  · rintro ⟨tab, ⟨_, hmem⟩, rfl⟩
    exact hmem
  · intro hbit
    obtain ⟨tab, htab, rfl⟩ := List.mem_map.mp (mem_chanModes bit)
    exact ⟨tab, ⟨htab, hbit⟩, rfl⟩

theorem sjoinModes_params (m : Mode) (flags : Finset SimpleMode) (last : CStr)
    (h : ValidKey m.key) :
    sjoinModes ((if m.limit ≠ 0 then ['l'] else []) ++ (if m.key ≠ [] then ['k'] else []))
        (modeParams m ++ [last]) { noModes with mode := flags } =
      some ({ m with mode := flags }, [last]) := by
  have hkey : strlcpy m.key (KEYLEN + 1) = m.key := strlcpy_of_le m.key KEYLEN h.len
  obtain ⟨mode, limit, key⟩ := m
  dsimp only at hkey
  by_cases hlimit : limit = 0#32
  · by_cases hk : key = []
    · simp [modeParams, sjoinModes, noModes, hlimit, hk]
    · simp [modeParams, sjoinModes, noModes, readParam, hlimit, hk, hkey]
  · by_cases hk : key = []
    · simp [modeParams, sjoinModes, noModes, readParam, hlimit, hk, ofInt_atoi_signedDecimal]
    · simp [modeParams, sjoinModes, noModes, readParam, hlimit, hk, hkey,
        ofInt_atoi_signedDecimal]

theorem sjoinModes_modeLetters (m : Mode) (last : CStr) (h : ValidKey m.key) :
    sjoinModes (modeLetters m) (modeParams m ++ [last]) noModes = some (m, [last]) := by
  have hplus : ∀ (modes : CStr) (args : List CStr),
      sjoinModes ('+' :: modes) args noModes = sjoinModes modes args noModes := fun _ _ => rfl
  unfold modeLetters
  rw [hplus, sjoinModes_flags _ _ _ _ (fun tab htab => List.mem_of_mem_filter htab),
    toFinset_flags]
  simpa [noModes] using sjoinModes_params m m.mode last h

theorem tokens_append (w s : CStr) (hw : ' ' ∉ w) (hne : w ≠ []) :
    Segments.segments (fun c => c == ' ') (w ++ ' ' :: s) =
      w :: Segments.segments (fun c => c == ' ') s := by
  have hfree : Segments.Free (fun c => c == ' ') w := by
    intro c hc
    simpa using fun heq : c = ' ' => hw (heq ▸ hc)
  rw [Segments.segments_line _ w s ' ' hfree rfl]
  cases w with
  | nil => exact absurd rfl hne
  | cons c w => rfl

theorem tokens_joined {α : Type*} (text : α → CStr) (g : List α)
    (h : ∀ x ∈ g, ' ' ∉ text x ∧ text x ≠ []) : tokens (joined text ' ' g) = g.map text := by
  induction g with
  | nil => rfl
  | cons x g ih =>
    obtain ⟨hspace, hne⟩ := h x List.mem_cons_self
    have htail := ih (fun y hy => h y (List.mem_cons_of_mem x hy))
    unfold tokens at htail ⊢
    cases g with
    | nil =>
      rw [joined, tokens_append _ [] hspace hne]
      rfl
    | cons y g =>
      rw [joined, List.append_assoc, List.cons_append, tokens_append _ _ hspace hne, htail]
      rfl

theorem readStatus_id (id : CStr) (fl : Flags) (h : ValidId id) : readStatus id fl = (fl, id) := by
  obtain ⟨c, s, rfl, hc⟩ := h.digit
  have hne : ∀ d, isDigit d = false → c ≠ d := by
    intro d hd heq
    rw [heq, hd] at hc
    exact absurd hc (by decide)
  unfold readStatus
  split
  · next heq => exact absurd (List.cons.inj heq).1 (hne '@' (by decide))
  · next heq => exact absurd (List.cons.inj heq).1 (hne '%' (by decide))
  · next heq => exact absurd (List.cons.inj heq).1 (hne '+' (by decide))
  · rfl

theorem readStatus_memberText (member : Membership) (h : ValidId member.id) :
    readStatus (memberText member) noFlags = (member.flags, member.id) := by
  obtain ⟨id, chanop, halfop, voice⟩ := member
  have hid := fun fl => readStatus_id id fl h
  cases chanop <;> cases halfop <;> cases voice <;>
    simp [memberText, statusText, readStatus, noFlags, hid]

theorem memberText_word (member : Membership) (h : ValidId member.id) :
    ' ' ∉ memberText member ∧ memberText member ≠ [] := by
  obtain ⟨c, s, hid, _⟩ := h.digit
  have hspace : ' ' ∉ member.id := by
    intro hmem
    rcases h.alnum ' ' hmem with hbad | hbad
    · exact absurd hbad (by decide)
    · exact absurd hbad (by decide)
  unfold memberText statusText
  constructor
  · split_ifs <;> simp [hspace]
  · simp [hid]

/-- A member of the line joins with the status of the line, if that counts. -/
def joinOne (keepNewModes : Bool) (chptr : Channel) (member : Membership) : Channel :=
  if chptr.isMember member.id then chptr
  else addUserToChannel chptr member.id (if keepNewModes then member.flags else noFlags)

/-- The clients are known here, and behind the link. -/
def Known (link : Link) (members : List Membership) : Prop :=
  ∀ member ∈ members, link.findChasing member.id = some member.id ∧ link.behind member.id = true

theorem joinMember_memberText (link : Link) (keep : Bool) (chptr : Channel) (member : Membership)
    (h : ValidId member.id) (hfind : link.findChasing member.id = some member.id)
    (hbehind : link.behind member.id = true) :
    joinMember link keep chptr (memberText member) = joinOne keep chptr member := by
  unfold joinMember joinOne
  rw [readStatus_memberText member h]
  dsimp only
  rw [hfind]
  dsimp only
  rw [hbehind]
  cases chptr.isMember member.id <;> simp

theorem foldl_joinMember (link : Link) (keep : Bool) (g : List Membership) (chptr : Channel)
    (h : ∀ member ∈ g, ValidId member.id) (hknown : Known link g) :
    (g.map memberText).foldl (joinMember link keep) chptr = g.foldl (joinOne keep) chptr := by
  induction g generalizing chptr with
  | nil => rfl
  | cons member g ih =>
    obtain ⟨hfind, hbehind⟩ := hknown member List.mem_cons_self
    rw [List.map_cons, List.foldl_cons, List.foldl_cons,
      joinMember_memberText link keep chptr member (h member List.mem_cons_self) hfind hbehind]
    exact ih _ (fun m hm => h m (List.mem_cons_of_mem member hm))
      (fun m hm => hknown m (List.mem_cons_of_mem member hm))

theorem nuhText_word (n : Nuh) (h : Valid n) : ' ' ∉ nuhText n ∧ nuhText n ≠ [] := by
  refine ⟨fun hmem => ?_, by simp [nuhText]⟩
  exact absurd (h.no_space ' ' hmem) (by decide)

theorem addMasks_nuhText (type : ListType) (g : List Nuh) (chptr : Channel)
    (h : ∀ n ∈ g, Valid n) :
    addMasks type (g.map nuhText) chptr = g.foldl (fun c n => (addMask c type n).1) chptr := by
  induction g generalizing chptr with
  | nil => rfl
  | cons n g ih =>
    have hn := h n List.mem_cons_self
    have hlen := nuhText_length_le n hn
    have hbuf : MODEBUFLEN = 200 := rfl
    have hhead : (nuhText n).head? ≠ some ':' := by
      have hcolon := hn.no_colon
      cases hname : n.name with
      | nil => simp [nuhText, hname]
      | cons c s => simpa [nuhText, hname] using hcolon
    rw [List.map_cons, addMasks, if_neg (by omega), if_neg hhead, addId, maskOf_nuhText n hn,
      List.foldl_cons]
    exact ih _ (fun m hm => h m (List.mem_cons_of_mem n hm))

/-- What a SJOIN line of the channel `c` does to the channel of that name. -/
def sjoinStep (link : Link) (c : Channel) (old : Option Channel) (g : List Membership) :
    Option Channel :=
  let chptr := old.getD (makeChannel link.currentTime c.name)
  let d := decideTs old.isNone (bogusTs link c.creationtime chptr.creationtime) chptr.creationtime
  let joined := g.foldl (joinOne d.keepNewModes) (applyTs d c.mode old.isNone c.name chptr)
  if joined.members = [] ∧ old.isNone then none else some joined

def bmaskStep (c : Channel) (type : ListType) (chptr : Channel) (g : List Nuh) : Channel :=
  if c.creationtime > chptr.creationtime then chptr
  else g.foldl (fun chptr n => (addMask chptr type n).1) chptr

/-- The channel with the timestamp that is read in its lines: `%lu` has no minus sign to print. -/
def asRead (c : Channel) : Channel := { c with creationtime := strtol (formatTime c.creationtime) }

theorem asRead_eq (c : Channel) (hpos : 0 ≤ c.creationtime) (hlt : c.creationtime < 2 ^ 63) :
    asRead c = c := by
  unfold asRead
  rw [strtol_formatTime c.creationtime hpos hlt]

theorem sjoinChannel_line (link : Link) (c : Channel) (old : Option Channel)
    (g : List Membership) (h : WellFormed c) (hg : ∀ member ∈ g, member ∈ c.members)
    (hknown : Known link c.members) :
    sjoinChannel link (formatTime c.creationtime) c.name (modeLetters c.mode)
        (modeParams c.mode ++ [joined memberText ' ' g]) old = sjoinStep link (asRead c) old g := by
  have hid : ∀ member ∈ g, ValidId member.id :=
    fun member hm => h.members_id member (hg member hm)
  have hwords : ∀ member ∈ g, ' ' ∉ memberText member ∧ memberText member ≠ [] :=
    fun member hm => memberText_word member (hid member hm)
  unfold sjoinChannel sjoinStep
  rw [h.name, sjoinModes_modeLetters c.mode _ h.key]
  dsimp only [asRead]
  rw [List.headD_cons, tokens_joined memberText g hwords,
    foldl_joinMember link _ g _ hid (fun m hm => hknown m (hg m hm))]
  rfl

theorem receive_sjoinLine (link : Link) (sid : CStr) (source : Source) (t : Table) (c : Channel)
    (g : List Membership) (hsid : ValidSid sid) (hsource : link.source sid = some source)
    (hserver : source.isServer = true) (h : WellFormed c) (hg : ∀ member ∈ g, member ∈ c.members)
    (hknown : Known link c.members) :
    receive link t (sjoinLine sid c g) =
      setChannel t c.name (sjoinStep link (asRead c) (hashFindChannel t c.name) g) := by
  have hne : sid ≠ [] := by
    intro hnil
    have hlen := hsid.len
    rw [hnil] at hlen
    exact absurd hlen (by decide)
  have hfind : findSource link (some sid) = some source := by
    rw [findSource, if_neg hne, hsource]
  have hline := sjoinChannel_line link c (hashFindChannel t c.name) g h hg hknown
  unfold receive
  rw [parse_sjoinLine sid c g hsid h]
  dsimp only
  rw [hfind]
  dsimp only
  rw [if_pos (irccmp_self _), if_pos hserver]
  show msSjoin link t (formatTime c.creationtime :: c.name :: modeLetters c.mode ::
    (modeParams c.mode ++ [joined memberText ' ' g])) = _
  rw [← hline]
  obtain ⟨arg, args, hargs⟩ : ∃ arg args,
      modeParams c.mode ++ [joined memberText ' ' g] = arg :: args :=
    List.exists_cons_of_ne_nil (by simp)
  rw [hargs]
  rfl

theorem receive_bmaskLine (link : Link) (sid : CStr) (source : Source) (t : Table) (c : Channel)
    (type : ListType) (g : List Nuh) (hsid : ValidSid sid)
    (hsource : link.source sid = some source) (h : WellFormed c) (hg : ∀ n ∈ g, n ∈ c.list type)
    (hlen : (bmaskLine sid c type g).length ≤ 510) :
    receive link t (bmaskLine sid c type g) =
      setChannel t c.name ((hashFindChannel t c.name).map (fun chptr => bmaskStep (asRead c) type chptr g)) := by
  have hne : sid ≠ [] := by
    intro hnil
    have hlen := hsid.len
    rw [hnil] at hlen
    exact absurd hlen (by decide)
  have hfind : findSource link (some sid) = some source := by
    rw [findSource, if_neg hne, hsource]
  have hvalid : ∀ n ∈ g, Valid n := fun n hn => h.lists_valid type n (hg n hn)
  have hshort : strlcpy (joined nuhText ' ' g) IRCD_BUFSIZE = joined nuhText ' ' g := by
    apply List.take_of_length_le
    rw [bmaskLine_eq, List.length_append] at hlen
    have hsize : IRCD_BUFSIZE = 512 := rfl
    omega
  have hchannel : bmaskChannel (formatTime c.creationtime) [flagLetter type] (joined nuhText ' ' g) =
      fun chptr => bmaskStep (asRead c) type chptr g := by
    funext chptr
    have htype : ([flagLetter type] : CStr).head?.bind listType = some type := by cases type <;> rfl
    unfold bmaskChannel bmaskStep
    rw [htype, hshort, tokens_joined nuhText g (fun n hn => nuhText_word n (hvalid n hn))]
    dsimp only [asRead]
    rw [addMasks_nuhText type g chptr hvalid]
    rfl
  unfold receive
  rw [parse_bmaskLine sid c type g hsid h]
  dsimp only
  rw [hfind]
  dsimp only
  rw [if_neg (by decide), if_pos (irccmp_self _), ← hchannel]
  rfl

end IrcdHybrid.BurstLines
