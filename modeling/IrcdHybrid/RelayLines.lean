import IrcdHybrid.SjoinRelay

/-!
The relayed lines as the next server reads them. The first has the modes of the
channel. The modes of the others are what the status letters have left of them, which
brings nothing that the channel does not have by then.
-/

namespace IrcdHybrid.RelayLines

open CString Numeral BanMask Channels Packing Wire Burst Sjoin ChannelMode ChannelTable BurstLines
  BurstRun SjoinHeader SjoinRelay

theorem relayHeader_append (id name f w : CStr) (ts : ℤ) (ps : List CStr) :
    relayHeader id ts name f (trailed (fun w : CStr => w) ' ' ps) ++ w =
      lineText id "SJOIN".toList ([formatTime ts, name, f] ++ ps) (' ' :: ':' :: w) := by
  have hsjoin : " SJOIN ".toList = ' ' :: ("SJOIN".toList ++ [' ']) := rfl
  have hspace := spaced_eq_trailed ps
  have hcolon : spaced ps ++ ' ' :: ':' :: w = (spaced ps ++ [' ']) ++ ':' :: w := by simp
  unfold relayHeader lineText
  rw [hsjoin, spaced_append, List.append_assoc (spaced _), hcolon, ← hspace]
  simp

theorem parse_relayLine (id name f w : CStr) (ts : ℤ) (ps : List CStr) (hid : ' ' ∉ id)
    (hname : checkChannelName name = true) (hf : Word f) (hps : ∀ p ∈ ps, Word p)
    (hcount : ps.length ≤ 2) :
    parse (relayHeader id ts name f (trailed (fun w : CStr => w) ' ' ps) ++ w) =
      some ⟨some id, "SJOIN".toList, [formatTime ts, name, f] ++ ps ++ [w]⟩ := by
  rw [relayHeader_append]
  apply parse_trailing id _ _ _ hid ⟨by decide, by decide, by decide⟩
  · intro p hp
    rcases List.mem_append.mp hp with hp | hp
    · rcases List.mem_cons.mp hp with rfl | hp
      · exact word_formatTime _
      rcases List.mem_cons.mp hp with rfl | hp
      · exact word_name _ hname
      · rwa [List.mem_singleton.mp hp]
    · exact hps p hp
  · simp only [List.length_append, List.length_cons, List.length_nil, MAXPARA]
    omega

theorem tokens_trailed {α : Type*} (text : α → CStr) (g : List α)
    (h : ∀ x ∈ g, ' ' ∉ text x ∧ text x ≠ []) : tokens (trailed text ' ' g) = g.map text := by
  induction g with
  | nil => rfl
  | cons x g ih =>
    obtain ⟨hspace, hne⟩ := h x List.mem_cons_self
    have htail := ih (fun y hy => h y (List.mem_cons_of_mem x hy))
    have hcons : trailed text ' ' (x :: g) ++ [' '] =
        text x ++ ' ' :: (trailed text ' ' g ++ [' ']) := by simp [trailed]
    unfold tokens at htail ⊢
    rw [hcons, tokens_append _ _ hspace hne, htail]
    rfl

theorem sendFormat_line (header : CStr) (g : List Membership) (hne : g ≠ [])
    (hg : ∀ member ∈ g, ValidId member.id)
    (hlen : (header ++ trailed memberText ' ' g).length ≤ IRCD_BUFSIZE - 1) :
    (∃ w, sendFormat (header ++ trailed memberText ' ' g) = header ++ w ∧
        tokens w = g.map memberText) ∧
      ∃ w, sendFormat (header ++ trailed memberText ' ' g).dropLast = header ++ w ∧
        tokens w = g.map memberText := by
  have hsize : IRCD_BUFSIZE = 512 := rfl
  have hwords : ∀ member ∈ g, ' ' ∉ memberText member ∧ memberText member ≠ [] :=
    fun member hm => memberText_word member (hg member hm)
  have hdrop := dropLast_trailed memberText ' ' header g hne
  have hjoined : sendFormat (header ++ joined memberText ' ' g) =
      header ++ joined memberText ' ' g := by
    apply List.take_of_length_le
    rw [← hdrop, List.length_dropLast]
    omega
  have htokens := tokens_joined memberText g hwords
  refine ⟨?_, _, by rw [hdrop, hjoined], htokens⟩
  by_cases hfull : (header ++ trailed memberText ' ' g).length = IRCD_BUFSIZE - 1
  · refine ⟨joined memberText ' ' g, ?_, htokens⟩
    rw [← hdrop, List.dropLast_eq_take, hfull]
    rfl
  · refine ⟨trailed memberText ' ' g, ?_, tokens_trailed memberText g hwords⟩
    exact List.take_of_length_le (by omega)

theorem receive_relayLine (link : Link) (id : CStr) (source : Source) (t : Table) (ts : ℤ)
    (c : Channel) (f w : CStr) (ps : List CStr) (g : List Membership) (hid : ValidSid id)
    (hsource : link.source id = some source) (hserver : source.isServer = true)
    (hname : checkChannelName c.name = true) (hts : strtol (formatTime ts) = c.creationtime)
    (hf : Word f) (hps : ∀ p ∈ ps, Word p) (hcount : ps.length ≤ 2)
    (hmodes : sjoinModes f (ps ++ [w]) noModes = some (c.mode, [w]))
    (hw : tokens w = g.map memberText) (hg : ∀ member ∈ g, ValidId member.id)
    (hknown : Known link g) :
    receive link t (relayHeader id ts c.name f (trailed (fun w : CStr => w) ' ' ps) ++ w) =
      setChannel t c.name (sjoinStep link c (hashFindChannel t c.name) g) := by
  have hne : id ≠ [] := by
    intro hnil
    have hlen := hid.len
    rw [hnil] at hlen
    exact absurd hlen (by decide)
  have hfind : findSource link (some id) = some source := by
    rw [findSource, if_neg hne, hsource]
  have hline : sjoinChannel link (formatTime ts) c.name f (ps ++ [w]) (hashFindChannel t c.name) =
      sjoinStep link c (hashFindChannel t c.name) g := by
    unfold sjoinChannel sjoinStep
    rw [hname, hmodes, hts]
    dsimp only
    rw [List.headD_cons, hw, foldl_joinMember link _ g _ hg hknown]
    rfl
  unfold receive
  rw [parse_relayLine id c.name f w ts ps hid.no_space hname hf hps hcount]
  dsimp only
  rw [hfind]
  dsimp only
  rw [if_pos (irccmp_self _), if_pos hserver]
  show msSjoin link t (formatTime ts :: c.name :: f :: (ps ++ [w])) = _
  rw [← hline]
  obtain ⟨arg, args, hargs⟩ : ∃ arg args, ps ++ [w] = arg :: args :=
    List.exists_cons_of_ne_nil (by simp)
  rw [hargs]
  rfl

/-- The letters of a mode behind the sign, and how many of them are flags. -/
def flagTabs (m : Mode) : List (SimpleMode × Char) :=
  chanModes.filter (fun tab => decide (tab.1 ∈ m.mode))

def paramLetters (m : Mode) : CStr :=
  (if m.limit ≠ 0 then ['l'] else []) ++ (if m.key ≠ [] then ['k'] else [])

theorem modeLetters_eq (m : Mode) :
    modeLetters m = '+' :: ((flagTabs m).map Prod.snd ++ paramLetters m) := rfl

theorem sjoinModes_paramLetters (m : Mode) (s : Finset SimpleMode) (last : CStr)
    (h : ValidKey m.key) :
    sjoinModes (paramLetters m) (modeParams m ++ [last]) { noModes with mode := s } =
      some ({ m with mode := s }, [last]) := sjoinModes_params m s last h

theorem sjoinModes_status (letters tail : CStr) (args : List CStr) (mode : Mode)
    (h : StatusLetters letters) :
    sjoinModes ('+' :: (letters ++ tail)) args mode = sjoinModes tail args mode := by
  show sjoinModes (letters ++ tail) args mode = _
  induction letters with
  | nil => rfl
  | cons c letters ih =>
    have hc : (c ≠ 'k' ∧ c ≠ 'l') ∧ modeBit c = none := by
      rcases h c List.mem_cons_self with rfl | rfl | rfl <;> decide
    rw [List.cons_append]
    conv_lhs => unfold sjoinModes
    rw [if_neg (by simp [hc.1]), addBit, hc.2]
    exact ih (fun d hd => h d (List.mem_cons_of_mem c hd))

theorem mergeModes_comm_noModes (m : Mode) : mergeModes noModes m = m := by
  rw [mergeModes_comm, mergeModes_noModes]

theorem mergeModes_fewer (m : Mode) (s : Finset SimpleMode) (h : s ⊆ m.mode) :
    mergeModes { m with mode := s } m = m := by
  unfold mergeModes
  dsimp only
  rw [Finset.union_eq_right.mpr h]
  simp

theorem toFinset_drop_flags (m : Mode) (k : ℕ) :
    (((flagTabs m).drop k).map Prod.fst).toFinset ⊆ m.mode := by
  intro bit hbit
  obtain ⟨tab, htab, rfl⟩ := List.mem_map.mp (List.mem_toFinset.mp hbit)
  have hmem := List.mem_of_mem_drop htab
  simpa using (List.mem_filter.mp hmem).2

/-- What `ms_sjoin` sends on in place of its modes at a split. -/
theorem sjoinModes_overwritten (m : Mode) (f : CStr) (hkey : ValidKey m.key)
    (h : Overwritten ((flagTabs m).map Prod.snd ++ paramLetters m) (flagTabs m).length
      (channelModes m).2 f) :
    ∃ m', (∀ last, sjoinModes f (modeParams m ++ [last]) noModes = some (m', [last])) ∧
      mergeModes m' m = m := by
  obtain ⟨letters, hletters, ⟨hlen, rfl⟩ | ⟨hparams, rfl⟩⟩ := h
  · refine ⟨{ m with mode := (((flagTabs m).drop letters.length).map Prod.fst).toFinset },
      fun last => ?_, mergeModes_fewer m _ (toFinset_drop_flags m _)⟩
    have hflags := sjoinModes_flags ((flagTabs m).drop letters.length) (paramLetters m)
      (modeParams m ++ [last]) noModes
      (fun tab htab => List.mem_of_mem_filter (List.mem_of_mem_drop htab))
    rw [sjoinModes_status letters _ _ _ hletters,
      List.drop_append_of_le_length (by rwa [List.length_map]), ← List.map_drop, hflags]
    have hrest := sjoinModes_paramLetters m
      (((flagTabs m).drop letters.length).map Prod.fst).toFinset last hkey
    simpa [noModes] using hrest
  · have hnil : modeParams m = [] := by
      rw [channelModes_params] at hparams
      cases hps : modeParams m with
      | nil => rfl
      | cons p ps => simp [hps, trailed] at hparams
    refine ⟨noModes, fun last => ?_, mergeModes_comm_noModes m⟩
    have hread := sjoinModes_status letters [] [last] noModes hletters
    rw [List.append_nil] at hread
    rw [hnil, List.nil_append, hread]
    rfl

theorem sjoinModes_overwritten_nil (f : CStr) (h : Overwritten [] 0 [] f) (last : CStr) :
    sjoinModes f [last] noModes = some (noModes, [last]) := by
  have hread : ∀ letters, StatusLetters letters →
      sjoinModes ('+' :: letters) [last] noModes = some (noModes, [last]) := by
    intro letters hletters
    have hstatus := sjoinModes_status letters [] [last] noModes hletters
    rw [List.append_nil] at hstatus
    rw [hstatus]
    rfl
  obtain ⟨letters, hletters, ⟨_, rfl⟩ | ⟨_, rfl⟩⟩ := h
  · rw [List.drop_nil, List.append_nil]
    exact hread letters hletters
  · exact hread letters hletters

theorem word_overwritten (field f : CStr) (flags : ℕ) (params : CStr) (hfield : ' ' ∉ field)
    (h : Overwritten field flags params f) : Word f := by
  obtain ⟨letters, hletters, hcases⟩ := h
  have hspace : ' ' ∉ letters := by
    intro hmem
    rcases hletters ' ' hmem with heq | heq | heq <;> exact absurd heq (by decide)
  rcases hcases with ⟨_, rfl⟩ | ⟨_, rfl⟩
  · refine ⟨by simp, fun hmem => ?_, by simp⟩
    rcases List.mem_cons.mp hmem with heq | hmem
    · exact absurd heq (by decide)
    rcases List.mem_append.mp hmem with hmem | hmem
    · exact hspace hmem
    · exact hfield (List.mem_of_mem_drop hmem)
  · refine ⟨by simp, fun hmem => ?_, by simp⟩
    rcases List.mem_cons.mp hmem with heq | hmem
    · exact absurd heq (by decide)
    · exact hspace hmem

/-- A line as it was sent: a header with its modes, and the members behind it. -/
def IsLine (header : CStr → CStr) (line : CStr) (p : CStr × List Membership) : Prop :=
  ∃ w, line = header p.1 ++ w ∧ tokens w = p.2.map memberText

theorem filled_lines (header : CStr → CStr) (Good : CStr → Prop) (first : CStr)
    (members : List Membership) (r : Relay) (hne : members ≠ [])
    (hid : ∀ member ∈ members, ValidId member.id) (h : Filled header Good first members r) :
    ∃ g pairs,
      List.Forall₂ (IsLine header) ((r.sent ++ [r.uidBuf.dropLast]).map sendFormat)
        ((first, g) :: pairs) ∧
      g ++ pairs.flatMap Prod.snd = members ∧ g ≠ [] ∧
      ∀ p ∈ pairs, p.2 ≠ [] ∧ Good p.1 := by
  obtain ⟨done, f, cur, hsent, hbuf, hmembers, ⟨fs, hfields, hgood⟩, hdone, hcur, hlen⟩ := h
  have hcurne : cur ≠ [] := by
    intro hnil
    rw [hcur hnil, hnil] at hmembers
    exact hne (by simpa using hmembers.symm)
  have hvalid : ∀ p ∈ done ++ [(f, cur)], ∀ member ∈ p.2, ValidId member.id := by
    intro p hp member hmember
    apply hid
    rw [← hmembers]
    exact List.mem_flatMap.mpr ⟨p, hp, hmember⟩
  have hnonempty : ∀ p ∈ done ++ [(f, cur)], p.2 ≠ [] := by
    intro p hp
    rcases List.mem_append.mp hp with hp | hp
    · exact hdone p hp
    · rwa [List.mem_singleton.mp hp]
  have hlines : List.Forall₂ (IsLine header) ((r.sent ++ [r.uidBuf.dropLast]).map sendFormat)
      (done ++ [(f, cur)]) := by
    rw [List.map_append, hsent, hbuf, List.map_map]
    refine List.rel_append ?_ ?_
    · rw [List.forall₂_map_left_iff, List.forall₂_same]
      intro p hp
      have hmem := List.mem_append_left [(f, cur)] hp
      exact (sendFormat_line (header p.1) p.2 (hdone p hp) (hvalid p hmem) (hlen p hmem)).1
    · refine List.Forall₂.cons ?_ List.Forall₂.nil
      have hmem : (f, cur) ∈ done ++ [(f, cur)] := by simp
      exact (sendFormat_line (header f) cur hcurne (hvalid _ hmem) (hlen _ hmem)).2
  generalize hpairs : done ++ [(f, cur)] = pairs at hlines hmembers hfields hnonempty
  cases pairs with
  | nil => simp at hpairs
  | cons p pairs =>
    obtain ⟨p1, g⟩ := p
    rw [List.map_cons] at hfields
    obtain ⟨rfl, hrest⟩ := List.cons.inj hfields
    refine ⟨g, pairs, hlines, by simpa using hmembers, hnonempty _ List.mem_cons_self, ?_⟩
    intro p hp
    refine ⟨hnonempty p (List.mem_cons_of_mem _ hp), hgood p.1 ?_⟩
    rw [← hrest]
    exact List.mem_map_of_mem hp

end IrcdHybrid.RelayLines
