import IrcdHybrid.BurstRoundTrip
import IrcdHybrid.ModeWalk
import IrcdHybrid.TmodeLines

/-!
Mode changes on the other servers. A server that had the same channel has the
same channel again once it has read the TMODE lines of a command, unless the
command sets a key and then removes it among other changes with an argument: the
+k is printed with the key that the channel has in the end. The lines of a channel
whose TS is negative are thrown away.
-/

namespace IrcdHybrid.ModePropagation

open CString Numeral BanMask Channels Wire Burst Sjoin ChannelMode ChannelTable BurstLines
  BurstRoundTrip ModeReplay ModeWalk TmodeLines

/-- Two servers' copies of a channel, with the members and the masks in any order. -/
structure SameCopy (c q : Channel) : Prop where
  creationtime : c.creationtime = q.creationtime
  mode : c.mode = q.mode
  members : c.members.Perm q.members
  lists : ∀ type, (c.list type).Perm (q.list type)

theorem sameCopy_refl (c : Channel) : SameCopy c c :=
  ⟨rfl, rfl, List.Perm.refl _, fun _ => List.Perm.refl _⟩

theorem sameCopy_iff (c p q : Channel) (h : SameCopy p q) : SameCopy c p ↔ SameCopy c q :=
  ⟨fun hp => ⟨hp.creationtime.trans h.creationtime, hp.mode.trans h.mode,
      hp.members.trans h.members, fun type => (hp.lists type).trans (h.lists type)⟩,
    fun hq => ⟨hq.creationtime.trans h.creationtime.symm, hq.mode.trans h.mode.symm,
      hq.members.trans h.members.symm, fun type => (hq.lists type).trans (h.lists type).symm⟩⟩

theorem changeList_perm (l m : List Nuh) (n : Nuh) (dir : Dir) (h : l.Perm m) (hl : Distinct l) :
    (changeList l n dir).Perm (changeList m n dir) := by
  unfold changeList
  split
  · unfold insertMask
    rw [h.any_eq]
    split
    · exact h
    · exact h.cons n
  · apply h.eraseP
    apply List.Pairwise.imp _ hl
    intro a b hab ha hb
    have hsame := sameMask_trans a n b (by rw [sameMask_comm]; exact ha) hb
    rw [hab] at hsame
    exact absurd hsame (by decide)

theorem changeList_distinct (l : List Nuh) (n : Nuh) (dir : Dir) (h : Distinct l) :
    Distinct (changeList l n dir) := by
  unfold changeList
  split
  · exact distinct_add l n h
  · exact h.sublist List.eraseP_sublist

theorem applyKind_list (c : Channel) (kind : Kind) (arg : CStr) (dir : Dir) (type : ListType) :
    (applyKind c kind arg dir).list type =
      if kind = .mask type then changeList (c.list type) (maskOf arg) dir else c.list type := by
  cases kind with
  | mask type' =>
    rw [applyKind_mask]
    by_cases heq : type' = type
    · subst heq
      rw [list_setList, if_pos rfl]
    · rw [list_setList_of_ne _ _ _ _ (Ne.symm heq), if_neg (by simpa using heq)]
  | status status => cases type <;> rfl
  | limit => cases type <;> rfl
  | key => cases type <;> rfl
  | simple d => cases type <;> rfl

theorem distinct_applyKind (c : Channel) (kind : Kind) (arg : CStr) (dir : Dir)
    (h : ∀ type, Distinct (c.list type)) (type : ListType) :
    Distinct ((applyKind c kind arg dir).list type) := by
  rw [applyKind_list]
  split
  · exact changeList_distinct _ _ _ (h type)
  · exact h type

theorem sameCopy_applyKind (c q : Channel) (kind : Kind) (arg : CStr) (dir : Dir)
    (h : SameCopy c q) (hd : ∀ type, Distinct (c.list type)) :
    SameCopy (applyKind c kind arg dir) (applyKind q kind arg dir) := by
  have hlists : ∀ type, ((applyKind c kind arg dir).list type).Perm
      ((applyKind q kind arg dir).list type) := by
    intro type
    rw [applyKind_list, applyKind_list]
    split
    · exact changeList_perm _ _ _ _ (h.lists type) (hd type)
    · exact h.lists type
  have hmode := h.mode
  cases kind with
  | mask type =>
    refine ⟨?_, ?_, ?_, hlists⟩
    · rw [applyKind_mask, applyKind_mask, creationtime_setList, creationtime_setList]
      exact h.creationtime
    · rw [applyKind_mask, applyKind_mask, mode_setList, mode_setList]
      exact h.mode
    · rw [applyKind_mask, applyKind_mask, members_setList, members_setList]
      exact h.members
  | status status => exact ⟨h.creationtime, h.mode, h.members.map _, hlists⟩
  | limit => exact ⟨h.creationtime, by simp [applyKind, setLimit, hmode], h.members, hlists⟩
  | key => exact ⟨h.creationtime, by simp [applyKind, setKey, hmode], h.members, hlists⟩
  | simple d => exact ⟨h.creationtime, by simp [applyKind, hmode], h.members, hlists⟩

theorem sameCopy_foldl (items : List Item) (c q : Channel) (h : SameCopy c q)
    (hd : ∀ type, Distinct (c.list type)) :
    SameCopy (items.foldl applyItem c) (items.foldl applyItem q) := by
  induction items generalizing c q with
  | nil => exact h
  | cons item items ih =>
    rw [List.foldl_cons, List.foldl_cons]
    unfold applyItem
    cases kindOf item.letter with
    | none => exact ih c q h hd
    | some kind =>
      exact ih _ _ (sameCopy_applyKind c q kind _ _ h hd) (distinct_applyKind c kind _ _ hd)

/-- What the other server knows of the client and of the members. -/
structure PeerKnows (link : Link) (uid : CStr) (c : Channel) : Prop where
  validUid : ValidId uid
  source : ∃ service, link.source uid = some (.client uid service)
  known : ∀ member ∈ c.members, link.findChasing member.id = some member.id

/-- The copy that reads the lines of `c` has its members, each of them once. -/
structure Reads (c q : Channel) : Prop where
  ids : ∀ id ∈ c.members.map Membership.id, id ∈ q.members.map Membership.id
  nodup : (q.members.map Membership.id).Nodup

theorem reads_foldl (c q : Channel) (items : List Item) (h : Reads c q) :
    Reads c (items.foldl applyItem q) := by
  constructor
  · rw [foldl_applyItem_ids]
    exact h.ids
  · rw [foldl_applyItem_ids]
    exact h.nodup

theorem foldl_applyItem_creationtime (items : List Item) (q : Channel) :
    (items.foldl applyItem q).creationtime = q.creationtime := by
  induction items generalizing q with
  | nil => rfl
  | cons item items ih =>
    rw [List.foldl_cons, ih]
    unfold applyItem
    split
    · next kind _ =>
      cases kind with
      | mask type => rw [applyKind_mask, creationtime_setList]
      | status status => rfl
      | limit => rfl
      | key => rfl
      | simple d => rfl
    · rfl

/-- The changes of a line, and how it ends. -/
structure Line (c : Channel) (items : List Item) (tail : CStr) : Prop where
  sent : ∀ item ∈ items, Sent c item
  ne_nil : items ≠ []
  args : (argsOf items).length ≤ MAXMODEPARAMS
  count : items.length ≤ 45
  parabuf : (lineOf items).parabuf.length ≤ 190
  tail : tail = [] ∨ tail = [' ']

theorem parse_tmodeText (uid : CStr) (c d : Channel) (items : List Item) (tail : CStr)
    (huid : ValidId uid) (hname : checkChannelName d.name = true) (hline : Line c items tail)
    (hids : ∀ member ∈ c.members, ValidId member.id) :
    parse (tmodeText uid d items tail) =
      some ⟨some uid, "TMODE".toList,
        formatTime d.creationtime :: d.name :: lettersOf .query items :: filled (argsOf items)⟩ := by
  have hbroken : Broken tail := hline.tail.imp id (fun h => ⟨[], h⟩)
  have hfront : ∀ w ∈ [formatTime d.creationtime, d.name, lettersOf .query items], Word w := by
    intro w hw
    rcases List.mem_cons.mp hw with rfl | hw
    · exact word_formatTime _
    rcases List.mem_cons.mp hw with rfl | hw
    · exact word_name _ hname
    rw [List.mem_singleton.mp hw]
    obtain ⟨item, rest, rfl⟩ := List.exists_cons_of_ne_nil hline.ne_nil
    exact word_lettersOf c item rest hline.sent
  have hwords : ∀ w ∈ [formatTime d.creationtime, d.name, lettersOf .query items] ++ argsOf items,
      w = [] ∨ Word w := by
    intro w hw
    rcases List.mem_append.mp hw with hw | hw
    · exact Or.inr (hfront w hw)
    · obtain ⟨item, hitem, harg⟩ := List.mem_filterMap.mp hw
      exact (sent_arg c item w (hline.sent item hitem) hids harg).1
  have hfilled : filled ([formatTime d.creationtime, d.name, lettersOf .query items] ++ argsOf items) =
      [formatTime d.creationtime, d.name, lettersOf .query items] ++ filled (argsOf items) := by
    rw [← filled_words _ hfront]
    unfold filled
    rw [List.filter_append, List.filter_filter]
    simp
  have hcount : ([formatTime d.creationtime, d.name, lettersOf .query items] ++
      argsOf items).length < MAXPARA := by
    have hmax := hline.args
    simp only [MAXMODEPARAMS, MAXPARA, List.length_append, List.length_cons, List.length_nil] at *
    omega
  have hblank : ∀ ch ∈ tail, ch = ' ' := by
    intro ch hch
    rcases hline.tail with rfl | rfl
    · simp at hch
    · exact List.mem_singleton.mp hch
  unfold tmodeText
  rw [parse_filled uid _ _ tail (word_validId uid huid).no_space ⟨by decide, by decide, by decide⟩
    hwords hcount hbroken, splitParams_blank _ tail hblank, List.append_nil, hfilled]
  rfl

/-- What a line does to the channel. -/
def applyLine (link : Link) (source : Source) (d q : Channel) (items : List Item) : Channel :=
  tmodeChannel link source (formatTime d.creationtime) (lettersOf .query items)
    (filled (argsOf items)) q

theorem receive_tmodeText (link : Link) (uid : CStr) (service : Bool) (t : Table) (c d q : Channel)
    (items : List Item) (tail : CStr) (huid : ValidId uid)
    (hsource : link.source uid = some (.client uid service))
    (hname : checkChannelName d.name = true) (hline : Line c items tail)
    (hids : ∀ member ∈ c.members, ValidId member.id) (hq : hashFindChannel t d.name = some q) :
    receive link t (tmodeText uid d items tail) =
      setChannel t d.name (some (applyLine link (.client uid service) d q items)) := by
  have hfind : findSource link (some uid) = some (.client uid service) := by
    rw [findSource, if_neg (word_validId uid huid).ne_nil, hsource]
  unfold receive
  rw [parse_tmodeText uid c d items tail huid hname hline hids]
  dsimp only
  rw [hfind]
  dsimp only
  rw [if_neg (by decide), if_neg (by decide), if_pos (irccmp_self _)]
  unfold msTmode
  dsimp only
  rw [hq, Option.map_some]
  rfl

theorem spaced_args_length (args : List CStr) :
    (spaced args ++ [' ']).length =
      (args.flatMap (fun arg => arg ++ [' '])).length + 1 := by
  induction args with
  | nil => rfl
  | cons arg args ih =>
    rw [spaced_cons, List.flatMap_cons]
    simp only [List.length_append, List.length_cons, List.length_nil] at ih ⊢
    omega

theorem tmodeText_length (uid : CStr) (d : Channel) (items : List Item) (tail : CStr)
    (huid : ValidId uid) (hname : checkChannelName d.name = true) (hcount : items.length ≤ 45)
    (hpara : (lineOf items).parabuf.length ≤ 190) (htail : tail = [] ∨ tail = [' ']) :
    (tmodeText uid d items tail).length ≤ 510 := by
  have huid12 : uid.length ≤ 12 := huid.len
  have htime := formatTime_length d.creationtime
  have hname50 : d.name.length ≤ 50 := checkChannelName_length d.name hname
  have hletters := lettersOf_length .query items
  have hargs := spaced_args_length (argsOf items)
  have htail1 : tail.length ≤ 1 := by
    rcases htail with rfl | rfl <;> simp
  have hcommand : "TMODE".toList.length = 5 := by decide
  obtain ⟨_, hbuf, _, _⟩ := foldl_pushItem items emptyLine
  have hempty : emptyLine.parabuf = [] := rfl
  unfold lineOf at hpara
  rw [hbuf, hempty, List.nil_append] at hpara
  unfold tmodeText
  rw [lineText_length, spaced_append, hcommand]
  simp only [spaced_cons, spaced_nil, List.length_append, List.length_cons, List.length_nil] at *
  omega

theorem lineOf_append (g : List Item) (item : Item) :
    lineOf (g ++ [item]) = pushItem (lineOf g) item := by
  unfold lineOf
  rw [List.foldl_append]
  rfl

theorem pushItem_parabuf (st : LineState) (item : Item) :
    (pushItem st item).parabuf.length ≤ st.parabuf.length + (item.arg.getD []).length + 1 := by
  have hpush := (foldl_pushItem [item] st).2.1
  rw [List.foldl_cons, List.foldl_nil, argsOf_cons] at hpush
  rw [hpush]
  cases item.arg with
  | none => simp [argsOf]
  | some arg =>
    simp [argsOf]
    omega

theorem lineOf_nc (g : List Item) : (lineOf g).nc = 0 ↔ g = [] := by
  have hlen := (foldl_pushItem g emptyLine).2.2.1
  unfold lineOf
  rw [hlen]
  show 0 + g.length = 0 ↔ g = []
  rw [Nat.zero_add, List.length_eq_zero_iff]

theorem lineOf_mc (g : List Item) : (lineOf g).mc = (argsOf g).length := by
  have hlen := (foldl_pushItem g emptyLine).2.2.2
  unfold lineOf
  rw [hlen]
  exact Nat.zero_add _

theorem sent_argLength (c : Channel) (item : Item) (h : Sent c item)
    (hids : ∀ member ∈ c.members, ValidId member.id) : (item.arg.getD []).length ≤ 117 := by
  cases harg : item.arg with
  | none => simp
  | some arg => exact (sent_arg c item arg h hids harg).2

theorem argsOf_singleton (item : Item) : (argsOf [item]).length ≤ 1 := by
  rw [argsOf_cons]
  cases item.arg <;> simp [argsOf]

/-- The lines of a record, the first of which has some changes already. -/
theorem modeChangesLoop_lines (uid : CStr) (c d : Channel) (changes : List ModeChange)
    (g : List Item) (hids : ∀ member ∈ c.members, ValidId member.id)
    (hsent : ∀ item ∈ g ++ itemsOf d changes, Sent c item)
    (hcount : (g ++ itemsOf d changes).length ≤ 45) (hargs : (argsOf g).length ≤ MAXMODEPARAMS)
    (hpara : (lineOf g).parabuf.length ≤ 190) :
    ∃ lines : List (List Item × CStr), (∀ line ∈ lines, Line c line.1 line.2) ∧
      (lines.map Prod.fst).flatten = g ++ itemsOf d changes ∧
      modeChangesLoop (tmodeHeader uid d) d changes (lineOf g) =
        lines.map (fun line => tmodeText uid d line.1 line.2) := by
  have hfirst : ∀ tail, (tail = [] ∨ tail = [' ']) → g ≠ [] → Line c g tail := by
    intro tail htail hne
    rw [List.length_append] at hcount
    exact ⟨fun i hi => hsent i (List.mem_append_left _ hi), hne, hargs, by omega, hpara, htail⟩
  induction changes generalizing g with
  | nil =>
    rw [show itemsOf d [] = [] from rfl, List.append_nil]
    unfold modeChangesLoop
    split
    · next hzero =>
      rw [(lineOf_nc g).mp hzero]
      exact ⟨[], by simp, rfl, rfl⟩
    · next hnonzero =>
      obtain ⟨tail, htail, heq⟩ := tmodeText_last uid d g
      refine ⟨[(g, tail)], ?_, by simp, by dsimp only; rw [heq]; rfl⟩
      intro line hline
      rw [List.mem_singleton.mp hline]
      exact hfirst tail htail (fun h => hnonzero ((lineOf_nc g).mpr h))
  | cons ch changes ih =>
    obtain ⟨letter, arg, dir⟩ := ch
    cases letter with
    | none => exact ih g hsent hcount hargs hpara hfirst
    | some letter =>
      have hitems : itemsOf d (⟨some letter, arg, dir⟩ :: changes) =
          ⟨letter, arg.read d, dir⟩ :: itemsOf d changes := rfl
      generalize hitem : (⟨letter, arg.read d, dir⟩ : Item) = item at hitems
      have hpush : ∀ st : LineState, st.push letter (arg.read d) dir = pushItem st item := by
        intro st
        rw [← hitem]
        rfl
      have harg : arg.read d = item.arg := by rw [← hitem]
      rw [hitems] at hsent hcount ⊢
      have hlen := sent_argLength c item (hsent item (by simp)) hids
      have hone := argsOf_singleton item
      unfold modeChangesLoop
      dsimp only
      rw [hpush, hpush, harg]
      split
      · -- the line is full: it is sent, and the change starts the next one
        have hbuf := pushItem_parabuf emptyLine item
        have hzero : emptyLine.parabuf.length = 0 := rfl
        have hrest : ∀ i ∈ [item] ++ itemsOf d changes, Sent c i :=
          fun i hi => hsent i (List.mem_append_right _ hi)
        have hshort : ([item] ++ itemsOf d changes).length ≤ 45 := by
          simp only [List.length_append, List.length_cons, List.length_nil] at hcount ⊢
          omega
        have hargs1 : (argsOf [item]).length ≤ MAXMODEPARAMS := hone.trans (by decide)
        have hpara1 : (lineOf [item]).parabuf.length ≤ 190 := by
          show (pushItem emptyLine item).parabuf.length ≤ 190
          omega
        obtain ⟨lines, hlines, hflatten, hloop⟩ := ih [item] hrest hshort hargs1 hpara1 (by
          intro tail htail _
          rw [List.length_append] at hshort
          exact ⟨fun i hi => hrest i (List.mem_append_left _ hi), by simp, hargs1, by omega, hpara1,
            htail⟩)
        change modeChangesLoop _ d changes (pushItem emptyLine item) = _ at hloop
        rw [hloop]
        split
        · next hzero =>
          rw [(lineOf_nc g).mp hzero]
          exact ⟨lines, hlines, hflatten, rfl⟩
        · next hnonzero =>
          refine ⟨(g, [' ']) :: lines, ?_, ?_, ?_⟩
          · intro line hline
            rcases List.mem_cons.mp hline with rfl | hline
            · exact hfirst [' '] (Or.inr rfl) (fun h => hnonzero ((lineOf_nc g).mpr h))
            · exact hlines line hline
          · rw [List.map_cons, List.flatten_cons, hflatten]
            rfl
          · rw [tmodeText_eq, List.map_cons]
            rfl
      · next hroom =>
        have hmc := lineOf_mc g
        have hmax : MAXMODEPARAMS = 6 := rfl
        have hbuflen : MODEBUFLEN = 200 := rfl
        have hfudge : BAN_FUDGE = 10 := rfl
        have hbuf := pushItem_parabuf (lineOf g) item
        have hassoc : g ++ item :: itemsOf d changes = (g ++ [item]) ++ itemsOf d changes := by simp
        have hargs1 : (argsOf (g ++ [item])).length ≤ MAXMODEPARAMS := by
          unfold argsOf at *
          rw [List.filterMap_append, List.length_append]
          omega
        have hpara1 : (lineOf (g ++ [item])).parabuf.length ≤ 190 := by
          rw [lineOf_append]
          omega
        rw [hassoc] at hsent hcount ⊢
        rw [← lineOf_append]
        apply ih (g ++ [item]) hsent hcount hargs1 hpara1
        intro tail htail hne
        rw [List.length_append] at hcount
        exact ⟨fun i hi => hsent i (List.mem_append_left _ hi), hne, hargs1, by omega, hpara1, htail⟩

theorem receive_lines (link : Link) (uid : CStr) (service : Bool) (c d : Channel)
    (lines : List (List Item × CStr)) (t : Table) (q : Channel) (huid : ValidId uid)
    (hsource : link.source uid = some (.client uid service))
    (hname : checkChannelName d.name = true) (hids : ∀ member ∈ c.members, ValidId member.id)
    (hlines : ∀ line ∈ lines, Line c line.1 line.2) (hq : hashFindChannel t d.name = some q) :
    hashFindChannel (((lines.map (fun line => tmodeText uid d line.1 line.2)).map
        sendFormat).foldl (receive link) t) d.name =
      some ((lines.map Prod.fst).foldl (applyLine link (.client uid service) d) q) := by
  induction lines generalizing t q with
  | nil => exact hq
  | cons line lines ih =>
    have hline := hlines line List.mem_cons_self
    have hwhole : sendFormat (tmodeText uid d line.1 line.2) = tmodeText uid d line.1 line.2 :=
      List.take_of_length_le
        (tmodeText_length uid d line.1 line.2 huid hname hline.count hline.parabuf hline.tail)
    simp only [List.map_cons, List.foldl_cons]
    rw [hwhole, receive_tmodeText link uid service t c d q line.1 line.2 huid hsource hname hline hids hq]
    exact ih _ _ (fun l hl => hlines l (List.mem_cons_of_mem line hl))
      (hashFindChannel_setChannel _ _ _)

/-- What each of the lines is heard as. -/
def HeardLines (c : Channel) : List (List Item) → List (List Item) → Prop :=
  List.Forall₂ (fun items heard => Heard c items (filled (argsOf items)) heard)

theorem applyLine_heard (link : Link) (uid : CStr) (service : Bool) (c d q : Channel)
    (items heard : List Item) (hknown : ∀ member ∈ c.members, link.findChasing member.id = some member.id)
    (hpos : 0 ≤ d.creationtime) (hlt : d.creationtime < 2 ^ 63)
    (htime : q.creationtime = d.creationtime) (hreads : Reads c q) (hsimple : (simples items).Nodup)
    (hheard : Heard c items (filled (argsOf items)) heard) :
    applyLine link (.client uid service) d q items = heard.foldl applyItem q := by
  have hfind : ∀ id ∈ c.members.map Membership.id, link.findChasing id = some id := by
    intro id hid
    obtain ⟨member, hmember, rfl⟩ := List.mem_map.mp hid
    exact hknown member hmember
  unfold applyLine tmodeChannel
  rw [strtol_formatTime d.creationtime hpos hlt, htime, if_neg (lt_irrefl _)]
  exact foldl_lettersOf link uid service c items _ heard .query
    (.add, ⟨q, filled (argsOf items), [], 0, ∅⟩) hheard (by simp) hreads.ids hreads.nodup hfind rfl
    hsimple (by simp)

theorem applyLines_heard (link : Link) (uid : CStr) (service : Bool) (c d q : Channel)
    (lines hs : List (List Item)) (hknown : ∀ member ∈ c.members, link.findChasing member.id = some member.id)
    (hpos : 0 ≤ d.creationtime) (hlt : d.creationtime < 2 ^ 63)
    (htime : q.creationtime = d.creationtime) (hreads : Reads c q)
    (hsimple : (simples lines.flatten).Nodup) (hheard : HeardLines c lines hs) :
    lines.foldl (applyLine link (.client uid service) d) q = hs.flatten.foldl applyItem q := by
  induction hheard generalizing q with
  | nil => rfl
  | @cons items heard lines hs hfirst _ ih =>
    unfold simples at hsimple
    rw [List.flatten_cons, List.filterMap_append, List.nodup_append] at hsimple
    rw [List.foldl_cons, applyLine_heard link uid service c d q items heard hknown hpos hlt htime
      hreads hsimple.1 hfirst, List.flatten_cons, List.foldl_append]
    apply ih _ _ (reads_foldl c q heard hreads) hsimple.2.1
    rw [foldl_applyItem_creationtime]
    exact htime

/-- A negative TS is printed as a number that is out of range. -/
theorem applyLines_young (link : Link) (source : Source) (d q : Channel) (lines : List (List Item))
    (hneg : d.creationtime < 0) (hge : -2 ^ 63 ≤ d.creationtime)
    (htime : q.creationtime = d.creationtime) : lines.foldl (applyLine link source d) q = q := by
  have hcases := strtol_formatTime_cases d.creationtime hge (by omega)
  induction lines with
  | nil => rfl
  | cons items lines ih =>
    have hdropped : applyLine link source d q items = q := if_pos (by omega)
    rw [List.foldl_cons, hdropped, ih]

theorem heardLines_printed (c : Channel) (lines : List (List Item))
    (hids : ∀ member ∈ c.members, ValidId member.id)
    (hprinted : ∀ item ∈ lines.flatten, Printed c item) : HeardLines c lines lines := by
  induction lines with
  | nil => exact List.Forall₂.nil
  | cons items lines ih =>
    rw [List.flatten_cons] at hprinted
    exact List.Forall₂.cons
      (heard_printed c items (fun i hi => hprinted i (List.mem_append_left _ hi)) hids)
      (ih (fun i hi => hprinted i (List.mem_append_right _ hi)))

/-- Up to a change of the key in between, the lines are heard as these changes. -/
def HeardAs (c : Channel) (lines : List (List Item)) (front back : List Item) : Prop :=
  ∃ hs now, HeardLines c lines hs ∧ now.filter (Other .key) = [] ∧
    hs.flatten = front ++ (now ++ back)

section Keyless

variable (c : Channel) (lines : List (List Item)) (before between behind : List Item)
  (hids : ∀ member ∈ c.members, ValidId member.id) (hbefore : ∀ item ∈ before, Printed c item)
  (hafter : ∀ item ∈ between ++ behind, Printed c item ∧ item.arg = none)

include hafter in
theorem noArgs (items : List Item) (h : ∀ item ∈ items, item ∈ between ++ behind) :
    (∀ item ∈ items, Printed c item) ∧ argsOf items = [] :=
  ⟨fun i hi => (hafter i (h i hi)).1, List.filterMap_eq_nil_iff.mpr (fun i hi => (hafter i (h i hi)).2)⟩

include hids hbefore hafter

theorem heardLines_apart (items rest : List Item) (hbetween : between = items ++ rest)
    (hlines : lines.flatten = rest ++ keyGone :: behind) :
    HeardLines c ((before ++ keyless :: items) :: lines) ((before ++ items) :: lines) := by
  obtain ⟨hprinted, hargs⟩ := noArgs c between behind hafter items (fun i hi => by simp [hbetween, hi])
  have hrest := (noArgs c between behind hafter rest (fun i hi => by simp [hbetween, hi])).1
  have hbehind := (noArgs c between behind hafter behind (fun i hi => by simp [hi])).1
  apply List.Forall₂.cons _ (heardLines_printed c lines hids _)
  · apply heard_keyless c before items items hbefore hprinted hids
    have hitems := heard_append c items [] [] [] hprinted Heard.nil
    rw [hargs, List.append_nil, List.append_nil] at hitems
    rw [hargs]
    exact Heard.cons keyless [] [] [] _ _ Hears.keyNone hitems
  · intro i hi
    rw [hlines] at hi
    rcases List.mem_append.mp hi with hi | hi
    · exact hrest i hi
    rcases List.mem_cons.mp hi with rfl | hi
    · exact Printed.keyDel
    · exact hbehind i hi

/-- The +k takes the argument of the -k, which does without. -/
theorem heardLines_together (items : List Item) (hbehind : behind = items ++ lines.flatten) :
    HeardLines c ((before ++ keyless :: (between ++ keyGone :: items)) :: lines)
      ((before ++ ⟨'k', some ['*'], .add⟩ :: (between ++ keyGone :: items)) :: lines) := by
  obtain ⟨hprinted, hargs⟩ := noArgs c between behind hafter between (fun i hi => by simp [hi])
  obtain ⟨hitems, hargs'⟩ := noArgs c between behind hafter items (fun i hi => by simp [hbehind, hi])
  have hlines := (noArgs c between behind hafter lines.flatten (fun i hi => by simp [hbehind, hi])).1
  refine List.Forall₂.cons ?_ (heardLines_printed c lines hids hlines)
  apply heard_keyless c before _ _ hbefore _ hids
  · have htail := heard_append c items [] [] [] hitems Heard.nil
    rw [hargs', List.append_nil, List.append_nil] at htail
    have hbetween := heard_append c between _ _ _ hprinted
      (Heard.cons keyGone [] [] [keyGone] _ _ Hears.delNone htail)
    rw [hargs, List.append_nil] at hbetween
    have hall : argsOf (between ++ keyGone :: items) = [['*']] := by
      rw [argsOf_append, hargs, argsOf_cons, hargs']
      rfl
    rw [hall]
    exact Heard.cons keyless _ [] _ _ _ (Hears.keyNext []) hbetween
  · intro i hi
    rcases List.mem_append.mp hi with hi | hi
    · exact hprinted i hi
    rcases List.mem_cons.mp hi with rfl | hi
    · exact Printed.keyDel
    · exact hitems i hi

/-- No other argument is behind the +k than the one of the -k. -/
theorem heardLines_keyless
    (hflat : lines.flatten = before ++ keyless :: (between ++ keyGone :: behind)) :
    HeardAs c lines before (between ++ keyGone :: behind) := by
  induction lines generalizing before with
  | nil => simp at hflat
  | cons items lines ih =>
    have hlater : ∀ later, before = items ++ later →
        lines.flatten = later ++ keyless :: (between ++ keyGone :: behind) →
        HeardAs c (items :: lines) before (between ++ keyGone :: behind) := by
      rintro later rfl hlines
      obtain ⟨hs, now, hheard, hnow, hfinal⟩ :=
        ih later (fun i hi => hbefore i (List.mem_append_right _ hi)) hlines
      have hfirst := heard_printed c items (fun i hi => hbefore i (List.mem_append_left _ hi)) hids
      exact ⟨items :: hs, now, List.Forall₂.cons hfirst hheard, hnow, by
        rw [List.flatten_cons, hfinal, List.append_assoc]⟩
    have hapart : ∀ own rest, items = before ++ keyless :: own → between = own ++ rest →
        lines.flatten = rest ++ keyGone :: behind →
        HeardAs c (items :: lines) before (between ++ keyGone :: behind) := by
      rintro own rest rfl hbetween hlines
      exact ⟨_, [], heardLines_apart c lines before between behind hids hbefore hafter own rest hbetween
        hlines, rfl, by simp [hlines, hbetween]⟩
    rw [List.flatten_cons] at hflat
    rcases List.append_eq_append_iff.mp hflat with ⟨later, hbef, hlines⟩ | ⟨own, hitems, hown⟩
    · exact hlater later hbef hlines
    rcases List.cons_eq_append_iff.mp hown with ⟨rfl, hlines⟩ | ⟨own, rfl, hown⟩
    · exact hlater [] (by rw [hitems, List.append_nil, List.append_nil]) hlines
    rcases List.append_eq_append_iff.mp (List.cons.inj hown).2 with ⟨rest, rfl, hrest⟩ | ⟨rest, hbetween, hlines⟩
    · rcases List.cons_eq_append_iff.mp hrest with ⟨rfl, hlines⟩ | ⟨items', rfl, hbehind⟩
      · exact hapart between [] (by rw [hitems, List.append_nil]) (by rw [List.append_nil]) hlines
      · exact ⟨_, [⟨'k', some ['*'], .add⟩], hitems ▸ heardLines_together c lines before between behind
          hids hbefore hafter items' hbehind, rfl, by simp [hbehind]⟩
    · exact hapart own rest hitems hbetween hlines

end Keyless

/-- The channel on the other server once it has read the lines of the command. -/
def peerAfter (link : Link) (uid : CStr) (source : Setter) (c : Channel) (modes : CStr)
    (params : List CStr) (t : Table) : Option Channel :=
  hashFindChannel (((sendModeChangesServer uid (setChannelMode source c modes params)).map
    sendFormat).foldl (receive link) t) c.name

theorem applyItem_name (c : Channel) (item : Item) : (applyItem c item).name = c.name := by
  unfold applyItem
  split
  · next kind _ =>
    cases kind with
    | mask type => rw [applyKind_mask, name_setList]
    | status status => rfl
    | limit => rfl
    | key => rfl
    | simple d => rfl
  · rfl

theorem foldl_applyItem_name (items : List Item) (c : Channel) :
    (items.foldl applyItem c).name = c.name := by
  induction items generalizing c with
  | nil => rfl
  | cons item items ih => rw [List.foldl_cons, ih, applyItem_name]

/-- The record of a key that is removed again by the only change with an argument behind it. -/
theorem itemsOf_removed (c d : Channel) (changes : List ModeChange) (hkey : d.mode.key = [])
    (hrecorded : ∀ ch ∈ changes, Recorded c ch) (hbehind : behindKey changes = some [keyDel]) :
    ∃ before between behind, itemsOf d changes = before ++ keyless :: (between ++ keyGone :: behind) ∧
      (∀ item ∈ before, Printed c item) ∧
      ∀ item ∈ between ++ behind, Printed c item ∧ item.arg = none := by
  obtain ⟨before, after, rfl, hbefore, hafter⟩ := behindKey_split changes _ hbehind
  obtain ⟨between, behind, rfl, hbetween, _, hrest⟩ := List.filter_eq_cons_iff.mp hafter
  have hnone : ∀ ch ∈ between ++ behind, ¬ hasArg ch = true := by
    intro ch hch
    rcases List.mem_append.mp hch with hch | hch
    · exact hbetween ch hch
    · exact List.filter_eq_nil_iff.mp hrest ch hch
  have hprinted : ∀ l, (∀ ch ∈ l, ch ∈ before ++ keyAdd :: (between ++ keyDel :: behind)) →
      keyAdd ∉ l → ∀ item ∈ itemsOf d l, Printed c item := by
    intro l hl hnot item hitem
    obtain ⟨ch, hch, heq⟩ := List.mem_filterMap.mp hitem
    apply printed_of_recorded c d ch item (hrecorded ch (hl ch hch)) _ heq
    rintro rfl
    exact absurd hch hnot
  refine ⟨itemsOf d before, itemsOf d between, itemsOf d behind, ?_, ?_, ?_⟩
  · have hadd : itemOf d keyAdd = some keyless := by
      show some (⟨'k', some d.mode.key, .add⟩ : Item) = _
      rw [hkey]
      rfl
    unfold itemsOf
    rw [List.filterMap_append, List.filterMap_cons_some hadd, List.filterMap_append]
    rfl
  · exact hprinted before (fun ch hch => List.mem_append_left _ hch) hbefore
  · have heq : itemsOf d between ++ itemsOf d behind = itemsOf d (between ++ behind) :=
      List.filterMap_append.symm
    rw [heq]
    intro item hitem
    refine ⟨hprinted (between ++ behind) ?_ (fun h => hnone _ h rfl) item hitem, ?_⟩
    · intro ch hch
      simp only [List.mem_append, List.mem_cons] at hch ⊢
      tauto
    · obtain ⟨ch, hch, hof⟩ := List.mem_filterMap.mp hitem
      obtain ⟨letter, hletter, rfl⟩ := Option.map_eq_some_iff.mp hof
      have harg := hnone ch hch
      rw [hasArg, hletter, Option.isSome_some, Bool.true_and, decide_eq_true_iff, not_not] at harg
      dsimp only
      rw [harg]
      rfl

theorem foldl_applyItem_key (c : Channel) (items : List Item)
    (h : ∀ item ∈ items, Printed c item ∧ item.arg = none) (q : Channel) :
    (items.foldl applyItem q).mode.key = q.mode.key := by
  induction items generalizing q with
  | nil => rfl
  | cons item items ih =>
    obtain ⟨hprinted, harg⟩ := h item List.mem_cons_self
    rw [List.foldl_cons, ih (fun i hi => h i (List.mem_cons_of_mem item hi))]
    cases hprinted with
    | mask | status | limitAdd | keyAdd | keyDel => simp at harg
    | limitDel => rfl
    | simple letter d dir hc hd hdir =>
      rw [applyItem_of_kind _ _ _ _ _ hc]
      rfl

/-- A key that is set in between and removed again leaves nothing behind. -/
theorem foldl_removed (c q : Channel) (before between behind now : List Item)
    (hafter : ∀ item ∈ between ++ behind, Printed c item ∧ item.arg = none)
    (hnow : now.filter (Other .key) = []) :
    (before ++ (now ++ (between ++ keyGone :: behind))).foldl applyItem q =
      (before ++ keyless :: (between ++ keyGone :: behind)).foldl applyItem q := by
  have hnil : ∀ front, ((front ++ keyGone :: behind).foldl applyItem q).mode.key = [] := by
    intro front
    rw [List.foldl_append, List.foldl_cons,
      foldl_applyItem_key c behind (fun i hi => hafter i (List.mem_append_right _ hi))]
    rfl
  have hset : ∀ e : Channel, e.mode.key = [] → setKey e [] = e := by
    intro e he
    unfold setKey
    rw [← he]
  have hfilter : (before ++ (now ++ (between ++ keyGone :: behind))).filter (Other .key) =
      (before ++ keyless :: (between ++ keyGone :: behind)).filter (Other .key) := by
    have hkeyless : Other .key keyless = false := by decide
    simp [List.filter_append, List.filter_cons, hnow, hkeyless]
  have herase := erase_replay _ .key erases_key q _ _ hfilter
  have hleft := hnil (before ++ (now ++ between))
  have hright := hnil (before ++ keyless :: between)
  simp only [List.append_assoc, List.cons_append] at hleft hright
  rwa [hset _ hleft, hset _ hright] at herase

/-- What the other server makes of the lines of a command, at its copy of the channel. -/
theorem applyLines_record (link : Link) (uid : CStr) (service : Bool) (c p : Channel) (s : ModeState)
    (fate : KeyFate) (lines : List (List Item))
    (hknown : ∀ member ∈ c.members, link.findChasing member.id = some member.id)
    (hids : ∀ member ∈ c.members, ValidId member.id) (hfaithful : Faithful c s)
    (hstate : KeyState s fate) (hfate : fate ≠ .shifted) (hpos : 0 ≤ s.chptr.creationtime)
    (hlt : s.chptr.creationtime < 2 ^ 63) (htime : p.creationtime = s.chptr.creationtime)
    (hreads : Reads c p) (hlines : lines.flatten = itemsOf s.chptr s.changes) :
    lines.foldl (applyLine link (.client uid service) s.chptr) p =
      (itemsOf s.chptr s.changes).foldl applyItem p := by
  have happly := fun hs => applyLines_heard link uid service c s.chptr p lines hs hknown hpos hlt htime
    hreads (by rw [hlines]; exact hfaithful.nodup)
  by_cases hremoved : fate = .removed
  · rw [hremoved] at hstate
    obtain ⟨before, between, behind, hitems, hbefore, hafter⟩ :=
      itemsOf_removed c s.chptr s.changes hstate.2 hfaithful.recorded hstate.1
    rw [hitems] at hlines ⊢
    obtain ⟨hs, now, hheard, hnow, hflat⟩ :=
      heardLines_keyless c lines before between behind hids hbefore hafter hlines
    rw [happly hs hheard, hflat]
    exact foldl_removed c p before between behind now hafter hnow
  · rw [← hlines]
    refine happly lines (heardLines_printed c lines hids ?_)
    rw [hlines]
    intro item hitem
    obtain ⟨ch, hch, heq⟩ := List.mem_filterMap.mp hitem
    apply printed_of_recorded c s.chptr ch item (hfaithful.recorded ch hch) _ heq
    rintro rfl
    cases fate with
    | untouched => exact absurd hch ((behindKey_eq_none _).mp hstate)
    | set | followed => exact hstate.2
    | removed => exact absurd rfl hremoved
    | shifted => exact absurd rfl hfate

/-- A copy of the channel on another server is the same again after the command. -/
theorem mode_propagates (home t : Table) (f uid modes : CStr) (params : List CStr)
    (source : Setter) (link : Link) (c p : Channel) (hreach : Reachable home)
    (hc : home f = some c) (hsource : LocalClient source) (hpeer : PeerKnows link uid c)
    (hp : hashFindChannel t c.name = some p) (hsame : SameCopy c p)
    (hparams : params.length ≤ MAXPARA) (htime : -2 ^ 63 ≤ c.creationtime)
    (hkey : 0 ≤ c.creationtime → keyFate source c modes params ≠ .shifted) :
    (∃ q, peerAfter link uid source c modes params t = some q ∧
      SameCopy (setChannelMode source c modes params).chptr q) ↔
      0 ≤ c.creationtime ∨ SameCopy (setChannelMode source c modes params).chptr c := by
  have hwf := (reachable_live home hreach f c hc).wellFormed
  have hfaithful := setChannelMode_faithful source hsource c modes params
  have hcount := setChannelMode_changes source hsource c modes params
  have hstate := setChannelMode_keyState source hsource c modes params
  obtain ⟨service, hservice⟩ := hpeer.source
  unfold peerAfter
  generalize setChannelMode source c modes params = s at *
  have hname : s.chptr.name = c.name := by
    rw [← hfaithful.replay, foldl_applyItem_name]
  have hcreation : s.chptr.creationtime = c.creationtime := by
    rw [← hfaithful.replay, foldl_applyItem_creationtime]
  have hsent : ∀ item ∈ itemsOf s.chptr s.changes, Sent c item := by
    intro item hitem
    obtain ⟨ch, hch, heq⟩ := List.mem_filterMap.mp hitem
    apply sent_of_recorded c s.chptr ch item (hfaithful.recorded ch hch) _ heq
    rintro rfl
    cases hfate : keyFate source c modes params with
    | untouched =>
      rw [hfate] at hstate
      exact absurd hch ((behindKey_eq_none _).mp hstate)
    | set | followed =>
      rw [hfate] at hstate
      exact Or.inl hstate.2
    | removed | shifted =>
      rw [hfate] at hstate
      exact Or.inr hstate.2
  have hlength : (itemsOf s.chptr s.changes).length ≤ 45 := by
    have hle := List.length_filterMap_le (itemOf s.chptr) s.changes
    have hmax : MAXPARA = 15 := rfl
    unfold itemsOf
    omega
  have hreads : Reads c p := by
    have hids := hsame.members.map Membership.id
    exact ⟨fun id hid => hids.mem_iff.mp hid, hids.nodup_iff.mp hwf.members_nodup⟩
  obtain ⟨lines, hlines, hflatten, hloop⟩ := modeChangesLoop_lines uid c s.chptr s.changes []
    hwf.members_id hsent hlength (by decide) (by decide)
  have hreceive := receive_lines link uid service c s.chptr lines t p hpeer.validUid hservice
    (by rw [hname]; exact hwf.name) hwf.members_id hlines (by rw [hname]; exact hp)
  have hsend : sendModeChangesServer uid s = lines.map (fun line => tmodeText uid s.chptr line.1 line.2) :=
    hloop
  rw [hsend, ← hname, hreceive]
  have hmatch : p.creationtime = s.chptr.creationtime := by rw [hcreation, hsame.creationtime]
  rcases lt_or_ge c.creationtime 0 with hneg | hpos
  · rw [applyLines_young link _ s.chptr p _ (by rw [hcreation]; exact hneg) (by rw [hcreation]; exact htime)
      hmatch]
    constructor
    · rintro ⟨q, hq, hcopy⟩
      obtain rfl := Option.some.inj hq
      exact Or.inr ((sameCopy_iff _ c p hsame).mpr hcopy)
    · rintro (hpos | hcopy)
      · omega
      · exact ⟨p, rfl, (sameCopy_iff _ c p hsame).mp hcopy⟩
  · rw [applyLines_record link uid service c p s _ _ hpeer.known hwf.members_id hfaithful hstate
      (hkey hpos) (by rw [hcreation]; exact hpos) (by rw [hcreation]; exact hwf.time_lt) hmatch hreads
      hflatten]
    have hfold := sameCopy_foldl (itemsOf s.chptr s.changes) c p hsame hwf.lists_distinct
    rw [hfaithful.replay] at hfold
    exact ⟨fun _ => Or.inl hpos, fun _ => ⟨_, rfl, hfold⟩⟩

def sampleSetter : Setter where
  isServer := false
  myConnect := true
  service := false
  oper := false
  opme := false
  alev := .chanop
  maxBans := 25
  findChasing := fun id => if id = sampleId then some id else none

def peerLink : Link where
  ignoreBogusTs := false
  currentTime := 1000000000
  source := fun s => if s = sampleId then some (.client s false) else none
  findChasing := fun s => if s = sampleId then some s else none
  behind := fun s => s == sampleId

def sampleTable : Table := setChannel (fun _ => none) "#c".toList (some (sampleChannel 5))

theorem sampleSetter_local : LocalClient sampleSetter := ⟨rfl, rfl, rfl⟩

theorem peerLink_knows : PeerKnows peerLink sampleId (sampleChannel 5) where
  validUid := sampleId_valid
  source := ⟨false, by decide⟩
  known := by
    intro member hmember
    obtain rfl := List.mem_singleton.mp hmember
    decide

theorem mode_propagates_sample :
    ∃ q, peerAfter peerLink sampleId sampleSetter (sampleChannel 5) "+k-k+kl-o".toList
        ["a".toList, "x".toList, "b".toList, "5".toList, sampleId] sampleTable = some q ∧
      SameCopy (setChannelMode sampleSetter (sampleChannel 5) "+k-k+kl-o".toList
        ["a".toList, "x".toList, "b".toList, "5".toList, sampleId]).chptr q :=
  (mode_propagates sampleTable sampleTable _ sampleId _ _ sampleSetter peerLink (sampleChannel 5)
    (sampleChannel 5) (sampleChannel_reachable 5 (by decide))
    (hashFindChannel_setChannel _ "#c".toList _) sampleSetter_local peerLink_knows
    (hashFindChannel_setChannel _ "#c".toList _) (sameCopy_refl _) (by decide) (by decide)
    (by decide)).mpr (Or.inl (by decide))

/-- The key is gone when the line is printed, so the reading server takes the argument of
the -k for the key, the limit for the argument of the -k, and sets no limit. -/
theorem mode_misread :
    Reachable sampleTable ∧ LocalClient sampleSetter ∧
      PeerKnows peerLink sampleId (sampleChannel 5) ∧
      hashFindChannel sampleTable (sampleChannel 5).name = some (sampleChannel 5) ∧
      (setChannelMode sampleSetter (sampleChannel 5) "+k-k+l".toList
        ["foo".toList, "x".toList, "5".toList]).chptr.mode.limit = 5 ∧
      (peerAfter peerLink sampleId sampleSetter (sampleChannel 5) "+k-k+l".toList
        ["foo".toList, "x".toList, "5".toList] sampleTable).map (fun q => q.mode.limit) = some 0 :=
  ⟨sampleChannel_reachable 5 (by decide), sampleSetter_local, peerLink_knows,
    hashFindChannel_setChannel _ "#c".toList _, by decide, by decide⟩

end IrcdHybrid.ModePropagation
