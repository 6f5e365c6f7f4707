import IrcdHybrid.ChannelView
import IrcdHybrid.SjoinLines

/-!
A member of this server who follows a channel by its lines, while a SJOIN comes
in. What the timestamps take away and what they bring is shown as it is done.
The letters in front of the names are shown for everybody in the list, and are
given only to those who were not on the channel yet.
-/

namespace IrcdHybrid.SjoinView

open CString Numeral BanMask Channels Wire Burst Sjoin ChannelMode ChannelTable BurstLines
  ModeReplay TmodeLines SjoinHeader SjoinRelay ChannelLines SjoinLines ChannelView

/-- What a client's fields can hold. -/
structure ValidClient (c : Client) : Prop where
  nick : Word c.name
  nick_bang : '!' ∉ c.name
  nick_len : c.name.length ≤ NICKLEN
  username_space : ' ' ∉ c.username
  username_len : c.username.length ≤ USERLEN
  host_space : ' ' ∉ c.host
  host_len : c.host.length ≤ HOSTLEN

/-- What holds of the names on the network. -/
structure ValidNet (net : Net) (clients : Clients) : Prop where
  me_space : ' ' ∉ net.me
  me_len : net.me.length ≤ HOSTLEN
  server_space : ∀ id, ' ' ∉ (net.servers id).name
  server_len : ∀ id, (net.servers id).name.length ≤ HOSTLEN
  client : ∀ id c, clients id = some c → ValidClient c
  nicks : ∀ id id' c c', clients id = some c → clients id' = some c' → c.name = c'.name → id = id'

section View

variable (net : Net) (clients : Clients) (viewer : CStr)

/-- The picture of the viewer after what he was sent. -/
def follow (sent : List Sent) (v : Channel) : Channel := (linesTo viewer sent).foldl replay v

theorem follow_append (a b : List Sent) (v : Channel) :
    follow viewer (a ++ b) v = follow viewer b (follow viewer a v) := by
  unfold follow
  rw [linesTo_append, List.foldl_append]

theorem linesTo_map (ids : List CStr) (line : Line) (hnodup : ids.Nodup) :
    linesTo viewer (ids.map (fun id => .member id line)) = if viewer ∈ ids then [line] else [] := by
  induction ids with
  | nil => rfl
  | cons id ids ih =>
    obtain ⟨hnew, hrest⟩ := List.nodup_cons.mp hnodup
    rw [List.map_cons, linesTo_member, ih hrest]
    by_cases hid : id = viewer
    · subst hid
      simp [hnew]
    · have hid' : viewer ≠ id := fun h => hid h.symm
      simp [hid, hid']

/-- A viewer who is on the channel, on this server. -/
def Watches (chptr : Channel) : Prop :=
  viewer ∈ chptr.members.map Membership.id ∧ ∃ c caps, clients viewer = some c ∧ c.connection = some caps

theorem mem_localMembers (fits : Caps → Bool) (chptr : Channel) (c : Client) (caps : Caps)
    (hmem : viewer ∈ chptr.members.map Membership.id) (hc : clients viewer = some c)
    (hcaps : c.connection = some caps) :
    viewer ∈ localMembers clients fits chptr ↔ fits caps = true := by
  unfold localMembers
  rw [List.mem_filter]
  simp [hmem, hc, hcaps]

theorem localMembers_nodup (fits : Caps → Bool) (chptr : Channel)
    (h : (chptr.members.map Membership.id).Nodup) : (localMembers clients fits chptr).Nodup :=
  h.filter _

theorem follow_sendto (chptr : Channel) (line : Line) (v : Channel)
    (hnodup : (chptr.members.map Membership.id).Nodup) (hwatch : Watches clients viewer chptr) :
    follow viewer (sendtoChannelLocal clients chptr line) v = replay v line := by
  obtain ⟨hmem, c, caps, hc, hcaps⟩ := hwatch
  unfold follow sendtoChannelLocal
  rw [linesTo_map viewer _ line (localMembers_nodup clients _ chptr hnodup),
    if_pos ((mem_localMembers clients viewer _ chptr c caps hmem hc hcaps).mpr rfl)]
  rfl

theorem follow_flatMap {α : Type*} (chptr : Channel) (lines : List α) (f : α → Line) (v : Channel)
    (hnodup : (chptr.members.map Membership.id).Nodup) (hwatch : Watches clients viewer chptr) :
    follow viewer (lines.flatMap (fun a => sendtoChannelLocal clients chptr (f a))) v =
      lines.foldl (fun v a => replay v (f a)) v := by
  induction lines generalizing v with
  | nil => rfl
  | cons a lines ih =>
    rw [List.flatMap_cons, follow_append, follow_sendto clients viewer chptr _ v hnodup hwatch, ih]
    rfl

/-- The sender and the command of a line are never cut off. -/
theorem parse_line (l : Line) (horigin : ' ' ∉ l.origin) (hcommand : Word l.command)
    (hlen : l.origin.length + l.command.length ≤ 500) :
    ∃ ps, parse (sendFormat l.text) = some ⟨some l.origin, l.command, ps⟩ := by
  have htext : ∃ tail, Broken tail ∧ sendFormat l.text = lineText l.origin l.command [] tail := by
    refine ⟨(' ' :: l.rest).take (510 - (l.origin.length + l.command.length + 2)), ?_, ?_⟩
    · cases h : (' ' :: l.rest).take (510 - (l.origin.length + l.command.length + 2)) with
      | nil => exact Or.inl rfl
      | cons c t =>
        have hhead := congrArg List.head? h
        rw [List.head?_take] at hhead
        split at hhead
        · simp at hhead
        · obtain rfl : ' ' = c := Option.some.inj hhead
          exact Or.inr ⟨t, rfl⟩
    · have hsplit : l.text = (':' :: (l.origin ++ ' ' :: l.command)) ++ ' ' :: l.rest := by
        simp [Line.text]
      have hfront : (':' :: (l.origin ++ ' ' :: l.command)).length =
          l.origin.length + l.command.length + 2 := by
        simp only [List.length_cons, List.length_append]
        omega
      unfold sendFormat lineText
      have hsize : IRCD_BUFSIZE - 2 = 510 := rfl
      rw [hsplit, hsize, List.take_append, List.take_of_length_le (by omega), hfront]
      simp
  obtain ⟨tail, hbroken, heq⟩ := htext
  refine ⟨splitParams MAXPARA tail, ?_⟩
  rw [heq, parse_lineText l.origin l.command [] tail horigin hcommand (by simp) (by decide) hbroken]
  rfl

theorem replay_other (v : Channel) (l : Line) (horigin : ' ' ∉ l.origin) (hcommand : Word l.command)
    (hlen : l.origin.length + l.command.length ≤ 500) (hmode : l.command ≠ "MODE".toList)
    (hjoin : l.command ≠ "JOIN".toList) : replay v l = v := by
  obtain ⟨ps, hparse⟩ := parse_line l horigin hcommand hlen
  unfold replay
  rw [hparse]
  simp only [if_neg hmode, if_neg hjoin]

theorem replay_join (v : Channel) (origin rest : CStr) (horigin : ' ' ∉ origin)
    (hlen : origin.length ≤ 400) :
    replay v ⟨origin, "JOIN".toList, rest⟩ =
      addUserToChannel v (origin.takeWhile (fun c => c != '!')) noFlags := by
  have hword : Word "JOIN".toList := ⟨by decide, by decide, by decide⟩
  obtain ⟨ps, hparse⟩ := parse_line ⟨origin, "JOIN".toList, rest⟩ horigin hword (by
      have hjoin : "JOIN".toList.length = 4 := rfl
      simp only [hjoin]
      omega)
  have hne : "JOIN".toList ≠ "MODE".toList := by decide
  unfold replay
  rw [hparse]
  simp only [if_neg hne, if_true, Option.getD_some]

theorem prefixText_space (c : Client) (h : ValidClient c) : ' ' ∉ c.prefixText := by
  unfold Client.prefixText
  simp [h.nick.no_space, h.username_space, h.host_space]

theorem prefixText_length (c : Client) (h : ValidClient c) : c.prefixText.length ≤ 130 := by
  have hnick := h.nick_len
  have huser := h.username_len
  have hhost := h.host_len
  simp only [NICKLEN, USERLEN, HOSTLEN] at hnick huser hhost
  unfold Client.prefixText
  simp only [List.length_append, List.length_cons]
  omega

theorem prefixText_nick (c : Client) (h : ValidClient c) :
    c.prefixText.takeWhile (fun c => c != '!') = c.name := by
  unfold Client.prefixText
  rw [List.append_assoc]
  rw [List.takeWhile_append_of_pos]
  · simp
  · intro d hd
    have hne : d ≠ '!' := fun hbang => h.nick_bang (hbang ▸ hd)
    simp [hne]

/-- A channel that the viewer is on, with members who are clients. -/
structure Ready (chptr : Channel) : Prop where
  name_word : Word chptr.name
  name_len : chptr.name.length ≤ CHANNELLEN
  nodup : (chptr.members.map Membership.id).Nodup
  known : ∀ id ∈ chptr.members.map Membership.id, ∃ c, clients id = some c
  watch : Watches clients viewer chptr

theorem Ready.congr (a b : Channel) (h : Ready clients viewer a) (hname : b.name = a.name)
    (hids : b.members.map Membership.id = a.members.map Membership.id) :
    Ready clients viewer b := by
  obtain ⟨hword, hlen, hnodup, hknown, hmem, hclient⟩ := h
  exact ⟨hname ▸ hword, hname ▸ hlen, hids ▸ hnodup, hids ▸ hknown, hids ▸ hmem, hclient⟩

theorem shownName_space (hnet : ValidNet net clients) (id : CStr) :
    ' ' ∉ shownName net clients (.server id) := by
  unfold shownName
  split
  · exact hnet.me_space
  · exact hnet.server_space id

theorem shownName_length (hnet : ValidNet net clients) (id : CStr) :
    (shownName net clients (.server id)).length ≤ HOSTLEN := by
  unfold shownName
  split
  · exact hnet.me_len
  · exact hnet.server_len id

theorem checkChannelName_word (name : CStr) (h : checkChannelName name = true) :
    Word name ∧ name.length ≤ CHANNELLEN := by
  obtain ⟨c, p, rfl⟩ : ∃ c p, name = c :: p := by
    cases name with
    | nil => exact absurd h (by decide)
    | cons c p => exact ⟨c, p, rfl⟩
  simp only [checkChannelName, Bool.and_eq_true, beq_iff_eq, decide_eq_true_eq] at h
  obtain ⟨⟨rfl, hall⟩, hlen⟩ := h
  refine ⟨⟨by simp, ?_, by simp⟩, hlen⟩
  intro hspace
  rcases List.mem_cons.mp hspace with hbad | hbad
  · exact absurd hbad (by decide)
  · exact absurd (List.all_eq_true.mp hall ' ' hbad) (by decide)

/-- The text of a line without its parameters, and what they add. -/
theorem modeLine_length (origin name : CStr) (sign : Char) (changes : List (Char × CStr)) :
    (modeLine origin name sign changes).text.length =
      origin.length + name.length + 9 + (changes.map (fun ch => ch.2.length + 2)).sum := by
  have hmode : "MODE".toList.length = 4 := rfl
  have hsum : (changes.flatMap (fun ch => ' ' :: ch.2)).length + changes.length =
      (changes.map (fun ch => ch.2.length + 2)).sum := by
    induction changes with
    | nil => rfl
    | cons ch changes ih =>
      simp only [List.flatMap_cons, List.length_append, List.length_cons, List.map_cons,
        List.sum_cons]
      omega
  unfold modeLine Line.text
  simp only [List.length_append, List.length_cons, List.length_map, hmode]
  omega

theorem shown_itemsFor (dir : Dir) (changes : List (Char × CStr)) (hdir : dir ≠ .query)
    (h : ∀ ch ∈ changes, (∃ kind, kindOf ch.1 = some kind ∧ takesArg kind dir = true) ∧ Word ch.2) :
    ∀ item ∈ itemsFor dir changes, Shown item := by
  intro item hitem
  obtain ⟨ch, hch, rfl⟩ := List.mem_map.mp hitem
  obtain ⟨⟨kind, hkind, harg⟩, hword⟩ := h ch hch
  refine ⟨⟨kind, hkind, harg.symm⟩, hdir, ?_⟩
  intro arg heq
  rw [← Option.some.inj heq]
  exact hword

/-- A line with letters that all take a parameter is read as its changes. -/
theorem replay_modeLine (v : Channel) (origin name : CStr) (dir : Dir)
    (changes : List (Char × CStr)) (horigin : ' ' ∉ origin) (hname : Word name)
    (hne : changes ≠ []) (hdir : dir ≠ .query)
    (h : ∀ ch ∈ changes, (∃ kind, kindOf ch.1 = some kind ∧ takesArg kind dir = true) ∧ Word ch.2)
    (hcount : changes.length ≤ MAXMODEPARAMS)
    (hlen : (modeLine origin name (signOf dir) changes).text.length ≤ IRCD_BUFSIZE - 2) :
    replay v (modeLine origin name (signOf dir) changes) =
      (itemsFor dir changes).foldl applyItem v := by
  have hmax : MAXMODEPARAMS = 6 := rfl
  apply replay_items v _ origin name [] (itemsFor dir changes)
    (modeLine_text origin name dir changes hne hdir) horigin hname
  · intro hnil
    exact hne (List.map_eq_nil_iff.mp hnil)
  · exact shown_itemsFor dir changes hdir h
  · rw [argsOf_itemsFor, List.length_map]
    omega
  · simp
  · exact hlen

/-- Letters and parameters that fit in one line. -/
structure Fits (origin name : CStr) (dir : Dir) (changes : List (Char × CStr)) : Prop where
  ne_nil : changes ≠ []
  count : changes.length ≤ MAXMODEPARAMS
  read : ∀ ch ∈ changes, (∃ kind, kindOf ch.1 = some kind ∧ takesArg kind dir = true) ∧ Word ch.2
  len : (modeLine origin name (signOf dir) changes).text.length ≤ IRCD_BUFSIZE - 2

/-- Line after line the changes are carried out in their order. -/
theorem replay_batches (v : Channel) (origin name : CStr) (dir : Dir)
    (batches : List (List (Char × CStr))) (horigin : ' ' ∉ origin) (hname : Word name)
    (hdir : dir ≠ .query) (h : ∀ b ∈ batches, Fits origin name dir b) :
    batches.foldl (fun v b => replay v (modeLine origin name (signOf dir) b)) v =
      (itemsFor dir batches.flatten).foldl applyItem v := by
  induction batches generalizing v with
  | nil => rfl
  | cons b batches ih =>
    have hb := h b (by simp)
    have hflatten : itemsFor dir (b :: batches).flatten =
        itemsFor dir b ++ itemsFor dir batches.flatten := by
      simp [itemsFor]
    rw [List.foldl_cons, hflatten, List.foldl_append, replay_modeLine v origin name dir b horigin
      hname hb.ne_nil hdir hb.read hb.count hb.len]
    exact ih _ (fun x hx => h x (by simp [hx]))

theorem fits_nicks (origin name : CStr) (dir : Dir) (changes : List (Char × CStr))
    (horigin : origin.length ≤ HOSTLEN) (hname : name.length ≤ CHANNELLEN) (hne : changes ≠ [])
    (hcount : changes.length ≤ MAXMODEPARAMS)
    (h : ∀ ch ∈ changes, (∃ status, kindOf ch.1 = some (.status status)) ∧ Word ch.2 ∧
      ch.2.length ≤ NICKLEN) : Fits origin name dir changes := by
  refine ⟨hne, hcount, ?_, ?_⟩
  · intro ch hch
    obtain ⟨⟨status, hstatus⟩, hword, -⟩ := h ch hch
    exact ⟨⟨.status status, hstatus, rfl⟩, hword⟩
  · have hsum : (changes.map (fun ch => ch.2.length + 2)).sum ≤ changes.length * 14 := by
      clear hne hcount
      induction changes with
      | nil => simp
      | cons ch changes ih =>
        have hch := (h ch (by simp)).2.2
        have hrest := ih (fun x hx => h x (by simp [hx]))
        simp only [NICKLEN] at hch
        simp only [List.map_cons, List.sum_cons, List.length_cons]
        omega
    have hmax : MAXMODEPARAMS = 6 := rfl
    have hsize : IRCD_BUFSIZE - 2 = 510 := rfl
    simp only [HOSTLEN, CHANNELLEN] at horigin hname
    rw [modeLine_length, hsize]
    omega

/-- Taking a status from everybody with one of these nicks. -/
def dropStatus (status : Status) (nicks : List CStr) (v : Channel) : Channel :=
  { v with members := v.members.map (fun member =>
      if member.id ∈ nicks then { member with flags := setFlag member.flags false status }
      else member) }

theorem applyItem_status (v : Channel) (flag : Char) (status : Status) (nick : CStr) (dir : Dir)
    (hflag : kindOf flag = some (.status status)) :
    applyItem v ⟨flag, some nick, dir⟩ = setMember v nick status (dir == .add) := by
  unfold applyItem
  simp only [hflag]
  rfl

theorem setFlag_again (f : Flags) (b : Bool) (status : Status) :
    setFlag (setFlag f b status) b status = setFlag f b status := by
  cases status <;> rfl

theorem foldl_dropStatus (flag : Char) (status : Status) (nicks : List CStr) (v : Channel)
    (hflag : kindOf flag = some (.status status)) :
    (itemsFor .del (nicks.map (fun n => (flag, n)))).foldl applyItem v =
      dropStatus status nicks v := by
  induction nicks generalizing v with
  | nil =>
    unfold dropStatus
    simp only [List.not_mem_nil, if_false, List.map_id']
    rfl
  | cons n nicks ih =>
    show (itemsFor .del (nicks.map (fun n => (flag, n)))).foldl applyItem
      (applyItem v ⟨flag, some n, .del⟩) = _
    rw [ih, applyItem_status v flag status n .del hflag]
    unfold dropStatus setMember
    simp only [List.map_map]
    congr 1
    apply List.map_congr_left
    intro member _
    show (if (if member.id = n then _ else member : Membership).id ∈ nicks then _ else _) = _
    by_cases hn : member.id = n
    · by_cases hmem : n ∈ nicks
      · simp [hn, hmem, setFlag_again, show (Dir.del == Dir.add) = false from rfl]
      · simp [hn, hmem, show (Dir.del == Dir.add) = false from rfl]
    · by_cases hmem : member.id ∈ nicks
      · simp [hn, hmem]
      · simp [hn, hmem]

theorem nick_of_some (id : CStr) (c : Client) (h : clients id = some c) :
    nick clients id = c.name := by
  unfold nick
  rw [h]
  rfl

theorem setFlag_absent (f : Flags) (status : Status) (h : hasFlag f status = false) :
    setFlag f false status = f := by
  cases status <;> cases f <;> simp_all [hasFlag, setFlag]

/-- The lines of `remove_a_mode` show what it did. -/
theorem follow_removeAMode (hnet : ValidNet net clients) (id : CStr) (status : Status) (flag : Char)
    (chptr : Channel) (hflag : kindOf flag = some (.status status))
    (hready : Ready clients viewer chptr) :
    follow viewer (removeAMode net clients (.server id) status flag chptr).2 (seen clients chptr) =
      seen clients (removeAMode net clients (.server id) status flag chptr).1 := by
  let nicks := (chptr.members.filter (fun member => hasFlag member.flags status)).map
    (fun member => nick clients member.id)
  have hvalid : ∀ n ∈ nicks, Word n ∧ n.length ≤ NICKLEN := by
    intro n hn
    obtain ⟨member, hmember, rfl⟩ := List.mem_map.mp hn
    obtain ⟨c, hc⟩ := hready.known member.id
      (List.mem_map_of_mem (List.mem_filter.mp hmember).1)
    rw [nick_of_some clients member.id c hc]
    exact ⟨(hnet.client _ c hc).nick, (hnet.client _ c hc).nick_len⟩
  have hfits : ∀ b ∈ (statusBatches nicks []).map (fun b => b.map (fun n => (flag, n))),
      Fits (shownName net clients (.server id)) chptr.name .del b := by
    intro b hb
    obtain ⟨b, hbatch, rfl⟩ := List.mem_map.mp hb
    obtain ⟨hne, hcount⟩ := statusBatches_length nicks [] (by decide) b hbatch
    apply fits_nicks _ _ _ _ (shownName_length net clients hnet id) hready.name_len (by simpa using hne)
      (by simpa using hcount)
    intro ch hch
    obtain ⟨n, hn, rfl⟩ := List.mem_map.mp hch
    have hmem : n ∈ nicks := by
      have hflatten := flatten_statusBatches nicks []
      rw [List.nil_append] at hflatten
      rw [← hflatten]
      exact List.mem_flatten.mpr ⟨b, hbatch, hn⟩
    exact ⟨⟨status, hflag⟩, hvalid n hmem⟩
  have hlines : follow viewer (removeAMode net clients (.server id) status flag chptr).2
      (seen clients chptr) = dropStatus status nicks (seen clients chptr) := by
    show follow viewer ((statusBatches nicks []).flatMap _) _ = _
    rw [follow_flatMap clients viewer chptr _ _ _ hready.nodup hready.watch,
      ← List.foldl_map (f := fun b : List CStr => b.map (fun n => (flag, n)))
        (g := fun v b => replay v (modeLine (shownName net clients (.server id)) chptr.name '-' b)),
      show '-' = signOf .del from rfl, replay_batches _ _ _ .del _
      (shownName_space net clients hnet id) hready.name_word (by decide) hfits, ← List.map_flatten,
      flatten_statusBatches, List.nil_append, foldl_dropStatus flag status nicks _ hflag]
  rw [hlines]
  -- Whoever has not the nick of one with the status has not got it.
  unfold dropStatus seen removeAMode
  simp only [List.map_map]
  congr 1
  apply List.map_congr_left
  intro member hmember
  show (if nick clients member.id ∈ nicks then _ else _ : Membership) =
    ⟨nick clients member.id, setFlag member.flags false status⟩
  by_cases hin : nick clients member.id ∈ nicks
  · rw [if_pos hin]
  · rw [if_neg hin]
    have habsent : hasFlag member.flags status = false := by
      by_contra hhas
      apply hin
      exact List.mem_map.mpr ⟨member, List.mem_filter.mpr ⟨hmember, by simpa using hhas⟩, rfl⟩
    rw [setFlag_absent member.flags status habsent]

theorem removeAMode_ids (source : Sender) (status : Status) (flag : Char) (chptr : Channel) :
    (removeAMode net clients source status flag chptr).1.members.map Membership.id =
      chptr.members.map Membership.id := by
  simp only [removeAMode, List.map_map]
  rfl

theorem Ready.removeAMode (source : Sender) (status : Status) (flag : Char) (chptr : Channel)
    (h : Ready clients viewer chptr) :
    Ready clients viewer (removeAMode net clients source status flag chptr).1 :=
  Ready.congr clients viewer chptr _ h rfl (removeAMode_ids net clients source status flag chptr)

theorem follow_removeOurModes (hnet : ValidNet net clients) (id : CStr) (chptr : Channel)
    (hready : Ready clients viewer chptr) :
    follow viewer (ChannelLines.removeOurModes net clients (.server id) chptr).2 (seen clients chptr) =
      seen clients (ChannelLines.removeOurModes net clients (.server id) chptr).1 := by
  have hops := hready.removeAMode net clients viewer (.server id) .chanop 'o' chptr
  have hhops := hops.removeAMode net clients viewer (.server id) .halfop 'h' _
  unfold ChannelLines.removeOurModes
  dsimp only
  rw [follow_append, follow_append,
    follow_removeAMode net clients viewer hnet id .chanop 'o' chptr rfl hready,
    follow_removeAMode net clients viewer hnet id .halfop 'h' _ rfl hops,
    follow_removeAMode net clients viewer hnet id .voice 'v' _ rfl hhops]

theorem banBatches_spec (m : ℕ) (hm : m ≤ 130) (list cur : List Nuh) (curLen : ℕ)
    (hcur : curLen = m + (cur.map plen).sum) (hcount : cur.length ≤ MAXMODEPARAMS)
    (hfit : curLen ≤ IRCD_BUFSIZE - 2) (hne : cur ≠ [] ∨ list ≠ [])
    (hplen : ∀ ban ∈ list, plen ban ≤ 130) :
    (banBatches m list cur curLen).flatten = cur ++ list ∧
      ∀ b ∈ banBatches m list cur curLen, b ≠ [] ∧ b.length ≤ MAXMODEPARAMS ∧
        m + (b.map plen).sum ≤ IRCD_BUFSIZE - 2 := by
  have hsize : IRCD_BUFSIZE - 2 = 510 := rfl
  have hmax : MAXMODEPARAMS = 6 := rfl
  induction list generalizing cur curLen with
  | nil =>
    have hcurne : cur ≠ [] := by simpa using hne
    unfold banBatches
    refine ⟨by simp, fun b hb => ?_⟩
    obtain rfl := List.mem_singleton.mp hb
    exact ⟨hcurne, hcount, hcur ▸ hfit⟩
  | cons ban list ih =>
    have hban := hplen ban (by simp)
    have hrest : ∀ x ∈ list, plen x ≤ 130 := fun x hx => hplen x (by simp [hx])
    have hpos : 4 ≤ plen ban := Nat.le_add_left 4 _
    unfold banBatches
    split
    · next hfull =>
      have hcurne : cur ≠ [] := by
        rintro rfl
        simp only [List.length_nil, List.map_nil, List.sum_nil] at hfull hcur
        omega
      obtain ⟨hflatten, hall⟩ := ih [ban] (m + plen ban) (by simp) (by simp [hmax]) (by omega)
        (Or.inl (by simp)) hrest
      refine ⟨by simp [hflatten], fun b hb => ?_⟩
      rcases List.mem_cons.mp hb with rfl | hb
      · exact ⟨hcurne, hcount, hcur ▸ hfit⟩
      · exact hall b hb
    · next hroom =>
      obtain ⟨hflatten, hall⟩ := ih (cur ++ [ban]) (curLen + plen ban)
        (by
          rw [hcur]
          simp only [List.map_append, List.sum_append, List.map_cons, List.map_nil, List.sum_cons,
            List.sum_nil]
          omega)
        (by
          simp only [List.length_append, List.length_cons, List.length_nil]
          omega)
        (by omega) (Or.inl (by simp)) hrest
      exact ⟨by simp [hflatten], hall⟩

theorem plen_le (ban : Nuh) (h : Valid ban) : plen ban ≤ 130 := by
  have hname := h.name_len
  have huser := h.user_len
  have hhost := h.host_len
  simp only [NICKLEN, USERLEN, HOSTLEN] at hname huser hhost
  unfold plen
  omega

theorem banLine_length (origin name : CStr) (c : Char) (bans : List Nuh) :
    (banLine origin name c bans).text.length = mlen origin name + (bans.map plen).sum := by
  have hsum : ((bans.map (fun ban => (c, nuhText ban))).map (fun ch => ch.2.length + 2)).sum =
      (bans.map plen).sum := by
    rw [List.map_map]
    congr 1
    apply List.map_congr_left
    intro ban _
    show (nuhText ban).length + 2 = plen ban
    rw [nuhText_length]
    unfold plen
    omega
  unfold banLine mlen
  rw [modeLine_length, hsum]
  have hmode : " MODE ".toList.length = 6 := rfl
  have hminus : " -".toList.length = 2 := rfl
  simp only [List.length_cons, List.length_append, hmode, hminus]
  omega

theorem applyItem_mask (v : Channel) (c : Char) (type : ListType) (n : Nuh) (dir : Dir)
    (hc : kindOf c = some (.mask type)) (hn : Valid n) (hdir : dir = .del) :
    applyItem v ⟨c, some (nuhText n), dir⟩ =
      v.setList ((v.list type).eraseP (fun ban => sameMask n ban)) type := by
  subst hdir
  unfold applyItem
  simp only [hc, Option.getD_some]
  rw [applyKind_mask, maskOf_nuhText n hn]
  rfl

theorem foldl_deleteMasks (c : Char) (type : ListType) (bans : List Nuh) (v : Channel)
    (hc : kindOf c = some (.mask type)) (hvalid : ∀ n ∈ bans, Valid n) (hlist : v.list type = bans) :
    (itemsFor .del (bans.map (fun ban => (c, nuhText ban)))).foldl applyItem v =
      v.setList [] type := by
  induction bans generalizing v with
  | nil =>
    show v = v.setList [] type
    rw [← hlist, setList_list]
  | cons n bans ih =>
    show (itemsFor .del (bans.map (fun ban => (c, nuhText ban)))).foldl applyItem
      (applyItem v ⟨c, some (nuhText n), .del⟩) = _
    rw [applyItem_mask v c type n .del hc (hvalid n (by simp)) rfl, hlist,
      List.eraseP_cons_of_pos (sameMask_self n),
      ih _ (fun x hx => hvalid x (by simp [hx])) (list_setList v bans type), setList_setList]

theorem seen_list (chptr : Channel) (type : ListType) :
    (seen clients chptr).list type = chptr.list type := by
  cases type <;> rfl

theorem seen_setList (chptr : Channel) (l : List Nuh) (type : ListType) :
    seen clients (chptr.setList l type) = (seen clients chptr).setList l type := by
  cases type <;> rfl

theorem mlen_le (origin name : CStr) (horigin : origin.length ≤ HOSTLEN)
    (hname : name.length ≤ CHANNELLEN) : mlen origin name ≤ 130 := by
  have hmode : " MODE ".toList.length = 6 := rfl
  have hminus : " -".toList.length = 2 := rfl
  simp only [HOSTLEN, CHANNELLEN] at horigin hname
  unfold mlen
  simp only [List.length_cons, List.length_append, hmode, hminus]
  omega

/-- The lines of `remove_ban_list` show that the list is empty. -/
theorem follow_removeBanList (hnet : ValidNet net clients) (id : CStr) (type : ListType) (c : Char)
    (chptr : Channel) (hc : kindOf c = some (.mask type)) (hready : Ready clients viewer chptr)
    (hvalid : ∀ n ∈ chptr.list type, Valid n) :
    follow viewer (removeBanList net clients (.server id) type c chptr).2 (seen clients chptr) =
      seen clients (removeBanList net clients (.server id) type c chptr).1 := by
  unfold removeBanList
  split
  · rfl
  · next hne =>
    let origin := (net.servers id).name
    let m := mlen origin chptr.name
    have hm : m ≤ 130 := mlen_le origin chptr.name (hnet.server_len id) hready.name_len
    obtain ⟨hflatten, hbatches⟩ := banBatches_spec m hm (chptr.list type) [] m (by simp)
      (by decide) (by
        have hsize : IRCD_BUFSIZE - 2 = 510 := rfl
        omega) (Or.inr hne) (fun ban hban => plen_le ban (hvalid ban hban))
    have hfits : ∀ b ∈ (banBatches m (chptr.list type) [] m).map
        (fun bans => bans.map (fun ban => (c, nuhText ban))), Fits origin chptr.name .del b := by
      intro b hb
      obtain ⟨bans, hmem, rfl⟩ := List.mem_map.mp hb
      obtain ⟨hbne, hcount, hfit⟩ := hbatches bans hmem
      refine ⟨by simpa using hbne, by simpa using hcount, ?_, ?_⟩
      · intro ch hch
        obtain ⟨ban, hban, rfl⟩ := List.mem_map.mp hch
        have hin : ban ∈ chptr.list type := by
          rw [List.nil_append] at hflatten
          rw [← hflatten]
          exact List.mem_flatten.mpr ⟨bans, hmem, hban⟩
        exact ⟨⟨.mask type, hc, rfl⟩, word_nuhText ban (hvalid ban hin)⟩
      · show (banLine origin chptr.name c bans).text.length ≤ _
        rw [banLine_length]
        exact hfit
    show follow viewer ((banBatches m (chptr.list type) [] m).flatMap _) _ =
      seen clients (chptr.setList [] type)
    rw [follow_flatMap clients viewer chptr _ _ _ hready.nodup hready.watch]
    show (banBatches m (chptr.list type) [] m).foldl (fun v bans => replay v
      (modeLine origin chptr.name '-' (bans.map (fun ban => (c, nuhText ban))))) _ = _
    rw [← List.foldl_map (f := fun bans : List Nuh => bans.map (fun ban => (c, nuhText ban)))
        (g := fun v b => replay v (modeLine origin chptr.name '-' b)),
      show '-' = signOf .del from rfl, replay_batches _ origin chptr.name .del _
      (hnet.server_space id) hready.name_word (by decide) hfits, ← List.map_flatten, hflatten,
      List.nil_append, foldl_deleteMasks c type (chptr.list type) _ hc hvalid
        (seen_list clients chptr type), seen_setList]

theorem Ready.removeBanList (source : Sender) (type : ListType) (c : Char) (chptr : Channel)
    (h : Ready clients viewer chptr) :
    Ready clients viewer (removeBanList net clients source type c chptr).1 := by
  apply Ready.congr clients viewer chptr _ h
  · rw [removeBanList_fst]
    cases type <;> rfl
  · rw [removeBanList_fst]
    cases type <;> rfl

theorem follow_clearTopic (hnet : ValidNet net clients) (id : CStr) (room : Room) (v : Channel)
    (hready : Ready clients viewer room.toChannel) :
    follow viewer (clearTopic net clients (.server id) room).2 v = v := by
  unfold clearTopic
  split
  · rfl
  · have hlen := shownName_length net clients hnet id
    simp only [HOSTLEN] at hlen
    dsimp only
    rw [follow_sendto clients viewer _ _ v hready.nodup hready.watch]
    apply replay_other v _ (shownName_space net clients hnet id)
    · exact ⟨by simp, by simp, by simp⟩
    · have htopic : "TOPIC".toList.length = 5 := rfl
      simp only [htopic]
      omega
    · simp
    · simp

theorem follow_notice (hnet : ValidNet net clients) (chptr : Channel) (rest : CStr) (v : Channel)
    (hready : Ready clients viewer chptr) :
    follow viewer (sendtoChannelLocal clients chptr ⟨net.me, "NOTICE".toList, rest⟩) v = v := by
  have hlen := hnet.me_len
  simp only [HOSTLEN] at hlen
  rw [follow_sendto clients viewer _ _ v hready.nodup hready.watch]
  apply replay_other v _ hnet.me_space
  · exact ⟨by simp, by simp, by simp⟩
  · have hnotice : "NOTICE".toList.length = 6 := rfl
    simp only [hnotice]
    omega
  · simp
  · simp

theorem list_removeOurModes (source : Sender) (chptr : Channel) (type : ListType) :
    (ChannelLines.removeOurModes net clients source chptr).1.list type = chptr.list type := by
  rw [removeOurModes_fst]
  cases type <;> rfl

theorem Ready.removeOurModes (source : Sender) (chptr : Channel) (h : Ready clients viewer chptr) :
    Ready clients viewer (ChannelLines.removeOurModes net clients source chptr).1 := by
  apply Ready.congr clients viewer chptr _ h
  · rw [removeOurModes_fst]
  · rw [removeOurModes_fst]
    simp only [Sjoin.removeOurModes, List.map_map]
    rfl

theorem Ready.named (chptr : Channel) (name : CStr) (isnew : Bool)
    (hready : Ready clients viewer chptr) (hname : checkChannelName name = true) :
    Ready clients viewer
      { chptr with name := if isnew then chptr.name else strlcpy name (CHANNELLEN + 1) } := by
  obtain ⟨hword, hlen, hnodup, hknown, hwatch⟩ := hready
  obtain ⟨hword', hlen'⟩ := checkChannelName_word name hname
  cases isnew with
  | true => exact ⟨hword, hlen, hnodup, hknown, hwatch⟩
  | false =>
    refine ⟨?_, ?_, hnodup, hknown, hwatch⟩
    · show Word (strlcpy name (CHANNELLEN + 1))
      rw [strlcpy_name name hname]
      exact hword'
    · show (strlcpy name (CHANNELLEN + 1)).length ≤ CHANNELLEN
      rw [strlcpy_name name hname]
      exact hlen'

theorem Ready.loseTs (source : Sender) (name : CStr) (isnew : Bool) (oldts newts : ℤ) (room : Room)
    (hready : Ready clients viewer room.toChannel) (hname : checkChannelName name = true) :
    Ready clients viewer
      (SjoinLines.loseTs net clients source isnew name oldts newts room).1.toChannel := by
  have hnamed := hready.named clients viewer room.toChannel name isnew hname
  have hops := hnamed.removeOurModes net clients viewer source
  have hban := hops.removeBanList net clients viewer source .ban 'b'
  have hexcept := hban.removeBanList net clients viewer source .exception 'e'
  unfold SjoinLines.loseTs
  dsimp only
  rw [clearTopic_toChannel]
  exact hexcept.removeBanList net clients viewer source .invex 'I'

theorem follow_loseTs (hnet : ValidNet net clients) (id name : CStr) (isnew : Bool)
    (oldts newts : ℤ) (room : Room) (hready : Ready clients viewer room.toChannel)
    (hname : checkChannelName name = true)
    (hvalid : ∀ type, ∀ n ∈ room.list type, Valid n) :
    follow viewer (SjoinLines.loseTs net clients (.server id) isnew name oldts newts room).2
        (seen clients room.toChannel) =
      seen clients (SjoinLines.loseTs net clients (.server id) isnew name oldts newts room).1.toChannel := by
  have hnamed := hready.named clients viewer room.toChannel name isnew hname
  unfold SjoinLines.loseTs
  dsimp only
  generalize hchptr : ({ room.toChannel with
      name := if isnew then room.name else strlcpy name (CHANNELLEN + 1) } : Channel) = chptr
    at hnamed
  have hseen : seen clients room.toChannel = seen clients chptr := by rw [← hchptr]; rfl
  have hlist : ∀ type, chptr.list type = room.list type := by
    intro type
    rw [← hchptr]
    cases type <;> rfl
  have hops := hnamed.removeOurModes net clients viewer (.server id)
  have hban := hops.removeBanList net clients viewer (.server id) .ban 'b'
  have hexcept := hban.removeBanList net clients viewer (.server id) .exception 'e'
  have hinvex := hexcept.removeBanList net clients viewer (.server id) .invex 'I'
  simp only [follow_append, hseen]
  rw [follow_removeOurModes net clients viewer hnet id chptr hnamed,
    follow_removeBanList net clients viewer hnet id .ban 'b' _ rfl hops,
    follow_removeBanList net clients viewer hnet id .exception 'e' _ rfl hban,
    follow_removeBanList net clients viewer hnet id .invex 'I' _ rfl hexcept,
    follow_clearTopic net clients viewer hnet id _ _ hinvex, tsChanged,
    follow_notice net clients viewer hnet _ _ _ (by
      rw [clearTopic_toChannel]
      exact hinvex), clearTopic_toChannel]
  all_goals
    intro n hn
    simp only [removeBanList_fst, list_removeOurModes] at hn
  · rw [list_setList_of_ne _ _ _ _ (by decide), list_setList_of_ne _ _ _ _ (by decide),
      list_removeOurModes, hlist] at hn
    exact hvalid .invex n hn
  · rw [list_setList_of_ne _ _ _ _ (by decide), list_removeOurModes, hlist] at hn
    exact hvalid .exception n hn
  · rw [hlist] at hn
    exact hvalid .ban n hn

end View

end IrcdHybrid.SjoinView
