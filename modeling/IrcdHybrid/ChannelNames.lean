import IrcdHybrid.CapRequest
import IrcdHybrid.ChannelMode

/-!
The members of a channel as a client is told them (`channel_member_names`). The lines are filled
with names; whether a name still fits is told from a length that is reckoned before the name is
printed. The fields of a client are as long as their buffers at most.
-/

namespace IrcdHybrid.ChannelNames

open CString Wire Packing Channels
open BanMask (HOSTLEN USERLEN)
open CapRequest (CapSet has capMultiPrefix capUhnames)

/-- What a `char [n + 1]` holds. -/
abbrev Field (n : ℕ) := {s : CStr // s.length ≤ n}

structure Client where
  name : Field HOSTLEN
  username : Field USERLEN
  host : Field HOSTLEN
  invisible : Bool

/-- The client that asks: its identifier, name and active capabilities. -/
structure Source where
  id : CStr
  name : Field HOSTLEN
  capActive : CapSet

/-- `get_member_status`. -/
def memberStatus (flags : Flags) (combine : Bool) : CStr :=
  if flags.chanop && !combine then ['@']
  else
    let p := if flags.chanop then ['@'] else []
    if flags.halfop && !combine then ['%']
    else
      let p := p ++ if flags.halfop then ['%'] else []
      p ++ if flags.voice then ['+'] else []

def channelPubOrSecret (chptr : Channel) : Char :=
  if .secret ∈ chptr.mode.mode then '@' else if .priv ∈ chptr.mode.mode then '*' else '='

def pubChannel (chptr : Channel) : Bool :=
  !decide (.priv ∈ chptr.mode.mode ∨ .secret ∈ chptr.mode.mode)

/-- A line being filled, up to `t`, and the last length that was reckoned. -/
structure NameBuf where
  lines : List CStr
  buf : CStr
  tlen : ℕ

section Filling

variable (multiPrefix uhnames : Bool) (client : CStr → Client)

/-- `tlen`: the bytes that a member takes, its space with them. -/
def nameLen (member : Membership) : ℕ :=
  let c := client member.id
  let tlen :=
    if !uhnames then c.name.1.length + 1
    else c.name.1.length + c.username.1.length + c.host.1.length + 3
  if !multiPrefix then
    if member.flags.chanop || member.flags.halfop || member.flags.voice then tlen + 1 else tlen
  else
    tlen + (if member.flags.chanop then 1 else 0) + (if member.flags.halfop then 1 else 0) +
      (if member.flags.voice then 1 else 0)

/-- What is printed for a member, without its space. -/
def nameText (member : Membership) : CStr :=
  let c := client member.id
  if !uhnames then memberStatus member.flags multiPrefix ++ c.name.1
  else
    memberStatus member.flags multiPrefix ++ c.name.1 ++ '!' :: c.username.1 ++ '@' :: c.host.1

/-- The body of the loop; the byte before `t` is overwritten when the line is sent. -/
def nameStep (start : CStr) (isMember : Bool) (b : NameBuf) (member : Membership) : NameBuf :=
  if (client member.id).invisible && !isMember then b
  else
    let tlen := nameLen multiPrefix uhnames client member
    let b :=
      if b.buf.length + tlen > IRCD_BUFSIZE - 2 then
        { b with lines := b.lines ++ [sendFormat b.buf.dropLast], buf := start }
      else b
    { b with buf := b.buf ++ nameText multiPrefix uhnames client member ++ [' '], tlen := tlen }

end Filling

/-- `":%s 353 %s %s %s :"`. -/
def namesHeader (me : Field HOSTLEN) (source : Source) (chptr : Channel) : CStr :=
  ':' :: me.1 ++ " 353 ".toList ++ source.name.1 ++
    [' ', channelPubOrSecret chptr, ' '] ++ chptr.name ++ " :".toList

/-- `":%s %03d %s "` and `"%s :End of /NAMES list."`. -/
def endOfNames (me : Field HOSTLEN) (source : Source) (chptr : Channel) : CStr :=
  ':' :: me.1 ++ " 366 ".toList ++ CapRequest.shownName source.name.1 ++ ' ' :: chptr.name ++
    " :End of /NAMES list.".toList

/-- The lines that are sent, the one that ends them apart. -/
structure NamesReply where
  names : List CStr
  eon : Option CStr

def channelMemberNames (me : Field HOSTLEN) (client : CStr → Client) (source : Source)
    (chptr : Channel) (showEon : Bool) : NamesReply :=
  let isMember := chptr.isMember source.id
  let multiPrefix := has source.capActive capMultiPrefix
  let uhnames := has source.capActive capUhnames
  let names :=
    if pubChannel chptr || isMember then
      let start := namesHeader me source chptr
      let b := chptr.members.foldl (nameStep multiPrefix uhnames client start isMember)
        ⟨[], start, 0⟩
      if b.tlen ≠ 0 then b.lines ++ [sendFormat b.buf.dropLast] else b.lines
    else []
  ⟨names, if showEon then some (sendFormat (endOfNames me source chptr)) else none⟩

/-- All status signs, the highest first. -/
def statusSigns (flags : Flags) : CStr :=
  (if flags.chanop then ['@'] else []) ++ (if flags.halfop then ['%'] else []) ++
    (if flags.voice then ['+'] else [])

/-- What a client is to be told of a member: all of its signs or the highest, and the name. -/
def nameEntry (multiPrefix uhnames : Bool) (client : CStr → Client) (member : Membership) : CStr :=
  (if multiPrefix then statusSigns member.flags else (statusSigns member.flags).take 1) ++
    (client member.id).name.1 ++
    (if uhnames then '!' :: (client member.id).username.1 ++ '@' :: (client member.id).host.1
      else [])

/-- The members that a client may see: all if it is one of them, else those of a public channel
that are not invisible. -/
def seenBy (client : CStr → Client) (source : Source) (chptr : Channel) : List Membership :=
  if chptr.isMember source.id then chptr.members
  else if pubChannel chptr then chptr.members.filter fun member => !(client member.id).invisible
  else []

section Lengths

theorem memberStatus_eq (flags : Flags) (combine : Bool) :
    memberStatus flags combine =
      if combine then statusSigns flags else (statusSigns flags).take 1 := by
  obtain ⟨chanop, halfop, voice⟩ := flags
  cases combine <;> cases chanop <;> cases halfop <;> cases voice <;> rfl

theorem statusSigns_length (flags : Flags) : (statusSigns flags).length ≤ 3 := by
  obtain ⟨chanop, halfop, voice⟩ := flags
  cases chanop <;> cases halfop <;> cases voice <;> decide

variable (multiPrefix uhnames : Bool) (client : CStr → Client) (member : Membership)

theorem nameText_eq :
    nameText multiPrefix uhnames client member = nameEntry multiPrefix uhnames client member := by
  unfold nameText nameEntry
  rw [memberStatus_eq]
  cases uhnames <;> simp

/-- The bytes that `tlen` counts for the signs are those that are printed. -/
theorem memberStatus_length :
    (memberStatus member.flags multiPrefix).length =
      if !multiPrefix then
        if member.flags.chanop || member.flags.halfop || member.flags.voice then 1 else 0
      else
        (if member.flags.chanop then 1 else 0) + (if member.flags.halfop then 1 else 0) +
          (if member.flags.voice then 1 else 0) := by
  obtain ⟨id, chanop, halfop, voice⟩ := member
  cases multiPrefix <;> cases chanop <;> cases halfop <;> cases voice <;> rfl

/-- The length that is reckoned is that of the text with its space. -/
theorem nameLen_eq :
    nameLen multiPrefix uhnames client member =
      (nameText multiPrefix uhnames client member).length + 1 := by
  have hstatus := memberStatus_length multiPrefix member
  unfold nameLen nameText
  dsimp only
  cases uhnames with
  | false =>
    simp only [Bool.not_false, if_true, List.length_append]
    cases multiPrefix with
    | false =>
      simp only [Bool.not_false, if_true] at hstatus ⊢
      rw [hstatus]
      split <;> omega
    | true =>
      simp only [Bool.not_true, Bool.false_eq_true, if_false] at hstatus ⊢
      rw [hstatus]
      omega
  | true =>
    simp only [Bool.not_true, Bool.false_eq_true, if_false, List.length_append, List.length_cons]
    cases multiPrefix with
    | false =>
      simp only [Bool.not_false, if_true] at hstatus ⊢
      rw [hstatus]
      split <;> omega
    | true =>
      simp only [Bool.not_true, Bool.false_eq_true, if_false] at hstatus ⊢
      rw [hstatus]
      omega

theorem nameEntry_length : (nameEntry multiPrefix uhnames client member).length ≤ 171 := by
  have hsigns := statusSigns_length member.flags
  have hname := (client member.id).name.2
  have husername := (client member.id).username.2
  have hhost := (client member.id).host.2
  have hsizes : HOSTLEN = 63 ∧ USERLEN = 40 := ⟨rfl, rfl⟩
  have hprefix : (if multiPrefix then statusSigns member.flags
      else (statusSigns member.flags).take 1).length ≤ 3 := by
    split
    · exact hsigns
    · exact le_trans (List.length_take_le _ _) (by decide)
  unfold nameEntry
  simp only [List.length_append]
  cases uhnames <;> simp <;> omega

theorem namesHeader_length (me : Field HOSTLEN) (source : Source) (chptr : Channel)
    (hchan : chptr.name.length ≤ CHANNELLEN) : (namesHeader me source chptr).length ≤ 187 := by
  have hme := me.2
  have hname := source.name.2
  have hsizes : HOSTLEN = 63 ∧ CHANNELLEN = 50 := ⟨rfl, rfl⟩
  simp [namesHeader]
  omega

end Lengths

section Lines

variable (multiPrefix uhnames : Bool) (client : CStr → Client) (start : CStr)

/-- One step for a member that is shown, in a line that has names already. -/
theorem nameStep_shown (isMember : Bool) (b : NameBuf) (member : Membership)
    (hshown : ((client member.id).invisible && !isMember) = false) :
    nameStep multiPrefix uhnames client start isMember b member =
      if IRCD_BUFSIZE - 3 < b.buf.length +
          (nameEntry multiPrefix uhnames client member).length then
        ⟨b.lines ++ [sendFormat b.buf.dropLast],
          start ++ nameEntry multiPrefix uhnames client member ++ [' '],
          (nameEntry multiPrefix uhnames client member).length + 1⟩
      else
        ⟨b.lines, b.buf ++ nameEntry multiPrefix uhnames client member ++ [' '],
          (nameEntry multiPrefix uhnames client member).length + 1⟩ := by
  have hsize : IRCD_BUFSIZE = 512 := rfl
  unfold nameStep
  rw [hshown, nameLen_eq, nameText_eq]
  simp only [Bool.false_eq_true, if_false]
  by_cases hfull : IRCD_BUFSIZE - 3 < b.buf.length +
      (nameEntry multiPrefix uhnames client member).length
  · rw [if_pos hfull, if_pos (by omega)]
  · rw [if_neg hfull, if_neg (by omega)]

variable (isMember : Bool)

/-- Whether the member is passed over. -/
def hidden (member : Membership) : Bool := (client member.id).invisible && !isMember

theorem nameStep_hidden (b : NameBuf) (member : Membership)
    (hhidden : hidden client isMember member = true) :
    nameStep multiPrefix uhnames client start isMember b member = b := by
  unfold nameStep
  rw [if_pos (by simpa [hidden] using hhidden)]

theorem foldl_shown (members : List Membership) (b : NameBuf) :
    members.foldl (nameStep multiPrefix uhnames client start isMember) b =
      (members.filter fun member => !hidden client isMember member).foldl
        (nameStep multiPrefix uhnames client start isMember) b := by
  rw [List.foldl_filter]
  congr 1
  funext b member
  cases hhidden : hidden client isMember member with
  | false => rfl
  | true =>
    rw [nameStep_hidden multiPrefix uhnames client start isMember b member hhidden]
    rfl

/-- The lines of members that are shown are those of the filling. -/
theorem foldl_nameStep (members : List Membership) (b : NameBuf)
    (hshown : ∀ member ∈ members, hidden client isMember member = false) :
    let b' := members.foldl (nameStep multiPrefix uhnames client start isMember) b
    b'.lines ++ [sendFormat b'.buf.dropLast] =
      b.lines ++ (fill (nameEntry multiPrefix uhnames client) ' ' (IRCD_BUFSIZE - 3) start
        members b.buf).map sendFormat ∧
    (members ≠ [] ∨ b.tlen ≠ 0 → b'.tlen ≠ 0) := by
  induction members generalizing b with
  | nil => simp [fill]
  | cons member members ih =>
    have hmember := hshown member (by simp)
    have hrest := fun b => ih b fun m hm => hshown m (List.mem_cons_of_mem member hm)
    dsimp only at hrest ⊢
    rw [List.foldl_cons, nameStep_shown _ _ _ _ _ _ _ hmember, fill]
    split
    · obtain ⟨hlines, htlen⟩ := hrest ⟨b.lines ++ [sendFormat b.buf.dropLast],
        start ++ nameEntry multiPrefix uhnames client member ++ [' '],
        (nameEntry multiPrefix uhnames client member).length + 1⟩
      refine ⟨?_, fun _ => htlen (Or.inr (by simp))⟩
      rw [hlines]
      simp
    · obtain ⟨hlines, htlen⟩ :=
        hrest ⟨b.lines, b.buf ++ nameEntry multiPrefix uhnames client member ++ [' '],
          (nameEntry multiPrefix uhnames client member).length + 1⟩
      exact ⟨hlines, fun _ => htlen (Or.inr (by simp))⟩

end Lines

section Reply

variable (me : Field HOSTLEN) (client : CStr → Client) (source : Source) (chptr : Channel)

theorem seenBy_eq (h : (pubChannel chptr || chptr.isMember source.id) = true) :
    seenBy client source chptr =
      chptr.members.filter fun member => !hidden client (chptr.isMember source.id) member := by
  unfold seenBy hidden
  cases hmember : chptr.isMember source.id with
  | true => simp
  | false =>
    rw [hmember, Bool.or_false] at h
    simp [h]

/-- The groups of names, one for each line. -/
def nameGroups (text : Membership → CStr) (base : ℕ) : List Membership → List (List Membership)
  | [] => []
  | member :: members => groups text ' ' (IRCD_BUFSIZE - 3) base members [member]

theorem nameGroups_flatten (text : Membership → CStr) (base : ℕ) (members : List Membership) :
    (nameGroups text base members).flatten = members := by
  cases members with
  | nil => rfl
  | cons member members => exact flatten_groups text ' ' _ base members [member]

theorem nameGroups_ne_nil (text : Membership → CStr) (base : ℕ) (members : List Membership) :
    ∀ g ∈ nameGroups text base members, g ≠ [] := by
  cases members with
  | nil => simp [nameGroups]
  | cons member members =>
    exact groups_ne_nil text ' ' _ base members [member] (by simp)

/-- A line ends with a name, where the longest header and the longest name leave room. -/
theorem nameGroups_length (text : Membership → CStr) (base : ℕ) (members : List Membership)
    (hroom : ∀ member ∈ members, base + (text member).length ≤ IRCD_BUFSIZE - 3) :
    ∀ g ∈ nameGroups text base members,
      base + (joined text ' ' g).length ≤ IRCD_BUFSIZE - 3 := by
  intro g hg
  have hne := nameGroups_ne_nil text base members g hg
  cases members with
  | nil => simp [nameGroups] at hg
  | cons member members =>
    have hfirst := hroom member (by simp)
    apply joined_length text ' ' _ base g hne
    apply groups_length text ' ' _ base members [member] ?_ ?_ g hg
    · rw [trailed_singleton, List.length_append, List.length_singleton]
      omega
    · intro m hm
      exact hroom m (List.mem_cons_of_mem member hm)

/-- The lines that the members leave which are shown: those of their groups, none of them cut. -/
theorem filled_eq (multiPrefix uhnames isMember : Bool) (start : CStr) (members : List Membership)
    (hshown : ∀ member ∈ members, hidden client isMember member = false)
    (hroom : ∀ member ∈ members, start.length +
      (nameEntry multiPrefix uhnames client member).length ≤ IRCD_BUFSIZE - 3) :
    (let b := members.foldl (nameStep multiPrefix uhnames client start isMember) ⟨[], start, 0⟩
      if b.tlen ≠ 0 then b.lines ++ [sendFormat b.buf.dropLast] else b.lines) =
      (nameGroups (nameEntry multiPrefix uhnames client) start.length members).map fun g =>
        start ++ joined (nameEntry multiPrefix uhnames client) ' ' g := by
  have hlength := nameGroups_length (nameEntry multiPrefix uhnames client) start.length members
    hroom
  cases members with
  | nil => rfl
  | cons member members =>
    have hfirst := hroom member (by simp)
    obtain ⟨hlines, htlen⟩ := foldl_nameStep multiPrefix uhnames client start isMember
      (member :: members) ⟨[], start, 0⟩ hshown
    have hfill := fill_eq_groups (nameEntry multiPrefix uhnames client) ' ' (IRCD_BUFSIZE - 3)
      start members [member] (by simp)
    rw [trailed_singleton, ← List.append_assoc] at hfill
    dsimp only at hlines htlen ⊢
    rw [if_pos (htlen (Or.inl (by simp))), hlines, List.nil_append, fill, if_neg (by omega),
      hfill, List.map_map]
    apply List.map_congr_left
    intro g hg
    have hfits := hlength g hg
    apply List.take_of_length_le
    rw [List.length_append]
    omega

/-- The names of a channel: everyone whom the client may see, once, in lines that fit. -/
theorem channelMemberNames_complete (showEon : Bool) (hchan : chptr.name.length ≤ CHANNELLEN) :
    ∃ lines : List (List Membership),
      lines.flatten = seenBy client source chptr ∧ (∀ g ∈ lines, g ≠ []) ∧
      (channelMemberNames me client source chptr showEon).names =
        lines.map (fun g => namesHeader me source chptr ++
          joined (nameEntry (has source.capActive capMultiPrefix)
            (has source.capActive capUhnames) client) ' ' g) ∧
      ∀ line ∈ (channelMemberNames me client source chptr showEon).names,
        line.length ≤ 510 := by
  have hsize : IRCD_BUFSIZE = 512 := rfl
  have hheader := namesHeader_length me source chptr hchan
  unfold channelMemberNames
  dsimp only
  generalize has source.capActive capMultiPrefix = multiPrefix
  generalize has source.capActive capUhnames = uhnames
  by_cases hsee : (pubChannel chptr || chptr.isMember source.id) = true
  case neg =>
    refine ⟨[], ?_, by simp, ?_, ?_⟩
    · obtain ⟨hpub, hmember⟩ := Bool.or_eq_false_iff.mp (by simpa using hsee)
      simp [seenBy, hpub, hmember]
    · rw [if_neg hsee]
      rfl
    · rw [if_neg hsee]
      simp
  case pos =>
    have hroom : ∀ member ∈ seenBy client source chptr, (namesHeader me source chptr).length +
        (nameEntry multiPrefix uhnames client member).length ≤ IRCD_BUFSIZE - 3 := by
      intro member _
      have hentry := nameEntry_length multiPrefix uhnames client member
      omega
    have hlength := nameGroups_length (nameEntry multiPrefix uhnames client) _ _ hroom
    have hnames : (if pubChannel chptr || chptr.isMember source.id then
          let b := chptr.members.foldl (nameStep multiPrefix uhnames client
            (namesHeader me source chptr) (chptr.isMember source.id))
            ⟨[], namesHeader me source chptr, 0⟩
          if b.tlen ≠ 0 then b.lines ++ [sendFormat b.buf.dropLast] else b.lines
        else []) =
        (nameGroups (nameEntry multiPrefix uhnames client) (namesHeader me source chptr).length
          (seenBy client source chptr)).map fun g => namesHeader me source chptr ++
            joined (nameEntry multiPrefix uhnames client) ' ' g := by
      rw [if_pos hsee, foldl_shown, ← seenBy_eq client source chptr hsee]
      apply filled_eq client multiPrefix uhnames _ _ _ ?_ hroom
      intro member hmember
      rw [seenBy_eq client source chptr hsee] at hmember
      simpa using (List.mem_filter.mp hmember).2
    refine ⟨nameGroups (nameEntry multiPrefix uhnames client)
      (namesHeader me source chptr).length (seenBy client source chptr),
      nameGroups_flatten _ _ _, nameGroups_ne_nil _ _ _, hnames, ?_⟩
    rw [hnames]
    intro line hline
    obtain ⟨g, hg, rfl⟩ := List.mem_map.mp hline
    have hg := hlength g hg
    rw [List.length_append]
    omega

end Reply

/-- Two operators, one of them invisible, and a voiced member. -/
def people (id : CStr) : Client where
  name := ⟨id.take HOSTLEN, List.length_take_le _ _⟩
  username := ⟨"u".toList, by decide⟩
  host := ⟨"h".toList, by decide⟩
  invisible := id = "al".toList

def room : Channel where
  name := "#r".toList
  creationtime := 0
  mode := noModes
  members := [⟨"al".toList, ⟨true, false, true⟩⟩, ⟨"bo".toList, ⟨true, false, true⟩⟩,
    ⟨"cy".toList, ⟨false, false, true⟩⟩]
  banlist := []
  exceptlist := []
  invexlist := []

def visitor : Source where
  id := "di".toList
  name := ⟨"di".toList, by decide⟩
  capActive := capMultiPrefix.cap

def server : Field HOSTLEN := ⟨"irc".toList, by decide⟩

theorem channelMemberNames_visitor :
    ∃ lines : List (List Membership),
      lines.flatten = seenBy people visitor room ∧ (∀ g ∈ lines, g ≠ []) ∧
      (channelMemberNames server people visitor room true).names =
        lines.map (fun g => namesHeader server visitor room ++
          joined (nameEntry (has visitor.capActive capMultiPrefix)
            (has visitor.capActive capUhnames) people) ' ' g) ∧
      ∀ line ∈ (channelMemberNames server people visitor room true).names,
        line.length ≤ 510 :=
  channelMemberNames_complete server people visitor room true (by decide)

example : (channelMemberNames server people visitor room true).names =
    [":irc 353 di = #r :@+bo +cy".toList] := by
  decide +kernel

end IrcdHybrid.ChannelNames
