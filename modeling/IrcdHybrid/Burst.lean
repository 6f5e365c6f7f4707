import IrcdHybrid.Channels
import IrcdHybrid.Numeral
import IrcdHybrid.Packing
import IrcdHybrid.Wire

/-!
The burst of a channel. `send_channel_modes` prints the members into SJOIN
lines behind the modes, and each list of masks into BMASK lines. The buffers
fill up item by item; a line goes out when the next item no longer fits. With
headers as short as a channel name and a server identifier make them, every
item fits on a line of its own, so the lines are the header and a group of
items each.
-/

namespace IrcdHybrid.Burst

open CString Numeral BanMask Channels Packing Wire

/-- `%lu` of a time. -/
def formatTime (t : ℤ) : CStr := decimal (t % 2 ^ 64).toNat

/-- `mode.mode` and the two flags as letters. -/
def modeLetters (m : Mode) : CStr :=
  '+' :: ((chanModes.filter (fun tab => decide (tab.1 ∈ m.mode))).map Prod.snd ++
    ((if m.limit ≠ 0 then ['l'] else []) ++ (if m.key ≠ [] then ['k'] else [])))

/-- `channel_modes` towards a server: the mode buffer and the parameter buffer. -/
def channelModes (m : Mode) : CStr × CStr :=
  (modeLetters m,
    (if m.limit ≠ 0 then signedDecimal m.limit.toInt ++ [' '] else []) ++
      (if m.key ≠ [] then m.key ++ [' '] else []))

def statusText (f : Flags) : CStr :=
  (if f.chanop then ['@'] else []) ++ ((if f.halfop then ['%'] else []) ++
    (if f.voice then ['+'] else []))

def memberText (member : Membership) : CStr := statusText member.flags ++ member.id

/-- The loop of `send_members`; the buffer starts as `start`. -/
def memberLoop (start : CStr) : List Membership → CStr → List CStr
  | [], buf => [buf.dropLast]
  | member :: members, buf =>
    let tlen := member.id.length + 1 + (if member.flags.chanop then 1 else 0) +
      (if member.flags.halfop then 1 else 0) + (if member.flags.voice then 1 else 0)
    if buf.length + tlen > IRCD_BUFSIZE - 1 then
      buf.dropLast :: memberLoop start members (start ++ memberText member ++ [' '])
    else memberLoop start members (buf ++ memberText member ++ [' '])

def sendMembers (sid : CStr) (chptr : Channel) (modebuf parabuf : CStr) : List CStr :=
  let start := [':'] ++ sid ++ " SJOIN ".toList ++ formatTime chptr.creationtime ++ [' '] ++
    chptr.name ++ [' '] ++ modebuf ++ [' '] ++ parabuf ++ [':']
  if chptr.members = [] then [start] else memberLoop start chptr.members start

/-- `ban->len`: without the '!' and the '@'. -/
def banLen (ban : Nuh) : ℕ := ban.name.length + ban.user.length + ban.host.length

/-- The loop of `send_mode_list`. -/
def modeListLoop (mbuf : CStr) : List Nuh → CStr → ℕ → List CStr
  | [], pbuf, _ => [mbuf ++ pbuf.dropLast]
  | ban :: l, pbuf, curLen =>
    let tlen := banLen ban + 3
    if curLen + (tlen - 1) > IRCD_BUFSIZE - 2 then
      (mbuf ++ pbuf.dropLast) :: modeListLoop mbuf l (nuhText ban ++ [' ']) (mbuf.length + tlen)
    else modeListLoop mbuf l (pbuf ++ nuhText ban ++ [' ']) (curLen + tlen)

def flagLetter : ListType → Char
  | .ban => 'b'
  | .exception => 'e'
  | .invex => 'I'

def sendModeList (sid : CStr) (chptr : Channel) (type : ListType) : List CStr :=
  let mbuf := [':'] ++ sid ++ " BMASK ".toList ++ formatTime chptr.creationtime ++ [' '] ++
    chptr.name ++ [' ', flagLetter type, ' ', ':']
  if chptr.list type = [] then [] else modeListLoop mbuf (chptr.list type) [] mbuf.length

/-- The lines handed to `sendto_one`, in order. -/
def sendChannelModes (sid : CStr) (chptr : Channel) : List CStr :=
  let (modebuf, parabuf) := channelModes chptr.mode
  sendMembers sid chptr modebuf parabuf ++ sendModeList sid chptr .ban ++
    sendModeList sid chptr .exception ++ sendModeList sid chptr .invex

/-- The lines as they leave the server. -/
def burst (sid : CStr) (chptr : Channel) : List CStr :=
  (sendChannelModes sid chptr).map sendFormat

/-- The form of a server's identifier. -/
structure ValidSid (sid : CStr) : Prop where
  len : sid.length = 3
  no_space : ' ' ∉ sid

def modeParams (m : Mode) : List CStr :=
  (if m.limit ≠ 0 then [signedDecimal m.limit.toInt] else []) ++
    (if m.key ≠ [] then [m.key] else [])

def sjoinWords (chptr : Channel) : List CStr :=
  [formatTime chptr.creationtime, chptr.name, modeLetters chptr.mode] ++ modeParams chptr.mode

def sjoinHeader (sid : CStr) (chptr : Channel) : CStr :=
  lineText sid "SJOIN".toList (sjoinWords chptr) [' ', ':']

def sjoinLine (sid : CStr) (chptr : Channel) (g : List Membership) : CStr :=
  lineText sid "SJOIN".toList (sjoinWords chptr) (' ' :: ':' :: joined memberText ' ' g)

def bmaskWords (chptr : Channel) (type : ListType) : List CStr :=
  [formatTime chptr.creationtime, chptr.name, [flagLetter type]]

def bmaskHeader (sid : CStr) (chptr : Channel) (type : ListType) : CStr :=
  lineText sid "BMASK".toList (bmaskWords chptr type) [' ', ':']

def bmaskLine (sid : CStr) (chptr : Channel) (type : ListType) (g : List Nuh) : CStr :=
  lineText sid "BMASK".toList (bmaskWords chptr type) (' ' :: ':' :: joined nuhText ' ' g)

theorem lineText_append (sender command : CStr) (ws : List CStr) (s t : CStr) :
    lineText sender command ws s ++ t = lineText sender command ws (s ++ t) := by
  simp [lineText]

theorem spaced_eq_trailed (ws : List CStr) :
    ' ' :: trailed (fun w : CStr => w) ' ' ws = spaced ws ++ [' '] := by
  induction ws with
  | nil => rfl
  | cons w ws ih =>
    have htrailed : trailed (fun w : CStr => w) ' ' (w :: ws) =
        w ++ ' ' :: trailed (fun w : CStr => w) ' ' ws := by simp [trailed]
    rw [htrailed, ih, spaced_cons]
    simp

theorem channelModes_params (m : Mode) :
    (channelModes m).2 = trailed (fun w : CStr => w) ' ' (modeParams m) := by
  unfold channelModes modeParams
  split_ifs <;> simp [trailed]

theorem sjoinHeader_eq (sid : CStr) (chptr : Channel) :
    [':'] ++ sid ++ " SJOIN ".toList ++ formatTime chptr.creationtime ++ [' '] ++
      chptr.name ++ [' '] ++ (channelModes chptr.mode).1 ++ [' '] ++
      (channelModes chptr.mode).2 ++ [':'] = sjoinHeader sid chptr := by
  have hspace := spaced_eq_trailed (modeParams chptr.mode)
  have hsjoin : " SJOIN ".toList = ' ' :: ("SJOIN".toList ++ [' ']) := rfl
  rw [channelModes_params, hsjoin]
  unfold sjoinHeader lineText sjoinWords
  rw [spaced_append, List.append_assoc (spaced _), show [' ', ':'] = [' '] ++ [':'] from rfl,
    ← List.append_assoc (spaced (modeParams chptr.mode)), ← hspace]
  simp [channelModes]

theorem bmaskHeader_eq (sid : CStr) (chptr : Channel) (type : ListType) :
    [':'] ++ sid ++ " BMASK ".toList ++ formatTime chptr.creationtime ++ [' '] ++
      chptr.name ++ [' ', flagLetter type, ' ', ':'] = bmaskHeader sid chptr type := by
  have hbmask : " BMASK ".toList = ' ' :: ("BMASK".toList ++ [' ']) := rfl
  rw [hbmask]
  simp [bmaskHeader, lineText, bmaskWords]

theorem memberText_length (member : Membership) :
    (memberText member).length = member.id.length + (if member.flags.chanop then 1 else 0) +
      (if member.flags.halfop then 1 else 0) + (if member.flags.voice then 1 else 0) := by
  unfold memberText statusText
  split_ifs <;> simp

theorem memberLoop_eq_fill (start : CStr) (members : List Membership) (buf : CStr) :
    memberLoop start members buf = fill memberText ' ' 510 start members buf := by
  induction members generalizing buf with
  | nil => rfl
  | cons member members ih =>
    have hlen := memberText_length member
    have hsize : IRCD_BUFSIZE = 512 := rfl
    unfold memberLoop fill
    rw [ih, ih]
    by_cases hfull : 510 < buf.length + (memberText member).length
    · rw [if_pos hfull, if_pos (by omega)]
    · rw [if_neg hfull, if_neg (by omega)]

theorem modeListLoop_eq_fill (mbuf : CStr) (l cur : List Nuh) (hcur : cur ≠ []) :
    modeListLoop mbuf l (trailed nuhText ' ' cur)
        (mbuf.length + (trailed nuhText ' ' cur).length) =
      fill nuhText ' ' 510 mbuf l (mbuf ++ trailed nuhText ' ' cur) := by
  have hdrop : ∀ cur : List Nuh, cur ≠ [] → (mbuf ++ trailed nuhText ' ' cur).dropLast =
      mbuf ++ (trailed nuhText ' ' cur).dropLast := by
    intro cur hcur
    rw [trailed_eq_joined nuhText ' ' cur hcur, ← List.append_assoc, List.dropLast_concat,
      List.dropLast_concat]
  induction l generalizing cur with
  | nil => simp [modeListLoop, fill, hdrop cur hcur]
  | cons ban l ih =>
    have hlen : (nuhText ban).length = banLen ban + 2 := nuhText_length ban
    have hone := ih [ban] (by simp)
    have hmore := ih (cur ++ [ban]) (by simp)
    rw [trailed_singleton, ← List.append_assoc, List.length_append, List.length_singleton,
      hlen] at hone
    rw [trailed_append, trailed_singleton, ← List.append_assoc, ← List.append_assoc,
      List.length_append, List.length_append, List.length_singleton, hlen] at hmore
    have hsize : IRCD_BUFSIZE = 512 := rfl
    simp only [modeListLoop, fill, List.length_append, hlen]
    by_cases hfull : 510 < mbuf.length + (trailed nuhText ' ' cur).length + (banLen ban + 2)
    · rw [if_pos hfull, if_pos (by omega), hdrop cur hcur, ← hone]
    · rw [← List.append_assoc mbuf] at hmore
      rw [if_neg hfull, if_neg (by omega), ← hmore, Nat.add_assoc]
      rfl

theorem formatTime_length (t : ℤ) : (formatTime t).length ≤ 20 := by
  unfold formatTime decimal
  rw [Nat.length_toDigits_le_iff (by omega) (by omega)]
  have hpos := Int.emod_nonneg t (show (2 ^ 64 : ℤ) ≠ 0 by decide)
  have hlt := Int.emod_lt_of_pos t (show (0 : ℤ) < 2 ^ 64 by decide)
  have hnat : (t % 2 ^ 64).toNat < 2 ^ 64 := by omega
  exact hnat.trans_le (by decide)

theorem signedDecimal_length (v : BitVec 32) : (signedDecimal v.toInt).length ≤ 11 := by
  have hlt := BitVec.toInt_lt (x := v)
  have hge := BitVec.le_toInt (x := v)
  have habs : v.toInt.natAbs < 10 ^ 10 := by omega
  have hdec : (decimal v.toInt.natAbs).length ≤ 10 := by
    unfold decimal
    rw [Nat.length_toDigits_le_iff (by omega) (by omega)]
    exact habs
  unfold signedDecimal
  split_ifs
  · rw [List.length_cons]
    omega
  · omega

theorem modeLetters_length (m : Mode) : (modeLetters m).length ≤ 16 := by
  have htab := List.length_filter_le (fun tab => decide (tab.1 ∈ m.mode)) chanModes
  have hlen : chanModes.length = 13 := rfl
  unfold modeLetters
  simp only [List.length_cons, List.length_append, List.length_map]
  split_ifs <;> simp <;> omega

theorem lineText_length (sender command : CStr) (ws : List CStr) (tail : CStr) :
    (lineText sender command ws tail).length =
      sender.length + command.length + (spaced ws).length + tail.length + 2 := by
  simp only [lineText, List.length_cons, List.length_append]
  omega

theorem checkChannelName_length (name : CStr) (h : checkChannelName name = true) :
    name.length ≤ CHANNELLEN := by
  cases name with
  | nil => simp
  | cons c p =>
    simp only [checkChannelName, Bool.and_eq_true, decide_eq_true_eq] at h
    exact h.2

theorem modeParams_length (m : Mode) (h : ValidKey m.key) :
    (spaced (modeParams m)).length ≤ 36 := by
  have hlimit := signedDecimal_length m.limit
  have hkey := h.len
  unfold modeParams
  rw [spaced_append, List.length_append]
  simp only [KEYLEN] at hkey
  split_ifs <;> simp <;> omega

theorem sjoinHeader_length (sid : CStr) (chptr : Channel) (hsid : ValidSid sid)
    (h : WellFormed chptr) : (sjoinHeader sid chptr).length ≤ 200 := by
  have htime := formatTime_length chptr.creationtime
  have hname := checkChannelName_length chptr.name h.name
  have hletters := modeLetters_length chptr.mode
  have hparams := modeParams_length chptr.mode h.key
  have hcommand : "SJOIN".toList.length = 5 := rfl
  have hlen := hsid.len
  simp only [CHANNELLEN] at hname
  unfold sjoinHeader sjoinWords
  rw [lineText_length, spaced_append, List.length_append]
  simp only [spaced_cons, spaced_nil, List.length_cons, List.length_append, List.length_nil]
  omega

theorem bmaskHeader_length (sid : CStr) (chptr : Channel) (type : ListType)
    (hsid : ValidSid sid) (h : WellFormed chptr) :
    (bmaskHeader sid chptr type).length ≤ 200 := by
  have htime := formatTime_length chptr.creationtime
  have hname := checkChannelName_length chptr.name h.name
  have hcommand : "BMASK".toList.length = 5 := rfl
  have hlen := hsid.len
  simp only [CHANNELLEN] at hname
  unfold bmaskHeader bmaskWords
  rw [lineText_length]
  simp only [spaced_cons, spaced_nil, List.length_cons, List.length_append, List.length_nil]
  omega

/-- The members of each SJOIN line. -/
def memberGroups (sid : CStr) (chptr : Channel) : List (List Membership) :=
  match chptr.members with
  | [] => [[]]
  | member :: members =>
    groups memberText ' ' 510 (sjoinHeader sid chptr).length members [member]

/-- The masks of each BMASK line. -/
def maskGroups (sid : CStr) (chptr : Channel) (type : ListType) : List (List Nuh) :=
  match chptr.list type with
  | [] => []
  | n :: l => groups nuhText ' ' 510 (bmaskHeader sid chptr type).length l [n]

theorem sjoinLine_eq (sid : CStr) (chptr : Channel) (g : List Membership) :
    sjoinLine sid chptr g = sjoinHeader sid chptr ++ joined memberText ' ' g := by
  unfold sjoinHeader
  rw [lineText_append]
  rfl

theorem bmaskLine_eq (sid : CStr) (chptr : Channel) (type : ListType) (g : List Nuh) :
    bmaskLine sid chptr type g = bmaskHeader sid chptr type ++ joined nuhText ' ' g := by
  unfold bmaskHeader
  rw [lineText_append]
  rfl

theorem memberText_length_le (member : Membership) (h : ValidId member.id) :
    (memberText member).length ≤ 15 := by
  have hid := h.len
  simp only [IDLEN] at hid
  rw [memberText_length]
  split_ifs <;> omega

section

variable (sid : CStr) (chptr : Channel)

theorem flatten_memberGroups :
    (memberGroups sid chptr).flatten = chptr.members := by
  unfold memberGroups
  split
  · next h => rw [h]; rfl
  · next member members h => rw [flatten_groups, h]; rfl

theorem flatten_maskGroups (type : ListType) :
    (maskGroups sid chptr type).flatten = chptr.list type := by
  unfold maskGroups
  split
  · next h => rw [h]; rfl
  · next n l h => rw [flatten_groups, h]; rfl

/-- The members are printed in groups behind the one header. -/
theorem sendMembers_eq (hsid : ValidSid sid) (h : WellFormed chptr) :
    sendMembers sid chptr (channelModes chptr.mode).1 (channelModes chptr.mode).2 =
      (memberGroups sid chptr).map (sjoinLine sid chptr) := by
  have hheader := sjoinHeader_length sid chptr hsid h
  have hlines : (fun g => sjoinHeader sid chptr ++ joined memberText ' ' g) =
      sjoinLine sid chptr := funext fun g => (sjoinLine_eq sid chptr g).symm
  unfold sendMembers memberGroups
  rw [sjoinHeader_eq]
  cases hmembers : chptr.members with
  | nil => simp [sjoinLine_eq, joined]
  | cons member members =>
    have hid := h.members_id member (by rw [hmembers]; exact List.mem_cons_self)
    have htext := memberText_length_le member hid
    have hfits : ¬ 510 < (sjoinHeader sid chptr).length + (memberText member).length := by omega
    have hfill := fill_eq_groups memberText ' ' 510 (sjoinHeader sid chptr) members [member]
      (by simp)
    rw [trailed_singleton, ← List.append_assoc] at hfill
    rw [if_neg (by simp), memberLoop_eq_fill, fill, if_neg hfits, hfill, hlines]

theorem sendModeList_eq (type : ListType) (hsid : ValidSid sid) (h : WellFormed chptr) :
    sendModeList sid chptr type = (maskGroups sid chptr type).map (bmaskLine sid chptr type) := by
  have hheader := bmaskHeader_length sid chptr type hsid h
  have hlines : (fun g => bmaskHeader sid chptr type ++ joined nuhText ' ' g) =
      bmaskLine sid chptr type := funext fun g => (bmaskLine_eq sid chptr type g).symm
  unfold sendModeList maskGroups
  rw [bmaskHeader_eq]
  cases hlist : chptr.list type with
  | nil => simp
  | cons n l =>
    have hvalid := h.lists_valid type n (by rw [hlist]; exact List.mem_cons_self)
    have htext := nuhText_length_le n hvalid
    have hlen : (nuhText n).length = banLen n + 2 := nuhText_length n
    have hsize : IRCD_BUFSIZE = 512 := rfl
    have hloop := modeListLoop_eq_fill (bmaskHeader sid chptr type) l [n] (by simp)
    rw [fill_eq_groups nuhText ' ' 510 (bmaskHeader sid chptr type) l [n] (by simp),
      trailed_singleton, List.length_append, List.length_singleton, hlen] at hloop
    dsimp only
    rw [if_neg (by simp), modeListLoop]
    rw [if_neg (by omega), List.nil_append, ← hlines]
    exact hloop

theorem sjoinLine_length (hsid : ValidSid sid)
    (h : WellFormed chptr) (g : List Membership) (hg : g ∈ memberGroups sid chptr) :
    (sjoinLine sid chptr g).length ≤ 510 := by
  have hheader := sjoinHeader_length sid chptr hsid h
  have hid : ∀ member ∈ chptr.members, (memberText member).length ≤ 15 :=
    fun member hm => memberText_length_le member (h.members_id member hm)
  rw [sjoinLine_eq, List.length_append]
  unfold memberGroups at hg
  split at hg
  · rw [List.mem_singleton.mp hg]
    show _ + ([] : CStr).length ≤ 510
    simp only [List.length_nil]
    omega
  · next member members hmembers =>
    rw [hmembers] at hid
    have hfirst := hid member List.mem_cons_self
    refine joined_length memberText ' ' 510 _ g (groups_ne_nil _ _ _ _ _ _ (by simp) g hg) ?_
    apply groups_length memberText ' ' 510 _ members [member] _ _ g hg
    · rw [trailed_singleton, List.length_append, List.length_singleton]
      omega
    · intro m hm
      have := hid m (List.mem_cons_of_mem _ hm)
      omega

theorem bmaskLine_length (type : ListType) (hsid : ValidSid sid)
    (h : WellFormed chptr) (g : List Nuh) (hg : g ∈ maskGroups sid chptr type) :
    (bmaskLine sid chptr type g).length ≤ 510 := by
  have hheader := bmaskHeader_length sid chptr type hsid h
  have hvalid : ∀ n ∈ chptr.list type, (nuhText n).length ≤ 117 :=
    fun n hn => nuhText_length_le n (h.lists_valid type n hn)
  rw [bmaskLine_eq, List.length_append]
  unfold maskGroups at hg
  split at hg
  · simp at hg
  · next n l hlist =>
    rw [hlist] at hvalid
    have hfirst := hvalid n List.mem_cons_self
    refine joined_length nuhText ' ' 510 _ g (groups_ne_nil _ _ _ _ _ _ (by simp) g hg) ?_
    apply groups_length nuhText ' ' 510 _ l [n] _ _ g hg
    · rw [trailed_singleton, List.length_append, List.length_singleton]
      omega
    · intro m hm
      have := hvalid m (List.mem_cons_of_mem _ hm)
      omega

def sjoinLines : List CStr :=
  (memberGroups sid chptr).map (sjoinLine sid chptr)

def bmaskLines (type : ListType) : List CStr :=
  (maskGroups sid chptr type).map (bmaskLine sid chptr type)

theorem sendChannelModes_eq (hsid : ValidSid sid) (h : WellFormed chptr) :
    sendChannelModes sid chptr = sjoinLines sid chptr ++
      (bmaskLines sid chptr .ban ++ bmaskLines sid chptr .exception ++
        bmaskLines sid chptr .invex) := by
  unfold sendChannelModes
  dsimp only
  rw [sendMembers_eq sid chptr hsid h, sendModeList_eq sid chptr _ hsid h,
    sendModeList_eq sid chptr _ hsid h, sendModeList_eq sid chptr _ hsid h, List.append_assoc,
    List.append_assoc, List.append_assoc]
  rfl

theorem sendChannelModes_length (hsid : ValidSid sid)
    (h : WellFormed chptr) (line : CStr) (hline : line ∈ sendChannelModes sid chptr) :
    line.length ≤ 510 := by
  have hbmask : ∀ type, line ∈ bmaskLines sid chptr type → line.length ≤ 510 := by
    intro type hmem
    obtain ⟨g, hg, rfl⟩ := List.mem_map.mp hmem
    exact bmaskLine_length sid chptr type hsid h g hg
  rw [sendChannelModes_eq sid chptr hsid h] at hline
  rcases List.mem_append.mp hline with hline | hline
  · obtain ⟨g, hg, rfl⟩ := List.mem_map.mp hline
    exact sjoinLine_length sid chptr hsid h g hg
  · rcases List.mem_append.mp hline with hline | hline
    · rcases List.mem_append.mp hline with hline | hline
      · exact hbmask _ hline
      · exact hbmask _ hline
    · exact hbmask _ hline

theorem burst_eq (hsid : ValidSid sid) (h : WellFormed chptr) :
    burst sid chptr = sendChannelModes sid chptr := by
  unfold burst
  have hsame : ∀ line ∈ sendChannelModes sid chptr, sendFormat line = id line := by
    intro line hline
    exact List.take_of_length_le (sendChannelModes_length sid chptr hsid h line hline)
  rw [List.map_congr_left hsame, List.map_id]

end

end IrcdHybrid.Burst
