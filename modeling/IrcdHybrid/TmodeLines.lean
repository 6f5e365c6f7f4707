import IrcdHybrid.ModeReplay
import Mathlib.Data.List.Perm.Basic

/-!
TMODE lines and the server that reads them. A line takes changes as long as
there is room; read back, it carries out the changes it was made of, on a channel
that has the same members.
-/

namespace IrcdHybrid.TmodeLines

open CString Numeral BanMask Channels Wire Burst Sjoin ChannelMode ChannelTable BurstLines
  ModeReplay

/-- A change that can be printed and read back. -/
inductive Printed (chptr : Channel) : Item → Prop
  | mask (c : Char) (type : ListType) (n : Nuh) (dir : Dir) (hc : kindOf c = some (.mask type))
      (hn : Valid n) (hdir : dir ≠ .query) : Printed chptr ⟨c, some (nuhText n), dir⟩
  | status (c : Char) (status : Status) (id : CStr) (dir : Dir)
      (hc : kindOf c = some (.status status)) (hid : id ∈ chptr.members.map Membership.id)
      (hdir : dir ≠ .query) : Printed chptr ⟨c, some id, dir⟩
  | limitAdd (limit : ℤ) (hpos : 0 < limit) (hlt : limit < 2 ^ 31) :
      Printed chptr ⟨'l', some (signedDecimal limit), .add⟩
  | limitDel : Printed chptr ⟨'l', none, .del⟩
  | keyAdd (key : CStr) (hkey : FixedKey key) : Printed chptr ⟨'k', some key, .add⟩
  | keyDel : Printed chptr ⟨'k', some ['*'], .del⟩
  | simple (c : Char) (d : SimpleMode) (dir : Dir) (hc : kindOf c = some (.simple d))
      (hd : d ≠ .registered) (hdir : dir ≠ .query) : Printed chptr ⟨c, none, dir⟩

/-- A +k whose key is gone by the time it is printed. -/
def keyless : Item := ⟨'k', some [], .add⟩

def keyGone : Item := ⟨'k', some ['*'], .del⟩

def Sent (chptr : Channel) (item : Item) : Prop := Printed chptr item ∨ item = keyless

theorem printed_of_recorded (c d : Channel) (ch : ModeChange) (item : Item) (h : Recorded c ch)
    (hkey : ch = ⟨some 'k', .modeKey, .add⟩ → FixedKey d.mode.key) (hitem : itemOf d ch = some item) :
    Printed c item := by
  cases h with
  | dropped arg dir => simp [itemOf] at hitem
  | mask c type n dir hc hn hdir =>
    obtain rfl := Option.some.inj hitem
    exact Printed.mask c type n dir hc hn hdir
  | status c status id dir hc hid hdir =>
    obtain rfl := Option.some.inj hitem
    exact Printed.status c status id dir hc hid hdir
  | limitAdd limit hpos hlt =>
    obtain rfl := Option.some.inj hitem
    exact Printed.limitAdd limit hpos hlt
  | limitDel =>
    obtain rfl := Option.some.inj hitem
    exact Printed.limitDel
  | keyAdd =>
    obtain rfl := Option.some.inj hitem
    exact Printed.keyAdd _ (hkey rfl)
  | keyDel =>
    obtain rfl := Option.some.inj hitem
    exact Printed.keyDel
  | simple c d dir hc hd hdir =>
    obtain rfl := Option.some.inj hitem
    exact Printed.simple c d dir hc hd hdir

theorem sent_of_recorded (c d : Channel) (ch : ModeChange) (item : Item) (h : Recorded c ch)
    (hkey : ch = ⟨some 'k', .modeKey, .add⟩ → FixedKey d.mode.key ∨ d.mode.key = [])
    (hitem : itemOf d ch = some item) : Sent c item := by
  by_cases hadd : ch = ⟨some 'k', .modeKey, .add⟩
  · rcases hkey hadd with hfixed | hnil
    · exact Or.inl (printed_of_recorded c d ch item h (fun _ => hfixed) hitem)
    · rw [hadd] at hitem
      obtain rfl := Option.some.inj hitem
      exact Or.inr (by rw [keyless, ← hnil]; rfl)
  · exact Or.inl (printed_of_recorded c d ch item h (fun heq => absurd heq hadd) hitem)

theorem Printed.dir_ne (chptr : Channel) (item : Item) (h : Printed chptr item) :
    item.dir ≠ .query := by
  cases h with
  | mask c type n dir hc hn hdir => exact hdir
  | status c status id dir hc hid hdir => exact hdir
  | limitAdd limit hpos hlt => exact Dir.noConfusion
  | limitDel => exact Dir.noConfusion
  | keyAdd key hkey => exact Dir.noConfusion
  | keyDel => exact Dir.noConfusion
  | simple c d dir hc hd hdir => exact hdir

theorem Printed.kind (chptr : Channel) (item : Item) (h : Printed chptr item) :
    ∃ kind, kindOf item.letter = some kind := by
  cases h with
  | mask c type n dir hc hn hdir => exact ⟨_, hc⟩
  | status c status id dir hc hid hdir => exact ⟨_, hc⟩
  | limitAdd limit hpos hlt => exact ⟨_, rfl⟩
  | limitDel => exact ⟨_, rfl⟩
  | keyAdd key hkey => exact ⟨_, rfl⟩
  | keyDel => exact ⟨_, rfl⟩
  | simple c d dir hc hd hdir => exact ⟨_, hc⟩

theorem Sent.dir_ne (chptr : Channel) (item : Item) (h : Sent chptr item) : item.dir ≠ .query := by
  rcases h with h | rfl
  · exact h.dir_ne
  · exact Dir.noConfusion

theorem Sent.kind (chptr : Channel) (item : Item) (h : Sent chptr item) :
    ∃ kind, kindOf item.letter = some kind := by
  rcases h with h | rfl
  · exact h.kind
  · exact ⟨.key, rfl⟩

theorem word_validId (id : CStr) (h : ValidId id) : Word id := by
  obtain ⟨c, s, heq, hdigit⟩ := h.digit
  refine ⟨by simp [heq], fun hspace => ?_, fun hcolon => ?_⟩
  · rcases h.alnum ' ' hspace with hbad | hbad
    · exact absurd hbad (by decide)
    · exact absurd hbad (by decide)
  · rw [heq] at hcolon
    rw [Option.some.inj hcolon] at hdigit
    exact absurd hdigit (by decide)

theorem word_nuhText (n : Nuh) (h : Valid n) : Word (nuhText n) := by
  obtain ⟨hspace, hne⟩ := nuhText_word n h
  refine ⟨hne, hspace, ?_⟩
  have hcolon := h.no_colon
  cases hname : n.name with
  | nil => exact absurd hname h.name_ne
  | cons c s => simpa [nuhText, hname] using hcolon

theorem fixedKey_clean (key : CStr) (h : FixedKey key) (c : Char) (hc : c ∈ key) :
    c ≠ ':' ∧ ' ' < c ∧ c ≠ ',' := by
  rw [← h.fixed] at hc
  exact fixKey_clean key c hc

theorem word_fixedKey (key : CStr) (h : FixedKey key) : Word key := by
  refine ⟨h.ne_nil, fun hspace => ?_, fun hcolon => ?_⟩
  · exact absurd (fixedKey_clean key h ' ' hspace).2.1 (by decide)
  · exact (fixedKey_clean key h ':' (List.mem_of_mem_head? hcolon)).1 rfl

theorem signedDecimal_length_le (limit : ℤ) (hpos : 0 < limit) (hlt : limit < 2 ^ 31) :
    (signedDecimal limit).length ≤ 11 := by
  have hlen := signedDecimal_length (BitVec.ofInt 32 limit)
  have hvalue : (BitVec.ofInt 32 limit).toInt = limit := by
    rw [BitVec.toInt_ofInt, Int.bmod_eq_of_le (by omega) (by omega)]
  rwa [hvalue] at hlen

theorem printed_arg (chptr : Channel) (item : Item) (arg : CStr) (h : Printed chptr item)
    (hids : ∀ member ∈ chptr.members, ValidId member.id) (harg : item.arg = some arg) :
    Word arg ∧ arg.length ≤ 117 := by
  cases h with
  | mask c type n dir hc hn hdir =>
    obtain rfl := Option.some.inj harg
    exact ⟨word_nuhText n hn, nuhText_length_le n hn⟩
  | status c status id dir hc hid hdir =>
    obtain rfl := Option.some.inj harg
    obtain ⟨member, hmember, rfl⟩ := List.mem_map.mp hid
    have hvalid := hids member hmember
    have hlen : member.id.length ≤ 12 := hvalid.len
    exact ⟨word_validId _ hvalid, by omega⟩
  | limitAdd limit hpos hlt =>
    obtain rfl := Option.some.inj harg
    have hlen := signedDecimal_length_le limit hpos hlt
    exact ⟨word_signedDecimal limit, by omega⟩
  | limitDel => simp at harg
  | keyAdd key hkey =>
    obtain rfl := Option.some.inj harg
    have hlen : key.length ≤ 23 := hkey.len
    exact ⟨word_fixedKey key hkey, by omega⟩
  | keyDel =>
    obtain rfl := Option.some.inj harg
    exact ⟨⟨by decide, by decide, by decide⟩, by decide⟩
  | simple c d dir hc hd hdir => simp at harg

theorem sent_arg (chptr : Channel) (item : Item) (arg : CStr) (h : Sent chptr item)
    (hids : ∀ member ∈ chptr.members, ValidId member.id) (harg : item.arg = some arg) :
    (arg = [] ∨ Word arg) ∧ arg.length ≤ 117 := by
  rcases h with h | rfl
  · exact (printed_arg chptr item arg h hids harg).imp_left Or.inr
  · obtain rfl := Option.some.inj harg
    exact ⟨Or.inl rfl, Nat.zero_le _⟩

theorem modeFunc_mask (source : Setter) (dir : Dir) (c : Char) (s : ModeState) (type : ListType)
    (h : kindOf c = some (.mask type)) : modeFunc source dir c s = chmMask type source dir c s := by
  unfold kindOf at h
  split at h
  all_goals first
    | (obtain rfl := Kind.mask.inj (Option.some.inj h); rfl)
    | simp at h

theorem status_letter (c : Char) (status : Status) (h : kindOf c = some (.status status)) :
    (c = 'h' ∧ status = .halfop) ∨ (c = 'o' ∧ status = .chanop) ∨ (c = 'v' ∧ status = .voice) := by
  unfold kindOf at h
  split at h
  all_goals first
    | (obtain rfl := Kind.status.inj (Option.some.inj h); decide)
    | simp at h

/-- The functions for `o`, `h` and `v` differ in the access they ask for. -/
theorem modeFunc_status (source : Setter) (dir : Dir) (c : Char) (s : ModeState)
    (status : Status) (h : kindOf c = some (.status status)) :
    ∃ need redundant, modeFunc source dir c s = chmMember need status redundant source dir c s ∧
      need.level ≤ Access.chanop.level ∧
      ∀ dir has, redundant dir has = true → has = (dir == Dir.add) := by
  have hboth : ∀ dir has, ((dir == Dir.add && has) || (dir == Dir.del && !has)) = true →
      has = (dir == Dir.add) := by
    intro dir has
    cases dir <;> cases has <;> decide
  have hop : ∀ dir has, (dir == Dir.del && !has) = true → has = (dir == Dir.add) := by
    intro dir has
    cases dir <;> cases has <;> decide
  rcases status_letter c status h with ⟨rfl, rfl⟩ | ⟨rfl, rfl⟩ | ⟨rfl, rfl⟩
  · exact ⟨.chanop, _, rfl, by decide, hboth⟩
  · exact ⟨.chanop, _, rfl, by decide, hop⟩
  · exact ⟨.halfop, _, rfl, by decide, hboth⟩

theorem modeFunc_simple (link : Link) (id : CStr) (service : Bool) (dir : Dir) (c : Char)
    (s : ModeState) (d : SimpleMode) (h : kindOf c = some (.simple d)) (hd : d ≠ .registered) :
    modeFunc (remoteSetter link (.client id service)) dir c s = setSimple dir c d s := by
  unfold kindOf at h
  split at h
  all_goals first
    | (obtain rfl := Kind.simple.inj (Option.some.inj h); exact absurd rfl hd)
    | (obtain rfl := Kind.simple.inj (Option.some.inj h); rfl)
    | simp at h
  next hI hO hb he hh hk hl ho hr hv =>
  have hdefault := modeFunc.eq_11 (remoteSetter link (.client id service)) dir c s hI hO hb he hh
    hk hl ho hr hv
  rw [hdefault, h]
  rfl

/-- Setting a flag that is set, or clearing one that is not, leaves the members alone. -/
theorem setMember_redundant (chptr : Channel) (member : Membership) (status : Status) (b : Bool)
    (hmember : member ∈ chptr.members) (hflag : hasFlag member.flags status = b)
    (hnodup : (chptr.members.map Membership.id).Nodup) :
    setMember chptr member.id status b = chptr := by
  have hmap : chptr.members.map (fun m =>
      if m.id = member.id then { m with flags := setFlag m.flags b status } else m) =
      chptr.members := by
    conv_rhs => rw [← List.map_id chptr.members]
    apply List.map_congr_left
    intro m hm
    split
    · next heq =>
      have hsame : m = member := List.inj_on_of_nodup_map hnodup hm hmember heq
      subst hsame
      subst hflag
      obtain ⟨id, chanop, halfop, voice⟩ := m
      cases status <;> rfl
    · rfl
  unfold setMember
  rw [hmap]

theorem findChannelLink_of_mem (chptr : Channel) (id : CStr)
    (h : id ∈ chptr.members.map Membership.id) :
    ∃ member, findChannelLink chptr id = some member ∧ member ∈ chptr.members ∧
      member.id = id := by
  obtain ⟨m, hm, heq⟩ := List.mem_map.mp h
  cases hfind : findChannelLink chptr id with
  | none =>
    unfold findChannelLink at hfind
    have hnone := List.find?_eq_none.mp hfind m hm
    exact absurd heq (by simpa using hnone)
  | some member => exact ⟨member, rfl, mem_of_findChannelLink chptr id member hfind⟩

theorem remote_level (link : Link) (id : CStr) (service : Bool) (need : Access)
    (h : need.level ≤ Access.chanop.level) :
    ¬ ((remoteSetter link (.client id service)).alev.level < need.level ∧
      !(remoteSetter link (.client id service)).opme) := by
  have hremote : (remoteSetter link (.client id service)).alev.level = 3 := rfl
  have hchanop : Access.chanop.level = 2 := rfl
  intro hlow
  omega

/-- What the state looks like behind a change: the parameters and the simple modes it uses. -/
structure Applied (s s' : ModeState) (item : Item) (rest : List CStr) : Prop where
  chptr : s'.chptr = applyItem s.chptr item
  params : s'.params = rest
  mask : ∀ d, d ∈ s'.simpleModesMask → d ∈ s.simpleModesMask ∨ simpleOf item = some d

theorem applyItem_of_kind (chptr : Channel) (c : Char) (arg : Option CStr) (dir : Dir)
    (kind : Kind) (h : kindOf c = some kind) :
    applyItem chptr ⟨c, arg, dir⟩ = applyKind chptr kind (arg.getD []) dir := by
  unfold applyItem
  rw [h]

theorem addMask_of_not_added (chptr : Channel) (type : ListType) (n : Nuh)
    (h : ¬ (addMask chptr type n).2 = true) : (addMask chptr type n).1 = chptr := by
  unfold addMask at h ⊢
  split
  · rfl
  · next hany =>
    rw [if_neg hany] at h
    exact absurd rfl h

theorem delMask_of_not_deleted (chptr : Channel) (type : ListType) (n : Nuh)
    (h : ¬ (delMask chptr type n).2 = true) : (delMask chptr type n).1 = chptr := by
  unfold delMask at h ⊢
  split
  · next hany =>
    rw [if_pos hany] at h
    exact absurd rfl h
  · rfl

theorem setMask_remote (link : Link) (id : CStr) (service : Bool) (type : ListType) (dir : Dir)
    (c : Char) (n : Nuh) (s : ModeState) (hn : Valid n) :
    (setMask type (remoteSetter link (.client id service)) dir c (nuhText n) s).chptr =
        applyKind s.chptr (.mask type) (nuhText n) dir ∧
      (setMask type (remoteSetter link (.client id service)) dir c (nuhText n) s).params =
        s.params ∧
      (setMask type (remoteSetter link (.client id service)) dir c (nuhText n) s).simpleModesMask =
        s.simpleModesMask := by
  have hword := word_nuhText n hn
  have hclean : ¬ ((nuhText n).head? = some ':' ∨
      (!(remoteSetter link (.client id service)).myConnect ∧ ' ' ∈ nuhText n)) := by
    intro hor
    exact hor.elim hword.no_colon (fun hand => hword.no_space hand.2)
  have hclient : (remoteSetter link (.client id service)).myClient = false := rfl
  unfold setMask
  rw [if_neg hclean]
  by_cases hadd : dir = .add
  · rw [if_pos hadd]
    simp only [hclient, Bool.false_eq_true, if_false]
    unfold applyKind
    dsimp only
    rw [if_pos hadd]
    show (if (addMask s.chptr type (maskOf (nuhText n))).2 then _ else s).chptr = _ ∧
      (if (addMask s.chptr type (maskOf (nuhText n))).2 then _ else s).params = _ ∧
      (if (addMask s.chptr type (maskOf (nuhText n))).2 then _ else s).simpleModesMask = _
    by_cases hadded : (addMask s.chptr type (maskOf (nuhText n))).2 = true
    · rw [if_pos hadded]
      exact ⟨rfl, rfl, rfl⟩
    · rw [if_neg hadded]
      exact ⟨(addMask_of_not_added _ _ _ hadded).symm, rfl, rfl⟩
  · rw [if_neg hadd]
    unfold applyKind
    dsimp only
    rw [if_neg hadd]
    show (if (delMask s.chptr type (maskOf (nuhText n))).2 then _ else s).chptr = _ ∧
      (if (delMask s.chptr type (maskOf (nuhText n))).2 then _ else s).params = _ ∧
      (if (delMask s.chptr type (maskOf (nuhText n))).2 then _ else s).simpleModesMask = _
    by_cases hdel : (delMask s.chptr type (maskOf (nuhText n))).2 = true
    · rw [if_pos hdel]
      exact ⟨rfl, rfl, rfl⟩
    · rw [if_neg hdel]
      exact ⟨(delMask_of_not_deleted _ _ _ hdel).symm, rfl, rfl⟩

theorem chmMask_applied (link : Link) (id : CStr) (service : Bool) (type : ListType) (dir : Dir)
    (c : Char) (n : Nuh) (s : ModeState) (rest : List CStr) (hn : Valid n)
    (hc : kindOf c = some (.mask type)) (hdir : dir ≠ .query)
    (hparams : s.params = nuhText n :: rest) :
    Applied s (chmMask type (remoteSetter link (.client id service)) dir c s)
      ⟨c, some (nuhText n), dir⟩ rest := by
  have hlen := nuhText_length_le n hn
  have hsize : IRCD_BUFSIZE = 512 := rfl
  have hcut : strlcpy (nuhText n) IRCD_BUFSIZE = nuhText n := by
    apply List.take_of_length_le
    omega
  obtain ⟨hchptr, hrest, hmask⟩ :=
    setMask_remote link id service type dir c n { s with params := rest } hn
  have heq : chmMask type (remoteSetter link (.client id service)) dir c s =
      setMask type (remoteSetter link (.client id service)) dir c (nuhText n)
        { s with params := rest } := by
    unfold chmMask
    rw [if_neg hdir, hparams]
    dsimp only
    rw [if_neg (remote_level link id service .halfop (by decide)), hcut]
    rfl
  rw [heq]
  refine ⟨?_, hrest, fun d hd => Or.inl ?_⟩
  · rw [applyItem_of_kind _ _ _ _ _ hc]
    exact hchptr
  · rwa [hmask] at hd

theorem chmMember_applied (link : Link) (uid : CStr) (service : Bool) (need : Access)
    (status : Status) (redundant : Dir → Bool → Bool) (dir : Dir) (c : Char) (id : CStr)
    (s : ModeState) (rest : List CStr) (hneed : need.level ≤ Access.chanop.level)
    (hred : ∀ dir has, redundant dir has = true → has = (dir == Dir.add))
    (hc : kindOf c = some (.status status)) (hdir : dir ≠ .query)
    (hid : id ∈ s.chptr.members.map Membership.id)
    (hnodup : (s.chptr.members.map Membership.id).Nodup)
    (hfind : link.findChasing id = some id) (hparams : s.params = id :: rest) :
    Applied s (chmMember need status redundant (remoteSetter link (.client uid service)) dir c s)
      ⟨c, some id, dir⟩ rest := by
  have hlevel := remote_level link uid service need hneed
  obtain ⟨member, hlink, hmember, heq⟩ := findChannelLink_of_mem s.chptr id hid
  have hchase : (remoteSetter link (.client uid service)).findChasing id = some id := hfind
  have hcount : countLimit (remoteSetter link (.client uid service)) { s with params := rest } =
      ({ s with params := rest }, false) := rfl
  unfold chmMember
  rw [if_neg hlevel, if_neg hdir, hparams]
  dsimp only
  rw [hchase]
  dsimp only
  rw [hlink]
  dsimp only
  rw [hcount]
  dsimp only
  rw [if_neg (by simp)]
  split
  · next hskip =>
    refine ⟨?_, rfl, fun d hd => Or.inl hd⟩
    rw [applyItem_of_kind _ _ _ _ _ hc]
    show s.chptr = setMember s.chptr id status (dir == Dir.add)
    rw [← heq, setMember_redundant s.chptr member status _ hmember (hred dir _ hskip) hnodup]
  · refine ⟨?_, rfl, fun d hd => Or.inl hd⟩
    rw [applyItem_of_kind _ _ _ _ _ hc]
    rfl

theorem chmLimit_add_applied (link : Link) (id : CStr) (service : Bool) (limit : ℤ)
    (s : ModeState) (rest : List CStr) (hpos : 0 < limit) (hlt : limit < 2 ^ 31)
    (hparams : s.params = signedDecimal limit :: rest) :
    Applied s (chmLimit (remoteSetter link (.client id service)) .add 'l' s)
      ⟨'l', some (signedDecimal limit), .add⟩ rest := by
  have hatoi := ofInt_atoi_signedDecimal_of_lt limit hpos hlt
  have hnot : ¬ atoi (signedDecimal limit) ≤ 0 := by omega
  unfold chmLimit
  rw [if_neg (remote_level link id service .halfop (by decide)), hparams]
  dsimp only
  rw [if_neg hnot]
  exact ⟨rfl, rfl, fun d hd => Or.inl hd⟩

theorem chmLimit_del_applied (link : Link) (id : CStr) (service : Bool) (s : ModeState) :
    Applied s (chmLimit (remoteSetter link (.client id service)) .del 'l' s) ⟨'l', none, .del⟩
      s.params := by
  unfold chmLimit
  rw [if_neg (remote_level link id service .halfop (by decide))]
  dsimp only
  split
  · next hzero =>
    refine ⟨?_, rfl, fun d hd => Or.inl hd⟩
    show s.chptr = setLimit s.chptr 0
    unfold setLimit
    rw [← hzero]
  · exact ⟨rfl, rfl, fun d hd => Or.inl hd⟩

theorem chmKey_add_applied (link : Link) (id : CStr) (service : Bool) (key : CStr)
    (s : ModeState) (rest : List CStr) (hkey : FixedKey key) (hparams : s.params = key :: rest) :
    Applied s (chmKey (remoteSetter link (.client id service)) .add 'k' s)
      ⟨'k', some key, .add⟩ rest := by
  unfold chmKey
  rw [if_neg (remote_level link id service .halfop (by decide)), hparams]
  dsimp only
  rw [hkey.fixed, if_neg hkey.ne_nil, strlcpy_of_le key KEYLEN hkey.len]
  exact ⟨rfl, rfl, fun d hd => Or.inl hd⟩

theorem chmKey_del_applied (link : Link) (id : CStr) (service : Bool) (s : ModeState)
    (rest : List CStr) (hparams : s.params.tail = rest) :
    Applied s (chmKey (remoteSetter link (.client id service)) .del 'k' s) keyGone rest := by
  unfold chmKey
  rw [if_neg (remote_level link id service .halfop (by decide)), hparams]
  dsimp only
  split
  · next hzero =>
    refine ⟨?_, rfl, fun d hd => Or.inl hd⟩
    show s.chptr = setKey s.chptr []
    unfold setKey
    rw [← hzero]
  · exact ⟨rfl, rfl, fun d hd => Or.inl hd⟩

theorem setSimple_applied (dir : Dir) (c : Char) (d : SimpleMode) (s : ModeState)
    (hc : kindOf c = some (.simple d)) (hdir : dir ≠ .query) (hnew : d ∉ s.simpleModesMask) :
    Applied s (setSimple dir c d s) ⟨c, none, dir⟩ s.params := by
  have hsimple : simpleOf ⟨c, none, dir⟩ = some d := by
    unfold simpleOf
    rw [hc]
    rfl
  have hmask : ∀ e, e ∈ insert d s.simpleModesMask → e ∈ s.simpleModesMask ∨
      simpleOf ⟨c, none, dir⟩ = some e := by
    intro e he
    rcases Finset.mem_insert.mp he with heq | he
    · exact Or.inr (by rw [hsimple, heq])
    · exact Or.inl he
  have happly := applyItem_of_kind s.chptr c none dir _ hc
  unfold setSimple
  rw [if_neg hnew]
  cases dir with
  | query => exact absurd rfl hdir
  | add => exact ⟨happly.symm, rfl, hmask⟩
  | del => exact ⟨happly.symm, rfl, hmask⟩

theorem modeFunc_applied (link : Link) (uid : CStr) (service : Bool) (c : Channel) (item : Item)
    (s : ModeState) (rest : List CStr) (h : Printed c item)
    (hids : ∀ id ∈ c.members.map Membership.id, id ∈ s.chptr.members.map Membership.id)
    (hnodup : (s.chptr.members.map Membership.id).Nodup)
    (hfind : ∀ id ∈ c.members.map Membership.id, link.findChasing id = some id)
    (hparams : s.params = item.arg.toList ++ rest)
    (hnew : ∀ d, simpleOf item = some d → d ∉ s.simpleModesMask) :
    Applied s (modeFunc (remoteSetter link (.client uid service)) item.dir item.letter s) item
      rest := by
  cases h with
  | mask c type n dir hc hn hdir =>
    rw [modeFunc_mask _ _ _ _ type hc]
    exact chmMask_applied link uid service type dir c n s rest hn hc hdir hparams
  | status c status id dir hc hid hdir =>
    obtain ⟨need, redundant, heq, hneed, hred⟩ :=
      modeFunc_status (remoteSetter link (.client uid service)) dir c s status hc
    rw [heq]
    exact chmMember_applied link uid service need status redundant dir c id s rest hneed hred hc
      hdir (hids id hid) hnodup (hfind id hid) hparams
  | limitAdd limit hpos hlt =>
    exact chmLimit_add_applied link uid service limit s rest hpos hlt hparams
  | limitDel =>
    have hrest : s.params = rest := hparams
    rw [← hrest]
    exact chmLimit_del_applied link uid service s
  | keyAdd key hkey => exact chmKey_add_applied link uid service key s rest hkey hparams
  | keyDel => exact chmKey_del_applied link uid service s rest (by rw [hparams]; rfl)
  | simple c d dir hc hd hdir =>
    have hrest : s.params = rest := hparams
    rw [modeFunc_simple link uid service dir c s d hc hd, ← hrest]
    apply setSimple_applied dir c d s hc hdir
    apply hnew d
    unfold simpleOf
    rw [hc]
    rfl

/-- The letters with a sign wherever the direction changes. -/
def lettersOf : Dir → List Item → CStr
  | _, [] => []
  | dir, item :: items =>
    (if dir = item.dir then [] else [signOf item.dir]) ++
      item.letter :: lettersOf item.dir items

theorem lettersOf_cons (dir : Dir) (item : Item) (items : List Item) :
    lettersOf dir (item :: items) = (if dir = item.dir then [] else [signOf item.dir]) ++
      item.letter :: lettersOf item.dir items := rfl

def argsOf (items : List Item) : List CStr := items.filterMap Item.arg

theorem argsOf_cons (item : Item) (items : List Item) :
    argsOf (item :: items) = item.arg.toList ++ argsOf items := by
  unfold argsOf
  rw [List.filterMap_cons]
  cases item.arg <;> rfl

def pushItem (st : LineState) (item : Item) : LineState := st.push item.letter item.arg item.dir

/-- The line that takes all these changes. -/
def lineOf (items : List Item) : LineState := items.foldl pushItem emptyLine

theorem foldl_pushItem (items : List Item) (st : LineState) :
    (items.foldl pushItem st).letters = st.letters ++ lettersOf st.dir items ∧
      (items.foldl pushItem st).parabuf =
        st.parabuf ++ (argsOf items).flatMap (fun arg => arg ++ [' ']) ∧
      (items.foldl pushItem st).nc = st.nc + items.length ∧
      (items.foldl pushItem st).mc = st.mc + (argsOf items).length := by
  induction items generalizing st with
  | nil => exact ⟨by simp [lettersOf], by simp [argsOf], rfl, rfl⟩
  | cons item items ih =>
    obtain ⟨hletters, hpara, hnc, hmc⟩ := ih (pushItem st item)
    have hpush : (pushItem st item).letters = st.letters ++
          ((if st.dir = item.dir then [] else [signOf item.dir]) ++ [item.letter]) ∧
        (pushItem st item).parabuf =
          st.parabuf ++ item.arg.toList.flatMap (fun arg => arg ++ [' ']) ∧
        (pushItem st item).nc = st.nc + 1 ∧ (pushItem st item).mc = st.mc + item.arg.toList.length ∧
        (pushItem st item).dir = item.dir := by
      unfold pushItem LineState.push
      by_cases hdir : st.dir = item.dir
      · cases item.arg <;> simp [hdir]
      · cases item.arg <;> simp [hdir]
    obtain ⟨h1, h2, h3, h4, h5⟩ := hpush
    rw [List.foldl_cons]
    refine ⟨?_, ?_, ?_, ?_⟩
    · rw [hletters, h1, h5, lettersOf]
      simp
    · rw [hpara, h2, argsOf_cons, List.flatMap_append, List.append_assoc]
    · rw [hnc, h3, List.length_cons]
      omega
    · rw [hmc, h4, argsOf_cons, List.length_append]
      omega

theorem lettersOf_length (dir : Dir) (items : List Item) :
    (lettersOf dir items).length ≤ 2 * items.length := by
  induction items generalizing dir with
  | nil => exact le_refl _
  | cons item items ih =>
    have htail := ih item.dir
    unfold lettersOf
    simp only [List.length_append, List.length_cons]
    split_ifs <;> simp <;> omega

theorem kindOf_sign (c : Char) (kind : Kind) (h : kindOf c = some kind) :
    c ≠ '+' ∧ c ≠ '-' ∧ c ≠ '=' ∧ c ≠ ' ' ∧ c ≠ ':' := by
  refine ⟨?_, ?_, ?_, ?_, ?_⟩
  all_goals
    intro heq
    rw [heq] at h
    exact absurd h (by decide +revert)

theorem modeStep_sign (source : Setter) (st : Dir × ModeState) (dir : Dir) (h : dir ≠ .query) :
    modeStep source st (signOf dir) = (dir, st.2) := by
  cases dir with
  | query => exact absurd rfl h
  | add => rfl
  | del => rfl

theorem modeStep_letter (source : Setter) (st : Dir × ModeState) (c : Char) (kind : Kind)
    (h : kindOf c = some kind) : modeStep source st c = (st.1, modeFunc source st.1 c st.2) := by
  obtain ⟨hplus, hminus, hequal, _, _⟩ := kindOf_sign c kind h
  unfold modeStep
  rw [if_neg hplus, if_neg hminus, if_neg hequal]

theorem applyItem_ids (c : Channel) (item : Item) :
    (applyItem c item).members.map Membership.id = c.members.map Membership.id := by
  unfold applyItem
  split
  · exact applyKind_ids c _ _ _
  · rfl

theorem foldl_applyItem_ids (items : List Item) (q : Channel) :
    (items.foldl applyItem q).members.map Membership.id = q.members.map Membership.id := by
  induction items generalizing q with
  | nil => rfl
  | cons item items ih => rw [List.foldl_cons, ih, applyItem_ids]

theorem simples_cons (item : Item) (items : List Item) :
    simples (item :: items) = (simpleOf item).toList ++ simples items := by
  unfold simples
  rw [List.filterMap_cons]
  cases simpleOf item <;> rfl

/-- What the reading server makes of one letter, with the parameters before and behind it: a +k
without its key takes the next one, and a -k does without. -/
inductive Hears (c : Channel) : Item → List CStr → List CStr → List Item → Prop
  | printed (item : Item) (rest : List CStr) (h : Printed c item) :
      Hears c item (item.arg.toList ++ rest) rest [item]
  | keyNext (rest : List CStr) : Hears c keyless (['*'] :: rest) rest [⟨'k', some ['*'], .add⟩]
  | keyNone : Hears c keyless [] [] []
  | delNone : Hears c keyGone [] [] [keyGone]

inductive Heard (c : Channel) : List Item → List CStr → List Item → Prop
  | nil : Heard c [] [] []
  | cons (item : Item) (args rest : List CStr) (now items later : List Item)
      (first : Hears c item args rest now) (tail : Heard c items rest later) :
      Heard c (item :: items) args (now ++ later)

theorem hears_sent (c : Channel) (item : Item) (args rest : List CStr) (now : List Item)
    (h : Hears c item args rest now) : Sent c item := by
  cases h with
  | printed _ _ h => exact Or.inl h
  | keyNext => exact Or.inr rfl
  | keyNone => exact Or.inr rfl
  | delNone => exact Or.inl Printed.keyDel

theorem modeFunc_hears (link : Link) (uid : CStr) (service : Bool) (c : Channel) (item : Item)
    (s : ModeState) (rest : List CStr) (now : List Item) (h : Hears c item s.params rest now)
    (hids : ∀ id ∈ c.members.map Membership.id, id ∈ s.chptr.members.map Membership.id)
    (hnodup : (s.chptr.members.map Membership.id).Nodup)
    (hfind : ∀ id ∈ c.members.map Membership.id, link.findChasing id = some id)
    (hnew : ∀ d, simpleOf item = some d → d ∉ s.simpleModesMask) :
    (modeFunc (remoteSetter link (.client uid service)) item.dir item.letter s).chptr =
        now.foldl applyItem s.chptr ∧
      (modeFunc (remoteSetter link (.client uid service)) item.dir item.letter s).params = rest ∧
      ∀ d ∈ (modeFunc (remoteSetter link (.client uid service)) item.dir item.letter s).simpleModesMask,
        d ∈ s.simpleModesMask ∨ simpleOf item = some d := by
  generalize hparams : s.params = args at h
  cases h with
  | printed _ _ h =>
    have happlied := modeFunc_applied link uid service c item s rest h hids hnodup hfind hparams hnew
    exact ⟨happlied.chptr, happlied.params, happlied.mask⟩
  | keyNext =>
    have happlied := chmKey_add_applied link uid service ['*'] s rest ⟨by decide, by decide, by decide⟩
      hparams
    exact ⟨happlied.chptr, happlied.params, fun d hd => happlied.mask d hd⟩
  | keyNone =>
    have hsame : chmKey (remoteSetter link (.client uid service)) .add 'k' s = s := by
      unfold chmKey
      rw [hparams]
      exact ite_self s
    show (chmKey _ .add 'k' s).chptr = _ ∧ (chmKey _ .add 'k' s).params = _ ∧
      ∀ d ∈ (chmKey _ .add 'k' s).simpleModesMask, _
    rw [hsame]
    exact ⟨rfl, hparams, fun d hd => Or.inl hd⟩
  | delNone =>
    have happlied := chmKey_del_applied link uid service s [] (by rw [hparams]; rfl)
    exact ⟨happlied.chptr, happlied.params, fun d hd => happlied.mask d hd⟩

/-- The signs in front of a letter set the direction it is read in. -/
theorem foldl_lettersOf_cons (source : Setter) (item : Item) (items : List Item) (dir : Dir)
    (st : Dir × ModeState) (hquery : item.dir ≠ .query) (kind : Kind)
    (hkind : kindOf item.letter = some kind) (hdir : dir ≠ .query → st.1 = dir) :
    (lettersOf dir (item :: items)).foldl (modeStep source) st =
      (lettersOf item.dir items).foldl (modeStep source)
        (item.dir, modeFunc source item.dir item.letter st.2) := by
  rw [lettersOf_cons]
  split
  · next heq =>
    have hst : st.1 = item.dir := by
      rw [← heq] at hquery ⊢
      exact hdir hquery
    rw [List.nil_append, List.foldl_cons, modeStep_letter _ _ _ kind hkind, hst]
  · rw [List.singleton_append, List.foldl_cons, List.foldl_cons,
      modeStep_sign _ _ _ hquery, modeStep_letter _ _ _ kind hkind]

/-- Reading the letters: one after the other they carry out what is heard. -/
theorem foldl_lettersOf (link : Link) (uid : CStr) (service : Bool) (c : Channel)
    (items : List Item) (args : List CStr) (heard : List Item) (dir : Dir) (st : Dir × ModeState)
    (hheard : Heard c items args heard) (hdir : dir ≠ .query → st.1 = dir)
    (hids : ∀ id ∈ c.members.map Membership.id, id ∈ st.2.chptr.members.map Membership.id)
    (hnodup : (st.2.chptr.members.map Membership.id).Nodup)
    (hfind : ∀ id ∈ c.members.map Membership.id, link.findChasing id = some id)
    (hparams : st.2.params = args) (hsimple : (simples items).Nodup)
    (hnew : ∀ d ∈ simples items, d ∉ st.2.simpleModesMask) :
    ((lettersOf dir items).foldl (modeStep (remoteSetter link (.client uid service))) st).2.chptr =
      heard.foldl applyItem st.2.chptr := by
  induction hheard generalizing dir st with
  | nil => rfl
  | cons item args rest now items later hfirst _ ih =>
    have hsent := hears_sent c item args rest now hfirst
    obtain ⟨kind, hkind⟩ := hsent.kind
    rw [simples_cons] at hsimple hnew
    obtain ⟨hchptr, hrest, hmask⟩ := modeFunc_hears link uid service c item st.2 rest now
      (by rw [hparams]; exact hfirst) hids hnodup hfind
      (fun d hd => hnew d (List.mem_append_left _ (by simp [hd])))
    have hids' := foldl_applyItem_ids now st.2.chptr
    rw [foldl_lettersOf_cons _ item items dir st hsent.dir_ne kind hkind hdir, List.foldl_append,
      ← hchptr]
    apply ih item.dir
    · exact fun _ => rfl
    · dsimp only
      rw [hchptr, hids']
      exact hids
    · dsimp only
      rw [hchptr, hids']
      exact hnodup
    · exact hrest
    · exact (List.nodup_append.mp hsimple).2.1
    · intro d hd hmem
      rcases hmask d hmem with hold | hown
      · exact hnew d (List.mem_append_right _ hd) hold
      · have hfirst : d ∈ (simpleOf item).toList := by simp [hown]
        exact (List.nodup_append.mp hsimple).2.2 d hfirst d hd rfl

theorem heard_append (c : Channel) (items later heard : List Item) (args : List CStr)
    (hprinted : ∀ item ∈ items, Printed c item) (h : Heard c later args heard) :
    Heard c (items ++ later) (argsOf items ++ args) (items ++ heard) := by
  induction items with
  | nil => exact h
  | cons item items ih =>
    have htail := ih (fun i hi => hprinted i (List.mem_cons_of_mem item hi))
    rw [argsOf_cons, List.append_assoc]
    exact Heard.cons item _ _ [item] _ _
      (Hears.printed item _ (hprinted item List.mem_cons_self)) htail

theorem argsOf_append (items later : List Item) :
    argsOf (items ++ later) = argsOf items ++ argsOf later := List.filterMap_append

theorem filled_append (ws us : List CStr) : filled (ws ++ us) = filled ws ++ filled us :=
  List.filter_append ws us

theorem filled_argsOf (c : Channel) (items : List Item) (hprinted : ∀ item ∈ items, Printed c item)
    (hids : ∀ member ∈ c.members, ValidId member.id) : filled (argsOf items) = argsOf items := by
  apply filled_words
  intro w hw
  obtain ⟨item, hitem, harg⟩ := List.mem_filterMap.mp hw
  exact (printed_arg c item w (hprinted item hitem) hids harg).1

theorem heard_printed (c : Channel) (items : List Item) (hprinted : ∀ item ∈ items, Printed c item)
    (hids : ∀ member ∈ c.members, ValidId member.id) :
    Heard c items (filled (argsOf items)) items := by
  have happend := heard_append c items [] [] [] hprinted Heard.nil
  rw [filled_argsOf c items hprinted hids]
  simpa using happend

theorem heard_keyless (c : Channel) (before rest heard : List Item)
    (hbefore : ∀ item ∈ before, Printed c item) (hrest : ∀ item ∈ rest, Printed c item)
    (hids : ∀ member ∈ c.members, ValidId member.id)
    (h : Heard c (keyless :: rest) (argsOf rest) heard) :
    Heard c (before ++ keyless :: rest) (filled (argsOf (before ++ keyless :: rest)))
      (before ++ heard) := by
  have hargs : filled (argsOf (before ++ keyless :: rest)) = argsOf before ++ argsOf rest := by
    rw [argsOf_append, filled_append, filled_argsOf c before hbefore hids]
    congr 1
    exact filled_argsOf c rest hrest hids
  rw [hargs]
  exact heard_append c before _ _ _ hbefore h

theorem mem_lettersOf (c : Channel) (items : List Item) (dir : Dir) (ch : Char)
    (hsent : ∀ item ∈ items, Sent c item) (h : ch ∈ lettersOf dir items) :
    ch ≠ ' ' ∧ ch ≠ ':' := by
  induction items generalizing dir with
  | nil => simp [lettersOf] at h
  | cons item items ih =>
    have hitem := hsent item List.mem_cons_self
    have hsign : signOf item.dir ≠ ' ' ∧ signOf item.dir ≠ ':' := by
      cases item.dir <;> decide
    obtain ⟨kind, hkind⟩ := hitem.kind
    rw [lettersOf_cons] at h
    rcases List.mem_append.mp h with h | h
    · split at h
      · simp at h
      · rw [List.mem_singleton.mp h]
        exact hsign
    · rcases List.mem_cons.mp h with rfl | h
      · exact (kindOf_sign _ kind hkind).2.2.2
      · exact ih item.dir (fun i hi => hsent i (List.mem_cons_of_mem item hi)) h

theorem word_lettersOf (c : Channel) (item : Item) (items : List Item)
    (hsent : ∀ i ∈ item :: items, Sent c i) : Word (lettersOf .query (item :: items)) := by
  have hmem := fun ch hch => mem_lettersOf c (item :: items) .query ch hsent hch
  refine ⟨?_, fun hspace => (hmem ' ' hspace).1 rfl, fun hcolon => ?_⟩
  · unfold lettersOf
    simp
  · exact (hmem ':' (List.mem_of_mem_head? hcolon)).2 rfl

/-- The text of a line, with or without the blank behind the last argument. -/
def tmodeText (uid : CStr) (chptr : Channel) (items : List Item) (tail : CStr) : CStr :=
  lineText uid "TMODE".toList
    ([formatTime chptr.creationtime, chptr.name, lettersOf .query items] ++ argsOf items) tail

theorem tmodeText_eq (uid : CStr) (chptr : Channel) (items : List Item) :
    tmodeHeader uid chptr ++ (lineOf items).letters ++ [' '] ++ (lineOf items).parabuf =
      tmodeText uid chptr items [' '] := by
  obtain ⟨hletters, hpara, _, _⟩ := foldl_pushItem items emptyLine
  have hargs : ∀ args : List CStr, [' '] ++ args.flatMap (fun arg => arg ++ [' ']) =
      spaced args ++ [' '] := by
    intro args
    induction args with
    | nil => rfl
    | cons arg args ih =>
      rw [List.flatMap_cons, spaced_cons, List.append_assoc, ih]
      simp
  unfold lineOf tmodeText tmodeHeader lineText
  rw [hletters, hpara]
  show _ ++ ([] ++ lettersOf .query items) ++ [' '] ++ ([] ++ _) = _
  rw [List.nil_append, List.nil_append, List.append_assoc _ [' '], hargs]
  simp

theorem tmodeText_last (uid : CStr) (chptr : Channel) (items : List Item) :
    ∃ tail, (tail = [] ∨ tail = [' ']) ∧
      tmodeHeader uid chptr ++ (lineOf items).letters ++ [' '] ++
        (if (lineOf items).parabuf.getLast? = some ' ' then (lineOf items).parabuf.dropLast
          else (lineOf items).parabuf) = tmodeText uid chptr items tail := by
  have heq := tmodeText_eq uid chptr items
  split
  · next hlast =>
    refine ⟨[], Or.inl rfl, ?_⟩
    obtain ⟨front, hfront⟩ : ∃ front, (lineOf items).parabuf = front ++ [' '] := by
      exact ⟨_, (List.dropLast_append_getLast? ' ' hlast).symm⟩
    have htail : tmodeText uid chptr items [' '] = tmodeText uid chptr items [] ++ [' '] := by
      unfold tmodeText
      rw [lineText_append]
      rfl
    rw [hfront, List.dropLast_concat]
    rw [hfront, htail, ← List.append_assoc] at heq
    exact List.append_cancel_right heq
  · exact ⟨[' '], Or.inr rfl, heq⟩

end IrcdHybrid.TmodeLines
