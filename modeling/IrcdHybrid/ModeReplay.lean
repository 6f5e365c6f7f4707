import IrcdHybrid.BurstLines
import Mathlib.Data.Finset.Card

/-!
The record of a mode command. Whatever `set_channel_mode` did to the channel is
in its record: carrying out the recorded changes one after the other, each with
the argument that is printed for it, leads from the old channel to the new one.
A recorded +k is printed with the key the channel has in the end, and an earlier
+k or +l is struck out when a later one comes.
-/

namespace IrcdHybrid.ModeReplay

open CString Numeral BanMask Channels Wire Sjoin ChannelMode ChannelTable BurstLines

/-- What a letter of the mode string is about. -/
inductive Kind where
  | mask (type : ListType)
  | status (status : Status)
  | limit
  | key
  | simple (d : SimpleMode)
  deriving DecidableEq

def kindOf (c : Char) : Option Kind :=
  match c with
  | 'I' => some (.mask .invex)
  | 'O' => some (.simple .operonly)
  | 'b' => some (.mask .ban)
  | 'e' => some (.mask .exception)
  | 'h' => some (.status .halfop)
  | 'k' => some .key
  | 'l' => some .limit
  | 'o' => some (.status .chanop)
  | 'r' => some (.simple .registered)
  | 'v' => some (.status .voice)
  | c => (modeBit c).map Kind.simple

/-- One change with the argument that is printed for it. -/
def applyKind (chptr : Channel) (kind : Kind) (arg : CStr) (dir : Dir) : Channel :=
  match kind with
  | .mask type =>
    if dir = .add then (addMask chptr type (maskOf arg)).1 else (delMask chptr type (maskOf arg)).1
  | .status status => setMember chptr arg status (dir == Dir.add)
  | .limit => setLimit chptr (if dir = .add then BitVec.ofInt 32 (atoi arg) else 0)
  | .key => setKey chptr (if dir = .add then arg else [])
  | .simple d =>
    { chptr with mode := { chptr.mode with
        mode := if dir = .add then insert d chptr.mode.mode else chptr.mode.mode.erase d } }

/-- A change as it is printed: the letter, the argument and the direction. -/
structure Item where
  letter : Char
  arg : Option CStr
  dir : Dir
  deriving DecidableEq

def applyItem (chptr : Channel) (item : Item) : Channel :=
  match kindOf item.letter with
  | some kind => applyKind chptr kind (item.arg.getD []) item.dir
  | none => chptr

def itemOf (chptr : Channel) (ch : ModeChange) : Option Item :=
  ch.letter.map (fun c => ⟨c, ch.arg.read chptr, ch.dir⟩)

/-- The changes that are printed when the channel has become `chptr`. -/
def itemsOf (chptr : Channel) (changes : List ModeChange) : List Item :=
  changes.filterMap (itemOf chptr)

/-- `erase` takes away what the changes of its own kind do, and no other change cares. -/
structure Erases (erase : Channel → Channel) (own : Kind) : Prop where
  absorbs : ∀ c arg dir, erase (applyKind c own arg dir) = erase c
  commutes : ∀ c kind arg dir, kind ≠ own →
    erase (applyKind c kind arg dir) = applyKind (erase c) kind arg dir

def Other (own : Kind) (item : Item) : Bool := kindOf item.letter ≠ some own

theorem erase_foldl (erase : Channel → Channel) (own : Kind) (h : Erases erase own)
    (c : Channel) (l : List Item) :
    erase (l.foldl applyItem c) = (l.filter (Other own)).foldl applyItem (erase c) := by
  induction l generalizing c with
  | nil => rfl
  | cons item l ih =>
    rw [List.foldl_cons, ih, List.filter_cons]
    by_cases hown : kindOf item.letter = some own
    · have hother : Other own item = false := by simp [Other, hown]
      have hitem : erase (applyItem c item) = erase c := by
        unfold applyItem
        rw [hown]
        exact h.absorbs c _ _
      rw [hother, hitem]
      rfl
    · have hother : Other own item = true := by simp [Other, hown]
      have hitem : erase (applyItem c item) = applyItem (erase c) item := by
        unfold applyItem
        split
        · next kind hkind => exact h.commutes c kind _ _ (fun heq => hown (by rw [hkind, heq]))
        · rfl
      rw [hother, hitem]
      rfl

theorem delMask_list (chptr : Channel) (type : ListType) (n : Nuh) :
    (delMask chptr type n).1 =
      chptr.setList ((chptr.list type).eraseP (fun ban => sameMask n ban)) type := by
  unfold delMask
  split
  · rfl
  · next hnone =>
    have herase : (chptr.list type).eraseP (fun ban => sameMask n ban) = chptr.list type := by
      apply List.eraseP_of_forall_not
      intro ban hban hsame
      exact hnone (List.any_eq_true.mpr ⟨ban, hban, hsame⟩)
    rw [herase, setList_list]

/-- The list that a change of a mask leaves behind. -/
def changeList (l : List Nuh) (n : Nuh) (dir : Dir) : List Nuh :=
  if dir = .add then insertMask l n else l.eraseP (fun ban => sameMask n ban)

theorem applyKind_mask (c : Channel) (type : ListType) (arg : CStr) (dir : Dir) :
    applyKind c (.mask type) arg dir =
      c.setList (changeList (c.list type) (maskOf arg) dir) type := by
  unfold applyKind changeList
  dsimp only
  split
  · exact addMask_list c type _
  · exact delMask_list c type _

theorem erases_limit : Erases (fun c => setLimit c 0) .limit where
  absorbs := fun _ _ _ => rfl
  commutes := by
    intro c kind arg dir hkind
    cases kind with
    | mask type =>
      rw [applyKind_mask, applyKind_mask]
      cases type <;> rfl
    | status status => rfl
    | limit => exact absurd rfl hkind
    | key => rfl
    | simple d => rfl

theorem erases_key : Erases (fun c => setKey c []) .key where
  absorbs := fun _ _ _ => rfl
  commutes := by
    intro c kind arg dir hkind
    cases kind with
    | mask type =>
      rw [applyKind_mask, applyKind_mask]
      cases type <;> rfl
    | status status => rfl
    | limit => rfl
    | key => exact absurd rfl hkind
    | simple d => rfl

/-- The form of the changes that a client of this server leaves in the record. -/
inductive Recorded (chptr : Channel) : ModeChange → Prop
  | dropped (arg : Arg) (dir : Dir) : Recorded chptr ⟨none, arg, dir⟩
  | mask (c : Char) (type : ListType) (n : Nuh) (dir : Dir) (hc : kindOf c = some (.mask type))
      (hn : Valid n) (hdir : dir ≠ .query) : Recorded chptr ⟨some c, .text (nuhText n), dir⟩
  | status (c : Char) (status : Status) (id : CStr) (dir : Dir)
      (hc : kindOf c = some (.status status)) (hid : id ∈ chptr.members.map Membership.id)
      (hdir : dir ≠ .query) : Recorded chptr ⟨some c, .id id, dir⟩
  | limitAdd (limit : ℤ) (hpos : 0 < limit) (hlt : limit < 2 ^ 31) :
      Recorded chptr ⟨some 'l', .text (signedDecimal limit), .add⟩
  | limitDel : Recorded chptr ⟨some 'l', .null, .del⟩
  | keyAdd : Recorded chptr ⟨some 'k', .modeKey, .add⟩
  | keyDel : Recorded chptr ⟨some 'k', .text ['*'], .del⟩
  | simple (c : Char) (d : SimpleMode) (dir : Dir) (hc : kindOf c = some (.simple d))
      (hd : d ≠ .registered) (hdir : dir ≠ .query) : Recorded chptr ⟨some c, .null, dir⟩

/-- Everything that one letter can do when a client of this server sets the modes. -/
inductive Effect (s : ModeState) : Char → ModeState → Prop
  | skip (c : Char) (params : List CStr) (modeLimit : ℕ) (mask : Finset SimpleMode)
      (hparams : params.length ≤ s.params.length) (hmask : s.simpleModesMask ⊆ mask) :
      Effect s c { s with params := params, modeLimit := modeLimit, simpleModesMask := mask }
  | simple (c : Char) (d : SimpleMode) (dir : Dir) (hc : kindOf c = some (.simple d))
      (hd : d ≠ .registered) (hdir : dir ≠ .query) (hnew : d ∉ s.simpleModesMask) :
      Effect s c ({ s with
        chptr := applyKind s.chptr (.simple d) [] dir
        simpleModesMask := insert d s.simpleModesMask }.record c .null dir)
  | mask (c : Char) (type : ListType) (n : Nuh) (dir : Dir) (params : List CStr) (modeLimit : ℕ)
      (hc : kindOf c = some (.mask type)) (hn : Valid n) (hdir : dir ≠ .query)
      (hparams : params.length < s.params.length) :
      Effect s c ({ s with
        chptr := applyKind s.chptr (.mask type) (nuhText n) dir
        params := params
        modeLimit := modeLimit }.record c (.text (nuhText n)) dir)
  | status (c : Char) (status : Status) (id : CStr) (dir : Dir) (params : List CStr)
      (modeLimit : ℕ) (hc : kindOf c = some (.status status))
      (hid : id ∈ s.chptr.members.map Membership.id) (hdir : dir ≠ .query)
      (hparams : params.length < s.params.length) :
      Effect s c ({ s with
        chptr := applyKind s.chptr (.status status) id dir
        params := params
        modeLimit := modeLimit }.record c (.id id) dir)
  | limitAdd (limit : ℤ) (params : List CStr) (hpos : 0 < limit) (hlt : limit < 2 ^ 31)
      (hparams : params.length < s.params.length) :
      Effect s 'l' ({ s with
        chptr := setLimit s.chptr (BitVec.ofInt 32 limit)
        params := params
        changes := dropAdds 'l' s.changes }.record 'l' (.text (signedDecimal limit)) .add)
  | limitDel (hlimit : s.chptr.mode.limit ≠ 0) :
      Effect s 'l' ({ s with chptr := setLimit s.chptr 0 }.record 'l' .null .del)
  | keyAdd (key : CStr) (params : List CStr) (hkey : key ≠ [])
      (hparams : params.length < s.params.length) :
      Effect s 'k' ({ s with
        chptr := setKey s.chptr key
        params := params
        changes := dropAdds 'k' s.changes }.record 'k' .modeKey .add)
  | keyDel (params : List CStr) (hkey : s.chptr.mode.key ≠ [])
      (hparams : params.length ≤ s.params.length) :
      Effect s 'k' ({ s with chptr := setKey s.chptr [], params := params }.record 'k' (.text ['*'])
        .del)

/-- A client of this server that is no service. -/
structure LocalClient (source : Setter) : Prop where
  isServer : source.isServer = false
  myConnect : source.myConnect = true
  service : source.service = false

theorem LocalClient.myClient (source : Setter) (h : LocalClient source) :
    source.myClient = true := by
  simp [Setter.myClient, h.isServer, h.myConnect]

theorem Effect.refl (s : ModeState) (c : Char) : Effect s c s :=
  Effect.skip c s.params s.modeLimit s.simpleModesMask (le_refl _) (Finset.Subset.refl _)

theorem mem_chanModes_of_modeBit (c : Char) (d : SimpleMode) (h : modeBit c = some d) :
    (d, c) ∈ chanModes := by
  unfold modeBit at h
  obtain ⟨tab, htab, heq⟩ := Option.map_eq_some_iff.mp h
  have hchar : tab.2 = c := by simpa using List.find?_some htab
  rw [← heq, ← hchar]
  exact List.mem_of_find?_eq_some htab

theorem setSimple_effect (dir : Dir) (c : Char) (d : SimpleMode) (s : ModeState)
    (hc : kindOf c = some (.simple d)) (hd : d ≠ .registered) :
    Effect s c (setSimple dir c d s) := by
  unfold setSimple
  split
  · exact Effect.refl s _
  next hnew =>
  cases dir with
  | query =>
    exact Effect.skip _ s.params s.modeLimit _ (le_refl _) (Finset.subset_insert d _)
  | add => exact Effect.simple c d .add hc hd (by decide) hnew
  | del => exact Effect.simple c d .del hc hd (by decide) hnew

theorem addMask_of_added (chptr : Channel) (banid : CStr) (maxBans : ℕ) (type : ListType)
    (h : (addId (some maxBans) chptr banid type).2 = true) :
    (addId (some maxBans) chptr banid type).1 =
      (addMask chptr type (maskOf (collapse banid))).1 := by
  unfold addId at h ⊢
  dsimp only at h ⊢
  split
  · next hfull =>
    rw [if_pos hfull] at h
    exact absurd h (by simp)
  · rfl

theorem setMask_effect (type : ListType) (source : Setter) (hsource : LocalClient source)
    (dir : Dir) (c : Char) (mask : CStr) (s : ModeState) (params : List CStr) (modeLimit : ℕ)
    (hc : kindOf c = some (.mask type)) (hdir : dir ≠ .query)
    (hparams : params.length < s.params.length) :
    Effect s c (setMask type source dir c mask { s with params := params, modeLimit := modeLimit }) := by
  have hskip : Effect s c { s with params := params, modeLimit := modeLimit } :=
    Effect.skip _ params modeLimit s.simpleModesMask hparams.le (Finset.Subset.refl _)
  unfold setMask
  split
  · exact hskip
  next hmask =>
  have hcolon : mask.head? ≠ some ':' := fun h => hmask (Or.inl h)
  split
  · next hadd =>
    subst hadd
    dsimp only
    simp only [hsource.myClient, if_true]
    split
    · next hadded =>
      have hvalid := maskOf_valid (collapse mask) (collapse_head mask hcolon)
      have heffect := Effect.mask (s := s) c type (maskOf (collapse mask)) .add params modeLimit hc
        hvalid (by decide) hparams
      unfold applyKind at heffect
      dsimp only at heffect
      rw [if_pos rfl, maskOf_nuhText _ hvalid, ← addMask_of_added _ _ _ _ hadded] at heffect
      exact heffect
    · exact hskip
  · next hnot =>
    dsimp only
    split
    · have hvalid := maskOf_valid mask hcolon
      have heffect := Effect.mask (s := s) c type (maskOf mask) dir params modeLimit hc hvalid hdir
        hparams
      unfold applyKind at heffect
      dsimp only at heffect
      rw [if_neg hnot, maskOf_nuhText _ hvalid] at heffect
      exact heffect
    · exact hskip

theorem countLimit_local (source : Setter) (hsource : LocalClient source) (s : ModeState) :
    (countLimit source s).1 = { s with modeLimit := s.modeLimit + 1 } := by
  unfold countLimit
  rw [hsource.myClient]
  rfl

theorem chmMask_effect (type : ListType) (source : Setter) (hsource : LocalClient source)
    (dir : Dir) (c : Char) (s : ModeState) (hc : kindOf c = some (.mask type)) :
    Effect s c (chmMask type source dir c s) := by
  have hcount := countLimit_local source hsource s
  unfold chmMask
  split
  · exact Effect.refl s _
  next hdir =>
  split
  · exact Effect.refl s _
  next p params hparams =>
  split
  · exact Effect.refl s _
  dsimp only
  rw [hcount]
  split
  · exact Effect.skip _ s.params _ s.simpleModesMask (le_refl _) (Finset.Subset.refl _)
  · apply setMask_effect type source hsource dir c _ s params _ hc hdir
    rw [hparams]
    exact Nat.lt_succ_self _

theorem mem_of_findChannelLink (chptr : Channel) (id : CStr) (member : Membership)
    (h : findChannelLink chptr id = some member) :
    member ∈ chptr.members ∧ member.id = id :=
  ⟨List.mem_of_find?_eq_some h, by simpa using List.find?_some h⟩

theorem chmMember_effect (need : Access) (status : Status) (redundant : Dir → Bool → Bool)
    (source : Setter) (hsource : LocalClient source) (dir : Dir) (c : Char) (s : ModeState)
    (hc : kindOf c = some (.status status)) :
    Effect s c (chmMember need status redundant source dir c s) := by
  unfold chmMember
  split
  · exact Effect.refl s _
  split
  · exact Effect.refl s _
  next hdir =>
  split
  · exact Effect.refl s _
  next p params hparams =>
  have hlt : params.length < s.params.length := by
    rw [hparams]
    exact Nat.lt_succ_self _
  have hskip : ∀ modeLimit, Effect s c { s with params := params, modeLimit := modeLimit } :=
    fun modeLimit => Effect.skip _ params modeLimit _ hlt.le (Finset.Subset.refl _)
  dsimp only
  split
  · exact hskip s.modeLimit
  next id hid =>
  split
  · exact hskip s.modeLimit
  next member hmember =>
  rw [countLimit_local source hsource]
  split
  · exact hskip _
  split
  · exact hskip _
  · obtain ⟨hmem, heq⟩ := mem_of_findChannelLink s.chptr id member hmember
    have hmapped : id ∈ s.chptr.members.map Membership.id := by
      rw [← heq]
      exact List.mem_map_of_mem hmem
    exact Effect.status c status id dir params _ hc hmapped hdir hlt

theorem atoi_lt (nptr : CStr) : atoi nptr < 2 ^ 31 := by
  unfold atoi toInt
  have h := Int.bmod_lt (x := strtol nptr) (m := 2 ^ 32) (by decide)
  omega

theorem chmLimit_effect (source : Setter) (dir : Dir) (s : ModeState) :
    Effect s 'l' (chmLimit source dir 'l' s) := by
  unfold chmLimit
  split
  · exact Effect.refl s _
  cases dir with
  | query => exact Effect.refl s _
  | add =>
    dsimp only
    split
    · exact Effect.refl s _
    next p params hparams =>
    have hlt : params.length < s.params.length := by
      rw [hparams]
      exact Nat.lt_succ_self _
    split
    · exact Effect.skip _ params s.modeLimit _ hlt.le (Finset.Subset.refl _)
    · next hpos => exact Effect.limitAdd (atoi p) params (by omega) (atoi_lt p) hlt
  | del =>
    dsimp only
    split
    · exact Effect.refl s _
    · next hlimit => exact Effect.limitDel hlimit

theorem chmKey_effect (source : Setter) (dir : Dir) (s : ModeState) :
    Effect s 'k' (chmKey source dir 'k' s) := by
  unfold chmKey
  split
  · exact Effect.refl s _
  cases dir with
  | query => exact Effect.refl s _
  | add =>
    dsimp only
    split
    · exact Effect.refl s _
    next p params hparams =>
    have hlt : params.length < s.params.length := by
      rw [hparams]
      exact Nat.lt_succ_self _
    split
    · exact Effect.skip _ params s.modeLimit _ hlt.le (Finset.Subset.refl _)
    · next hkey =>
      have hcut : strlcpy (fixKey p) (KEYLEN + 1) ≠ [] := by
        intro hnil
        rcases List.take_eq_nil_iff.mp hnil with hzero | hnil
        · exact absurd hzero (by decide)
        · exact hkey hnil
      exact Effect.keyAdd _ params hcut hlt
  | del =>
    have hle : s.params.tail.length ≤ s.params.length := by simp
    dsimp only
    split
    · exact Effect.skip _ s.params.tail s.modeLimit _ hle (Finset.Subset.refl _)
    · next hkey => exact Effect.keyDel s.params.tail hkey hle

/-- One letter in the mode string of a client of this server. -/
theorem modeFunc_effect (source : Setter) (hsource : LocalClient source) (dir : Dir) (c : Char)
    (s : ModeState) : Effect s c (modeFunc source dir c s) := by
  unfold modeFunc
  split
  · exact chmMask_effect .invex source hsource dir _ s rfl
  · unfold chmOperonly
    split_ifs
    · exact Effect.refl s _
    · exact Effect.refl s _
    · exact setSimple_effect dir _ .operonly s rfl (by decide)
  · exact chmMask_effect .ban source hsource dir _ s rfl
  · exact chmMask_effect .exception source hsource dir _ s rfl
  · exact chmMember_effect _ .halfop _ source hsource dir _ s rfl
  · exact chmKey_effect source dir s
  · exact chmLimit_effect source dir s
  · exact chmMember_effect _ .chanop _ source hsource dir _ s rfl
  · unfold chmRegistered
    rw [hsource.isServer, hsource.service]
    exact Effect.refl s _
  · exact chmMember_effect _ .voice _ source hsource dir _ s rfl
  · next hI hO hb he hh hk hl ho hr hv =>
    split
    · next d hd =>
      have hkind : kindOf c = some (.simple d) := by
        unfold kindOf
        split <;> first | contradiction | rw [hd]; rfl
      have hreg : d ≠ .registered := by
        intro heq
        have hmem := mem_chanModes_of_modeBit c d hd
        rw [heq] at hmem
        have hchar : c = 'r' := by simpa [chanModes] using hmem
        exact hr hchar
      unfold chmSimple
      split_ifs
      · exact Effect.refl s _
      · exact setSimple_effect dir c d s hkind hreg
    · exact Effect.refl s _

theorem read_congr (c d : Channel) (arg : Arg) (h : c.mode.key = d.mode.key) :
    arg.read c = arg.read d := by
  cases arg with
  | modeKey => exact congrArg some h
  | null => rfl
  | text s => rfl
  | id s => rfl

theorem itemsOf_congr (c d : Channel) (changes : List ModeChange)
    (h : c.mode.key = d.mode.key) : itemsOf c changes = itemsOf d changes := by
  have hitem : itemOf c = itemOf d := by
    funext ch
    unfold itemOf
    rw [read_congr c d ch.arg h]
  unfold itemsOf
  rw [hitem]

theorem itemsOf_append (c : Channel) (changes : List ModeChange) (letter : Char) (arg : Arg)
    (dir : Dir) :
    itemsOf c (changes ++ [⟨some letter, arg, dir⟩]) =
      itemsOf c changes ++ [⟨letter, arg.read c, dir⟩] := by
  unfold itemsOf
  rw [List.filterMap_append]
  rfl

/-- Changes of one kind may be struck out or printed with another argument. -/
theorem others_dropAdds (c d : Channel) (letter : Char) (own : Kind) (changes : List ModeChange)
    (hown : kindOf letter = some own)
    (hread : ∀ ch ∈ changes, ch.letter ≠ some letter → ch.letter ≠ none →
      ch.arg.read d = ch.arg.read c) :
    (itemsOf d (dropAdds letter changes)).filter (Other own) =
      (itemsOf c changes).filter (Other own) := by
  have hself : ∀ e : Channel, ∀ ch : ModeChange, ch.letter = some letter →
      ((itemOf e ch).toList).filter (Other own) = [] := by
    intro e ch hch
    simp [itemOf, hch, Other, hown]
  have hcons : ∀ (e : Channel) (ch : ModeChange) (l : List ModeChange),
      (itemsOf e (ch :: l)).filter (Other own) =
        ((itemOf e ch).toList).filter (Other own) ++ (itemsOf e l).filter (Other own) := by
    intro e ch l
    unfold itemsOf
    rw [List.filterMap_cons]
    cases itemOf e ch with
    | none => rfl
    | some item => exact List.filter_append [item] _
  induction changes with
  | nil => rfl
  | cons ch changes ih =>
    have htail := ih (fun ch' h => hread ch' (List.mem_cons_of_mem ch h))
    have hhead := hread ch List.mem_cons_self
    unfold dropAdds at htail ⊢
    rw [List.map_cons, hcons, hcons, htail]
    congr 1
    split
    · next hdrop =>
      rw [hself c ch hdrop.1]
      rfl
    · by_cases hletter : ch.letter = some letter
      · rw [hself c ch hletter, hself d ch hletter]
      · unfold itemOf
        cases hnone : ch.letter with
        | none => rfl
        | some l => rw [hhead hletter (by rw [hnone]; exact Option.some_ne_none l)]

theorem Recorded.read_of_ne_key (chptr c d : Channel) (ch : ModeChange) (h : Recorded chptr ch)
    (hkey : ch.letter ≠ some 'k') (hnone : ch.letter ≠ none) : ch.arg.read c = ch.arg.read d := by
  cases h with
  | dropped arg dir => exact absurd rfl hnone
  | mask c type n dir hc hn hdir => rfl
  | status c status id dir hc hid hdir => rfl
  | limitAdd limit hpos hlt => rfl
  | limitDel => rfl
  | keyAdd => exact absurd rfl hkey
  | keyDel => exact absurd rfl hkey
  | simple c d dir hc hd hdir => rfl

/-- The record without the changes of the key does not depend on the key. -/
theorem others_key (chptr c d : Channel) (changes : List ModeChange)
    (h : ∀ ch ∈ changes, Recorded chptr ch) :
    (itemsOf d changes).filter (Other .key) = (itemsOf c changes).filter (Other .key) := by
  have hdrop := fun e : Channel => others_dropAdds e c 'k' .key changes rfl
    (fun ch hch hkey hnone => (h ch hch).read_of_ne_key chptr c e ch hkey hnone)
  rw [← hdrop d, ← hdrop c]

theorem erase_replay (erase : Channel → Channel) (own : Kind) (h : Erases erase own)
    (c : Channel) (l l' : List Item) (hl : l.filter (Other own) = l'.filter (Other own)) :
    erase (l.foldl applyItem c) = erase (l'.foldl applyItem c) := by
  rw [erase_foldl erase own h, erase_foldl erase own h, hl]

def Kind.simpleMode : Kind → Option SimpleMode
  | .simple d => some d
  | _ => none

def simpleOf (item : Item) : Option SimpleMode := (kindOf item.letter).bind Kind.simpleMode

/-- The simple modes that the record changes. -/
def simples (items : List Item) : List SimpleMode := items.filterMap simpleOf

theorem simples_append (items : List Item) (letter : Char) (kind : Kind) (arg : Option CStr)
    (dir : Dir) (h : kindOf letter = some kind) :
    simples (items ++ [⟨letter, arg, dir⟩]) = simples items ++ kind.simpleMode.toList := by
  have hitem : simpleOf ⟨letter, arg, dir⟩ = kind.simpleMode := by
    unfold simpleOf
    rw [h]
    rfl
  unfold simples
  rw [List.filterMap_append]
  congr 1
  rw [List.filterMap_cons, hitem]
  cases kind.simpleMode <;> rfl

theorem simples_filter (items : List Item) (own : Kind) (h : own.simpleMode = none) :
    simples (items.filter (Other own)) = simples items := by
  unfold simples
  rw [List.filterMap_filter]
  apply List.filterMap_congr
  intro item _
  by_cases hown : kindOf item.letter = some own
  · simp [simpleOf, hown, h]
  · simp [Other, hown]

/-- What holds of the state and its record all along. -/
structure Faithful (c : Channel) (s : ModeState) : Prop where
  replay : (itemsOf s.chptr s.changes).foldl applyItem c = s.chptr
  recorded : ∀ ch ∈ s.changes, Recorded c ch
  ids : s.chptr.members.map Membership.id = c.members.map Membership.id
  nodup : (simples (itemsOf s.chptr s.changes)).Nodup
  masked : ∀ d ∈ simples (itemsOf s.chptr s.changes), d ∈ s.simpleModesMask

theorem setMember_ids (chptr : Channel) (id : CStr) (status : Status) (b : Bool) :
    (setMember chptr id status b).members.map Membership.id =
      chptr.members.map Membership.id := by
  simp only [setMember, List.map_map]
  apply List.map_congr_left
  intro member _
  dsimp only [Function.comp]
  split <;> rfl

theorem applyKind_ids (c : Channel) (kind : Kind) (arg : CStr) (dir : Dir) :
    (applyKind c kind arg dir).members.map Membership.id = c.members.map Membership.id := by
  cases kind with
  | mask type => rw [applyKind_mask, members_setList]
  | status status => exact setMember_ids c arg status _
  | limit => rfl
  | key => rfl
  | simple d => rfl

theorem applyKind_key (c : Channel) (kind : Kind) (arg : CStr) (dir : Dir) (h : kind ≠ .key) :
    (applyKind c kind arg dir).mode.key = c.mode.key := by
  cases kind with
  | mask type => rw [applyKind_mask, mode_setList]
  | status status => rfl
  | limit => rfl
  | key => exact absurd rfl h
  | simple d => rfl

/-- One more change of the channel that is recorded behind the others. -/
theorem faithful_record (c : Channel) (s : ModeState) (letter : Char) (kind : Kind) (arg : Arg)
    (text : CStr) (dir : Dir) (params : List CStr) (modeLimit : ℕ) (mask : Finset SimpleMode)
    (h : Faithful c s) (hkind : kindOf letter = some kind) (hkey : kind ≠ .key)
    (hread : ∀ d : Channel, (arg.read d).getD [] = text)
    (hrec : Recorded c ⟨some letter, arg, dir⟩) (hmask : s.simpleModesMask ⊆ mask)
    (hnew : ∀ d, kind.simpleMode = some d → d ∉ s.simpleModesMask ∧ d ∈ mask) :
    Faithful c ({ s with
      chptr := applyKind s.chptr kind text dir
      params := params
      modeLimit := modeLimit
      simpleModesMask := mask }.record letter arg dir) := by
  have hitems : itemsOf (applyKind s.chptr kind text dir) (s.changes ++ [⟨some letter, arg, dir⟩]) =
      itemsOf s.chptr s.changes ++
        [⟨letter, arg.read (applyKind s.chptr kind text dir), dir⟩] := by
    rw [itemsOf_append, itemsOf_congr _ s.chptr _ (applyKind_key _ _ _ _ hkey)]
  unfold ModeState.record
  constructor
  · dsimp only
    rw [hitems, List.foldl_append, h.replay]
    show applyItem s.chptr _ = _
    unfold applyItem
    rw [hkind]
    dsimp only
    rw [hread]
  · intro ch hch
    rcases List.mem_append.mp hch with hch | hch
    · exact h.recorded ch hch
    · rw [List.mem_singleton.mp hch]
      exact hrec
  · rw [← h.ids]
    exact applyKind_ids _ _ _ _
  · dsimp only
    rw [hitems, simples_append _ _ _ _ _ hkind]
    apply List.Nodup.append h.nodup
    · cases kind.simpleMode <;> simp
    · intro d hd hmem
      have hsome : kind.simpleMode = some d := by simpa using hmem
      exact (hnew d hsome).1 (h.masked d hd)
  · dsimp only
    rw [hitems, simples_append _ _ _ _ _ hkind]
    intro d hd
    rcases List.mem_append.mp hd with hd | hd
    · exact hmask (h.masked d hd)
    · exact (hnew d (by simpa using hd)).2

theorem recorded_dropAdds (c : Channel) (letter : Char) (changes : List ModeChange)
    (h : ∀ ch ∈ changes, Recorded c ch) : ∀ ch ∈ dropAdds letter changes, Recorded c ch := by
  intro ch hch
  obtain ⟨old, hold, rfl⟩ := List.mem_map.mp hch
  split
  · exact Recorded.dropped old.arg old.dir
  · exact h old hold

/-- A change of the limit or of the key, whatever is struck out or printed otherwise in
front of it, as long as that is about the limit or the key too. -/
theorem faithful_overwrite (c d : Channel) (s : ModeState) (erase : Channel → Channel)
    (own : Kind) (letter : Char) (arg : Arg) (dir : Dir) (params : List CStr)
    (kept : List ModeChange) (h : Faithful c s) (herase : Erases erase own)
    (hkind : kindOf letter = some own) (hsimple : own.simpleMode = none)
    (hother : (itemsOf d kept).filter (Other own) =
      (itemsOf s.chptr s.changes).filter (Other own))
    (hset : ∀ e, erase e = erase s.chptr →
      applyKind e own ((arg.read d).getD []) dir = d)
    (hids : d.members = s.chptr.members)
    (hkept : ∀ ch ∈ kept, Recorded c ch) (hrec : Recorded c ⟨some letter, arg, dir⟩) :
    Faithful c ({ s with chptr := d, params := params, changes := kept }.record letter arg dir) := by
  have herased := erase_replay erase own herase c _ _ hother
  have hsimples : simples (itemsOf d kept) = simples (itemsOf s.chptr s.changes) := by
    rw [← simples_filter _ own hsimple, hother, simples_filter _ own hsimple]
  have hall : simples (itemsOf d (kept ++ [⟨some letter, arg, dir⟩])) =
      simples (itemsOf s.chptr s.changes) := by
    rw [itemsOf_append, simples_append _ _ _ _ _ hkind, hsimple, hsimples]
    exact List.append_nil _
  rw [h.replay] at herased
  unfold ModeState.record
  constructor
  · dsimp only
    rw [itemsOf_append, List.foldl_append]
    show applyItem _ _ = d
    unfold applyItem
    rw [hkind]
    exact hset _ herased
  · intro ch hch
    rcases List.mem_append.mp hch with hch | hch
    · exact hkept ch hch
    · rw [List.mem_singleton.mp hch]
      exact hrec
  · dsimp only
    rw [hids]
    exact h.ids
  · dsimp only
    rw [hall]
    exact h.nodup
  · dsimp only
    rw [hall]
    exact h.masked

theorem ofInt_atoi_signedDecimal_of_lt (limit : ℤ) (hpos : 0 < limit) (hlt : limit < 2 ^ 31) :
    atoi (signedDecimal limit) = limit := by
  unfold atoi toInt
  rw [strtol_signedDecimal limit (by omega) (by omega), Int.bmod_eq_of_le (by omega) (by omega)]

theorem effect_faithful (c : Channel) (s s' : ModeState) (h : Faithful c s) (letter : Char)
    (heffect : Effect s letter s') : Faithful c s' := by
  cases heffect with
  | skip _ params modeLimit mask hparams hmask =>
    exact ⟨h.replay, h.recorded, h.ids, h.nodup, fun d hd => hmask (h.masked d hd)⟩
  | simple letter d dir hc hd hdir hnew =>
    apply faithful_record c s letter (.simple d) .null [] dir s.params s.modeLimit _ h hc
      (by simp) (fun _ => rfl) (Recorded.simple letter d dir hc hd hdir) (Finset.subset_insert d _)
    intro d' hd'
    obtain rfl := Option.some.inj hd'
    exact ⟨hnew, Finset.mem_insert_self d _⟩
  | mask letter type n dir params modeLimit hc hn hdir hparams =>
    exact faithful_record c s letter (.mask type) _ (nuhText n) dir params modeLimit _ h hc
      (by simp) (fun _ => rfl) (Recorded.mask letter type n dir hc hn hdir)
      (Finset.Subset.refl _) (by simp [Kind.simpleMode])
  | status letter status id dir params modeLimit hc hid hdir hparams =>
    rw [h.ids] at hid
    exact faithful_record c s letter (.status status) _ id dir params modeLimit _ h hc (by simp)
      (fun _ => rfl) (Recorded.status letter status id dir hc hid hdir) (Finset.Subset.refl _)
      (by simp [Kind.simpleMode])
  | limitAdd limit params hpos hlt hparams =>
    apply faithful_overwrite c _ s _ .limit 'l' _ .add params _ h erases_limit rfl rfl
    · exact others_dropAdds s.chptr _ 'l' .limit s.changes rfl
        (fun ch _ _ _ => read_congr _ _ ch.arg rfl)
    · intro e he
      show setLimit e (BitVec.ofInt 32 (atoi (signedDecimal limit))) = setLimit s.chptr _
      rw [ofInt_atoi_signedDecimal_of_lt limit hpos hlt]
      have hset := congrArg (fun e => setLimit e (BitVec.ofInt 32 limit)) he
      exact hset
    · rfl
    · exact recorded_dropAdds c 'l' s.changes h.recorded
    · exact Recorded.limitAdd limit hpos hlt
  | limitDel hlimit =>
    exact faithful_record c s 'l' .limit .null [] .del s.params s.modeLimit s.simpleModesMask h rfl
      (by simp) (fun _ => rfl) Recorded.limitDel (Finset.Subset.refl _) (by simp [Kind.simpleMode])
  | keyAdd key params hkey hparams =>
    apply faithful_overwrite c _ s _ .key 'k' _ .add params _ h erases_key rfl rfl
    · exact others_dropAdds s.chptr _ 'k' .key s.changes rfl
        (fun ch hch hk hnone => (h.recorded ch hch).read_of_ne_key c _ _ ch hk hnone)
    · intro e he
      have hset := congrArg (fun e => setKey e key) he
      exact hset
    · rfl
    · exact recorded_dropAdds c 'k' s.changes h.recorded
    · exact Recorded.keyAdd
  | keyDel params hkey hparams =>
    apply faithful_overwrite c _ s _ .key 'k' _ .del params s.changes h erases_key rfl rfl
    · exact others_key c s.chptr _ s.changes h.recorded
    · intro e he
      exact he
    · rfl
    · exact h.recorded
    · exact Recorded.keyDel

theorem faithful_start (c : Channel) (params : List CStr) : Faithful c ⟨c, params, [], 0, ∅⟩ :=
  ⟨rfl, by simp, rfl, List.nodup_nil, by simp [itemsOf, simples]⟩

/-- A limit or a key that is there can be taken away without a parameter. -/
def room (s : ModeState) : ℕ :=
  s.changes.length + 2 * s.params.length + (if s.chptr.mode.limit = 0 then 0 else 1) +
    (if s.chptr.mode.key = [] then 0 else 1)

theorem room_of_params (s s' : ModeState) (hchanges : s'.changes.length = s.changes.length + 1)
    (hparams : s'.params.length < s.params.length)
    (hone : (s'.chptr.mode.limit = s.chptr.mode.limit ∨ s'.chptr.mode.key = s.chptr.mode.key)) :
    room s' ≤ room s := by
  unfold room
  rw [hchanges]
  rcases hone with heq | heq
  · rw [heq]
    split_ifs <;> omega
  · rw [heq]
    split_ifs <;> omega

theorem effect_room (s s' : ModeState) (letter : Char) (heffect : Effect s letter s') :
    room s' + s.simpleModesMask.card ≤ room s + s'.simpleModesMask.card := by
  have hdrop : ∀ c, (dropAdds c s.changes).length = s.changes.length := fun c => by simp [dropAdds]
  cases heffect with
  | skip _ params modeLimit mask hparams hmask =>
    have hcard := Finset.card_le_card hmask
    unfold room
    dsimp only
    omega
  | simple _ d dir hc hd hdir hnew =>
    have hcard := Finset.card_insert_of_notMem hnew
    unfold room ModeState.record applyKind
    dsimp only
    rw [hcard, List.length_append, List.length_singleton]
    omega
  | mask _ type n dir params modeLimit hc hn hdir hparams =>
    apply Nat.add_le_add_right
    apply room_of_params s _ (by simp [ModeState.record]) hparams
    left
    show (applyKind _ _ _ _).mode.limit = _
    rw [applyKind_mask, mode_setList]
  | status _ status id dir params modeLimit hc hid hdir hparams =>
    apply Nat.add_le_add_right
    exact room_of_params s _ (by simp [ModeState.record]) hparams (Or.inl rfl)
  | limitAdd limit params hpos hlt hparams =>
    apply Nat.add_le_add_right
    exact room_of_params s _ (by simp [ModeState.record, hdrop]) hparams (Or.inr rfl)
  | limitDel hlimit =>
    apply Nat.add_le_add_right
    unfold room ModeState.record setLimit
    dsimp only
    rw [if_neg hlimit, if_pos rfl, List.length_append, List.length_singleton]
    omega
  | keyAdd key params hkey hparams =>
    apply Nat.add_le_add_right
    exact room_of_params s _ (by simp [ModeState.record, hdrop]) hparams (Or.inl rfl)
  | keyDel params hkey hparams =>
    apply Nat.add_le_add_right
    unfold room ModeState.record setKey
    dsimp only
    rw [if_neg hkey, if_pos rfl, List.length_append, List.length_singleton]
    omega

theorem card_simpleModes (mask : Finset SimpleMode) : mask.card ≤ 13 := by
  have hsub : mask ⊆ (chanModes.map Prod.fst).toFinset :=
    fun d _ => List.mem_toFinset.mpr (mem_chanModes d)
  exact (Finset.card_le_card hsub).trans (by decide)

/-- A key as `fix_key` leaves it. -/
structure FixedKey (key : CStr) : Prop where
  ne_nil : key ≠ []
  fixed : fixKey key = key
  len : key.length ≤ KEYLEN

theorem fixKey_of_fixed (key : CStr) (hlow : ∀ c ∈ key, Char.ofNat (c.toNat % 128) = c)
    (hclean : ∀ c ∈ key, c ≠ ':' ∧ ' ' < c ∧ c ≠ ',') : fixKey key = key := by
  unfold fixKey
  rw [List.map_congr_left hlow, List.map_id']
  apply List.filter_eq_self.mpr
  intro c hc
  exact decide_eq_true (hclean c hc)

theorem fixKey_low (arg : CStr) (c : Char) (hc : c ∈ fixKey arg) :
    Char.ofNat (c.toNat % 128) = c := by
  unfold fixKey at hc
  obtain ⟨d, _, rfl⟩ := List.mem_map.mp (List.mem_of_mem_filter hc)
  rw [toNat_ofNat_small _ (by omega), Nat.mod_mod]

theorem fixedKey_strlcpy (arg : CStr) (h : fixKey arg ≠ []) :
    FixedKey (strlcpy (fixKey arg) (KEYLEN + 1)) where
  ne_nil := by
    intro hnil
    rcases List.take_eq_nil_iff.mp hnil with hzero | hnil
    · exact absurd hzero (by decide)
    · exact h hnil
  fixed := fixKey_of_fixed _ (fun c hc => fixKey_low arg c (List.mem_of_mem_take hc))
    (fun c hc => fixKey_clean arg c (List.mem_of_mem_take hc))
  len := (validKey_fixKey arg).len

section

variable (source : Setter) (hsource : LocalClient source)

include hsource

theorem modeStep_faithful (c : Channel)
    (st : Dir × ModeState) (letter : Char) (h : Faithful c st.2) :
    Faithful c (modeStep source st letter).2 := by
  unfold modeStep
  split_ifs
  · exact h
  · exact h
  · exact h
  · exact effect_faithful c st.2 _ h letter (modeFunc_effect source hsource st.1 letter st.2)

theorem modeStep_room (st : Dir × ModeState) (letter : Char) :
    room (modeStep source st letter).2 + st.2.simpleModesMask.card ≤
      room st.2 + (modeStep source st letter).2.simpleModesMask.card := by
  unfold modeStep
  split_ifs
  · exact le_refl _
  · exact le_refl _
  · exact le_refl _
  · exact effect_room st.2 _ letter (modeFunc_effect source hsource st.1 letter st.2)

theorem run_faithful (c : Channel) (modes : CStr) (st : Dir × ModeState) (h : Faithful c st.2) :
    Faithful c (modes.foldl (modeStep source) st).2 := by
  induction modes generalizing st with
  | nil => exact h
  | cons letter modes ih => exact ih _ (modeStep_faithful source hsource c st letter h)

theorem run_room (modes : CStr) (st : Dir × ModeState) :
    room (modes.foldl (modeStep source) st).2 + st.2.simpleModesMask.card ≤
      room st.2 + (modes.foldl (modeStep source) st).2.simpleModesMask.card := by
  induction modes generalizing st with
  | nil => exact le_refl _
  | cons letter modes ih =>
    have hstep := modeStep_room source hsource st letter
    have hrest := ih (modeStep source st letter)
    rw [List.foldl_cons]
    omega

theorem setChannelMode_faithful (c : Channel)
    (modes : CStr) (params : List CStr) : Faithful c (setChannelMode source c modes params) :=
  run_faithful source hsource c modes _ (faithful_start c params)

theorem setChannelMode_changes (c : Channel) (modes : CStr) (params : List CStr) :
    (setChannelMode source c modes params).changes.length ≤ 2 * params.length + 15 := by
  have hrun := run_room source hsource modes (.add, ⟨c, params, [], 0, ∅⟩)
  have hcard := card_simpleModes (setChannelMode source c modes params).simpleModesMask
  have hstart : room ⟨c, params, [], 0, ∅⟩ ≤ 2 * params.length + 2 := by
    unfold room
    dsimp only
    rw [List.length_nil]
    split_ifs <;> omega
  have hlength : (setChannelMode source c modes params).changes.length ≤
      room (setChannelMode source c modes params) := by
    unfold room
    omega
  change room (setChannelMode source c modes params) + 0 ≤
    room ⟨c, params, [], 0, ∅⟩ + (setChannelMode source c modes params).simpleModesMask.card at hrun
  omega

end

end IrcdHybrid.ModeReplay
