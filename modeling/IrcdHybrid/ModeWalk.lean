import IrcdHybrid.ModeReplay

/-!
What becomes of a key that a mode command sets. A walk through the letters and the parameters alone
moves on as the mode functions do, and remembers whether a -k takes the key away again, and whether
anything else with an argument is carried out behind the +k.
-/

namespace IrcdHybrid.ModeWalk

open CString Numeral BanMask Channels Wire Sjoin ChannelMode ModeReplay

/-- The key of the last +k is still set, with nothing or something behind it that has an argument,
or it is removed again, by the one such change behind it or with others around. -/
inductive KeyFate where
  | untouched
  | set
  | followed
  | removed
  | shifted
  deriving DecidableEq, Repr

/-- A change with an argument that is not about the key. -/
def KeyFate.pass : KeyFate → KeyFate
  | .set => .followed
  | .removed => .shifted
  | fate => fate

def KeyFate.remove : KeyFate → KeyFate
  | .set => .removed
  | .followed => .shifted
  | fate => fate

structure Walk where
  dir : Dir
  params : List CStr
  modeLimit : ℕ
  fate : KeyFate

/-- b, e and I. -/
def Walk.mask (source : Setter) (w : Walk) : Walk :=
  match w.params with
  | [] => w
  | _ :: params =>
    if source.alev.level < Access.halfop.level ∧ !source.opme then w
    else if w.modeLimit + 1 > MAXMODEPARAMS then { w with modeLimit := w.modeLimit + 1 }
    else { w with params := params, modeLimit := w.modeLimit + 1, fate := w.fate.pass }

/-- o, h and v, which count when they name a member. -/
def Walk.member (source : Setter) (c : Channel) (need : Access) (w : Walk) : Walk :=
  if source.alev.level < need.level ∧ !source.opme then w
  else
    match w.params with
    | [] => w
    | p :: params =>
      if (source.findChasing p).any c.isMember then
        { w with
          params := params
          modeLimit := w.modeLimit + 1
          fate := if w.modeLimit + 1 > MAXMODEPARAMS then w.fate else w.fate.pass }
      else { w with params := params }

def Walk.limit (source : Setter) (w : Walk) : Walk :=
  if source.alev.level < Access.halfop.level ∧ !source.opme then w
  else
    match w.dir, w.params with
    | .add, p :: params =>
      { w with params := params, fate := if atoi p ≤ 0 then w.fate else w.fate.pass }
    | _, _ => w

def Walk.key (source : Setter) (w : Walk) : Walk :=
  if source.alev.level < Access.halfop.level ∧ !source.opme then w
  else
    match w.dir, w.params with
    | .add, p :: params => { w with params := params, fate := if fixKey p = [] then w.fate else .set }
    | .del, params => { w with params := params.tail, fate := w.fate.remove }
    | _, _ => w

def walkStep (source : Setter) (c : Channel) (w : Walk) (letter : Char) : Walk :=
  if letter = '+' then { w with dir := .add }
  else if letter = '-' then { w with dir := .del }
  else if letter = '=' then { w with dir := .query }
  else if w.dir = .query then w
  else
    match letter with
    | 'I' | 'b' | 'e' => w.mask source
    | 'h' | 'o' => w.member source c .chanop
    | 'v' => w.member source c .halfop
    | 'l' => w.limit source
    | 'k' => w.key source
    | _ => w

/-- What becomes of the key that the command sets. -/
def keyFate (source : Setter) (c : Channel) (modes : CStr) (params : List CStr) : KeyFate :=
  (modes.foldl (walkStep source c) ⟨.add, params, 0, .untouched⟩).fate

def hasArg (ch : ModeChange) : Bool := ch.letter.isSome && decide (ch.arg ≠ .null)

def keyAdd : ModeChange := ⟨some 'k', .modeKey, .add⟩

def keyDel : ModeChange := ⟨some 'k', .text ['*'], .del⟩

theorem ne_keyAdd (letter : Char) (arg : Arg) (dir : Dir) (h : letter ≠ 'k') :
    (⟨some letter, arg, dir⟩ : ModeChange) ≠ keyAdd :=
  fun heq => h (Option.some.inj (congrArg ModeChange.letter heq))

/-- The changes with an argument that are recorded behind the +k. -/
def behindKey : List ModeChange → Option (List ModeChange)
  | [] => none
  | ch :: changes => if ch = keyAdd then some (changes.filter hasArg) else behindKey changes

theorem behindKey_append (changes : List ModeChange) (ch : ModeChange) (hne : ch ≠ keyAdd) :
    behindKey (changes ++ [ch]) =
      (behindKey changes).map fun behind => behind ++ [ch].filter hasArg := by
  induction changes with
  | nil => simp [behindKey, hne]
  | cons first changes ih =>
    rw [List.cons_append, behindKey, behindKey]
    split
    · rw [List.filter_append, Option.map_some]
    · exact ih

theorem behindKey_eq_none (changes : List ModeChange) :
    behindKey changes = none ↔ keyAdd ∉ changes := by
  induction changes with
  | nil => simp [behindKey]
  | cons first changes ih =>
    rw [behindKey, List.mem_cons]
    split
    · next heq => simp [heq]
    · next hne => rw [ih, not_or, and_iff_right (Ne.symm hne)]

theorem behindKey_split (changes behind : List ModeChange) (h : behindKey changes = some behind) :
    ∃ before after, changes = before ++ keyAdd :: after ∧ keyAdd ∉ before ∧
      after.filter hasArg = behind := by
  induction changes with
  | nil => simp [behindKey] at h
  | cons ch changes ih =>
    rw [behindKey] at h
    split at h
    · next heq => exact ⟨[], changes, by rw [heq]; rfl, by simp, Option.some.inj h⟩
    · next hne =>
      obtain ⟨before, after, rfl, hbefore, hafter⟩ := ih h
      exact ⟨ch :: before, after, rfl, by simp [Ne.symm hne, hbefore], hafter⟩

theorem keyAdd_dropAdds (changes : List ModeChange) (letter : Char) (hletter : letter ≠ 'k') :
    keyAdd ∈ dropAdds letter changes ↔ keyAdd ∈ changes := by
  unfold dropAdds
  rw [List.mem_map]
  constructor
  · intro ⟨ch, hch, heq⟩
    split at heq
    · simp [keyAdd] at heq
    · rwa [heq] at hch
  · intro h
    refine ⟨_, h, if_neg ?_⟩
    intro hand
    exact hletter (Option.some.inj hand.1).symm

theorem behindKey_keyAdd (changes : List ModeChange) :
    behindKey (dropAdds 'k' changes ++ [keyAdd]) = some [] := by
  unfold dropAdds
  induction changes with
  | nil => rfl
  | cons ch changes ih =>
    rw [List.map_cons, List.cons_append, behindKey, if_neg, ih]
    split
    · simp [keyAdd]
    · next hne =>
      rintro rfl
      exact hne ⟨rfl, rfl⟩

/-- What the record and the key look like. -/
def KeyState (s : ModeState) : KeyFate → Prop
  | .untouched => behindKey s.changes = none
  | .set => behindKey s.changes = some [] ∧ FixedKey s.chptr.mode.key
  | .followed => behindKey s.changes ≠ none ∧ FixedKey s.chptr.mode.key
  | .removed => behindKey s.changes = some [keyDel] ∧ s.chptr.mode.key = []
  | .shifted => behindKey s.changes ≠ none ∧ s.chptr.mode.key = []

theorem keyState_same (s s' : ModeState) (fate : KeyFate) (hkey : s'.chptr.mode.key = s.chptr.mode.key)
    (hbehind : behindKey s'.changes = behindKey s.changes) (h : KeyState s fate) : KeyState s' fate := by
  cases fate with
  | untouched => exact hbehind.trans h
  | set | followed | removed | shifted =>
    unfold KeyState at h ⊢
    rwa [hbehind, hkey]

theorem keyState_pass (s s' : ModeState) (fate : KeyFate) (hkey : s'.chptr.mode.key = s.chptr.mode.key)
    (hbehind : behindKey s'.changes = none ↔ behindKey s.changes = none) (h : KeyState s fate) :
    KeyState s' fate.pass := by
  have hsome : ∀ l, behindKey s.changes = some l → behindKey s'.changes ≠ none := by
    intro l hl hnone
    rw [hbehind.mp hnone] at hl
    simp at hl
  cases fate with
  | untouched => exact hbehind.mpr h
  | set => exact ⟨hsome _ h.1, hkey ▸ h.2⟩
  | followed => exact ⟨fun hnone => h.1 (hbehind.mp hnone), hkey ▸ h.2⟩
  | removed => exact ⟨hsome _ h.1, hkey.trans h.2⟩
  | shifted => exact ⟨fun hnone => h.1 (hbehind.mp hnone), hkey.trans h.2⟩

theorem keyState_record (s s' : ModeState) (ch : ModeChange) (fate : KeyFate)
    (hkey : s'.chptr.mode.key = s.chptr.mode.key) (hchanges : s'.changes = s.changes ++ [ch])
    (hne : ch ≠ keyAdd) (h : KeyState s fate) :
    KeyState s' (if hasArg ch then fate.pass else fate) := by
  have hbehind := behindKey_append s.changes ch hne
  rw [← hchanges] at hbehind
  split
  · exact keyState_pass s s' fate hkey (by rw [hbehind, Option.map_eq_none_iff]) h
  · next harg => exact keyState_same s s' fate hkey (by simp [hbehind, harg]) h

theorem keyState_nil (s s' : ModeState) (fate : KeyFate) (hnil : s.chptr.mode.key = [])
    (hkey : s'.chptr.mode.key = s.chptr.mode.key) (hchanges : s'.changes = s.changes)
    (h : KeyState s fate) : KeyState s' fate.remove := by
  have hsame := keyState_same s s' fate hkey (by rw [hchanges]) h
  cases fate with
  | set | followed => exact absurd hnil h.2.ne_nil
  | untouched | removed | shifted => exact hsame

theorem keyState_del (s s' : ModeState) (fate : KeyFate) (hold : s.chptr.mode.key ≠ [])
    (hkey : s'.chptr.mode.key = []) (hchanges : s'.changes = s.changes ++ [keyDel])
    (h : KeyState s fate) : KeyState s' fate.remove := by
  have hbehind := behindKey_append s.changes keyDel (by decide)
  have hnone : behindKey s'.changes = none ↔ behindKey s.changes = none := by
    rw [hchanges, hbehind, Option.map_eq_none_iff]
  rw [← hchanges] at hbehind
  cases fate with
  | untouched => exact hnone.mpr h
  | set => exact ⟨by rw [hbehind, h.1]; rfl, hkey⟩
  | followed => exact ⟨fun hn => h.1 (hnone.mp hn), hkey⟩
  | removed | shifted => exact absurd h.2 hold

/-- The walk is where the run is. -/
structure Follows (w : Walk) (s : ModeState) : Prop where
  params : w.params = s.params
  modeLimit : w.modeLimit = s.modeLimit
  key : KeyState s w.fate

theorem countLimit_eq (source : Setter) (hsource : LocalClient source) (s : ModeState) :
    countLimit source s =
      ({ s with modeLimit := s.modeLimit + 1 }, decide (s.modeLimit + 1 > MAXMODEPARAMS)) := by
  unfold countLimit
  rw [hsource.myClient]
  rfl

section Letters

variable (source : Setter) (hsource : LocalClient source) (c : Channel) (w : Walk) (s : ModeState)
  (letter : Char) (h : Follows w s)

include h

theorem setSimple_follows (d : SimpleMode) (dir : Dir) (hletter : letter ≠ 'k') :
    Follows w (setSimple dir letter d s) := by
  unfold setSimple
  split
  · exact h
  cases dir with
  | query => exact ⟨h.params, h.modeLimit, keyState_same s _ _ rfl rfl h.key⟩
  | add | del =>
    exact ⟨h.params, h.modeLimit,
      keyState_record s _ ⟨some letter, .null, _⟩ _ rfl rfl (ne_keyAdd letter _ _ hletter) h.key⟩

theorem setMask_follows (type : ListType) (dir : Dir) (mask : CStr) (hletter : letter ≠ 'k') :
    Follows { w with fate := w.fate.pass } (setMask type source dir letter mask s) := by
  have hpass := keyState_pass s s w.fate rfl Iff.rfl h.key
  have hadd : ∀ n, (addMask s.chptr type n).1.mode.key = s.chptr.mode.key := by
    intro n
    rw [addMask_list, mode_setList]
  have haddId : ∀ max, (addId max s.chptr mask type).1.mode.key = s.chptr.mode.key := by
    intro max
    unfold addId
    split
    · split
      · rfl
      · exact hadd _
    · exact hadd _
  have hdel : (delId s.chptr mask type).1.mode.key = s.chptr.mode.key := by
    unfold delId delMask
    split
    · rw [mode_setList]
    · rfl
  unfold setMask
  split
  · exact ⟨h.params, h.modeLimit, hpass⟩
  split
  · dsimp only
    generalize (if source.myClient = true then some source.maxBans else none) = max
    split
    · exact ⟨h.params, h.modeLimit, keyState_record s _ ⟨some letter, .text _, dir⟩ _ (haddId max) rfl
        (ne_keyAdd letter _ _ hletter) h.key⟩
    · exact ⟨h.params, h.modeLimit, hpass⟩
  · dsimp only
    split
    · exact ⟨h.params, h.modeLimit, keyState_record s _ ⟨some letter, .text _, dir⟩ _ hdel rfl
        (ne_keyAdd letter _ _ hletter) h.key⟩
    · exact ⟨h.params, h.modeLimit, hpass⟩

theorem limit_follows (hdir : w.dir ≠ .query) :
    Follows (w.limit source) (chmLimit source w.dir 'l' s) := by
  unfold Walk.limit chmLimit
  split
  · exact h
  cases hwdir : w.dir with
  | query => exact absurd hwdir hdir
  | add =>
    rw [h.params]
    cases s.params with
    | nil => exact h
    | cons p params =>
      dsimp only
      split
      · exact ⟨rfl, h.modeLimit, keyState_same s _ _ rfl rfl h.key⟩
      · refine ⟨rfl, h.modeLimit, keyState_pass s _ _ rfl ?_ h.key⟩
        show behindKey (dropAdds 'l' s.changes ++ [_]) = none ↔ _
        rw [behindKey_append _ _ (by simp [keyAdd]), Option.map_eq_none_iff, behindKey_eq_none,
          behindKey_eq_none, keyAdd_dropAdds _ _ (by decide)]
  | del =>
    dsimp only
    split
    · exact h
    · exact ⟨h.params, h.modeLimit,
        keyState_record s _ ⟨some 'l', .null, .del⟩ w.fate rfl rfl (ne_keyAdd 'l' _ _ (by decide)) h.key⟩

theorem key_follows (hdir : w.dir ≠ .query) :
    Follows (w.key source) (chmKey source w.dir 'k' s) := by
  unfold Walk.key chmKey
  split
  · exact h
  cases hwdir : w.dir with
  | query => exact absurd hwdir hdir
  | add =>
    rw [h.params]
    cases hparams : s.params with
    | nil => exact h
    | cons p params =>
      dsimp only
      split
      · exact ⟨rfl, h.modeLimit, keyState_same s _ _ rfl rfl h.key⟩
      · next hkey =>
        exact ⟨rfl, h.modeLimit, behindKey_keyAdd s.changes, fixedKey_strlcpy p hkey⟩
  | del =>
    dsimp only
    split
    · next hnil => exact ⟨by rw [h.params], h.modeLimit, keyState_nil s _ w.fate hnil rfl rfl h.key⟩
    · next hset =>
      exact ⟨by rw [h.params]; rfl, h.modeLimit, keyState_del s _ w.fate hset rfl rfl h.key⟩

include hsource

theorem mask_follows (type : ListType) (hdir : w.dir ≠ .query)
    (hletter : letter ≠ 'k') : Follows (w.mask source) (chmMask type source w.dir letter s) := by
  unfold Walk.mask chmMask
  rw [if_neg hdir, h.params]
  cases hparams : s.params with
  | nil => exact h
  | cons p params =>
    dsimp only
    split
    · exact h
    rw [countLimit_eq source hsource]
    dsimp only
    rw [h.modeLimit]
    by_cases hfull : s.modeLimit + 1 > MAXMODEPARAMS
    · rw [if_pos hfull, if_pos (by simpa using hfull)]
      exact ⟨hparams.symm, rfl, h.key⟩
    rw [if_neg hfull, if_neg (by simpa using hfull)]
    have hnext : Follows ⟨w.dir, params, s.modeLimit + 1, w.fate⟩
        { s with params := params, modeLimit := s.modeLimit + 1 } :=
      ⟨rfl, rfl, keyState_same s _ _ rfl rfl h.key⟩
    exact setMask_follows source _ _ letter hnext type w.dir _ hletter

theorem member_follows (need : Access) (status : Status) (redundant : Dir → Bool → Bool)
    (hids : s.chptr.members.map Membership.id = c.members.map Membership.id)
    (hdir : w.dir ≠ .query) (hletter : letter ≠ 'k') :
    Follows (w.member source c need) (chmMember need status redundant source w.dir letter s) := by
  unfold Walk.member chmMember
  split
  · exact h
  rw [h.params]
  cases hparams : s.params with
  | nil => exact h
  | cons p params =>
    have hmember : ∀ id, c.isMember id = (findChannelLink s.chptr id).isSome := by
      intro id
      rw [Bool.eq_iff_iff, isMember_iff, ← hids]
      unfold findChannelLink
      rw [List.find?_isSome]
      simp
    dsimp only
    cases source.findChasing p with
    | none => exact ⟨rfl, h.modeLimit, keyState_same s _ _ rfl rfl h.key⟩
    | some id =>
      dsimp only
      rw [Option.any_some, hmember id]
      cases findChannelLink s.chptr id with
      | none => exact ⟨rfl, h.modeLimit, keyState_same s _ _ rfl rfl h.key⟩
      | some member =>
        rw [countLimit_eq source hsource]
        dsimp only
        rw [Option.isSome_some, if_pos rfl, h.modeLimit]
        split
        · next hfull =>
          rw [if_pos (by simpa using hfull)]
          exact ⟨rfl, rfl, keyState_same s _ _ rfl rfl h.key⟩
        next hroom =>
        rw [if_neg (by simpa using hroom)]
        split
        · exact ⟨rfl, rfl, keyState_pass s _ _ rfl Iff.rfl h.key⟩
        · exact ⟨rfl, rfl, keyState_record s _ ⟨some letter, .id id, w.dir⟩ w.fate rfl rfl
            (ne_keyAdd letter _ _ hletter) h.key⟩

theorem modeFunc_follows (hids : s.chptr.members.map Membership.id = c.members.map Membership.id)
    (hdir : w.dir ≠ .query) :
    Follows (match letter with
      | 'I' | 'b' | 'e' => w.mask source
      | 'h' | 'o' => w.member source c .chanop
      | 'v' => w.member source c .halfop
      | 'l' => w.limit source
      | 'k' => w.key source
      | _ => w) (modeFunc source w.dir letter s) := by
  split
  · exact mask_follows source hsource w s _ h .invex hdir (by decide)
  · exact mask_follows source hsource w s _ h .ban hdir (by decide)
  · exact mask_follows source hsource w s _ h .exception hdir (by decide)
  · show Follows _ (chmHop source w.dir 'h' s)
    exact member_follows source hsource c w s 'h' h .chanop .halfop _ hids hdir (by decide)
  · show Follows _ (chmOp source w.dir 'o' s)
    exact member_follows source hsource c w s 'o' h .chanop .chanop _ hids hdir (by decide)
  · show Follows _ (chmVoice source w.dir 'v' s)
    exact member_follows source hsource c w s 'v' h .halfop .voice _ hids hdir (by decide)
  · exact limit_follows source w s h hdir
  · exact key_follows source w s h hdir
  next hI hb he hh ho hv hl hk =>
  -- the simple modes, O and r among them, take no parameter
  unfold modeFunc
  split
  all_goals first | contradiction | skip
  · unfold chmOperonly
    split_ifs
    · exact h
    · exact h
    · exact setSimple_follows w s 'O' h .operonly w.dir hk
  · unfold chmRegistered
    rw [hsource.isServer, hsource.service]
    exact h
  · split
    · unfold chmSimple
      split_ifs
      · exact h
      · exact setSimple_follows w s letter h _ w.dir hk
    · exact h

end Letters

theorem modeFunc_query (source : Setter) (letter : Char) (s : ModeState) :
    ∃ mask, modeFunc source .query letter s = { s with simpleModesMask := mask } := by
  have hsimple : ∀ c d, ∃ mask, setSimple .query c d s = { s with simpleModesMask := mask } := by
    intro c d
    unfold setSimple
    split
    · exact ⟨s.simpleModesMask, rfl⟩
    · exact ⟨insert d s.simpleModesMask, rfl⟩
  have hmember : ∀ need status redundant c, chmMember need status redundant source .query c s = s :=
    fun _ _ _ _ => ite_self s
  unfold modeFunc
  split
  · exact ⟨_, rfl⟩
  · unfold chmOperonly
    split_ifs
    · exact ⟨_, rfl⟩
    · exact ⟨_, rfl⟩
    · exact hsimple 'O' .operonly
  · exact ⟨_, rfl⟩
  · exact ⟨_, rfl⟩
  · exact ⟨_, hmember _ _ _ 'h'⟩
  · exact ⟨_, ite_self s⟩
  · exact ⟨_, ite_self s⟩
  · exact ⟨_, hmember _ _ _ 'o'⟩
  · unfold chmRegistered
    split_ifs
    · exact ⟨_, rfl⟩
    · exact hsimple 'r' .registered
  · exact ⟨_, hmember _ _ _ 'v'⟩
  · split
    · unfold chmSimple
      split_ifs
      · exact ⟨_, rfl⟩
      · exact hsimple letter _
    · exact ⟨_, rfl⟩

theorem walkStep_dir (source : Setter) (c : Channel) (w : Walk) (st : Dir × ModeState)
    (letter : Char) (h : w.dir = st.1) :
    (walkStep source c w letter).dir = (modeStep source st letter).1 := by
  have hmask : (w.mask source).dir = w.dir := by
    unfold Walk.mask
    split
    · rfl
    · split_ifs <;> rfl
  have hmember : ∀ need, (w.member source c need).dir = w.dir := by
    intro need
    unfold Walk.member
    split
    · rfl
    split
    · rfl
    · split <;> rfl
  have hlimit : (w.limit source).dir = w.dir := by
    unfold Walk.limit
    split
    · rfl
    · split <;> rfl
  have hkey : (w.key source).dir = w.dir := by
    unfold Walk.key
    split
    · rfl
    · split <;> rfl
  unfold walkStep modeStep
  split_ifs
  · rfl
  · rfl
  · rfl
  · exact h
  · rw [← h]
    split
    · exact hmask
    · exact hmask
    · exact hmask
    · exact hmember _
    · exact hmember _
    · exact hmember _
    · exact hlimit
    · exact hkey
    · rfl

theorem walkStep_follows (source : Setter) (hsource : LocalClient source) (c : Channel) (w : Walk)
    (st : Dir × ModeState) (letter : Char) (hfaithful : Faithful c st.2) (hdir : w.dir = st.1)
    (h : Follows w st.2) : Follows (walkStep source c w letter) (modeStep source st letter).2 := by
  have hsame : ∀ dir, Follows { w with dir := dir } st.2 := fun _ => ⟨h.params, h.modeLimit, h.key⟩
  unfold walkStep modeStep
  split_ifs with hplus hminus hequal hquery
  · exact hsame .add
  · exact hsame .del
  · exact hsame .query
  · rw [← hdir, hquery]
    obtain ⟨mask, hmask⟩ := modeFunc_query source letter st.2
    rw [hmask]
    exact ⟨h.params, h.modeLimit, keyState_same st.2 _ w.fate rfl rfl h.key⟩
  · rw [← hdir]
    exact modeFunc_follows source hsource c w st.2 letter h hfaithful.ids hquery

theorem run_follows (source : Setter) (hsource : LocalClient source) (c : Channel) (modes : CStr)
    (w : Walk) (st : Dir × ModeState) (hfaithful : Faithful c st.2) (hdir : w.dir = st.1)
    (h : Follows w st.2) :
    Follows (modes.foldl (walkStep source c) w) (modes.foldl (modeStep source) st).2 := by
  induction modes generalizing w st with
  | nil => exact h
  | cons letter modes ih =>
    exact ih _ _ (modeStep_faithful source hsource c st letter hfaithful)
      (walkStep_dir source c w st letter hdir)
      (walkStep_follows source hsource c w st letter hfaithful hdir h)

theorem setChannelMode_keyState (source : Setter) (hsource : LocalClient source) (c : Channel)
    (modes : CStr) (params : List CStr) :
    KeyState (setChannelMode source c modes params) (keyFate source c modes params) :=
  (run_follows source hsource c modes ⟨.add, params, 0, .untouched⟩ (.add, ⟨c, params, [], 0, ∅⟩)
    (faithful_start c params) rfl ⟨rfl, rfl, rfl⟩).key

end IrcdHybrid.ModeWalk
