import IrcdHybrid.RelaySteps
import IrcdHybrid.SjoinView

/-!
Following a SJOIN to its end: the modes it brings, the members it lists, and
when the picture is the channel. It is unless somebody who was on the channel
already is listed with a status that he has not got.
-/

namespace IrcdHybrid.SjoinReplay

open CString Numeral BanMask Channels Wire Burst Sjoin ChannelMode ChannelTable BurstLines
  ModeReplay TmodeLines SjoinHeader SjoinRelay RelaySteps ChannelLines SjoinLines ChannelView
  SjoinView

def flagItems (dir : Dir) (mode other : Mode) : List Item :=
  (letters mode other).map (fun c => ⟨c, none, dir⟩)

def goneItems (mode oldmode : Mode) : List Item :=
  flagItems .del oldmode mode ++
    ((if oldmode.limit ≠ 0 ∧ mode.limit = 0 then [⟨'l', none, .del⟩] else []) ++
      (if oldmode.key ≠ [] ∧ mode.key = [] then [⟨'k', some oldmode.key, .del⟩] else []))

def newItems (mode oldmode : Mode) : List Item :=
  flagItems .add mode oldmode ++
    ((if mode.limit ≠ 0 ∧ oldmode.limit ≠ mode.limit then
        [⟨'l', some (signedDecimal mode.limit.toInt), .add⟩] else []) ++
      (if mode.key ≠ [] ∧ oldmode.key ≠ mode.key then [⟨'k', some mode.key, .add⟩] else []))

theorem lettersOf_same (dir : Dir) (items : List Item) (h : ∀ item ∈ items, item.dir = dir) :
    lettersOf dir items = items.map Item.letter := by
  induction items with
  | nil => rfl
  | cons item items ih =>
    have hitem := h item (by simp)
    rw [lettersOf_cons, if_pos hitem.symm, hitem, ih (fun x hx => h x (by simp [hx]))]
    rfl

theorem lettersOf_add (st : Dir) (items : List Item) (hst : st ≠ .add)
    (h : ∀ item ∈ items, item.dir = .add) :
    lettersOf st items = if items = [] then [] else '+' :: items.map Item.letter := by
  cases items with
  | nil => rfl
  | cons item items =>
    have hitem := h item (by simp)
    rw [lettersOf_cons, hitem, if_neg hst, lettersOf_same .add items (fun x hx => h x (by simp [hx]))]
    rfl

theorem lettersOf_both (gone new : List Item) (hgone : ∀ item ∈ gone, item.dir = .del)
    (hnew : ∀ item ∈ new, item.dir = .add) :
    lettersOf .query (gone ++ new) =
      (if gone = [] then [] else '-' :: gone.map Item.letter) ++
        (if new = [] then [] else '+' :: new.map Item.letter) := by
  cases gone with
  | nil => exact lettersOf_add .query new (by decide) hnew
  | cons item gone =>
    have hitem := hgone item (by simp)
    have hrest : ∀ l : List Item, (∀ x ∈ l, x.dir = .del) →
        lettersOf .del (l ++ new) = l.map Item.letter ++
          (if new = [] then [] else '+' :: new.map Item.letter) := by
      intro l hl
      induction l with
      | nil => exact lettersOf_add .del new (by decide) hnew
      | cons x l ih =>
        have hx := hl x (by simp)
        rw [List.cons_append, lettersOf_cons, if_pos hx.symm, hx,
          ih (fun y hy => hl y (by simp [hy]))]
        rfl
    rw [List.cons_append, lettersOf_cons, hitem, if_neg (by decide),
      hrest gone (fun x hx => hgone x (by simp [hx])), if_neg (List.cons_ne_nil _ _)]
    rfl

/-- Flags that change one way, and a limit and a key that may do so with them. -/
theorem dir_of_items (dir : Dir) (mode other : Mode) (p q : Prop) [Decidable p] [Decidable q]
    (x y : Item) (hx : x.dir = dir) (hy : y.dir = dir) :
    ∀ item ∈ flagItems dir mode other ++ ((if p then [x] else []) ++ (if q then [y] else [])),
      item.dir = dir := by
  intro item hitem
  rcases List.mem_append.mp hitem with h | h
  · obtain ⟨c, -, rfl⟩ := List.mem_map.mp h
    rfl
  · rcases List.mem_append.mp h with h | h
    · split at h
      · exact List.mem_singleton.mp h ▸ hx
      · cases h
    · split at h
      · exact List.mem_singleton.mp h ▸ hy
      · cases h

theorem goneItems_dir (mode oldmode : Mode) : ∀ item ∈ goneItems mode oldmode, item.dir = .del :=
  dir_of_items .del oldmode mode _ _ _ _ rfl rfl

theorem newItems_dir (mode oldmode : Mode) : ∀ item ∈ newItems mode oldmode, item.dir = .add :=
  dir_of_items .add mode oldmode _ _ _ _ rfl rfl

theorem map_letter_flagItems (dir : Dir) (mode other : Mode) :
    (flagItems dir mode other).map Item.letter = letters mode other := by
  unfold flagItems
  rw [List.map_map]
  exact List.map_id' _

theorem argsOf_flagItems (dir : Dir) (mode other : Mode) : argsOf (flagItems dir mode other) = [] := by
  unfold argsOf flagItems
  rw [List.filterMap_map]
  exact List.filterMap_eq_nil_iff.mpr (fun _ _ => rfl)

theorem argsOf_append (a b : List Item) : argsOf (a ++ b) = argsOf a ++ argsOf b := by
  unfold argsOf
  rw [List.filterMap_append]

/-- The two buffers, as letters and parameters of the changes. -/
theorem setFinalMode_items (mode oldmode : Mode) :
    (setFinalMode mode oldmode).1 =
        lettersOf .query (goneItems mode oldmode ++ newItems mode oldmode) ∧
      (setFinalMode mode oldmode).2 =
        (argsOf (goneItems mode oldmode ++ newItems mode oldmode)).flatMap
          (fun arg => arg ++ [' ']) := by
  rw [lettersOf_both _ _ (goneItems_dir mode oldmode) (newItems_dir mode oldmode)]
  have hgone : letters oldmode mode ++
      ((if decide (oldmode.limit ≠ 0) && decide (mode.limit = 0) then ['l'] else []) ++
        (if decide (oldmode.key ≠ []) && decide (mode.key = []) then ['k'] else [])) =
        (goneItems mode oldmode).map Item.letter := by
    unfold goneItems
    rw [List.map_append, List.map_append, map_letter_flagItems]
    simp only [Bool.and_eq_true, decide_eq_true_eq]
    congr 2
    · split <;> rfl
    · split <;> rfl
  have hnew : letters mode oldmode ++
      ((if decide (mode.limit ≠ 0) && decide (oldmode.limit ≠ mode.limit) then ['l'] else []) ++
        (if decide (mode.key ≠ []) && decide (oldmode.key ≠ mode.key) then ['k'] else [])) =
        (newItems mode oldmode).map Item.letter := by
    unfold newItems
    rw [List.map_append, List.map_append, map_letter_flagItems]
    simp only [Bool.and_eq_true, decide_eq_true_eq]
    congr 2
    · split <;> rfl
    · split <;> rfl
  constructor
  · unfold setFinalMode
    dsimp only
    rw [hgone, hnew]
    simp only [List.map_eq_nil_iff]
  · unfold setFinalMode goneItems newItems
    simp only [argsOf_append, argsOf_flagItems, List.nil_append, Bool.and_eq_true,
      decide_eq_true_eq, List.flatMap_append, List.append_assoc]
    have hlimit : argsOf (if oldmode.limit ≠ 0 ∧ mode.limit = 0 then
        [⟨'l', none, .del⟩] else []) = [] := by
      split <;> rfl
    rw [hlimit]
    split_ifs <;> simp [argsOf]

def setFlags (v : Channel) (m : Finset SimpleMode) : Channel :=
  { v with mode := { v.mode with mode := m } }

def changeFlag (dir : Dir) (m : Finset SimpleMode) (d : SimpleMode) : Finset SimpleMode :=
  if dir = .add then insert d m else m.erase d

theorem kindOf_chanModes (tab : SimpleMode × Char) (h : tab ∈ chanModes) :
    kindOf tab.2 = some (.simple tab.1) := by
  revert tab
  decide

theorem foldl_flags (dir : Dir) (tabs : List (SimpleMode × Char)) (v : Channel)
    (h : ∀ tab ∈ tabs, tab ∈ chanModes) :
    (tabs.map (fun tab => (⟨tab.2, none, dir⟩ : Item))).foldl applyItem v =
      setFlags v ((tabs.map Prod.fst).foldl (changeFlag dir) v.mode.mode) := by
  induction tabs generalizing v with
  | nil => rfl
  | cons tab tabs ih =>
    have hstep : applyItem v ⟨tab.2, none, dir⟩ = setFlags v (changeFlag dir v.mode.mode tab.1) := by
      unfold applyItem
      simp only [kindOf_chanModes tab (h tab (by simp))]
      rfl
    rw [List.map_cons, List.foldl_cons, hstep, ih _ (fun x hx => h x (by simp [hx]))]
    rfl

theorem mem_foldl_changeFlag (ds : List SimpleMode) (m : Finset SimpleMode) (d : SimpleMode) :
    (d ∈ ds.foldl (changeFlag .add) m ↔ d ∈ m ∨ d ∈ ds) ∧
      (d ∈ ds.foldl (changeFlag .del) m ↔ d ∈ m ∧ d ∉ ds) := by
  induction ds generalizing m with
  | nil => simp
  | cons e ds ih =>
    obtain ⟨hadd, -⟩ := ih (changeFlag .add m e)
    obtain ⟨-, hdel⟩ := ih (changeFlag .del m e)
    rw [List.foldl_cons, List.foldl_cons, hadd, hdel]
    unfold changeFlag
    simp only [if_true, reduceCtorEq, if_false, Finset.mem_insert, Finset.mem_erase,
      List.mem_cons]
    constructor
    · tauto
    · tauto

theorem foldl_flagItems (dir : Dir) (mode other : Mode) (v : Channel) :
    (flagItems dir mode other).foldl applyItem v =
      setFlags v (((chanModes.filter (fun tab => decide (tab.1 ∈ mode.mode) &&
        !decide (tab.1 ∈ other.mode))).map Prod.fst).foldl (changeFlag dir) v.mode.mode) := by
  rw [← foldl_flags dir _ v (fun tab htab => (List.mem_filter.mp htab).1)]
  unfold flagItems letters
  rw [List.map_map]
  rfl

theorem mem_flagNames (mode other : Mode) (d : SimpleMode) :
    d ∈ (chanModes.filter (fun tab => decide (tab.1 ∈ mode.mode) &&
        !decide (tab.1 ∈ other.mode))).map Prod.fst ↔ d ∈ mode.mode ∧ d ∉ other.mode := by
  constructor
  · intro h
    obtain ⟨tab, htab, rfl⟩ := List.mem_map.mp h
    simpa using (List.mem_filter.mp htab).2
  · intro h
    obtain ⟨tab, htab, rfl⟩ : ∃ tab ∈ chanModes, tab.1 = d := by
      cases d <;> decide
    exact List.mem_map.mpr ⟨tab, List.mem_filter.mpr ⟨htab, by simpa using h⟩, rfl⟩

theorem foldl_limitGone (v : Channel) (old limit : BitVec 32) (hv : v.mode.limit = old) :
    (if old ≠ 0 ∧ limit = 0 then [(⟨'l', none, .del⟩ : Item)] else []).foldl applyItem v =
      setLimit v (if limit = 0 then 0 else old) := by
  subst hv
  by_cases h : v.mode.limit ≠ 0 ∧ limit = 0
  · rw [if_pos h, if_pos h.2]
    rfl
  · have hsame : (if limit = 0 then 0 else v.mode.limit) = v.mode.limit := by
      by_cases hlimit : limit = 0
      · rw [if_pos hlimit]
        by_contra hne
        exact h ⟨fun heq => hne heq.symm, hlimit⟩
      · rw [if_neg hlimit]
    rw [if_neg h, hsame]
    rfl

theorem foldl_keyGone (v : Channel) (old key : CStr) (hv : v.mode.key = old) :
    (if old ≠ [] ∧ key = [] then [(⟨'k', some old, .del⟩ : Item)] else []).foldl applyItem v =
      setKey v (if key = [] then [] else old) := by
  subst hv
  by_cases h : v.mode.key ≠ [] ∧ key = []
  · rw [if_pos h, if_pos h.2]
    rfl
  · have hsame : (if key = [] then [] else v.mode.key) = v.mode.key := by
      by_cases hkey : key = []
      · rw [if_pos hkey]
        by_contra hne
        exact h ⟨fun heq => hne heq.symm, hkey⟩
      · rw [if_neg hkey]
    rw [if_neg h, hsame]
    rfl

theorem foldl_limitNew (v : Channel) (old limit : BitVec 32)
    (hv : v.mode.limit = if limit = 0 then 0 else old) :
    (if limit ≠ 0 ∧ old ≠ limit then
      [(⟨'l', some (signedDecimal limit.toInt), .add⟩ : Item)] else []).foldl applyItem v =
      setLimit v limit := by
  by_cases h : limit ≠ 0 ∧ old ≠ limit
  · rw [if_pos h]
    show setLimit v (BitVec.ofInt 32 (atoi (signedDecimal limit.toInt))) = _
    rw [ofInt_atoi_signedDecimal]
  · have hsame : v.mode.limit = limit := by
      rw [hv]
      by_cases hlimit : limit = 0
      · rw [if_pos hlimit, hlimit]
      · rw [if_neg hlimit]
        by_contra hne
        exact h ⟨hlimit, hne⟩
    rw [if_neg h, ← hsame]
    rfl

theorem foldl_keyNew (v : Channel) (old key : CStr)
    (hv : v.mode.key = if key = [] then [] else old) :
    (if key ≠ [] ∧ old ≠ key then [(⟨'k', some key, .add⟩ : Item)] else []).foldl applyItem v =
      setKey v key := by
  by_cases h : key ≠ [] ∧ old ≠ key
  · rw [if_pos h]
    rfl
  · have hsame : v.mode.key = key := by
      rw [hv]
      by_cases hkey : key = []
      · rw [if_pos hkey, hkey]
      · rw [if_neg hkey]
        by_contra hne
        exact h ⟨hkey, hne⟩
    rw [if_neg h, ← hsame]
    rfl

theorem flags_settled (mode oldmode : Mode) :
    ((chanModes.filter (fun tab => decide (tab.1 ∈ mode.mode) &&
        !decide (tab.1 ∈ oldmode.mode))).map Prod.fst).foldl (changeFlag .add)
      (((chanModes.filter (fun tab => decide (tab.1 ∈ oldmode.mode) &&
        !decide (tab.1 ∈ mode.mode))).map Prod.fst).foldl (changeFlag .del) oldmode.mode) =
      mode.mode := by
  ext d
  rw [(mem_foldl_changeFlag _ _ _).1, (mem_foldl_changeFlag _ _ _).2, mem_flagNames, mem_flagNames]
  tauto

theorem foldl_finalItems (mode oldmode : Mode) (v : Channel) (hv : v.mode = oldmode) :
    (goneItems mode oldmode ++ newItems mode oldmode).foldl applyItem v = { v with mode := mode } := by
  subst hv
  unfold goneItems newItems
  simp only [List.foldl_append]
  rw [foldl_flagItems .del v.mode mode v, foldl_limitGone, foldl_keyGone,
    foldl_flagItems .add mode v.mode, foldl_limitNew, foldl_keyNew]
  · show (⟨v.name, v.creationtime, ⟨_, mode.limit, mode.key⟩, v.members, v.banlist, v.exceptlist,
      v.invexlist⟩ : Channel) = _
    congr 2
    exact flags_settled mode v.mode
  all_goals rfl

theorem shown_finalItems (mode oldmode : Mode) (h : ValidKey mode.key) (hold : ValidKey oldmode.key) :
    ∀ item ∈ goneItems mode oldmode ++ newItems mode oldmode, Shown item := by
  have hflag : ∀ dir, dir ≠ .query → ∀ m o : Mode, ∀ item ∈ flagItems dir m o, Shown item := by
    intro dir hdir m o item hitem
    unfold flagItems letters at hitem
    rw [List.map_map] at hitem
    obtain ⟨tab, htab, rfl⟩ := List.mem_map.mp hitem
    refine ⟨⟨_, kindOf_chanModes tab (List.mem_filter.mp htab).1, rfl⟩, hdir, ?_⟩
    intro arg harg
    exact absurd harg (by simp)
  have hkey : ∀ key dir, dir ≠ .query → ValidKey key → key ≠ [] → Shown ⟨'k', some key, dir⟩ := by
    intro key dir hdir hvalid hne
    refine ⟨⟨.key, rfl, rfl⟩, hdir, ?_⟩
    intro arg harg
    rw [← Option.some.inj harg]
    exact ⟨hne, hvalid.no_space, hvalid.no_colon⟩
  intro item hitem
  unfold goneItems newItems at hitem
  simp only [List.mem_append] at hitem
  rcases hitem with (hitem | hitem | hitem) | (hitem | hitem | hitem)
  · exact hflag .del (by decide) _ _ item hitem
  · split at hitem
    · obtain rfl := List.mem_singleton.mp hitem
      exact ⟨⟨.limit, rfl, rfl⟩, by decide, fun arg harg => absurd harg (by simp)⟩
    · simp at hitem
  · split at hitem
    · next hgone =>
      obtain rfl := List.mem_singleton.mp hitem
      exact hkey _ .del (by decide) hold hgone.1
    · simp at hitem
  · exact hflag .add (by decide) _ _ item hitem
  · split at hitem
    · obtain rfl := List.mem_singleton.mp hitem
      refine ⟨⟨.limit, rfl, rfl⟩, by simp, ?_⟩
      intro arg harg
      rw [← Option.some.inj harg]
      exact word_signedDecimal _
    · simp at hitem
  · split at hitem
    · next hnew =>
      obtain rfl := List.mem_singleton.mp hitem
      exact hkey _ .add (by decide) h hnew.1
    · simp at hitem

theorem finalItems_length (mode oldmode : Mode) :
    (goneItems mode oldmode ++ newItems mode oldmode).length ≤ 30 ∧
      (argsOf (goneItems mode oldmode ++ newItems mode oldmode)).length ≤ 12 := by
  have hletters : ∀ m o : Mode, (letters m o).length ≤ 13 := by
    intro m o
    unfold letters
    rw [List.length_map]
    exact List.length_filter_le _ _
  have hgone := hletters oldmode mode
  have hnew := hletters mode oldmode
  constructor
  · unfold goneItems newItems flagItems
    simp only [List.length_append, List.length_map]
    split_ifs <;> simp <;> omega
  · unfold goneItems newItems
    simp only [argsOf_append, argsOf_flagItems, List.length_append]
    split_ifs <;> simp [argsOf]

theorem spaced_params (args : List CStr) :
    spaced args ++ [' '] = ' ' :: args.flatMap (fun arg => arg ++ [' ']) := by
  induction args with
  | nil => rfl
  | cons arg args ih =>
    rw [spaced_cons, List.flatMap_cons, List.cons_append, List.append_assoc, ih]
    simp

section View

variable (net : Net) (clients : Clients) (viewer : CStr)

theorem follow_announceMode (hnet : ValidNet net clients) (id : CStr) (chptr : Channel)
    (mode oldmode : Mode) (v : Channel) (hv : v.mode = oldmode) (h : ValidKey mode.key)
    (hold : ValidKey oldmode.key) (hready : Ready clients viewer chptr) :
    follow viewer (announceMode net clients (.server id) chptr (setFinalMode mode oldmode).1
        (setFinalMode mode oldmode).2) v = { v with mode := mode } := by
  obtain ⟨hletters, hparams⟩ := setFinalMode_items mode oldmode
  have hfinal := foldl_finalItems mode oldmode v hv
  have hshown := shown_finalItems mode oldmode h hold
  obtain ⟨hcount, hargs⟩ := finalItems_length mode oldmode
  have hparamslen := setFinalMode_params mode oldmode h.len hold.len
  generalize goneItems mode oldmode ++ newItems mode oldmode = items
    at hletters hparams hfinal hshown hcount hargs
  unfold announceMode
  split
  · next hnil =>
    have hitems : items = [] := by
      by_contra hne
      exact (word_letters items hne hshown).ne_nil (hletters ▸ hnil)
    rw [← hfinal, hitems]
    rfl
  · next hne =>
    have hitems : items ≠ [] := by
      rintro rfl
      exact hne (by rw [hletters]; rfl)
    rw [follow_sendto clients viewer _ _ v hready.nodup hready.watch, ← hfinal]
    have hlen := lettersOf_length .query items
    have hshownlen := shownName_length net clients hnet id
    have hnamelen := hready.name_len
    apply replay_items v _ (shownName net clients (.server id)) chptr.name [' '] items _
      (shownName_space net clients hnet id) hready.name_word hitems hshown hargs (by simp)
    · rw [hletters] at *
      have hmode : "MODE".toList.length = 4 := rfl
      have hsize : IRCD_BUFSIZE - 2 = 510 := rfl
      simp only [HOSTLEN, CHANNELLEN] at hshownlen hnamelen
      unfold Line.text
      simp only [List.length_append, List.length_cons, hmode, hsize]
      omega
    · have htail : spaced (argsOf items) ++ [' '] = ' ' :: (setFinalMode mode oldmode).2 := by
        rw [spaced_params, ← hparams]
      unfold itemsLine lineText
      rw [spaced_append, List.append_assoc (spaced _), htail, ← hletters]
      simp [Line.text]

theorem removeBanList_snd (source : Sender) (type : ListType) (c : Char) (chptr : Channel) :
    (removeBanList net clients source type c chptr).2 =
      if chptr.list type = [] then []
      else (banBatches (mlen (source.name net clients) chptr.name) (chptr.list type) []
        (mlen (source.name net clients) chptr.name)).flatMap (fun bans =>
          sendtoChannelLocal clients chptr
            (banLine (source.name net clients) chptr.name c bans)) := by
  unfold removeBanList
  split <;> rfl

theorem clearTopic_snd (source : Sender) (room : Room) :
    (clearTopic net clients source room).2 =
      if room.topic = [] then []
      else sendtoChannelLocal clients room.toChannel
        ⟨shownName net clients source, "TOPIC".toList, room.name ++ " :".toList⟩ := by
  unfold clearTopic
  split <;> rfl

/-- The lines about statuses and masks are the same whatever the modes are. -/
theorem loseTs_lines (source : Sender) (isnew : Bool) (name : CStr) (oldts newts : ℤ) (room : Room)
    (mode : Mode) :
    (SjoinLines.loseTs net clients source isnew name oldts newts { room with mode := mode }).2 =
      (SjoinLines.loseTs net clients source isnew name oldts newts room).2 := by
  simp only [SjoinLines.loseTs, removeBanList_fst, removeOurModes_fst, clearTopic_toChannel,
    removeBanList_snd, clearTopic_snd]
  rfl

/-- Taking away and announcing the modes shows the channel as the timestamps leave it. -/
theorem follow_settle (hnet : ValidNet net clients) (id name : CStr) (d : Decision) (mode : Mode)
    (isnew : Bool) (newts : ℤ) (room : Room) (hready : Ready clients viewer room.toChannel)
    (hname : checkChannelName name = true) (hvalid : ∀ type, ∀ n ∈ room.list type, Valid n)
    (hkey : ValidKey mode.key) (hold : ValidKey room.mode.key) :
    let settled := settle net clients (.server id) d mode isnew name newts room
    let bufs := setFinalMode settled.1.mode room.mode
    Ready clients viewer settled.1.toChannel ∧
      follow viewer (settled.2 ++ announceMode net clients (.server id) settled.1.toChannel
        bufs.1 bufs.2) (seen clients room.toChannel) = seen clients settled.1.toChannel := by
  have hfinal : ValidKey (finalMode d mode room.mode).key := validKey_finalMode d mode _ hkey hold
  intro settled bufs
  by_cases hkeep : d.keepOurModes = true
  · have hsettled : settled = ({ room with
        creationtime := d.creationtime
        mode := finalMode d mode room.mode }, []) := if_pos hkeep
    have hready' : Ready clients viewer settled.1.toChannel := by
      rw [hsettled]
      exact Ready.congr clients viewer room.toChannel _ hready rfl rfl
    refine ⟨hready', ?_⟩
    rw [follow_append, follow_announceMode net clients viewer hnet id settled.1.toChannel
      settled.1.mode room.mode _ (by rw [hsettled]; rfl) (by rw [hsettled]; exact hfinal) hold hready',
      hsettled]
    rfl
  · let before : Room := { room with creationtime := d.creationtime }
    let lost := SjoinLines.loseTs net clients (.server id) isnew name room.creationtime newts before
    have hbefore : Ready clients viewer before.toChannel :=
      Ready.congr clients viewer room.toChannel _ hready rfl rfl
    have hlist : ∀ type, before.list type = room.list type := by
      intro type
      cases type <;> rfl
    have hlost := follow_loseTs net clients viewer hnet id name isnew room.creationtime newts before
      hbefore hname (fun type => by rw [hlist]; exact hvalid type)
    have hlines : settled.2 = lost.2 := by
      show (if d.keepOurModes = true then _ else _ : Room × List Sent).2 = _
      rw [if_neg hkeep]
      exact loseTs_lines net clients (.server id) isnew name room.creationtime newts before _
    have hsettled : settled.1.toChannel =
        { lost.1.toChannel with mode := finalMode d mode room.mode } := by
      show (settle net clients (.server id) d mode isnew name newts room).1.toChannel = _
      rw [settle_toChannel, loseTs_toChannel]
      show (if d.keepOurModes = true then _ else _ : Channel) = _
      rw [if_neg hkeep]
      rfl
    have hmode : settled.1.mode = finalMode d mode room.mode := congrArg Channel.mode hsettled
    have hready' : Ready clients viewer settled.1.toChannel := by
      rw [hsettled]
      exact Ready.congr clients viewer lost.1.toChannel _
        (hbefore.loseTs net clients viewer (.server id) name isnew room.creationtime newts before
          hname) rfl rfl
    refine ⟨hready', ?_⟩
    have hseen : seen clients before.toChannel = seen clients room.toChannel := rfl
    rw [follow_append, hlines, ← hseen, hlost, follow_announceMode net clients viewer hnet id
      settled.1.toChannel settled.1.mode room.mode _ ?_ (hmode ▸ hfinal) hold hready', hsettled]
    · rfl
    · rw [loseTs_toChannel]
      rfl

def orFlags (a b : Flags) : Flags :=
  ⟨a.chanop || b.chanop, a.halfop || b.halfop, a.voice || b.voice⟩

/-- The picture of a channel whose members were shown with more than they have. -/
def overlay (chptr : Channel) (extra : CStr → Flags) : Channel :=
  { seen clients chptr with
    members := chptr.members.map (fun member =>
      ⟨nick clients member.id, orFlags member.flags (extra member.id)⟩) }

/-- The picture once the letters that wait are shown as well. -/
def picture (v : Channel) (l : Loop) : Channel :=
  (itemsFor .add l.pending).foldl applyItem (follow viewer l.sent v)

/-- What holds in the loop. -/
structure Tidy (l : Loop) : Prop where
  ready : Ready clients viewer l.chptr
  room : l.pending.length < MAXMODEPARAMS
  letters : ∀ ch ∈ l.pending, (∃ status, kindOf ch.1 = some (.status status)) ∧
    ∃ member ∈ l.chptr.members, ch.2 = nick clients member.id

theorem nick_fits (hnet : ValidNet net clients) (chptr : Channel) (h : Ready clients viewer chptr)
    (member : Membership) (hmember : member ∈ chptr.members) :
    Word (nick clients member.id) ∧ (nick clients member.id).length ≤ NICKLEN := by
  obtain ⟨c, hc⟩ := h.known member.id (List.mem_map_of_mem hmember)
  rw [nick_of_some clients member.id c hc]
  exact ⟨(hnet.client _ c hc).nick, (hnet.client _ c hc).nick_len⟩

/-- Letters that have been noted can be shown in one line. -/
theorem replay_noted (hnet : ValidNet net clients) (id : CStr) (chptr : Channel)
    (pending : List (Char × CStr)) (v : Channel) (hready : Ready clients viewer chptr)
    (hne : pending ≠ []) (hcount : pending.length ≤ MAXMODEPARAMS)
    (hletters : ∀ ch ∈ pending, (∃ status, kindOf ch.1 = some (.status status)) ∧
      ∃ member ∈ chptr.members, ch.2 = nick clients member.id) :
    follow viewer (sendtoChannelLocal clients chptr
        (modeLine (shownName net clients (.server id)) chptr.name '+' pending)) v =
      (itemsFor .add pending).foldl applyItem v := by
  have hfits : Fits (shownName net clients (.server id)) chptr.name .add pending := by
    apply fits_nicks _ _ _ _ (shownName_length net clients hnet id) hready.name_len hne hcount
    intro ch hch
    obtain ⟨hstatus, member, hmember, heq⟩ := hletters ch hch
    rw [heq]
    exact ⟨hstatus, nick_fits net clients viewer hnet chptr hready member hmember⟩
  rw [follow_sendto clients viewer _ _ v hready.nodup hready.watch, show '+' = signOf .add from rfl,
    replay_modeLine v _ _ .add pending (shownName_space net clients hnet id) hready.name_word hne
      (by decide) hfits.read hcount hfits.len]

theorem noteStatus_spec (hnet : ValidNet net clients) (id : CStr) (v : Channel) (l : Loop)
    (letter : Char) (status : Status) (hletter : kindOf letter = some (.status status))
    (member : Membership) (hmember : member ∈ l.chptr.members) (h : Tidy clients viewer l) :
    let l' := noteStatus clients (shownName net clients (.server id)) (nick clients member.id) l letter
    Tidy clients viewer l' ∧ l'.chptr = l.chptr ∧
      picture viewer v l' =
        applyItem (picture viewer v l) ⟨letter, some (nick clients member.id), .add⟩ := by
  obtain ⟨hready, hroom, hletters⟩ := h
  have hnoted : ∀ ch ∈ l.pending ++ [(letter, nick clients member.id)],
      (∃ status, kindOf ch.1 = some (.status status)) ∧
        ∃ member ∈ l.chptr.members, ch.2 = nick clients member.id := by
    intro ch hch
    rcases List.mem_append.mp hch with hch | hch
    · exact hletters ch hch
    · obtain rfl := List.mem_singleton.mp hch
      exact ⟨⟨status, hletter⟩, member, hmember, rfl⟩
  have hitems : ∀ w : Channel,
      (itemsFor .add (l.pending ++ [(letter, nick clients member.id)])).foldl applyItem w =
        applyItem ((itemsFor .add l.pending).foldl applyItem w)
          ⟨letter, some (nick clients member.id), .add⟩ := by
    intro w
    unfold itemsFor
    rw [List.map_append, List.foldl_append]
    rfl
  intro l'
  by_cases hfull : MAXMODEPARAMS ≤ (l.pending ++ [(letter, nick clients member.id)]).length
  · have hl' : l' = { l with
        pending := []
        sent := l.sent ++ sendtoChannelLocal clients l.chptr
          (modeLine (shownName net clients (.server id)) l.chptr.name '+'
            (l.pending ++ [(letter, nick clients member.id)])) } := if_pos hfull
    rw [hl']
    refine ⟨⟨hready, Nat.succ_pos 5, by simp⟩, rfl, ?_⟩
    show follow viewer (l.sent ++ _) v = _
    rw [follow_append, replay_noted net clients viewer hnet id l.chptr _ _ hready (by simp) ?_ hnoted,
      hitems]
    · rfl
    · simp only [List.length_append, List.length_cons, List.length_nil]
      omega
  · have hl' : l' = { l with pending := l.pending ++ [(letter, nick clients member.id)] } :=
      if_neg hfull
    rw [hl']
    exact ⟨⟨hready, Nat.lt_of_not_le hfull, hnoted⟩, rfl, hitems _⟩

/-- Giving a status to everybody with this nick. -/
def giveFlags (nick : CStr) (fl : Flags) (v : Channel) : Channel :=
  { v with members := v.members.map (fun member =>
      if member.id = nick then { member with flags := orFlags member.flags fl } else member) }

theorem giveFlags_giveFlags (nick : CStr) (a b : Flags) (v : Channel) :
    giveFlags nick b (giveFlags nick a v) = giveFlags nick (orFlags a b) v := by
  unfold giveFlags
  simp only [List.map_map]
  congr 1
  apply List.map_congr_left
  intro member _
  show (if (if member.id = nick then _ else member : Membership).id = nick then _ else _) = _
  by_cases h : member.id = nick
  · simp [h, orFlags, Bool.or_assoc]
  · simp [h]

theorem giveFlags_noFlags (nick : CStr) (v : Channel) : giveFlags nick noFlags v = v := by
  have hmembers : v.members.map (fun member =>
      if member.id = nick then { member with flags := orFlags member.flags noFlags } else member) =
        v.members := by
    conv_rhs => rw [← List.map_id v.members]
    apply List.map_congr_left
    intro member _
    split
    · simp [orFlags, noFlags]
    · rfl
  unfold giveFlags
  rw [hmembers]

theorem setMember_true (nick : CStr) (status : Status) (v : Channel) :
    setMember v nick status true = giveFlags nick (setFlag noFlags true status) v := by
  unfold setMember giveFlags
  congr 1
  apply List.map_congr_left
  intro member _
  split
  · cases status <;> simp [setFlag, orFlags, noFlags]
  · rfl

theorem foldl_statusLetter (nick : CStr) (c : Char) (status : Status) (b : Bool) (v : Channel)
    (hc : kindOf c = some (.status status)) :
    (if b then [c] else []).foldl (fun v c => applyItem v ⟨c, some nick, .add⟩) v =
      giveFlags nick (setFlag noFlags b status) v := by
  cases b with
  | true =>
    show applyItem v ⟨c, some nick, .add⟩ = _
    rw [applyItem_status v c status nick .add hc]
    exact setMember_true nick status v
  | false =>
    have hnone : setFlag noFlags false status = noFlags := by cases status <;> rfl
    rw [hnone, giveFlags_noFlags]
    rfl

theorem foldl_statusLetters (nick : CStr) (fl : Flags) (v : Channel) :
    (statusLetters fl).foldl (fun v c => applyItem v ⟨c, some nick, .add⟩) v =
      giveFlags nick fl v := by
  unfold statusLetters
  rw [List.foldl_append, List.foldl_append, foldl_statusLetter nick 'o' .chanop fl.chanop v rfl,
    foldl_statusLetter nick 'h' .halfop fl.halfop _ rfl,
    foldl_statusLetter nick 'v' .voice fl.voice _ rfl, giveFlags_giveFlags, giveFlags_giveFlags]
  congr 1
  cases fl
  simp [orFlags, setFlag, noFlags]

theorem foldl_noteStatus (hnet : ValidNet net clients) (id : CStr) (v : Channel) (l : Loop)
    (fl : Flags) (member : Membership) (hmember : member ∈ l.chptr.members)
    (h : Tidy clients viewer l) :
    let l' := (statusLetters fl).foldl
      (noteStatus clients (shownName net clients (.server id)) (nick clients member.id)) l
    Tidy clients viewer l' ∧ l'.chptr = l.chptr ∧
      picture viewer v l' = giveFlags (nick clients member.id) fl (picture viewer v l) := by
  have hstatus : ∀ c ∈ statusLetters fl, ∃ status, kindOf c = some (.status status) := by
    intro c hc
    unfold statusLetters at hc
    simp only [List.mem_append] at hc
    rcases hc with hc | hc | hc
    · split at hc
      · exact ⟨.chanop, by rw [List.mem_singleton.mp hc]; rfl⟩
      · simp at hc
    · split at hc
      · exact ⟨.halfop, by rw [List.mem_singleton.mp hc]; rfl⟩
      · simp at hc
    · split at hc
      · exact ⟨.voice, by rw [List.mem_singleton.mp hc]; rfl⟩
      · simp at hc
  rw [← foldl_statusLetters]
  generalize statusLetters fl = letters at hstatus
  induction letters generalizing l with
  | nil => exact ⟨h, rfl, rfl⟩
  | cons c letters ih =>
    obtain ⟨status, hc⟩ := hstatus c (by simp)
    obtain ⟨htidy, hchptr, hpicture⟩ :=
      noteStatus_spec net clients viewer hnet id v l c status hc member hmember h
    obtain ⟨htidy', hchptr', hpicture'⟩ := ih _ (by rw [hchptr]; exact hmember) htidy
      (fun x hx => hstatus x (by simp [hx]))
    refine ⟨htidy', hchptr'.trans hchptr, ?_⟩
    rw [List.foldl_cons, List.foldl_cons, hpicture', hpicture]

theorem follow_butone (chptr : Channel) (fits : Caps → Bool) (line : Line) (v : Channel)
    (hnodup : (chptr.members.map Membership.id).Nodup) (c : Client) (caps : Caps)
    (hmem : viewer ∈ chptr.members.map Membership.id) (hc : clients viewer = some c)
    (hcaps : c.connection = some caps) :
    follow viewer (sendtoChannelLocalButone clients fits chptr line) v =
      if fits caps then replay v line else v := by
  have hiff := mem_localMembers clients viewer fits chptr c caps hmem hc hcaps
  unfold follow sendtoChannelLocalButone
  rw [linesTo_map viewer _ line (localMembers_nodup clients fits chptr hnodup)]
  by_cases h : fits caps = true
  · rw [if_pos (hiff.mpr h), if_pos h]
    rfl
  · rw [if_neg (fun hin => h (hiff.mp hin)), if_neg h]
    rfl

theorem follow_joinLines (chptr : Channel) (c : Client) (v : Channel) (hc : ValidClient c)
    (hready : Ready clients viewer chptr) :
    follow viewer (joinLines clients chptr c) v = addUserToChannel v c.name noFlags := by
  obtain ⟨hmem, w, caps, hw, hcaps⟩ := hready.watch
  have hspace := prefixText_space c hc
  have hlen := prefixText_length c hc
  have hjoin : ∀ (u : Channel) rest, replay u ⟨c.prefixText, "JOIN".toList, rest⟩ =
      addUserToChannel u c.name noFlags := by
    intro u rest
    rw [replay_join u c.prefixText rest hspace (by omega), prefixText_nick c hc]
  have haway : ∀ u : Channel, replay u ⟨c.prefixText, "AWAY".toList, ':' :: c.away⟩ = u := by
    intro u
    apply replay_other u _ hspace
    · exact ⟨by simp, by simp, by simp⟩
    · have haway : "AWAY".toList.length = 4 := rfl
      simp only [haway]
      omega
    · simp
    · simp
  unfold joinLines
  rw [follow_append, follow_append,
    follow_butone clients viewer chptr _ _ _ hready.nodup w caps hmem hw hcaps,
    follow_butone clients viewer chptr _ _ _ hready.nodup w caps hmem hw hcaps, hjoin, hjoin]
  have hlast : ∀ u : Channel, follow viewer (if c.away = [] then []
      else sendtoChannelLocalButone clients Caps.awayNotify chptr
        ⟨c.prefixText, "AWAY".toList, ':' :: c.away⟩) u = u := by
    intro u
    split
    · rfl
    · rw [follow_butone clients viewer chptr _ _ _ hready.nodup w caps hmem hw hcaps, haway]
      split <;> rfl
  rw [hlast]
  cases caps.extendedJoin <;> rfl

theorem foldl_itemsFor_addUser (pending : List (Char × CStr)) (v : Channel) (nick : CStr)
    (h : ∀ ch ∈ pending, (∃ status, kindOf ch.1 = some (.status status)) ∧ ch.2 ≠ nick) :
    (itemsFor .add pending).foldl applyItem (addUserToChannel v nick noFlags) =
      addUserToChannel ((itemsFor .add pending).foldl applyItem v) nick noFlags := by
  induction pending generalizing v with
  | nil => rfl
  | cons ch pending ih =>
    obtain ⟨⟨status, hstatus⟩, hne⟩ := h ch (by simp)
    show (itemsFor .add pending).foldl applyItem
      (applyItem (addUserToChannel v nick noFlags) ⟨ch.1, some ch.2, .add⟩) =
        addUserToChannel ((itemsFor .add pending).foldl applyItem
          (applyItem v ⟨ch.1, some ch.2, .add⟩)) nick noFlags
    rw [← ih _ (fun x hx => h x (by simp [hx])), applyItem_status _ _ status _ _ hstatus,
      applyItem_status _ _ status _ _ hstatus]
    congr 1
    unfold setMember addUserToChannel
    simp only [List.map_cons]
    rw [if_neg (fun heq => hne heq.symm)]

theorem comeIn_spec (hnet : ValidNet net clients) (v : Channel) (l : Loop) (c : Client)
    (member : Membership) (hc : clients member.id = some c) (h : Tidy clients viewer l)
    (hnew : l.chptr.isMember member.id = false) :
    let l' := comeIn clients c member l
    Tidy clients viewer l' ∧ l'.chptr = addUserToChannel l.chptr member.id member.flags ∧
      picture viewer v l' = addUserToChannel (picture viewer v l) (nick clients member.id) noFlags := by
  obtain ⟨hready, hroom, hletters⟩ := h
  have hnotin : member.id ∉ l.chptr.members.map Membership.id := by
    intro hin
    rw [(isMember_iff l.chptr member.id).mpr hin] at hnew
    exact absurd hnew (by simp)
  have hready' : Ready clients viewer (addUserToChannel l.chptr member.id member.flags) := by
    obtain ⟨hword, hlen, hnodup, hknown, hmem, hviewer⟩ := hready
    refine ⟨hword, hlen, List.nodup_cons.mpr ⟨hnotin, hnodup⟩, ?_,
      List.mem_cons_of_mem _ hmem, hviewer⟩
    intro id hid
    rcases List.mem_cons.mp hid with rfl | hid
    · exact ⟨c, hc⟩
    · exact hknown id hid
  have hother : ∀ ch ∈ l.pending, (∃ status, kindOf ch.1 = some (.status status)) ∧
      ch.2 ≠ nick clients member.id := by
    intro ch hch
    obtain ⟨hstatus, m, hm, heq⟩ := hletters ch hch
    refine ⟨hstatus, ?_⟩
    obtain ⟨d, hd⟩ := hready.known m.id (List.mem_map_of_mem hm)
    rw [heq, nick_of_some clients m.id d hd, nick_of_some clients member.id c hc]
    intro hsame
    apply hnotin
    rw [← hnet.nicks _ _ d c hd hc hsame]
    exact List.mem_map_of_mem hm
  intro l'
  have hl' : l' = { l with
      chptr := addUserToChannel l.chptr member.id member.flags
      sent := l.sent ++ joinLines clients (addUserToChannel l.chptr member.id member.flags) c } :=
    if_neg (by simp [hnew])
  rw [hl']
  refine ⟨⟨hready', hroom, ?_⟩, rfl, ?_⟩
  · intro ch hch
    obtain ⟨hstatus, m, hm, heq⟩ := hletters ch hch
    exact ⟨hstatus, m, List.mem_cons_of_mem _ hm, heq⟩
  · show (itemsFor .add l.pending).foldl applyItem (follow viewer (l.sent ++ _) v) = _
    rw [follow_append, follow_joinLines clients viewer _ c _ (hnet.client _ c hc) hready',
      ← nick_of_some clients member.id c hc, foldl_itemsFor_addUser _ _ _ hother]
    rfl

/-- What one listed member does to the channel, and to what is shown beyond it. -/
def showOne (st : Channel × (CStr → Flags)) (member : Membership) : Channel × (CStr → Flags) :=
  (joinOne true st.1 member,
    Function.update st.2 member.id
      (if st.1.isMember member.id then orFlags (st.2 member.id) member.flags else noFlags))

theorem giveFlags_overlay (hnet : ValidNet net clients) (chptr : Channel) (extra : CStr → Flags)
    (member : Membership) (c : Client) (hc : clients member.id = some c)
    (hready : Ready clients viewer chptr) :
    giveFlags (nick clients member.id) member.flags (overlay clients chptr extra) =
      overlay clients chptr
        (Function.update extra member.id (orFlags (extra member.id) member.flags)) := by
  unfold giveFlags overlay
  simp only [List.map_map]
  congr 1
  apply List.map_congr_left
  intro m hm
  obtain ⟨d, hd⟩ := hready.known m.id (List.mem_map_of_mem hm)
  show (if nick clients m.id = nick clients member.id then
    (⟨nick clients m.id, orFlags (orFlags m.flags (extra m.id)) member.flags⟩ : Membership)
    else ⟨nick clients m.id, orFlags m.flags (extra m.id)⟩) = _
  by_cases hid : m.id = member.id
  · rw [hid, if_pos rfl, Function.update_self]
    simp [orFlags, Bool.or_assoc]
  · rw [Function.update_of_ne hid, if_neg]
    rw [nick_of_some clients m.id d hd, nick_of_some clients member.id c hc]
    intro hsame
    exact hid (hnet.nicks _ _ d c hd hc hsame)

theorem overlay_addUser (chptr : Channel) (extra : CStr → Flags) (member : Membership)
    (hnew : member.id ∉ chptr.members.map Membership.id) (hnicks : ∀ m ∈ chptr.members,
      nick clients m.id ≠ nick clients member.id) :
    giveFlags (nick clients member.id) member.flags
        (addUserToChannel (overlay clients chptr extra) (nick clients member.id) noFlags) =
      overlay clients (addUserToChannel chptr member.id member.flags)
        (Function.update extra member.id noFlags) := by
  unfold giveFlags overlay addUserToChannel
  simp only [List.map_cons, if_true, Function.update_self]
  congr 1
  rw [List.cons.injEq]
  constructor
  · simp [orFlags, noFlags]
  · rw [List.map_map]
    apply List.map_congr_left
    intro m hm
    show (if nick clients m.id = nick clients member.id then _ else
      (⟨nick clients m.id, orFlags m.flags (extra m.id)⟩ : Membership)) = _
    have hid : m.id ≠ member.id := fun heq => hnew (heq ▸ List.mem_map_of_mem hm)
    rw [if_neg (hnicks m hm), Function.update_of_ne hid]

theorem memberStep_spec (hnet : ValidNet net clients) (id direction : CStr) (keep : Bool) (s : CStr)
    (v : Channel) (l : Loop) (extra : CStr → Flags) (h : Tidy clients viewer l)
    (hpicture : picture viewer v l = overlay clients l.chptr extra) :
    let link := linkOf net clients direction
    let l' := memberStep clients link (shownName net clients (.server id)) keep l s
    let st := (target link keep s).toList.foldl showOne (l.chptr, extra)
    Tidy clients viewer l' ∧ l'.chptr = st.1 ∧
      picture viewer v l' = overlay clients l'.chptr st.2 := by
  intro link l' st
  cases htarget : target link keep s with
  | none =>
    have hl' : l' = l := by
      show memberStep clients link _ keep l s = l
      unfold memberStep
      rw [htarget]
    have hst : st = (l.chptr, extra) := by
      show (target link keep s).toList.foldl showOne (l.chptr, extra) = _
      rw [htarget]
      rfl
    rw [hl', hst]
    exact ⟨h, rfl, hpicture⟩
  | some member =>
    obtain ⟨c, hc⟩ := target_client net clients direction keep s member htarget
    have hl' : l' = (statusLetters member.flags).foldl
        (noteStatus clients (shownName net clients (.server id)) (nick clients member.id))
        (comeIn clients c member l) := by
      show memberStep clients link _ keep l s = _
      unfold memberStep
      rw [htarget, nick_of_some clients member.id c hc]
      simp only [hc]
    have hst : st = showOne (l.chptr, extra) member := by
      show (target link keep s).toList.foldl showOne (l.chptr, extra) = _
      rw [htarget]
      rfl
    rw [hl', hst]
    by_cases hmember : l.chptr.isMember member.id = true
    · have hcome : comeIn clients c member l = l := if_pos hmember
      obtain ⟨m, hm, hid⟩ := List.mem_map.mp ((isMember_iff l.chptr member.id).mp hmember)
      obtain ⟨htidy, hchptr, hshown⟩ :=
        foldl_noteStatus net clients viewer hnet id v l member.flags m hm h
      rw [hid] at htidy hchptr hshown
      rw [hcome, hchptr]
      refine ⟨htidy, ?_, ?_⟩
      · simp [showOne, joinOne, hmember]
      · rw [hshown, hpicture, giveFlags_overlay net clients viewer hnet l.chptr extra member c hc
          h.ready]
        simp [showOne, hmember]
    · have hnew : l.chptr.isMember member.id = false := by simpa using hmember
      have hnotin : member.id ∉ l.chptr.members.map Membership.id :=
        fun hin => hmember ((isMember_iff l.chptr member.id).mpr hin)
      have hnicks : ∀ m ∈ l.chptr.members, nick clients m.id ≠ nick clients member.id := by
        intro m hm
        obtain ⟨d, hd⟩ := h.ready.known m.id (List.mem_map_of_mem hm)
        rw [nick_of_some clients m.id d hd, nick_of_some clients member.id c hc]
        intro hsame
        exact hnotin (hnet.nicks _ _ d c hd hc hsame ▸ List.mem_map_of_mem hm)
      obtain ⟨htidy, hchptr, hshown⟩ :=
        comeIn_spec net clients viewer hnet v l c member hc h hnew
      obtain ⟨htidy', hchptr', hshown'⟩ := foldl_noteStatus net clients viewer hnet id v
        (comeIn clients c member l) member.flags member
        (by rw [hchptr]; exact List.mem_cons_self) htidy
      rw [hchptr', hchptr]
      refine ⟨htidy', ?_, ?_⟩
      · simp [showOne, joinOne, hnew]
      · rw [hshown', hshown, hpicture, overlay_addUser clients l.chptr extra member hnotin hnicks]
        simp [showOne, hnew]

theorem foldl_memberStep (hnet : ValidNet net clients) (id direction : CStr) (keep : Bool)
    (names : List CStr) (v : Channel) (l : Loop) (extra : CStr → Flags) (h : Tidy clients viewer l)
    (hpicture : picture viewer v l = overlay clients l.chptr extra) :
    let link := linkOf net clients direction
    let l' := names.foldl (memberStep clients link (shownName net clients (.server id)) keep) l
    let st := (targets link keep names).foldl showOne (l.chptr, extra)
    Tidy clients viewer l' ∧ l'.chptr = st.1 ∧
      picture viewer v l' = overlay clients l'.chptr st.2 := by
  induction names generalizing l extra with
  | nil => exact ⟨h, rfl, hpicture⟩
  | cons s names ih =>
    obtain ⟨htidy, hchptr, hshown⟩ := memberStep_spec net clients viewer hnet id direction keep s v l
      extra h hpicture
    have hrest := ih _ _ htidy hshown
    have htargets : targets (linkOf net clients direction) keep (s :: names) =
        (target (linkOf net clients direction) keep s).toList ++
          targets (linkOf net clients direction) keep names := by
      unfold targets
      rw [List.filterMap_cons]
      cases target (linkOf net clients direction) keep s <;> rfl
    dsimp only
    rw [htargets, List.foldl_append, List.foldl_cons]
    rw [hchptr] at hrest
    exact hrest

theorem follow_lastStatuses (hnet : ValidNet net clients) (id : CStr) (v : Channel) (l : Loop)
    (h : Tidy clients viewer l) :
    follow viewer (l.sent ++ lastStatuses clients (shownName net clients (.server id)) l) v =
      picture viewer v l := by
  have hroom := h.room
  unfold lastStatuses picture
  rw [follow_append]
  split
  · next hnone => simp [hnone, itemsFor, follow]
  · next hne =>
    exact replay_noted net clients viewer hnet id l.chptr l.pending _ h.ready hne (by omega) h.letters

/-- Nobody who is on the channel already is listed with a status that he has not got. -/
def Honest : Channel → List Membership → Prop
  | _, [] => True
  | chptr, member :: members =>
    (∀ m ∈ chptr.members, m.id = member.id → orFlags m.flags member.flags = m.flags) ∧
      Honest (joinOne true chptr member) members

theorem orFlags_absorbs (a b c : Flags) :
    orFlags a (orFlags b c) = a ↔ orFlags a b = a ∧ orFlags a c = a := by
  obtain ⟨a1, a2, a3⟩ := a
  obtain ⟨b1, b2, b3⟩ := b
  obtain ⟨c1, c2, c3⟩ := c
  revert a1 a2 a3 b1 b2 b3 c1 c2 c3
  decide

theorem honest_iff (members : List Membership) (chptr : Channel) (extra : CStr → Flags) :
    (∀ m ∈ (members.foldl showOne (chptr, extra)).1.members,
        orFlags m.flags ((members.foldl showOne (chptr, extra)).2 m.id) = m.flags) ↔
      (∀ m ∈ chptr.members, orFlags m.flags (extra m.id) = m.flags) ∧ Honest chptr members := by
  induction members generalizing chptr extra with
  | nil => simp [Honest]
  | cons member members ih =>
    rw [List.foldl_cons]
    show (∀ m ∈ (members.foldl showOne (joinOne true chptr member, _)).1.members, _) ↔ _
    rw [show showOne (chptr, extra) member = (joinOne true chptr member, _) from rfl, ih]
    rw [show Honest chptr (member :: members) = ((∀ m ∈ chptr.members, m.id = member.id →
      orFlags m.flags member.flags = m.flags) ∧ Honest (joinOne true chptr member) members) from rfl,
      ← and_assoc]
    refine and_congr_left fun _ => ?_
    dsimp only
    by_cases hmember : chptr.isMember member.id = true
    · have hsame : joinOne true chptr member = chptr := by simp [joinOne, hmember]
      rw [hsame, if_pos hmember, ← forall₂_and]
      refine forall₂_congr fun m _ => ?_
      by_cases hid : m.id = member.id
      · rw [hid, Function.update_self, orFlags_absorbs]
        simp
      · rw [Function.update_of_ne hid]
        simp [hid]
    · have hnew : chptr.isMember member.id = false := by simpa using hmember
      have hnotin : ∀ m ∈ chptr.members, m.id ≠ member.id := by
        intro m hm heq
        exact hmember ((isMember_iff chptr member.id).mpr (heq ▸ List.mem_map_of_mem hm))
      have hjoin : joinOne true chptr member = addUserToChannel chptr member.id member.flags := by
        simp [joinOne, hnew]
      rw [hjoin, if_neg hmember]
      have hhonest : ∀ m ∈ chptr.members, m.id = member.id →
          orFlags m.flags member.flags = m.flags := fun m hm heq => absurd heq (hnotin m hm)
      constructor
      · intro h
        refine ⟨fun m hm => ?_, hhonest⟩
        have := h m (List.mem_cons_of_mem _ hm)
        rwa [Function.update_of_ne (hnotin m hm)] at this
      · intro h m hm
        rcases List.mem_cons.mp hm with rfl | hm
        · rw [Function.update_self]
          simp [orFlags, noFlags]
        · rw [Function.update_of_ne (hnotin m hm)]
          exact h.1 m hm

theorem overlay_eq_seen_iff (chptr : Channel) (extra : CStr → Flags) :
    overlay clients chptr extra = seen clients chptr ↔
      ∀ m ∈ chptr.members, orFlags m.flags (extra m.id) = m.flags := by
  constructor
  · intro h m hm
    have hmembers := congrArg Channel.members h
    have hm' := List.map_inj_left.mp hmembers m hm
    exact congrArg Membership.flags hm'
  · intro h
    have hmembers : chptr.members.map (fun member =>
        (⟨nick clients member.id, orFlags member.flags (extra member.id)⟩ : Membership)) =
          (seen clients chptr).members := by
      apply List.map_congr_left
      intro m hm
      rw [h m hm]
    unfold overlay
    rw [hmembers]

theorem follow_tsNotices (hnet : ValidNet net clients) (source : Sender) (isnew : Bool)
    (chptr : Channel) (newts : ℤ) (v : Channel) (hready : Ready clients viewer chptr) :
    follow viewer (tsNotices net clients source isnew chptr newts) v = v := by
  unfold tsNotices
  dsimp only
  split
  · split
    · rfl
    · rfl
  · split
    · rw [follow_append, follow_notice net clients viewer hnet chptr _ v hready]
      rfl
    · rfl

/-- The line lists nobody who was there with a status that he has not got. -/
def Truthful (id ts name : CStr) (mode : Mode) (rest : List CStr) (room : Room) : Prop :=
  let newts := believeTs net (strtol ts) room.creationtime
  let d := decideTs false newts room.creationtime
  Honest (settle net clients (.server id) d mode false name newts room).1.toChannel
    (targets (linkOf net clients (net.servers id).direction) d.keepNewModes
      (tokens (rest.headD [])))

/-- `ms_sjoin` on a channel that is there: what it sends and what it makes of the channel. -/
theorem sjoinRoom_some (id ts name modes : CStr) (args rest : List CStr) (mode : Mode) (room : Room)
    (hid : id.length ≤ IDLEN) (hname : checkChannelName name = true)
    (hmodes : sjoinModes modes args noModes = some (mode, rest)) (hkey : ValidKey mode.key)
    (hold : ValidKey room.mode.key) :
    let newts := believeTs net (strtol ts) room.creationtime
    let d := decideTs false newts room.creationtime
    let settled := settle net clients (.server id) d mode false name newts room
    let bufs := setFinalMode settled.1.mode room.mode
    let l := (tokens (rest.headD [])).foldl
      (memberStep clients (linkOf net clients (net.servers id).direction)
        (shownName net clients (.server id)) d.keepNewModes) ⟨settled.1.toChannel, [], []⟩
    settled.1.name.length ≤ CHANNELLEN →
    sjoinRoom net clients id ts name modes args (some room) =
      (some { settled.1 with toChannel := l.chptr },
        tsNotices net clients (.server id) false room.toChannel (strtol ts) ++
          (settled.2 ++ announceMode net clients (.server id) settled.1.toChannel bufs.1 bufs.2) ++
            (l.sent ++ lastStatuses clients (shownName net clients (.server id)) l)) := by
  intro newts d settled bufs l hlen
  have hmode : settled.1.mode = finalMode d mode room.mode := by
    have htoChannel := settle_toChannel net clients (.server id) d mode false name newts room
    have := congrArg Channel.mode htoChannel
    rw [applyTs_mode] at this
    exact this
  have hfinal : ValidKey settled.1.mode.key := by
    rw [hmode]
    exact validKey_finalMode d mode _ hkey hold
  have hshort := tooLong_relayHeader id d.creationtime settled.1.name modes d.keepNewModes
    settled.1.mode room.mode hid hlen hfinal.len hold.len
  unfold sjoinRoom
  simp only [hname, Bool.not_true, Bool.false_eq_true, if_false, hmodes, Option.isNone_some,
    Option.getD_some, and_false]
  rw [if_neg (by rw [hshort]; decide)]
  simp only [List.append_assoc]
  rfl

/-- What a member of this server is sent shows him the channel as it becomes, exactly when
the line is truthful about those who were there. -/
theorem replay_iff (hnet : ValidNet net clients) (id ts name modes : CStr) (args rest : List CStr)
    (mode : Mode) (room : Room) (hid : id.length ≤ IDLEN) (hname : checkChannelName name = true)
    (hargs : ∀ arg ∈ args.dropLast, Word arg)
    (hmodes : sjoinModes modes args noModes = some (mode, rest)) (hroom : WellFormed room.toChannel)
    (hknown : ∀ member ∈ room.members, ∃ c, clients member.id = some c)
    (hwatch : Watches clients viewer room.toChannel) :
    (∃ after, (sjoinRoom net clients id ts name modes args (some room)).1 = some after ∧
        follow viewer (sjoinRoom net clients id ts name modes args (some room)).2
            (seen clients room.toChannel) = seen clients after.toChannel) ↔
      Truthful net clients id ts name mode rest room := by
  obtain ⟨hword, hlen⟩ := checkChannelName_word room.name hroom.name
  have hready : Ready clients viewer room.toChannel := by
    refine ⟨hword, hlen, hroom.members_nodup, ?_, hwatch⟩
    intro i hi
    obtain ⟨member, hmember, rfl⟩ := List.mem_map.mp hi
    exact hknown member hmember
  have hkey : ValidKey mode.key := sjoinModes_validKey modes args noModes mode rest validKey_nil hargs
    hmodes
  let newts := believeTs net (strtol ts) room.creationtime
  let d := decideTs false newts room.creationtime
  obtain ⟨hsettled, hshown⟩ := follow_settle net clients viewer hnet id name d mode false newts room
    hready hname hroom.lists_valid hkey hroom.key
  rw [sjoinRoom_some net clients id ts name modes args rest mode room hid hname hmodes hkey hroom.key
    hsettled.name_len]
  unfold Truthful
  dsimp only
  generalize settle net clients (.server id) d mode false name newts room = settled at *
  let start : Loop := ⟨settled.1.toChannel, [], []⟩
  have htidy : Tidy clients viewer start := ⟨hsettled, Nat.succ_pos 5, by simp [start]⟩
  have hnone : ∀ f : Flags, orFlags f noFlags = f := by
    rintro ⟨a, b, c⟩
    simp [orFlags, noFlags]
  have hstart : overlay clients settled.1.toChannel (fun _ => noFlags) =
      seen clients settled.1.toChannel :=
    (overlay_eq_seen_iff clients _ _).mpr (fun m _ => hnone m.flags)
  obtain ⟨htidy', hchptr, hpicture⟩ := foldl_memberStep net clients viewer hnet id
    (net.servers id).direction d.keepNewModes (tokens (rest.headD []))
    (seen clients settled.1.toChannel) start (fun _ => noFlags) htidy hstart.symm
  have hhonest := honest_iff (targets (linkOf net clients (net.servers id).direction) d.keepNewModes
    (tokens (rest.headD []))) settled.1.toChannel (fun _ => noFlags)
  simp only [Option.some.injEq, exists_eq_left']
  rw [follow_append viewer (_ ++ _) (_ ++ _),
    follow_append viewer (tsNotices net clients (.server id) false room.toChannel (strtol ts)) _,
    follow_tsNotices net clients viewer hnet _ _ _ _ _ hready, hshown,
    follow_lastStatuses net clients viewer hnet id _ _ htidy', hpicture]
  rw [overlay_eq_seen_iff, hchptr, hhonest]
  exact and_iff_right (fun m _ => hnone m.flags)

/-- `ms_sjoin` on the channels of the server: a member who follows the lines ends up with the
channel exactly when the line is truthful. -/
theorem shown_iff (hnet : ValidNet net clients) (rooms : Rooms) (id ts name modes arg : CStr)
    (args rest : List CStr) (mode : Mode) (room : Room) (hid : id.length ≤ IDLEN)
    (hname : checkChannelName name = true) (hargs : ∀ a ∈ (arg :: args).dropLast, Word a)
    (hmodes : sjoinModes modes (arg :: args) noModes = some (mode, rest))
    (hfind : findRoom rooms name = some room) (hroom : WellFormed room.toChannel)
    (hknown : ∀ member ∈ room.members, ∃ c, clients member.id = some c)
    (hwatch : Watches clients viewer room.toChannel) :
    (∃ after,
        findRoom (SjoinLines.msSjoin net clients (.server id) (ts :: name :: modes :: arg :: args) rooms).1 name =
          some after ∧
        follow viewer (SjoinLines.msSjoin net clients (.server id) (ts :: name :: modes :: arg :: args) rooms).2
            (seen clients room.toChannel) = seen clients after.toChannel) ↔
      Truthful net clients id ts name mode rest room := by
  unfold SjoinLines.msSjoin
  dsimp only
  rw [findRoom_setRoom, hfind]
  exact replay_iff net clients viewer hnet id ts name modes (arg :: args) rest mode room hid hname
    hargs hmodes hroom hknown hwatch

end View

def sampleNet : Net :=
  ⟨"irc.example.net".toList, false, false, false, 300,
    fun _ => ⟨"hub.example.net".toList, false, false, "1BB".toList⟩, fun s => some s⟩

def alice : Client :=
  ⟨"alice".toList, "a".toList, "host".toList, ['*'], "Alice".toList, [], "0AA".toList,
    "0AAAAAAAA".toList, some ⟨false, false⟩, ∅⟩

def bob : Client :=
  ⟨"bob".toList, "b".toList, "host".toList, ['*'], "Bob".toList, [], "1BB".toList, "1BB".toList,
    none, ∅⟩

def sampleClients : Clients := fun id =>
  if id = "0AAAAAAAA".toList then some alice
  else if id = "1BBAAAAAA".toList then some bob
  else none

def sampleRoom : Room :=
  ⟨⟨"#c".toList, 200, noModes, [⟨"1BBAAAAAA".toList, noFlags⟩, ⟨"0AAAAAAAA".toList, noFlags⟩],
    [], [], []⟩, [], [], 0⟩

def sampleRooms : Rooms := setRoom (fun _ => none) "#c".toList (some sampleRoom)

theorem sampleClients_cases (id : CStr) (c : Client) (h : sampleClients id = some c) :
    (id = "0AAAAAAAA".toList ∧ c = alice) ∨ (id = "1BBAAAAAA".toList ∧ c = bob) := by
  unfold sampleClients at h
  split at h
  · next hid => exact Or.inl ⟨hid, (Option.some.inj h).symm⟩
  · split at h
    · next hid => exact Or.inr ⟨hid, (Option.some.inj h).symm⟩
    · simp at h

theorem sample_validNet : ValidNet sampleNet sampleClients where
  me_space := by decide
  me_len := by decide
  server_space := fun _ => show ' ' ∉ "hub.example.net".toList by decide
  server_len := fun _ => show "hub.example.net".toList.length ≤ HOSTLEN by decide
  client := by
    intro id c h
    rcases sampleClients_cases id c h with ⟨-, rfl⟩ | ⟨-, rfl⟩
    · exact ⟨⟨by decide, by decide, by decide⟩, by decide, by decide, by decide, by decide,
        by decide, by decide⟩
    · exact ⟨⟨by decide, by decide, by decide⟩, by decide, by decide, by decide, by decide,
        by decide, by decide⟩
  nicks := by
    intro id id' c c' h h' hname
    rcases sampleClients_cases id c h with ⟨rfl, rfl⟩ | ⟨rfl, rfl⟩ <;>
      rcases sampleClients_cases id' c' h' with ⟨rfl, rfl⟩ | ⟨rfl, rfl⟩
    · rfl
    · exact absurd hname (by decide)
    · exact absurd hname (by decide)
    · rfl

theorem sampleRoom_wellFormed : WellFormed sampleRoom.toChannel where
  name := by decide
  time_lt := by decide
  key := validKey_nil
  members_nodup := by decide
  members_id := by
    intro member hmember
    rcases List.mem_pair.mp hmember with rfl | rfl
    · exact validId_of_all _ _ (by decide) (by decide) (by decide)
    · exact validId_of_all _ _ (by decide) (by decide) (by decide)
  lists_valid := fun type n hn => by cases type <;> exact absurd hn (List.not_mem_nil)
  lists_distinct := fun type => by cases type <;> exact List.Pairwise.nil

theorem sampleRoom_known : ∀ member ∈ sampleRoom.members, ∃ c, sampleClients member.id = some c := by
  intro member hmember
  rcases List.mem_pair.mp hmember with rfl | rfl
  · exact ⟨bob, rfl⟩
  · exact ⟨alice, rfl⟩

theorem sample_watches : Watches sampleClients "0AAAAAAAA".toList sampleRoom.toChannel :=
  ⟨by decide, alice, ⟨false, false⟩, rfl, rfl⟩

theorem shown_iff_sample :
    (∃ after, findRoom (SjoinLines.msSjoin sampleNet sampleClients (.server "1BB".toList)
        ["200".toList, "#c".toList, "+".toList, "@1BBAAAAAA".toList] sampleRooms).1 "#c".toList =
          some after ∧
      follow "0AAAAAAAA".toList (SjoinLines.msSjoin sampleNet sampleClients (.server "1BB".toList)
          ["200".toList, "#c".toList, "+".toList, "@1BBAAAAAA".toList] sampleRooms).2
        (seen sampleClients sampleRoom.toChannel) = seen sampleClients after.toChannel) ↔
    Truthful sampleNet sampleClients "1BB".toList "200".toList "#c".toList noModes
      ["@1BBAAAAAA".toList] sampleRoom :=
  shown_iff sampleNet sampleClients "0AAAAAAAA".toList sample_validNet sampleRooms "1BB".toList
    "200".toList "#c".toList "+".toList "@1BBAAAAAA".toList [] ["@1BBAAAAAA".toList] noModes
    sampleRoom (by decide) (by decide) (by simp) (by decide) (findRoom_setRoom _ _ _)
    sampleRoom_wellFormed sampleRoom_known sample_watches

/-- Bob was there; the members see him become an operator, and he does not. -/
theorem status_shown_not_given :
    ¬ ∀ (net : Net) (clients : Clients) (viewer : CStr), ValidNet net clients →
      ∀ (rooms : Rooms) (id ts name modes arg : CStr) (args rest : List CStr) (mode : Mode)
        (room : Room), id.length ≤ IDLEN → checkChannelName name = true →
        (∀ a ∈ (arg :: args).dropLast, Word a) →
        sjoinModes modes (arg :: args) noModes = some (mode, rest) →
        findRoom rooms name = some room → WellFormed room.toChannel →
        (∀ member ∈ room.members, ∃ c, clients member.id = some c) →
        Watches clients viewer room.toChannel →
        ∃ after,
          findRoom (SjoinLines.msSjoin net clients (.server id) (ts :: name :: modes :: arg :: args) rooms).1
            name = some after ∧
          follow viewer (SjoinLines.msSjoin net clients (.server id) (ts :: name :: modes :: arg :: args) rooms).2
            (seen clients room.toChannel) = seen clients after.toChannel := by
  intro h
  obtain ⟨after, hafter, hshown⟩ := h sampleNet sampleClients "0AAAAAAAA".toList sample_validNet
    sampleRooms "1BB".toList "200".toList "#c".toList "+".toList "@1BBAAAAAA".toList []
    ["@1BBAAAAAA".toList] noModes sampleRoom (by decide) (by decide) (by simp) (by decide)
    (findRoom_setRoom _ _ _) sampleRoom_wellFormed sampleRoom_known sample_watches
  have hkept : (findRoom (SjoinLines.msSjoin sampleNet sampleClients (.server "1BB".toList)
      ["200".toList, "#c".toList, "+".toList, "@1BBAAAAAA".toList] sampleRooms).1
      "#c".toList).map (fun room => (seen sampleClients room.toChannel).members) =
        some [⟨"bob".toList, noFlags⟩, ⟨"alice".toList, noFlags⟩] := by decide +kernel
  have hseen : (follow "0AAAAAAAA".toList (SjoinLines.msSjoin sampleNet sampleClients (.server "1BB".toList)
      ["200".toList, "#c".toList, "+".toList, "@1BBAAAAAA".toList] sampleRooms).2
      (seen sampleClients sampleRoom.toChannel)).members =
        [⟨"bob".toList, ⟨true, false, false⟩⟩, ⟨"alice".toList, noFlags⟩] := by decide +kernel
  rw [hafter] at hkept
  rw [hshown] at hseen
  have hne := (Option.some.inj hkept).symm.trans hseen
  exact absurd hne (by decide)

end IrcdHybrid.SjoinReplay
