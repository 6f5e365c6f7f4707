import IrcdHybrid.BurstLines
import Mathlib.Data.Char

/-!
A whole burst on the receiver's channel. The SJOIN lines settle the timestamp
and the modes with the first of them, and the others only bring more members;
the BMASK lines then add to the lists as long as their timestamp is not higher
than the channel's.
-/

namespace IrcdHybrid.BurstRun

open CString BanMask Channels Packing Wire Burst Sjoin ChannelMode ChannelTable BurstLines

theorem setChannel_self (t : Table) (name : CStr) :
    setChannel t name (hashFindChannel t name) = t := Function.update_eq_self _ _

theorem foldl_setChannel {α : Type*} (name : CStr) (line : Table → α → Table)
    (step : Option Channel → α → Option Channel) (l : List α) (t : Table)
    (h : ∀ t, ∀ x ∈ l, line t x = setChannel t name (step (hashFindChannel t name) x)) :
    l.foldl line t = setChannel t name (l.foldl step (hashFindChannel t name)) := by
  induction l generalizing t with
  | nil => exact (setChannel_self t name).symm
  | cons x l ih =>
    rw [List.foldl_cons, h t x List.mem_cons_self,
      ih _ (fun t y hy => h t y (List.mem_cons_of_mem x hy)), hashFindChannel_setChannel,
      setChannel_setChannel, List.foldl_cons]

def sjoinRun (link : Link) (sid : CStr) (c : Channel) (old : Option Channel) : Option Channel :=
  (memberGroups sid c).foldl (sjoinStep link (asRead c)) old

def bmaskRun (sid : CStr) (c : Channel) (type : ListType) (chptr : Channel) : Channel :=
  (maskGroups sid c type).foldl (bmaskStep (asRead c) type) chptr

def bmaskRuns (sid : CStr) (c : Channel) (chptr : Channel) : Channel :=
  bmaskRun sid c .invex (bmaskRun sid c .exception (bmaskRun sid c .ban chptr))

theorem mem_of_mem_group {α : Type*} (gs : List (List α)) (l g : List α) (h : gs.flatten = l)
    (hg : g ∈ gs) (x : α) (hx : x ∈ g) : x ∈ l := by
  rw [← h]
  exact List.mem_flatten.mpr ⟨g, hg, hx⟩

/-- What the sender's and the receiver's servers must know of each other. -/
structure Linked (link : Link) (sid : CStr) (c : Channel) : Prop where
  validSid : ValidSid sid
  source : ∃ source, link.source sid = some source ∧ source.isServer = true
  known : Known link c.members

/-- A link to a server with one client. -/
def linkTo (ignoreBogusTs : Bool) (sid id : CStr) : Link where
  ignoreBogusTs := ignoreBogusTs
  currentTime := 1000000000
  source := fun s => if s = sid then some .server else none
  findChasing := fun s => if s = id then some s else none
  behind := fun s => s == id

theorem linkTo_valid (ignoreBogusTs : Bool) (sid id : CStr) (hid : ValidId id) :
    ValidLink (linkTo ignoreBogusTs sid id) where
  findChasing := by
    intro s id' h
    unfold linkTo at h
    dsimp only at h
    split at h
    · next hs =>
      obtain rfl := Option.some.inj h
      rwa [hs]
    · simp at h
  source := by
    intro s id' service h
    unfold linkTo at h
    dsimp only at h
    split at h <;> simp at h

theorem linkTo_linked (ignoreBogusTs : Bool) (sid id : CStr) (c : Channel) (hsid : ValidSid sid)
    (hc : ∀ member ∈ c.members, member.id = id) : Linked (linkTo ignoreBogusTs sid id) sid c where
  validSid := hsid
  source := ⟨.server, if_pos rfl, rfl⟩
  known := by
    intro member hmember
    rw [hc member hmember]
    exact ⟨if_pos rfl, beq_self_eq_true id⟩

theorem foldl_map_option {α β : Type*} (f : α → β → α) (l : List β) (old : Option α) :
    l.foldl (fun old b => old.map (fun a => f a b)) old = old.map (fun a => l.foldl f a) := by
  induction l generalizing old with
  | nil => simp
  | cons b l ih => rw [List.foldl_cons, ih, Option.map_map]; rfl

theorem receive_sjoinLines (link : Link) (sid : CStr) (t : Table) (c : Channel)
    (hlink : Linked link sid c) (h : WellFormed c) :
    (sjoinLines sid c).foldl (receive link) t =
      setChannel t c.name (sjoinRun link sid c (hashFindChannel t c.name)) := by
  obtain ⟨source, hsource, hserver⟩ := hlink.source
  unfold sjoinLines
  rw [List.foldl_map]
  apply foldl_setChannel c.name _ (sjoinStep link (asRead c))
  intro t g hg
  exact receive_sjoinLine link sid source t c g hlink.validSid hsource hserver h
    (mem_of_mem_group _ _ g (flatten_memberGroups sid c) hg) hlink.known

theorem receive_bmaskLines (link : Link) (sid : CStr) (t : Table) (c : Channel)
    (type : ListType) (hlink : Linked link sid c) (h : WellFormed c) :
    (bmaskLines sid c type).foldl (receive link) t =
      setChannel t c.name ((hashFindChannel t c.name).map (bmaskRun sid c type)) := by
  obtain ⟨source, hsource, hserver⟩ := hlink.source
  unfold bmaskLines bmaskRun
  rw [List.foldl_map, ← foldl_map_option]
  apply foldl_setChannel c.name
  intro t g hg
  exact receive_bmaskLine link sid source t c type g hlink.validSid hsource h
    (mem_of_mem_group _ _ g (flatten_maskGroups sid c type) hg)
    (bmaskLine_length sid c type hlink.validSid h g hg)

/-- The receiver's channel after a burst depends on nothing but that channel before. -/
theorem receive_burst (link : Link) (sid : CStr) (t : Table) (c : Channel)
    (hlink : Linked link sid c) (h : WellFormed c) :
    (burst sid c).foldl (receive link) t =
      setChannel t c.name
        ((sjoinRun link sid c (hashFindChannel t c.name)).map (bmaskRuns sid c)) := by
  rw [burst_eq sid c hlink.validSid h, sendChannelModes_eq sid c hlink.validSid h,
    List.foldl_append, List.foldl_append, List.foldl_append, receive_sjoinLines link sid t c hlink h,
    receive_bmaskLines link sid _ c _ hlink h, receive_bmaskLines link sid _ c _ hlink h,
    receive_bmaskLines link sid _ c _ hlink h]
  simp only [hashFindChannel_setChannel, setChannel_setChannel, Option.map_map]
  rfl

/-- The members with the status that the line gives them. -/
def withStatus (keep : Bool) (g : List Membership) : List Membership :=
  if keep then g else removeOurModes g

@[simp] theorem withStatus_ids (keep : Bool) (g : List Membership) :
    (withStatus keep g).map Membership.id = g.map Membership.id := by
  unfold withStatus
  split
  · rfl
  · exact removeOurModes_ids g

theorem withStatus_append (keep : Bool) (g g' : List Membership) :
    withStatus keep (g ++ g') = withStatus keep g ++ withStatus keep g' := by
  unfold withStatus removeOurModes
  split
  · rfl
  · exact List.map_append

/-- Members that are not there yet come to the front, one after the other. -/
theorem foldl_joinOne (keep : Bool) (g : List Membership) (chptr : Channel)
    (hnew : ∀ member ∈ g, member.id ∉ chptr.members.map Membership.id)
    (hnodup : (g.map Membership.id).Nodup) :
    g.foldl (joinOne keep) chptr =
      { chptr with members := (withStatus keep g).reverse ++ chptr.members } := by
  induction g generalizing chptr with
  | nil => cases keep <;> rfl
  | cons member g ih =>
    rw [List.map_cons, List.nodup_cons] at hnodup
    have hnot : chptr.isMember member.id = false := by
      have hmem := hnew member List.mem_cons_self
      rw [← isMember_iff] at hmem
      simpa using hmem
    have hone : joinOne keep chptr member =
        { chptr with members := (if keep then member else { member with flags := noFlags }) ::
            chptr.members } := by
      unfold joinOne addUserToChannel
      rw [hnot]
      cases keep <;> rfl
    have htail : ∀ m ∈ g, m.id ∉ (joinOne keep chptr member).members.map Membership.id := by
      intro m hm
      rw [hone]
      have hid : m.id ≠ member.id := fun heq => hnodup.1 (heq ▸ List.mem_map_of_mem hm)
      have hold := hnew m (List.mem_cons_of_mem member hm)
      cases keep <;> simpa [hid] using hold
    rw [List.foldl_cons, ih _ htail hnodup.2, hone]
    cases keep <;> simp [withStatus, removeOurModes]

theorem mergeModes_self (m : Mode) : mergeModes m m = m := by
  simp [mergeModes]

theorem mergeModes_noModes (m : Mode) : mergeModes m noModes = m := by
  have hlimit : ¬ (0#32) > m.limit := by bv_omega
  simp [mergeModes, noModes, hlimit]

theorem mergeModes_comm (m o : Mode) : mergeModes m o = mergeModes o m := by
  unfold mergeModes
  rw [Finset.union_comm]
  congr 1
  · split_ifs <;> bv_omega
  · split_ifs with h1 h2 h2
    · exact absurd h1 (lt_asymm h2)
    · rfl
    · rfl
    · exact le_antisymm (not_lt.mp h2) (not_lt.mp h1)

theorem mergeModes_again (m o : Mode) : mergeModes m (mergeModes m o) = mergeModes m o := by
  unfold mergeModes
  dsimp only
  rw [← Finset.union_assoc, Finset.union_self]
  congr 1
  · split_ifs <;> simp_all
  · split_ifs <;> simp_all

/-- The timestamp of the channel is believed. -/
def Believed (link : Link) (c : Channel) : Prop :=
  link.ignoreBogusTs = false ∨ 800000000 ≤ c.creationtime

theorem bogusTs_believed (link : Link) (c : Channel) (oldts : ℤ) (h : Believed link c) :
    bogusTs link c.creationtime oldts = c.creationtime := by
  unfold bogusTs
  rw [if_neg]
  rintro ⟨hignore, hts⟩
  rcases h with hoff | hhigh
  · rw [hoff] at hignore
    exact absurd hignore (by decide)
  · omega

/-- The channel as the first line leaves it, without the new members. -/
def settle (c old : Channel) : Channel :=
  applyTs (decideTs false c.creationtime old.creationtime) c.mode false c.name old

/-- Whether the statuses of the lines count. -/
def keepNew (c old : Channel) : Bool := (decideTs false c.creationtime old.creationtime).keepNewModes

theorem settle_ids (c old : Channel) :
    (settle c old).members.map Membership.id = old.members.map Membership.id :=
  applyTs_ids _ _ _ _ _

/-- Neither side's timestamp counts as the older one. -/
def BothKept (c old : Channel) : Prop :=
  c.creationtime = 0 ∨ old.creationtime = 0 ∨ c.creationtime = old.creationtime

instance (c old : Channel) : Decidable (BothKept c old) :=
  inferInstanceAs (Decidable (_ ∨ _ ∨ _))

def Older (c old : Channel) : Prop :=
  c.creationtime ≠ 0 ∧ old.creationtime ≠ 0 ∧ c.creationtime < old.creationtime

instance (c old : Channel) : Decidable (Older c old) := inferInstanceAs (Decidable (_ ∧ _ ∧ _))

theorem older_or (c old : Channel) (h : ¬ BothKept c old) : Older c old ∨ Older old c := by
  unfold BothKept at h
  unfold Older
  omega

theorem settle_both (c old : Channel) (h : BothKept c old) :
    settle c old =
        { old with
          creationtime := if c.creationtime = 0 ∨ old.creationtime = 0 then 0 else old.creationtime
          mode := mergeModes c.mode old.mode } ∧
      keepNew c old = true := by
  unfold settle keepNew decideTs
  by_cases hzero : c.creationtime = 0 ∨ old.creationtime = 0
  · simp [hzero, applyTs, finalMode]
  · have heq : c.creationtime = old.creationtime := by
      unfold BothKept at h
      omega
    have hne : old.creationtime ≠ 0 := by omega
    simp [heq, hne, applyTs, finalMode]

theorem settle_older (c old : Channel) (h : Older c old) :
    settle c old = { loseTs old false c.name with creationtime := c.creationtime, mode := c.mode } ∧
      keepNew c old = true := by
  obtain ⟨hc, hold, hlt⟩ := h
  have hne : c.creationtime ≠ old.creationtime := by omega
  unfold settle keepNew decideTs
  simp [hc, hold, hne, hlt, applyTs, finalMode, loseTs]

theorem settle_younger (c old : Channel) (h : Older old c) :
    settle c old = old ∧ keepNew c old = false := by
  obtain ⟨hold, hc, hlt⟩ := h
  have hne : c.creationtime ≠ old.creationtime := by omega
  have hnlt : ¬ c.creationtime < old.creationtime := by omega
  unfold settle keepNew decideTs
  simp [hc, hold, hne, hnlt, applyTs, finalMode]

theorem settle_again (c old : Channel) (members : List Membership) :
    settle c { settle c old with members := members } =
        { settle c old with members := members } ∧
      keepNew c { settle c old with members := members } = keepNew c old := by
  by_cases hboth : BothKept c old
  · obtain ⟨hsettle, hkeep⟩ := settle_both c old hboth
    rw [hsettle, hkeep]
    have hagain : BothKept c { old with
        creationtime := if c.creationtime = 0 ∨ old.creationtime = 0 then 0 else old.creationtime
        mode := mergeModes c.mode old.mode
        members := members } := by
      unfold BothKept at hboth ⊢
      dsimp only
      split_ifs <;> omega
    obtain ⟨hsettle', hkeep'⟩ := settle_both c _ hagain
    refine ⟨?_, hkeep'⟩
    rw [hsettle']
    dsimp only
    rw [mergeModes_again]
    split_ifs <;> simp_all
  · rcases older_or c old hboth with holder | hyounger
    · obtain ⟨hsettle, hkeep⟩ := settle_older c old holder
      rw [hsettle, hkeep]
      obtain ⟨hsettle', hkeep'⟩ := settle_both c
        { loseTs old false c.name with
          creationtime := c.creationtime
          mode := c.mode
          members := members } (Or.inr (Or.inr rfl))
      refine ⟨?_, hkeep'⟩
      rw [hsettle']
      dsimp only
      rw [mergeModes_self, if_neg (by have := holder.1; omega)]
    · obtain ⟨hsettle, hkeep⟩ := settle_younger c old hyounger
      rw [hsettle, hkeep]
      exact settle_younger c { old with members := members } hyounger

/-- One SJOIN line on a channel none of its members is on. -/
theorem sjoinStep_some (link : Link) (c old : Channel) (g : List Membership)
    (hts : Believed link c) (hnodup : (g.map Membership.id).Nodup)
    (hnew : ∀ member ∈ g, member.id ∉ old.members.map Membership.id) :
    sjoinStep link c (some old) g =
      some { settle c old with
        members := (withStatus (keepNew c old) g).reverse ++ (settle c old).members } := by
  have hids := settle_ids c old
  have hjoin := foldl_joinOne (keepNew c old) g (settle c old)
    (fun member hm => by rw [hids]; exact hnew member hm) hnodup
  unfold sjoinStep
  dsimp only [Option.getD_some]
  rw [bogusTs_believed link c _ hts]
  show (if _ ∧ false = true then none else some (g.foldl (joinOne (keepNew c old)) (settle c old))) = _
  rw [if_neg (by simp), hjoin]

theorem foldl_sjoinStep (link : Link) (c old : Channel) (gs : List (List Membership))
    (members : List Membership) (hts : Believed link c)
    (hnodup : (gs.flatten.map Membership.id).Nodup)
    (hnew : ∀ member ∈ gs.flatten, member.id ∉ members.map Membership.id) :
    gs.foldl (sjoinStep link c) (some { settle c old with members := members }) =
      some { settle c old with
        members := (withStatus (keepNew c old) gs.flatten).reverse ++ members } := by
  induction gs generalizing members with
  | nil => simp [withStatus, removeOurModes]
  | cons g gs ih =>
    rw [List.flatten_cons, List.map_append, List.nodup_append] at hnodup
    obtain ⟨hg, hgs, hdisjoint⟩ := hnodup
    obtain ⟨hsettle, hkeep⟩ := settle_again c old members
    rw [List.foldl_cons, sjoinStep_some link c _ g hts hg
      (fun member hm => hnew member (by simp [hm])), hsettle, hkeep]
    rw [ih _ hgs, List.flatten_cons, withStatus_append, List.reverse_append, List.append_assoc]
    intro member hmember
    rw [List.map_append, List.mem_append, List.map_reverse, List.mem_reverse, withStatus_ids]
    rintro (hin | hin)
    · exact hdisjoint _ hin _ (List.mem_map_of_mem hmember) rfl
    · exact hnew member (by simp [List.mem_flatten.mp hmember]) hin

theorem memberGroups_cons (sid : CStr) (c : Channel) :
    ∃ g gs, memberGroups sid c = g :: gs := by
  unfold memberGroups
  split
  · exact ⟨_, _, rfl⟩
  · next member members _ =>
    have hgroups : ∀ (items cur : List Membership),
        ∃ g gs, groups memberText ' ' 510 (sjoinHeader sid c).length items cur = g :: gs := by
      intro items
      induction items with
      | nil => exact fun cur => ⟨cur, [], rfl⟩
      | cons x items ih =>
        intro cur
        unfold groups
        split
        · exact ⟨_, _, rfl⟩
        · exact ih _
    exact hgroups members [member]

/-- The SJOIN lines of a burst, on a channel that none of the members is on. -/
theorem sjoinRun_some (link : Link) (sid : CStr) (c old : Channel) (hts : Believed link (asRead c))
    (h : WellFormed c) (hnew : ∀ member ∈ c.members, member.id ∉ old.members.map Membership.id) :
    sjoinRun link sid c (some old) =
      some { settle (asRead c) old with
        members := (withStatus (keepNew (asRead c) old) c.members).reverse ++ (settle (asRead c) old).members } := by
  obtain ⟨g, gs, hgroups⟩ := memberGroups_cons sid c
  have hflat := flatten_memberGroups sid c
  rw [hgroups, List.flatten_cons] at hflat
  have hnodup := h.members_nodup
  rw [← hflat, List.map_append, List.nodup_append] at hnodup
  obtain ⟨hg, hgs, hdisjoint⟩ := hnodup
  unfold sjoinRun
  rw [hgroups, List.foldl_cons, sjoinStep_some link (asRead c) old g hts hg
    (fun member hm => hnew member (by rw [← hflat]; simp [hm])),
    foldl_sjoinStep link (asRead c) old gs _ hts hgs, ← hflat, withStatus_append, List.reverse_append,
    List.append_assoc]
  intro member hmember
  rw [List.map_append, List.mem_append, List.map_reverse, List.mem_reverse, withStatus_ids,
    settle_ids]
  rintro (hin | hin)
  · exact hdisjoint _ hin _ (List.mem_map_of_mem hmember) rfl
  · exact hnew member (by rw [← hflat]; exact List.mem_append_right g hmember) hin

/-- The channel that a burst creates, before its masks. -/
def fresh (c : Channel) (members : List Membership) : Channel :=
  ⟨c.name, c.creationtime, c.mode, members, [], [], []⟩

theorem settle_fresh (c : Channel) (members : List Membership) :
    settle c (fresh c members) = fresh c members ∧ keepNew c (fresh c members) = true := by
  obtain ⟨hsettle, hkeep⟩ := settle_both c (fresh c members) (Or.inr (Or.inr rfl))
  have htime : (if c.creationtime = 0 ∨ (fresh c members).creationtime = 0 then 0
      else (fresh c members).creationtime) = c.creationtime := by
    show (if c.creationtime = 0 ∨ c.creationtime = 0 then 0 else c.creationtime) = c.creationtime
    split_ifs <;> omega
  refine ⟨?_, hkeep⟩
  rw [hsettle, htime]
  simp [fresh, mergeModes_self]

theorem memberGroups_ne (sid : CStr) (c : Channel) (h : c.members ≠ []) (g : List Membership)
    (hg : g ∈ memberGroups sid c) : g ≠ [] := by
  unfold memberGroups at hg
  split at hg
  · next hnil => exact absurd hnil h
  · exact groups_ne_nil _ _ _ _ _ _ (by simp) g hg

theorem sjoinStep_none (link : Link) (c : Channel) (g : List Membership) (hts : Believed link c)
    (hname : checkChannelName c.name = true) (hnodup : (g.map Membership.id).Nodup) (hne : g ≠ []) :
    sjoinStep link c none g = some (fresh c g.reverse) := by
  have hjoin := foldl_joinOne true g (fresh c []) (by simp [fresh]) hnodup
  have happly : applyTs ⟨c.creationtime, true, true⟩ c.mode true c.name
      (makeChannel link.currentTime c.name) = fresh c [] := by
    simp [applyTs, finalMode, makeChannel, fresh, mergeModes_noModes, strlcpy_name c.name hname]
  have hdecide : ∀ oldts, decideTs true c.creationtime oldts = ⟨c.creationtime, true, true⟩ :=
    fun _ => rfl
  unfold sjoinStep
  simp only [Option.getD_none, Option.isNone_none, bogusTs_believed link c _ hts, hdecide, happly,
    hjoin]
  rw [if_neg (by simp [withStatus, fresh, hne])]
  simp [withStatus, fresh]

/-- The SJOIN lines of a burst where the channel is not known. -/
theorem sjoinRun_none (link : Link) (sid : CStr) (c : Channel) (hts : Believed link (asRead c))
    (h : Live c) : sjoinRun link sid c none = some (fresh (asRead c) c.members.reverse) := by
  obtain ⟨g, gs, hgroups⟩ := memberGroups_cons sid c
  have hne := memberGroups_ne sid c h.members_ne g (by rw [hgroups]; exact List.mem_cons_self)
  have hflat := flatten_memberGroups sid c
  rw [hgroups, List.flatten_cons] at hflat
  have hnodup := h.wellFormed.members_nodup
  rw [← hflat, List.map_append, List.nodup_append] at hnodup
  obtain ⟨hg, hgs, hdisjoint⟩ := hnodup
  obtain ⟨hsettle, hkeep⟩ := settle_fresh (asRead c) []
  have hrest := foldl_sjoinStep link (asRead c) (fresh (asRead c) []) gs g.reverse hts hgs
  rw [hsettle, hkeep] at hrest
  unfold sjoinRun
  rw [hgroups, List.foldl_cons, sjoinStep_none link (asRead c) g hts h.wellFormed.name hg hne]
  have hnew : ∀ member ∈ gs.flatten, member.id ∉ g.reverse.map Membership.id := by
    intro member hmember hin
    rw [List.map_reverse, List.mem_reverse] at hin
    exact hdisjoint _ hin _ (List.mem_map_of_mem hmember) rfl
  have hlast := hrest hnew
  simp only [fresh, withStatus, if_true] at hlast ⊢
  rw [hlast, ← hflat, List.reverse_append]

/-- The lines count as long as the channel's timestamp is not lower. -/
theorem bmaskRun_eq (sid : CStr) (c : Channel) (type : ListType) (chptr : Channel) :
    bmaskRun sid c type chptr =
      if (asRead c).creationtime > chptr.creationtime then chptr
      else chptr.setList ((c.list type).foldl insertMask (chptr.list type)) type := by
  have hrun : ∀ (gs : List (List Nuh)) (chptr : Channel),
      gs.foldl (bmaskStep (asRead c) type) chptr =
        if (asRead c).creationtime > chptr.creationtime then chptr
        else chptr.setList (gs.flatten.foldl insertMask (chptr.list type)) type := by
    intro gs
    induction gs with
    | nil =>
      intro chptr
      simp
    | cons g gs ih =>
      intro chptr
      rw [List.foldl_cons, ih]
      unfold bmaskStep
      rw [foldl_addMask]
      by_cases hts : (asRead c).creationtime > chptr.creationtime
      · rw [if_pos hts, if_pos hts, if_pos hts]
      · rw [if_neg hts, creationtime_setList, if_neg hts, if_neg hts, list_setList,
          setList_setList, List.flatten_cons, List.foldl_append]
  unfold bmaskRun
  rw [hrun, flatten_maskGroups]

theorem bmaskRun_other (sid : CStr) (c : Channel) (type type' : ListType) (chptr : Channel)
    (h : type' ≠ type) : (bmaskRun sid c type chptr).list type' = chptr.list type' := by
  rw [bmaskRun_eq]
  split
  · rfl
  · exact list_setList_of_ne chptr _ type type' h

section

variable (sid : CStr) (c : Channel) (type : ListType) (chptr : Channel)

@[simp] theorem creationtime_bmaskRun : (bmaskRun sid c type chptr).creationtime = chptr.creationtime := by
  rw [bmaskRun_eq]
  split
  · rfl
  · rw [creationtime_setList]

@[simp] theorem mode_bmaskRun :
    (bmaskRun sid c type chptr).mode = chptr.mode := by
  rw [bmaskRun_eq]
  split
  · rfl
  · rw [mode_setList]

@[simp] theorem members_bmaskRun :
    (bmaskRun sid c type chptr).members = chptr.members := by
  rw [bmaskRun_eq]
  split
  · rfl
  · rw [members_setList]

@[simp] theorem name_bmaskRun :
    (bmaskRun sid c type chptr).name = chptr.name := by
  rw [bmaskRun_eq]
  split
  · rfl
  · rw [name_setList]

end

@[simp] theorem creationtime_bmaskRuns (sid : CStr) (c chptr : Channel) :
    (bmaskRuns sid c chptr).creationtime = chptr.creationtime := by simp [bmaskRuns]

@[simp] theorem mode_bmaskRuns (sid : CStr) (c chptr : Channel) :
    (bmaskRuns sid c chptr).mode = chptr.mode := by simp [bmaskRuns]

@[simp] theorem members_bmaskRuns (sid : CStr) (c chptr : Channel) :
    (bmaskRuns sid c chptr).members = chptr.members := by simp [bmaskRuns]

@[simp] theorem name_bmaskRuns (sid : CStr) (c chptr : Channel) :
    (bmaskRuns sid c chptr).name = chptr.name := by simp [bmaskRuns]

theorem list_bmaskRuns (sid : CStr) (c chptr : Channel) (type : ListType) :
    (bmaskRuns sid c chptr).list type =
      if (asRead c).creationtime > chptr.creationtime then chptr.list type
      else (c.list type).foldl insertMask (chptr.list type) := by
  have hself : ∀ chptr' : Channel, (bmaskRun sid c type chptr').list type =
      if (asRead c).creationtime > chptr'.creationtime then chptr'.list type
      else (c.list type).foldl insertMask (chptr'.list type) := by
    intro chptr'
    rw [bmaskRun_eq]
    split
    · rfl
    · rw [list_setList]
  unfold bmaskRuns
  cases type with
  | ban =>
    rw [bmaskRun_other _ _ .invex .ban _ (by decide), bmaskRun_other _ _ .exception .ban _ (by decide),
      hself]
  | exception =>
    rw [bmaskRun_other _ _ .invex .exception _ (by decide), hself, creationtime_bmaskRun,
      bmaskRun_other _ _ .ban .exception _ (by decide)]
  | invex =>
    rw [hself, creationtime_bmaskRun, creationtime_bmaskRun,
      bmaskRun_other _ _ .exception .invex _ (by decide),
      bmaskRun_other _ _ .ban .invex _ (by decide)]

end IrcdHybrid.BurstRun
