import IrcdHybrid.ConfItems

/-!
The counts of the configuration items and of the classes. Each is the number of attachments,
through each step of attaching, detaching, clearing and reading. What is not in use any more
is held by somebody, apart from the X-lines that the clearing takes off their list and keeps.
-/

namespace IrcdHybrid.ConfCounts

open Hostmask hiding MaskItem
open Rehash Retention ConfItems

variable {ι : Type}

/-- All attachments. -/
def held (s : State ι) : List ℕ := s.clients.flatMap s.attached

def classOf (s : State ι) (c : ℕ) : Option ℕ := (s.confs.cell c).bind fun conf => conf.item.classPtr

/-- The number of attachments through a class. -/
def through (s : State ι) (k : ℕ) : ℕ := (held s).countP fun c => classOf s c == some k

structure Linked (s : State ι) : Prop where
  nodup : s.clients.Nodup
  once : ∀ client, (s.attached client).Nodup
  idle : ∀ client, client ∉ s.clients → s.attached client = []

/-- The items in use are those on the lists. -/
structure Configured (s : State ι) : Prop where
  listed : ∀ type, ∀ c ∈ s.lists type, ∃ conf, s.confs.cell c = some conf ∧ conf.active = true ∧
    conf.item.type = type
  used : ∀ c conf, s.confs.cell c = some conf → conf.active = true → c ∈ s.lists conf.item.type
  nodup : ∀ type, (s.lists type).Nodup

structure Classed (s : State ι) : Prop where
  listed : ∀ k, k ∈ s.classList ↔ ∃ cls, s.classes.cell k = some cls
  nodup : s.classList.Nodup
  last : s.classList.getLast? = some classDefault
  default : ∃ cls, s.classes.cell classDefault = some cls ∧ cls.active = true

/-- What clients can be attached to is in a class, and an auth block is never cleared late. -/
structure Typed (s : State ι) : Prop where
  classed : ∀ c conf, s.confs.cell c = some conf → attachable conf.item.type = true →
    ∃ k cls, conf.item.classPtr = some k ∧ s.classes.cell k = some cls
  auth : ∀ c conf, s.confs.cell c = some conf → conf.item.type = .client →
    conf.item.holdUntil = 0 ∧ conf.item.isConfDatabase = false
  attached : ∀ c ∈ held s, ∀ conf, s.confs.cell c = some conf → attachable conf.item.type = true

/-- Items out of use are held; `lost` is whether X-lines may have been lost. -/
def Kept (lost : Prop) (s : State ι) : Prop :=
  ∀ c conf, s.confs.cell c = some conf → conf.active = false →
    c ∈ held s ∨ (conf.item.type = .xline ∧ lost)

/-- What holds through the clearing and the reading, too. -/
structure Sound (lost : Prop) (s : State ι) : Prop where
  confs : Counts s.confs fun c => (held s).count c
  classes : Counts s.classes (through s)
  linked : Linked s
  configured : Configured s
  classed : Classed s
  typed : Typed s
  kept : Kept lost s

/-- The class of what is in use is in use. -/
def Current (s : State ι) : Prop :=
  ∀ c conf, s.confs.cell c = some conf → conf.active = true → attachable conf.item.type = true →
    ∀ k, conf.item.classPtr = some k → ∃ cls, s.classes.cell k = some cls ∧ cls.active = true

structure Good (lost : Prop) (s : State ι) : Prop where
  sound : Sound lost s
  current : Current s
  used : ∀ k cls, s.classes.cell k = some cls → cls.active = false → 0 < through s k

theorem mem_held (s : State ι) (c : ℕ) :
    c ∈ held s ↔ ∃ client ∈ s.clients, c ∈ s.attached client :=
  List.mem_flatMap

section Held

variable [DecidableEq ι]

theorem held_update (s s' : State ι) (client : ι) (cs : List ℕ) (hnodup : s.clients.Nodup)
    (hclient : client ∈ s.clients) (hclients : s'.clients = s.clients)
    (hattached : s'.attached = Function.update s.attached client cs) :
    ∃ rest, (held s).Perm (s.attached client ++ rest) ∧ (held s').Perm (cs ++ rest) := by
  refine ⟨(s.clients.erase client).flatMap s.attached, ?_, ?_⟩
  · exact (List.perm_cons_erase hclient).flatMap_right s.attached
  · have hrest : (s.clients.erase client).flatMap s'.attached =
        (s.clients.erase client).flatMap s.attached := by
      apply List.flatMap_congr
      intro other hother
      have hne : other ≠ client := ((hnodup.mem_erase_iff).mp hother).1
      rw [hattached, Function.update_of_ne hne]
    have hperm := (List.perm_cons_erase hclient).flatMap_right s'.attached
    rw [List.flatMap_cons, hrest, hattached, Function.update_self] at hperm
    unfold held
    rw [hclients]
    rw [hattached]
    exact hperm

theorem held_cons (s s' : State ι) (client : ι) (c : ℕ) (hnodup : s.clients.Nodup)
    (hclient : client ∈ s.clients) (hclients : s'.clients = s.clients)
    (hattached : s'.attached = Function.update s.attached client (c :: s.attached client)) :
    (held s').Perm (c :: held s) := by
  obtain ⟨rest, hs, hs'⟩ := held_update s s' client _ hnodup hclient hclients hattached
  exact hs'.trans ((hs.symm).cons c)

theorem held_erase (s s' : State ι) (client : ι) (c : ℕ) (hnodup : s.clients.Nodup)
    (hclient : client ∈ s.clients) (hc : c ∈ s.attached client)
    (hclients : s'.clients = s.clients)
    (hattached : s'.attached = Function.update s.attached client ((s.attached client).erase c)) :
    (held s).Perm (c :: held s') := by
  obtain ⟨rest, hs, hs'⟩ := held_update s s' client _ hnodup hclient hclients hattached
  exact hs.trans (((List.perm_cons_erase hc).append_right rest).trans ((hs'.symm).cons c))

end Held

theorem through_congr (s s' : State ι) (hheld : held s' = held s)
    (hclass : ∀ c ∈ held s, classOf s' c = classOf s c) (k : ℕ) : through s' k = through s k := by
  unfold through
  rw [hheld]
  apply List.countP_congr
  intro c hc
  rw [hclass c hc]

theorem through_pos {s : State ι} {c k : ℕ} (hc : c ∈ held s) (hclass : classOf s c = some k) :
    0 < through s k := by
  unfold through
  rw [List.countP_pos_iff]
  exact ⟨c, hc, by rw [hclass]; exact beq_self_eq_true _⟩

theorem classOf_eq {s : State ι} {c : ℕ} {conf : Cell MaskItem} (hc : s.confs.cell c = some conf) :
    classOf s c = conf.item.classPtr := by
  unfold classOf
  rw [hc]
  rfl

/-- The state where an item has left its list and is out of use, or freed. -/
def unlisted (s : State ι) (type : MaskitemType) (c : ℕ) (new : Option (Cell MaskItem)) : State ι :=
  { s with
    confs := s.confs.put c new
    lists := Function.update s.lists type ((s.lists type).erase c) }

/-- It is freed if nobody holds it, and kept if somebody does or if it is a lost X-line. -/
def Leaves (lost : Prop) (s : State ι) (c : ℕ) (conf : Cell MaskItem)
    (new : Option (Cell MaskItem)) : Prop :=
  (new = none ∧ c ∉ held s) ∨ (new = some { conf with active := false } ∧
    (c ∈ held s ∨ (conf.item.type = .xline ∧ lost)))

section Unlisted

variable {lost : Prop} {s : State ι} {c : ℕ} {conf : Cell MaskItem} {new : Option (Cell MaskItem)}

theorem Leaves.item (h : Leaves lost s c conf new) {d : Cell MaskItem} (hd : new = some d) :
    d = { conf with active := false } := by
  rcases h with ⟨hnone, -⟩ | ⟨hsome, -⟩
  · rw [hnone] at hd
    exact absurd hd (by simp)
  · exact Option.some.inj (hd.symm.trans hsome)

theorem unlisted_cell (type : MaskitemType) {c' : ℕ} (hne : c' ≠ c) :
    (unlisted s type c new).confs.cell c' = s.confs.cell c' :=
  Store.put_of_ne _ _ hne

/-- What is in the place of an item afterwards was there before, but for the mark. -/
theorem unlisted_some (hc : s.confs.cell c = some conf) (hnew : Leaves lost s c conf new)
    (type : MaskitemType) {c' : ℕ} {d : Cell MaskItem}
    (hd : (unlisted s type c new).confs.cell c' = some d) :
    ∃ old, s.confs.cell c' = some old ∧ d.item = old.item := by
  by_cases hne : c' = c
  · subst hne
    obtain rfl := hnew.item ((Store.put_self _ _ _).symm.trans hd)
    exact ⟨conf, hc, rfl⟩
  · rw [unlisted_cell type hne] at hd
    exact ⟨d, hd, rfl⟩

theorem unlisted_classOf (hc : s.confs.cell c = some conf) (hnew : Leaves lost s c conf new)
    (type : MaskitemType) {c' : ℕ} (hheld : c' ∈ held s) :
    classOf (unlisted s type c new) c' = classOf s c' := by
  by_cases hne : c' = c
  · subst hne
    rcases hnew with ⟨-, hnot⟩ | ⟨hsome, -⟩
    · exact absurd hheld hnot
    · rw [classOf_eq hc, classOf_eq ((Store.put_self _ _ _).trans hsome)]
  · unfold classOf
    rw [unlisted_cell type hne]

theorem Sound.unlisted (h : Sound lost s) (hc : s.confs.cell c = some conf)
    (hnew : Leaves lost s c conf new) : Sound lost (unlisted s conf.item.type c new) := by
  have hthrough : ∀ k, through (ConfCounts.unlisted s conf.item.type c new) k = through s k :=
    fun k => through_congr s (ConfCounts.unlisted s conf.item.type c new) rfl
      (fun c' hc' => unlisted_classOf hc hnew _ hc') k
  refine ⟨?_, h.classes.congr hthrough, ⟨h.linked.nodup, h.linked.once, h.linked.idle⟩,
    ⟨?_, ?_, ?_⟩, ⟨h.classed.listed, h.classed.nodup, h.classed.last, h.classed.default⟩,
    ⟨?_, ?_, ?_⟩, ?_⟩
  · refine h.confs.put (h.confs.lt_next hc) rfl ?_ (fun _ _ => rfl)
    rcases hnew with ⟨rfl, hnot⟩ | ⟨rfl, -⟩
    · exact List.count_eq_zero.mpr hnot
    · exact (h.confs.refs c conf hc).symm
  · intro type c' hc'
    have hold : c' ∈ s.lists type ∧ c' ≠ c := by
      change c' ∈ Function.update s.lists conf.item.type ((s.lists conf.item.type).erase c) type
        at hc'
      by_cases htype : type = conf.item.type
      · subst htype
        rw [Function.update_self] at hc'
        exact ((h.configured.nodup _).mem_erase_iff.mp hc').symm
      · rw [Function.update_of_ne htype] at hc'
        refine ⟨hc', fun heq => htype ?_⟩
        subst heq
        obtain ⟨d, hd, -, hdtype⟩ := h.configured.listed type c' hc'
        rw [hc] at hd
        rw [Option.some.inj hd]
        exact hdtype.symm
    rw [unlisted_cell _ hold.2]
    exact h.configured.listed type c' hold.1
  · intro c' d hd hactive
    by_cases hne : c' = c
    · subst hne
      have hinactive := hnew.item ((Store.put_self _ _ _).symm.trans hd)
      rw [hinactive] at hactive
      exact absurd hactive (by simp)
    · rw [unlisted_cell _ hne] at hd
      have hmem := h.configured.used c' d hd hactive
      show c' ∈ Function.update s.lists conf.item.type ((s.lists conf.item.type).erase c) d.item.type
      by_cases htype : d.item.type = conf.item.type
      · rw [htype, Function.update_self]
        rw [htype] at hmem
        exact (List.mem_erase_of_ne hne).mpr hmem
      · rw [Function.update_of_ne htype]
        exact hmem
  · intro type
    show (Function.update s.lists conf.item.type ((s.lists conf.item.type).erase c) type).Nodup
    by_cases htype : type = conf.item.type
    · subst htype
      rw [Function.update_self]
      exact (h.configured.nodup _).erase c
    · rw [Function.update_of_ne htype]
      exact h.configured.nodup type
  · intro c' d hd
    obtain ⟨old, hold, hitem⟩ := unlisted_some hc hnew _ hd
    rw [hitem]
    exact h.typed.classed c' old hold
  · intro c' d hd
    obtain ⟨old, hold, hitem⟩ := unlisted_some hc hnew _ hd
    rw [hitem]
    exact h.typed.auth c' old hold
  · intro c' hc' d hd
    obtain ⟨old, hold, hitem⟩ := unlisted_some hc hnew _ hd
    rw [hitem]
    exact h.typed.attached c' hc' old hold
  · intro c' d hd hactive
    by_cases hne : c' = c
    · subst hne
      have hd' := (Store.put_self _ _ _).symm.trans hd
      rw [hnew.item hd']
      rcases hnew with ⟨hnone, -⟩ | ⟨-, hwhy⟩
      · rw [hnone] at hd'
        exact absurd hd' (by simp)
      · exact hwhy
    · rw [unlisted_cell _ hne] at hd
      exact h.kept c' d hd hactive

theorem confFree_listed (hc : s.confs.cell c = some conf) :
    confFree c s = some (unlisted s conf.item.type c none) := by
  unfold confFree Store.free
  rw [hc]
  rfl

theorem confFree_unlisted (h : Sound lost s) (d : Cell MaskItem) :
    confFree c (unlisted s d.item.type c (some d)) = some (unlisted s d.item.type c none) := by
  rw [confFree_listed (Store.put_self _ _ _)]
  unfold ConfCounts.unlisted Store.put
  simp only [Function.update_idem, Function.update_self]
  rw [List.erase_of_not_mem (a := c) (h.configured.nodup _).not_mem_erase]

theorem unlist_eq (type : MaskitemType) (hc : s.confs.cell c = some conf) :
    unlist type c s = some (unlisted s type c (some { conf with active := false })) := by
  unfold unlist
  rw [hc]
  rfl

/-- An item that is attached is held, and no other item is freed. -/
theorem freeUnheld_unlisted (h : Sound lost s) (hc : s.confs.cell c = some conf) :
    ∃ new, Leaves lost s c conf new ∧
      freeUnheld c (unlisted s conf.item.type c (some { conf with active := false })) =
        some (unlisted s conf.item.type c new) := by
  have hrefs := h.confs.refs c conf hc
  have hcell : (ConfCounts.unlisted s conf.item.type c
    (some { conf with active := false })).confs.cell c = some { conf with active := false } :=
      Store.put_self _ _ _
  by_cases hzero : conf.refs = 0
  · refine ⟨none, Or.inl ⟨rfl, List.count_eq_zero.mp (hrefs.symm.trans hzero)⟩, ?_⟩
    unfold freeUnheld
    rw [hcell]
    exact (if_pos hzero).trans (confFree_unlisted h { conf with active := false })
  · refine ⟨_, Or.inr ⟨rfl, Or.inl (List.count_pos_iff.mp (by omega))⟩, ?_⟩
    unfold freeUnheld
    rw [hcell]
    exact if_neg hzero

end Unlisted

/-- An X-line with a time is on the list, which the clearing takes off and does not free. -/
def Forgets (s : State ι) : Prop :=
  ∃ c ∈ s.lists .xline, ∃ conf, s.confs.cell c = some conf ∧ conf.item.holdUntil ≠ 0

/-- What clearing leaves of the configuration. -/
structure Clears (s s' : State ι) : Prop where
  lists : ∀ type, s'.lists type ⊆ s.lists type
  items : ∀ c conf, s'.confs.cell c = some conf →
    ∃ old, s.confs.cell c = some old ∧ conf.item = old.item
  xlines : ∀ c conf, s.confs.cell c = some conf → conf.item.type = .xline →
    conf.item.holdUntil ≠ 0 → ∃ conf', s'.confs.cell c = some conf' ∧ conf'.item = conf.item

section Clear

variable {lost : Prop} {s : State ι} {c : ℕ} {conf : Cell MaskItem}

theorem clears_refl (s : State ι) : Clears s s where
  lists := fun _ => List.Subset.refl _
  items := fun _ conf hc => ⟨conf, hc, rfl⟩
  xlines := fun _ conf hc _ _ => ⟨conf, hc, rfl⟩

theorem Clears.trans {s s' s'' : State ι} (h : Clears s s') (h' : Clears s' s'') :
    Clears s s'' where
  lists := fun type => List.Subset.trans (h'.lists type) (h.lists type)
  items := by
    intro c conf hc
    obtain ⟨mid, hmid, hitem⟩ := h'.items c conf hc
    obtain ⟨old, hold, hitem'⟩ := h.items c mid hmid
    exact ⟨old, hold, hitem.trans hitem'⟩
  xlines := by
    intro c conf hc htype huntil
    obtain ⟨mid, hmid, hitem⟩ := h.xlines c conf hc htype huntil
    obtain ⟨last, hlast, hitem'⟩ := h'.xlines c mid hmid (hitem ▸ htype) (hitem ▸ huntil)
    exact ⟨last, hlast, hitem'.trans hitem⟩

theorem Clears.forgets {s s' : State ι} (h : Clears s s') (hforgets : Forgets s') : Forgets s := by
  obtain ⟨c, hc, conf, hconf, huntil⟩ := hforgets
  obtain ⟨old, hold, hitem⟩ := h.items c conf hconf
  exact ⟨c, h.lists _ hc, old, hold, hitem ▸ huntil⟩

/-- An item leaves its list, and unless it is an X-line with a time it may be freed. -/
theorem clears_unlisted {new : Option (Cell MaskItem)} (hc : s.confs.cell c = some conf)
    (hnew : Leaves lost s c conf new)
    (hx : conf.item.type = .xline → conf.item.holdUntil ≠ 0 → new ≠ none) :
    Clears s (unlisted s conf.item.type c new) where
  lists := by
    intro type c' hc'
    change c' ∈ Function.update s.lists conf.item.type ((s.lists conf.item.type).erase c) type
      at hc'
    by_cases htype : type = conf.item.type
    · subst htype
      rw [Function.update_self] at hc'
      exact List.mem_of_mem_erase hc'
    · rwa [Function.update_of_ne htype] at hc'
  items := fun c' d hd => unlisted_some hc hnew _ hd
  xlines := by
    intro c' d hd htype huntil
    by_cases hne : c' = c
    · subst hne
      obtain rfl : conf = d := Option.some.inj (hc.symm.trans hd)
      cases hn : new with
      | none => exact absurd hn (hx htype huntil)
      | some d' =>
        refine ⟨d', Store.put_self _ _ _, ?_⟩
        rw [hnew.item hn]
    · exact ⟨d, (unlisted_cell _ hne).trans hd, rfl⟩

/-- The loop over a list clears the item and takes it off the list. -/
theorem clearItem_eq {type : MaskitemType} (h : Sound lost s) (hforgets : Forgets s → lost)
    (htype : type ∈ freeItems) (hc : c ∈ s.lists type) :
    ∃ conf new, s.confs.cell c = some conf ∧ conf.item.type = type ∧ Leaves lost s c conf new ∧
      (conf.item.type = .xline → conf.item.holdUntil ≠ 0 → new ≠ none) ∧
      clearItem type s c = some (unlisted s type c new) := by
  obtain ⟨conf, hconf, -, rfl⟩ := h.configured.listed type c hc
  have hfree : attachable conf.item.type = false →
      Leaves lost s c conf none := by
    intro hnot
    refine Or.inl ⟨rfl, fun hheld => ?_⟩
    rw [h.typed.attached c hheld conf hconf] at hnot
    exact absurd hnot (by simp)
  have hcell : (unlisted s conf.item.type c (some { conf with active := false })).confs.cell c =
      some { conf with active := false } := Store.put_self _ _ _
  unfold clearItem
  rw [unlist_eq _ hconf, Option.bind_eq_bind, Option.bind_some, hcell, Option.bind_eq_bind,
    Option.bind_some]
  dsimp only
  by_cases hheld : conf.item.type = .server ∨ conf.item.type = .oper
  · obtain ⟨new, hnew, heq⟩ := freeUnheld_unlisted h hconf
    refine ⟨conf, new, hconf, rfl, hnew, fun hx => ?_, (if_pos hheld).trans heq⟩
    rw [hx] at hheld
    exact absurd hheld (by decide)
  · rw [if_neg hheld]
    by_cases hx : conf.item.type = .xline
    · rw [if_pos hx]
      by_cases huntil : conf.item.holdUntil = 0
      · refine ⟨conf, none, hconf, rfl, hfree (by rw [hx]; rfl), fun _ hnot => absurd huntil hnot, ?_⟩
        exact (if_pos huntil).trans (confFree_unlisted h { conf with active := false })
      · refine ⟨conf, _, hconf, rfl, Or.inr ⟨rfl, Or.inr ⟨hx, hforgets ?_⟩⟩,
          fun _ _ => by simp, if_neg huntil⟩
        exact ⟨c, hx ▸ hc, conf, hconf, huntil⟩
    · have hnot : attachable conf.item.type = false := by
        revert htype hheld hx
        cases conf.item.type <;> decide
      refine ⟨conf, none, hconf, rfl, hfree hnot, fun htype => absurd htype hx, ?_⟩
      exact (if_neg hx).trans (confFree_unlisted h { conf with active := false })

end Clear

end IrcdHybrid.ConfCounts
