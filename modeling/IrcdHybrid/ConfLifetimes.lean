import IrcdHybrid.ConfRehash

/-!
Runs of clients being attached and detached and of the configuration being read again. No step
goes wrong, the counts are the numbers of attachments, and an item or a class is there exactly
as long as the configuration has it or somebody is attached, apart from the X-lines that are
lost when the file is read again.
-/

namespace IrcdHybrid.ConfLifetimes

open Hostmask hiding MaskItem
open Rehash hiding clearOutOldConf clearOutAddressConf
open CString Retention ConfItems ConfCounts ConfRehash

variable {ι : Type} {lost : Prop} {s s' : State ι} {c k : ℕ} {conf : Cell MaskItem}
  {cls : Cell ClassItem}

theorem through_cons (hperm : (held s').Perm (c :: held s))
    (hclass : ∀ c' ∈ held s, classOf s' c' = classOf s c') (hc : classOf s' c = some k) (k' : ℕ) :
    through s' k' = through s k' + if k' = k then 1 else 0 := by
  have hrest : (held s).countP (fun c' => classOf s' c' == some k') = through s k' := by
    apply List.countP_congr
    intro c' hc'
    rw [hclass c' hc']
  unfold through at hrest ⊢
  rw [hperm.countP_eq, List.countP_cons, hrest, hc]
  by_cases hk : k' = k
  · subst hk
    simp
  · have hne : (some k == some k') = false := by
      rw [beq_eq_false_iff_ne]
      intro heq
      exact hk (Option.some.inj heq).symm
    rw [hne, if_neg hk]
    rfl

theorem count_cons (hperm : (held s').Perm (c :: held s)) (c' : ℕ) :
    (held s').count c' = (held s).count c' + if c' = c then 1 else 0 := by
  rw [hperm.count_eq, List.count_cons]
  by_cases hc : c' = c
  · subst hc
    simp
  · rw [if_neg hc, if_neg (by simpa using Ne.symm hc)]

/-- What a client is attached to is there, and in a class that is there. -/
theorem held_some (h : Sound lost s) (hheld : c ∈ held s) :
    ∃ conf k cls, s.confs.cell c = some conf ∧ attachable conf.item.type = true ∧ 0 < conf.refs ∧
      conf.item.classPtr = some k ∧ s.classes.cell k = some cls ∧ 0 < cls.refs := by
  have hcount : 0 < (held s).count c := List.count_pos_iff.mpr hheld
  obtain ⟨conf, hconf⟩ := h.confs.held hcount
  have hattachable := h.typed.attached c hheld conf hconf
  obtain ⟨k, cls, hk, hcls⟩ := h.typed.classed c conf hconf hattachable
  have hpos := through_pos hheld ((classOf_eq hconf).trans hk)
  have hrefs := h.confs.refs c conf hconf
  have hclsrefs := h.classes.refs k cls hcls
  exact ⟨conf, k, cls, hconf, hattachable, by omega, hk, hcls, by omega⟩

/-- A later state where items and classes have other counts and may be gone unless they are in
use, and where each item that is there is in a class that is there. -/
structure Recounts (s s' : State ι) : Prop where
  items : ∀ c conf, s'.confs.cell c = some conf → ∃ old, s.confs.cell c = some old ∧
    conf.item = old.item ∧ conf.active = old.active
  stays : ∀ c old, s.confs.cell c = some old → old.active = true →
    ∃ conf, s'.confs.cell c = some conf ∧ conf.item = old.item ∧ conf.active = true
  classes : ∀ k cls, s'.classes.cell k = some cls → ∃ old, s.classes.cell k = some old ∧
    cls.active = old.active
  classStays : ∀ k old, s.classes.cell k = some old → old.active = true →
    ∃ cls, s'.classes.cell k = some cls ∧ cls.active = true
  classed : ∀ c conf, s'.confs.cell c = some conf → attachable conf.item.type = true →
    ∀ k, conf.item.classPtr = some k → ∃ cls, s'.classes.cell k = some cls
  lists : s'.lists = s.lists
  listed : ∀ k, k ∈ s'.classList ↔ ∃ cls, s'.classes.cell k = some cls
  nodup : s'.classList.Nodup
  last : s'.classList.getLast? = some classDefault

theorem Recounts.good (hr : Recounts s s') (h : Good lost s)
    (hconfs : Counts s'.confs fun c => (held s').count c) (hclasses : Counts s'.classes (through s'))
    (hlinked : Linked s')
    (hheld : ∀ c ∈ held s', ∀ old, s.confs.cell c = some old → attachable old.item.type = true)
    (hkept : ∀ c conf, s'.confs.cell c = some conf → conf.active = false → c ∈ held s →
      c ∈ held s')
    (hused : ∀ k cls, s'.classes.cell k = some cls → cls.active = false → 0 < through s' k) :
    Good lost s' := by
  refine ⟨⟨hconfs, hclasses, hlinked, ⟨?_, ?_, ?_⟩, ⟨hr.listed, hr.nodup, hr.last, ?_⟩,
    ⟨?_, ?_, ?_⟩, ?_⟩, ?_, hused⟩
  · intro type c hc
    rw [hr.lists] at hc
    obtain ⟨old, hold, hon, htype⟩ := h.sound.configured.listed type c hc
    obtain ⟨conf, hconf, hitem, hon'⟩ := hr.stays c old hold hon
    exact ⟨conf, hconf, hon', by rw [hitem, htype]⟩
  · intro c conf hconf hon
    obtain ⟨old, hold, hitem, hactive⟩ := hr.items c conf hconf
    rw [hr.lists, hitem]
    exact h.sound.configured.used c old hold (hactive.symm.trans hon)
  · intro type
    rw [hr.lists]
    exact h.sound.configured.nodup type
  · obtain ⟨cls, hcls, hon⟩ := h.sound.classed.default
    exact hr.classStays _ cls hcls hon
  · intro c conf hconf hattachable
    obtain ⟨old, hold, hitem, -⟩ := hr.items c conf hconf
    obtain ⟨k, -, hk, -⟩ := h.sound.typed.classed c old hold (hitem ▸ hattachable)
    rw [← hitem] at hk
    obtain ⟨cls, hcls⟩ := hr.classed c conf hconf hattachable k hk
    exact ⟨k, cls, hk, hcls⟩
  · intro c conf hconf
    obtain ⟨old, hold, hitem, -⟩ := hr.items c conf hconf
    rw [hitem]
    exact h.sound.typed.auth c old hold
  · intro c hc conf hconf
    obtain ⟨old, hold, hitem, -⟩ := hr.items c conf hconf
    rw [hitem]
    exact hheld c hc old hold
  · intro c conf hconf hoff
    obtain ⟨old, hold, hitem, hactive⟩ := hr.items c conf hconf
    rw [hitem]
    exact (h.sound.kept c old hold (hactive.symm.trans hoff)).imp_left (hkept c conf hconf hoff)
  · intro c conf hconf hon hattachable k hk
    obtain ⟨old, hold, hitem, hactive⟩ := hr.items c conf hconf
    rw [hitem] at hattachable hk
    obtain ⟨cls, hcls, hon'⟩ := h.current c old hold (hactive.symm.trans hon) hattachable k hk
    exact hr.classStays k cls hcls hon'

section Attach

variable [DecidableEq ι]

theorem linked_update (h : Linked s) {client : ι} (hclient : client ∈ s.clients) {cs : List ℕ}
    (hcs : cs.Nodup) (hclients : s'.clients = s.clients)
    (hattached : s'.attached = Function.update s.attached client cs) : Linked s' := by
  refine ⟨hclients ▸ h.nodup, ?_, ?_⟩
  · intro other
    rw [hattached]
    by_cases hother : other = client
    · subst hother
      rwa [Function.update_self]
    · rw [Function.update_of_ne hother]
      exact h.once other
  · intro other hother
    rw [hclients] at hother
    have hne : other ≠ client := by
      rintro rfl
      exact hother hclient
    rw [hattached, Function.update_of_ne hne]
    exact h.idle other hother

/-- The state where a client's attachments, an item and its class have changed. -/
def changed (s : State ι) (client : ι) (cs : List ℕ) (c : ℕ) (newConf : Option (Cell MaskItem))
    (k : ℕ) (newCls : Option (Cell ClassItem)) : State ι :=
  { s with
    confs := s.confs.put c newConf
    classes := s.classes.put k newCls
    classList := if newCls.isSome then s.classList else s.classList.erase k
    attached := Function.update s.attached client cs }

/-- What is put in the place of an item or a class: the same with another count, or nothing if it
is out of use. -/
def Recounted {α : Type} (old : Cell α) (new : Option (Cell α)) (same : α → α → Prop) : Prop :=
  (∀ d, new = some d → same d.item old.item ∧ d.active = old.active) ∧
    (new = none → old.active = false)

section Changed

variable {client : ι} {cs : List ℕ} {newConf : Option (Cell MaskItem)}
  {newCls : Option (Cell ClassItem)}

theorem changed_conf (hconf : s.confs.cell c = some conf)
    (hnew : Recounted conf newConf (fun a b => a = b)) {c' : ℕ} {d : Cell MaskItem}
    (hd : (changed s client cs c newConf k newCls).confs.cell c' = some d) :
    ∃ old, s.confs.cell c' = some old ∧ d.item = old.item ∧ d.active = old.active := by
  by_cases hc : c' = c
  · subst hc
    exact ⟨conf, hconf, hnew.1 d ((Store.put_self _ _ _).symm.trans hd)⟩
  · exact ⟨d, (Store.put_of_ne _ _ hc).symm.trans hd, rfl, rfl⟩

theorem changed_classOf (hconf : s.confs.cell c = some conf)
    (hnew : Recounted conf newConf (fun a b => a = b)) {c' : ℕ}
    (hthere : c' = c → newConf ≠ none) :
    classOf (changed s client cs c newConf k newCls) c' = classOf s c' := by
  by_cases hc : c' = c
  · subst hc
    obtain ⟨d, hd⟩ := Option.ne_none_iff_exists'.mp (hthere rfl)
    rw [classOf_eq hconf, classOf_eq ((Store.put_self _ _ _).trans hd), (hnew.1 d hd).1]
  · unfold classOf
    rw [show (changed s client cs c newConf k newCls).confs.cell c' = s.confs.cell c' from
      Store.put_of_ne _ _ hc]

theorem changed_recounts (client : ι) (cs : List ℕ) (h : Good lost s) (hconf : s.confs.cell c = some conf)
    (hcls : s.classes.cell k = some cls) (hnewConf : Recounted conf newConf (fun a b => a = b))
    (hnewCls : Recounted cls newCls (fun _ _ => True))
    (hempty : newCls = none → ∀ c' d,
      (changed s client cs c newConf k newCls).confs.cell c' = some d →
      attachable d.item.type = true → d.item.classPtr ≠ some k) :
    Recounts s (changed s client cs c newConf k newCls) := by
  have hother : ∀ {k'}, k' ≠ k →
      (changed s client cs c newConf k newCls).classes.cell k' = s.classes.cell k' :=
    fun hk => Store.put_of_ne _ _ hk
  have hself : (changed s client cs c newConf k newCls).classes.cell k = newCls :=
    Store.put_self _ _ _
  refine ⟨fun c' d hd => changed_conf hconf hnewConf hd, ?_, ?_, ?_, ?_, rfl, ?_, ?_, ?_⟩
  · intro c' old hold hon
    by_cases hc : c' = c
    · subst hc
      obtain rfl := Option.some.inj (hconf.symm.trans hold)
      cases hn : newConf with
      | none =>
        rw [hnewConf.2 hn] at hon
        exact absurd hon (by simp)
      | some d =>
        obtain ⟨hitem, hactive⟩ := hnewConf.1 d hn
        exact ⟨d, Store.put_self _ _ _, hitem, hactive.trans hon⟩
    · exact ⟨old, (Store.put_of_ne _ _ hc).trans hold, rfl, hon⟩
  · intro k' d hd
    by_cases hk : k' = k
    · subst hk
      exact ⟨cls, hcls, (hnewCls.1 d (hself.symm.trans hd)).2⟩
    · exact ⟨d, (hother hk).symm.trans hd, rfl⟩
  · intro k' old hold hon
    by_cases hk : k' = k
    · subst hk
      obtain rfl := Option.some.inj (hcls.symm.trans hold)
      cases hn : newCls with
      | none =>
        rw [hnewCls.2 hn] at hon
        exact absurd hon (by simp)
      | some d => exact ⟨d, Store.put_self _ _ _, (hnewCls.1 d hn).2.trans hon⟩
    · exact ⟨old, (hother hk).trans hold, hon⟩
  · intro c' d hd hattachable k' hk'
    obtain ⟨old, hold, hitem, -⟩ := changed_conf hconf hnewConf hd
    obtain ⟨k'', d'', hk'', hd''⟩ := h.sound.typed.classed c' old hold (hitem ▸ hattachable)
    rw [← hitem, hk'] at hk''
    obtain rfl := Option.some.inj hk''
    by_cases hk : k' = k
    · subst hk
      cases hn : newCls with
      | none => exact absurd hk' (hempty hn c' d hd hattachable)
      | some new => exact ⟨new, Store.put_self _ _ _⟩
    · exact ⟨d'', (hother hk).trans hd''⟩
  · intro k'
    show k' ∈ (if newCls.isSome = true then s.classList else s.classList.erase k) ↔ _
    by_cases hk : k' = k
    · subst hk
      rw [hself]
      cases newCls with
      | none =>
        refine iff_of_false h.sound.classed.nodup.not_mem_erase ?_
        rintro ⟨d, hd⟩
        exact absurd hd (by simp)
      | some d => exact iff_of_true ((h.sound.classed.listed k').mpr ⟨cls, hcls⟩) ⟨d, rfl⟩
    · rw [hother hk, ← h.sound.classed.listed]
      split
      · rfl
      · exact List.mem_erase_of_ne hk
  · show (if newCls.isSome = true then s.classList else s.classList.erase k).Nodup
    split
    · exact h.sound.classed.nodup
    · exact h.sound.classed.nodup.erase k
  · show (if newCls.isSome = true then s.classList else s.classList.erase k).getLast? = _
    split
    · exact h.sound.classed.last
    · next hnot =>
      refine getLast?_erase h.sound.classed.last ?_
      rintro rfl
      obtain ⟨d, hd, hon⟩ := h.sound.classed.default
      rw [← Option.some.inj (hcls.symm.trans hd), hnewCls.2 (by simpa using hnot)] at hon
      exact absurd hon (by simp)

end Changed

/-- The counts of an item and of its class go up with one more attachment. -/
theorem attached_good {client : ι} (new : Cell ClassItem) (h : Good lost s)
    (hclient : client ∈ s.clients) (hnot : c ∉ s.attached client)
    (hconf : s.confs.cell c = some conf) (hattachable : attachable conf.item.type = true)
    (hk : conf.item.classPtr = some k) (hcls : s.classes.cell k = some cls)
    (hrefs : new.refs = cls.refs + 1) (hactive : new.active = cls.active) :
    Good lost (changed s client (c :: s.attached client) c
      (some { conf with refs := conf.refs + 1 }) k (some new)) := by
  have hnewConf : Recounted conf (some { conf with refs := conf.refs + 1 }) (fun a b => a = b) :=
    ⟨fun d hd => by rw [← Option.some.inj hd]; exact ⟨rfl, rfl⟩, fun hn => absurd hn (by simp)⟩
  have hnewCls : Recounted cls (some new) (fun _ _ => True) :=
    ⟨fun d hd => by rw [← Option.some.inj hd]; exact ⟨trivial, hactive⟩,
      fun hn => absurd hn (by simp)⟩
  have hrecounts := changed_recounts client (c :: s.attached client) h hconf hcls
    hnewConf hnewCls (fun hn => absurd hn (by simp))
  have hperm := held_cons s (changed s client (c :: s.attached client) c
    (some { conf with refs := conf.refs + 1 }) k (some new)) client c h.sound.linked.nodup hclient
    rfl rfl
  generalize hs' : changed s client (c :: s.attached client) c
    (some { conf with refs := conf.refs + 1 }) k (some new) = s' at hrecounts hperm ⊢
  have hclassOf : ∀ c', classOf s' c' = classOf s c' := by
    intro c'
    rw [← hs']
    exact changed_classOf hconf hnewConf (fun _ => by simp)
  have hthrough := through_cons hperm (fun c' _ => hclassOf c')
    ((hclassOf c).trans ((classOf_eq hconf).trans hk))
  have hcount := count_cons hperm
  have hmem : ∀ c', c' ∈ held s → c' ∈ held s' :=
    fun c' hc' => hperm.mem_iff.mpr (List.mem_cons_of_mem _ hc')
  refine hrecounts.good h ?_ ?_ ?_ ?_ (fun c' _ _ _ hc' => hmem c' hc') ?_
  · have hcounts : Counts (s.confs.put c (some { conf with refs := conf.refs + 1 }))
        fun c => (held s').count c := by
      refine h.sound.confs.put (h.sound.confs.lt_next hconf) rfl ?_ ?_
      · rw [hcount c, if_pos rfl, ← h.sound.confs.refs c conf hconf]
        rfl
      · intro c' hc'
        rw [hcount c', if_neg hc', Nat.add_zero]
    rw [← hs'] at hcounts ⊢
    exact hcounts
  · have hcounts : Counts (s.classes.put k (some new)) (through s') := by
      refine h.sound.classes.put (h.sound.classes.lt_next hcls) rfl ?_ ?_
      · rw [hthrough k, if_pos rfl, ← h.sound.classes.refs k cls hcls]
        exact hrefs.symm
      · intro k' hk'
        rw [hthrough k', if_neg hk', Nat.add_zero]
    rw [← hs'] at hcounts ⊢
    exact hcounts
  · rw [← hs']
    exact linked_update h.sound.linked hclient
      (List.nodup_cons.mpr ⟨hnot, h.sound.linked.once client⟩) rfl rfl
  · intro c' hc' old hold
    rcases List.mem_cons.mp (hperm.mem_iff.mp hc') with rfl | hc'
    · obtain rfl := Option.some.inj (hconf.symm.trans hold)
      exact hattachable
    · exact h.sound.typed.attached c' hc' old hold
  · intro k' d hd hoff
    obtain ⟨old, hold, hactive'⟩ := hrecounts.classes k' d hd
    have hpos := h.used k' old hold (hactive'.symm.trans hoff)
    rw [hthrough k']
    omega

omit [DecidableEq ι] in
/-- An item the configuration has is there, and in a class that is there. -/
theorem found_some (h : Good lost s) (hfound : found s c = true) :
    ∃ conf k cls, s.confs.cell c = some conf ∧ attachable conf.item.type = true ∧
      conf.item.classPtr = some k ∧ s.classes.cell k = some cls := by
  obtain ⟨type, htype, hmem⟩ := List.any_eq_true.mp hfound
  obtain ⟨conf, hconf, -, rfl⟩ := h.sound.configured.listed type c (of_decide_eq_true hmem)
  have hattachable : attachable conf.item.type = true := by
    revert htype
    cases conf.item.type <;> decide
  obtain ⟨k, cls, hk, hcls⟩ := h.sound.typed.classed c conf hconf hattachable
  exact ⟨conf, k, cls, hconf, hattachable, hk, hcls⟩

theorem attachConf_some (address : ι → CidrLimits.Ip) {client : ι} (h : Good lost s)
    (hclient : client ∈ s.clients) (hfound : found s c = true) :
    ∃ s' out, attachConf address client c s = some (s', out) ∧ Good lost s' := by
  obtain ⟨conf, k, cls, hconf, hattachable, hk, hcls⟩ := found_some h hfound
  unfold attachConf
  by_cases hmem : c ∈ s.attached client
  · rw [if_pos hmem]
    exact ⟨s, _, rfl, h⟩
  · rw [if_neg hmem]
    simp only [hconf, hk, hcls, Option.bind_eq_bind, Option.bind_some]
    split
    · exact ⟨s, _, rfl, h⟩
    · next cidr _ =>
      simp only [Store.raise_put, Store.raise_eq _ hconf, Option.bind_some]
      refine ⟨_, _, rfl, ?_⟩
      exact attached_good { cls with
        refs := cls.refs + 1
        item := { cls.item with cidr } } h hclient hmem hconf hattachable hk hcls rfl rfl

omit [DecidableEq ι] in
theorem dropClass_some (hcls : s.classes.cell k = some cls) (hrefs : cls.refs ≠ 0)
    (hdefault : cls.active = false → k ≠ classDefault) (hconf : s.confs.cell c = some conf) :
    dropClass c k s = some { s with
      classes := s.classes.put k cls.drop
      classList := if cls.drop.isSome then s.classList else s.classList.erase k
      confs := if cls.drop.isSome then s.confs else s.confs.put c (some
        { conf with item := { conf.item with classPtr := none } }) } := by
  unfold dropClass Cell.drop
  simp only [s.classes.lower_eq hcls hrefs, Option.bind_eq_bind, Option.bind_some, Store.put_self]
  by_cases hlast : cls.refs - 1 = 0 ∧ cls.active = false
  · have hguard : (guard (k ≠ classDefault ∧ cls.active = false ∧ cls.refs - 1 = 0) :
        Option Unit) = some () := if_pos ⟨hdefault hlast.2, hlast.2, hlast.1⟩
    unfold classFree
    simp only [if_pos hlast, Store.put_self, Option.bind_eq_bind, Option.bind_some, hguard,
      Store.free_put, hconf]
    rfl
  · simp only [if_neg hlast]
    rfl

omit [DecidableEq ι] in
theorem dropConf_some (hconf : s.confs.cell c = some conf) (hrefs : conf.refs ≠ 0)
    (hlist : conf.active = false → c ∉ s.lists conf.item.type) :
    dropConf c s = some { s with confs := s.confs.put c conf.drop } := by
  unfold dropConf Cell.drop
  simp only [s.confs.lower_eq hconf hrefs, Option.bind_eq_bind, Option.bind_some, Store.put_self]
  by_cases hlast : conf.refs - 1 = 0 ∧ conf.active = false
  · unfold confFree
    simp only [if_pos hlast, Store.put_self, Option.bind_eq_bind, Option.bind_some,
      Store.free_put, List.erase_of_not_mem (hlist hlast.2), Function.update_eq_self]
  · simp only [if_neg hlast]

omit [DecidableEq ι] in
theorem recounted_drop {α : Type} (old new : Cell α) (same : α → α → Prop)
    (hitem : same new.item old.item) (hactive : new.active = old.active) :
    Recounted old new.drop same := by
  unfold Recounted Cell.drop
  split
  · next h => exact ⟨fun d hd => absurd hd (by simp), fun _ => hactive.symm.trans h.2⟩
  · refine ⟨fun d hd => ?_, fun hn => absurd hn (by simp)⟩
    rw [← Option.some.inj hd]
    exact ⟨hitem, hactive⟩

section Drop

variable {client : ι} {new : Cell ClassItem}

omit [DecidableEq ι] in
/-- A class that goes with its last attachment is not the class of anything else. -/
theorem unclassed (h : Good lost s) (hheld : c ∈ held s) (hconf : s.confs.cell c = some conf)
    (hk : conf.item.classPtr = some k) (hcls : s.classes.cell k = some cls)
    (hperm : (held s).Perm (c :: held s'))
    (hconfs : s'.confs = s.confs.put c conf.drop) (hgone : cls.refs = 1)
    (hoff : cls.active = false) :
    conf.drop = none ∧ ∀ c' d, s'.confs.cell c' = some d → attachable d.item.type = true →
      d.item.classPtr ≠ some k := by
  have hrefs := h.sound.classes.refs k cls hcls
  have hinactive : ∀ {c' d}, s.confs.cell c' = some d → attachable d.item.type = true →
      d.item.classPtr = some k → d.active = false := by
    intro c' d hd hattachable hk'
    cases hon : d.active with
    | false => rfl
    | true =>
      obtain ⟨cls', hcls', hon'⟩ := h.current c' d hd hon hattachable k hk'
      rw [← Option.some.inj (hcls.symm.trans hcls'), hoff] at hon'
      exact absurd hon' (by simp)
  have hrest : ∀ {c' d}, c' ∈ held s' → s.confs.cell c' = some d →
      d.item.classPtr = some k → False := by
    intro c' d hc' hd hk'
    have htwo : 1 < (held s).countP (fun c => classOf s c == some k) := by
      rw [hperm.countP_eq, List.countP_cons, classOf_eq hconf, hk]
      have hpos : 0 < (held s').countP (fun c => classOf s c == some k) := by
        rw [List.countP_pos_iff]
        exact ⟨c', hc', by rw [classOf_eq hd, hk']; exact beq_self_eq_true _⟩
      simpa using hpos
    change 1 < through s k at htwo
    omega
  have hdrop : conf.drop = none := by
    have hattachable := h.sound.typed.attached c hheld conf hconf
    have hone : conf.refs = 1 := by
      have hcount := h.sound.confs.refs c conf hconf
      rw [hperm.count_eq, List.count_cons_self] at hcount
      have hzero : (held s').count c = 0 :=
        List.count_eq_zero.mpr fun hc' => hrest hc' hconf hk
      omega
    unfold Cell.drop
    rw [if_pos ⟨by omega, hinactive hconf hattachable hk⟩]
  refine ⟨hdrop, fun c' d hd hattachable hk' => ?_⟩
  have hne : c' ≠ c := by
    rintro rfl
    rw [hconfs, Store.put_self, hdrop] at hd
    exact absurd hd (by simp)
  rw [hconfs, Store.put_of_ne _ _ hne] at hd
  rcases h.sound.kept c' d hd (hinactive hd hattachable hk') with hheld' | ⟨hx, -⟩
  · exact hrest ((List.mem_cons.mp (hperm.mem_iff.mp hheld')).resolve_left hne) hd hk'
  · rw [hx] at hattachable
    exact absurd hattachable (by decide)

/-- The counts of an item and of its class go down, and what is out of use goes with its last
attachment. -/
theorem detached_good (h : Good lost s) (hclient : client ∈ s.clients)
    (hmem : c ∈ s.attached client) (hconf : s.confs.cell c = some conf)
    (hk : conf.item.classPtr = some k) (hcls : s.classes.cell k = some cls)
    (hrefs : new.refs = cls.refs) (hactive : new.active = cls.active) :
    Good lost (changed s client ((s.attached client).erase c) c conf.drop k new.drop) ∧
      (new.drop = none → conf.drop = none) := by
  have hheld : c ∈ held s := (mem_held s c).mpr ⟨client, hclient, hmem⟩
  have hnewConf : Recounted conf conf.drop (fun a b => a = b) := recounted_drop _ _ _ rfl rfl
  have hnewCls : Recounted cls new.drop (fun _ _ => True) :=
    recounted_drop _ _ _ trivial hactive
  have hperm := held_erase s (changed s client ((s.attached client).erase c) c conf.drop k new.drop)
    client c h.sound.linked.nodup hclient hmem rfl rfl
  have hlast : new.drop = none → cls.refs = 1 ∧ cls.active = false := by
    intro hn
    refine ⟨?_, hnewCls.2 hn⟩
    have hpos := h.sound.classes.refs k cls hcls
    have hthrough := through_pos hheld ((classOf_eq hconf).trans hk)
    by_contra hne
    exact Cell.drop_ne_none (by omega) hn
  have hrecounts := changed_recounts client ((s.attached client).erase c) h hconf
    hcls hnewConf hnewCls (fun hn =>
      (unclassed h hheld hconf hk hcls hperm rfl (hlast hn).1 (hlast hn).2).2)
  refine ⟨?_, fun hn => (unclassed h hheld hconf hk hcls hperm rfl (hlast hn).1 (hlast hn).2).1⟩
  have hcountc := h.sound.confs.refs c conf hconf
  generalize hs' : changed s client ((s.attached client).erase c) c conf.drop k new.drop = s'
    at hrecounts hperm ⊢
  have hcount := count_cons hperm
  have hthere : c ∈ held s' → conf.drop ≠ none := by
    intro hc
    have hpos : 0 < (held s').count c := List.count_pos_iff.mpr hc
    have hself := hcount c
    rw [if_pos rfl] at hself
    exact Cell.drop_ne_none (by omega)
  have hclassOf : ∀ c' ∈ held s', classOf s c' = classOf s' c' := by
    intro c' hc'
    rw [← hs']
    refine (changed_classOf hconf hnewConf ?_).symm
    rintro rfl
    exact hthere hc'
  have hthrough := through_cons hperm hclassOf ((classOf_eq hconf).trans hk)
  refine hrecounts.good h ?_ ?_ ?_ ?_ ?_ ?_
  · have hcounts : Counts (s.confs.put c conf.drop) fun c => (held s').count c := by
      refine h.sound.confs.put (h.sound.confs.lt_next hconf) rfl ?_ ?_
      · have hself := hcount c
        rw [if_pos rfl] at hself
        rw [Cell.drop_refs]
        omega
      · intro c' hc'
        rw [hcount c', if_neg hc', Nat.add_zero]
    rw [← hs'] at hcounts ⊢
    exact hcounts
  · have hcounts : Counts (s.classes.put k new.drop) (through s') := by
      refine h.sound.classes.put (h.sound.classes.lt_next hcls) rfl ?_ ?_
      · have hself := hthrough k
        have hclsrefs := h.sound.classes.refs k cls hcls
        rw [if_pos rfl] at hself
        rw [Cell.drop_refs]
        omega
      · intro k' hk'
        rw [hthrough k', if_neg hk', Nat.add_zero]
    rw [← hs'] at hcounts ⊢
    exact hcounts
  · rw [← hs']
    exact linked_update h.sound.linked hclient ((h.sound.linked.once client).erase c) rfl rfl
  · intro c' hc' old hold
    exact h.sound.typed.attached c' (hperm.mem_iff.mpr (List.mem_cons_of_mem _ hc')) old hold
  · intro c' d hd hoff hc'
    rcases List.mem_cons.mp (hperm.mem_iff.mp hc') with rfl | hc'
    · have hdrop : conf.drop = some d := by
        rw [← hs'] at hd
        exact (Store.put_self _ _ _).symm.trans hd
      have hself := hcount c'
      have hmore := Cell.drop_pos hdrop hoff
      rw [if_pos rfl] at hself
      exact List.count_pos_iff.mp (by omega)
    · exact hc'
  · intro k' d hd hoff
    obtain ⟨old, hold, hactive'⟩ := hrecounts.classes k' d hd
    have hpos := h.used k' old hold (hactive'.symm.trans hoff)
    rw [hthrough k'] at hpos
    by_cases hk' : k' = k
    · subst hk'
      have hdrop : new.drop = some d := by
        rw [← hs'] at hd
        exact (Store.put_self _ _ _).symm.trans hd
      have hself := hthrough k'
      have hclsrefs := h.sound.classes.refs k' cls hcls
      have hmore := Cell.drop_pos hdrop hoff
      rw [if_pos rfl] at hself
      omega
    · rw [if_neg hk'] at hpos
      exact hpos

/-- One turn of the loop of `detach_conf`. -/
theorem detachOne_some (address : ι → CidrLimits.Ip) (h : Good lost s)
    (hclient : client ∈ s.clients) (hmem : c ∈ s.attached client) :
    ∃ s', detachOne address client c s = some s' ∧ Good lost s' ∧ s'.clients = s.clients ∧
      s'.attached = Function.update s.attached client ((s.attached client).erase c) := by
  obtain ⟨conf, k, cls, hconf, hattachable, hrefs, hk, hcls, hclsrefs⟩ :=
    held_some h.sound ((mem_held s c).mpr ⟨client, hclient, hmem⟩)
  obtain ⟨new, hcell, hnewrefs, hnewactive⟩ : ∃ new : Cell ClassItem,
      uncount address client conf.item.type k
        { s with attached := Function.update s.attached client ((s.attached client).erase c) } =
        some { s with
          attached := Function.update s.attached client ((s.attached client).erase c)
          classes := s.classes.put k (some new) } ∧
      new.refs = cls.refs ∧ new.active = cls.active := by
    unfold uncount
    simp only [hcls, Option.bind_eq_bind, Option.bind_some]
    refine ⟨_, rfl, ?_, ?_⟩
    · split <;> rfl
    · split <;> rfl
  have hdefault : new.active = false → k ≠ classDefault := by
    rintro hoff rfl
    obtain ⟨d, hd, hon⟩ := h.sound.classed.default
    rw [← Option.some.inj (hcls.symm.trans hd), ← hnewactive, hoff] at hon
    exact absurd hon (by simp)
  have hlist : conf.active = false → c ∉ s.lists conf.item.type := by
    intro hoff hlisted
    obtain ⟨d, hd, hon, -⟩ := h.sound.configured.listed _ c hlisted
    rw [← Option.some.inj (hconf.symm.trans hd), hoff] at hon
    exact absurd hon (by simp)
  obtain ⟨hgood, hboth⟩ := detached_good h hclient hmem hconf hk hcls hnewrefs hnewactive
  refine ⟨_, ?_, hgood, rfl, rfl⟩
  unfold detachOne
  simp only [hconf, hk, Option.bind_eq_bind, Option.bind_some, hcell]
  rw [dropClass_some (s := { s with
    attached := Function.update s.attached client ((s.attached client).erase c)
    classes := s.classes.put k (some new) }) (Store.put_self s.classes k (some new)) (by omega)
    hdefault hconf, Option.bind_some]
  cases hleft : new.drop with
  | some d =>
    refine (dropConf_some (s := { s with
      attached := Function.update s.attached client ((s.attached client).erase c)
      classes := (s.classes.put k (some new)).put k (some d) }) hconf (by omega) hlist).trans ?_
    rw [Store.put_put]
    rfl
  | none =>
    have hdrop := hboth hleft
    have hdrop' : Cell.drop { conf with item := { conf.item with classPtr := none } } = none := by
      unfold Cell.drop at hdrop ⊢
      split at hdrop
      · next hlast => exact if_pos hlast
      · exact absurd hdrop (by simp)
    refine (dropConf_some (s := { s with
      attached := Function.update s.attached client ((s.attached client).erase c)
      classes := (s.classes.put k (some new)).put k none
      classList := s.classList.erase k
      confs := s.confs.put c (some
        { conf with item := { conf.item with classPtr := none } }) })
      (Store.put_self s.confs c (some { conf with item := { conf.item with classPtr := none } }))
      (Nat.ne_of_gt hrefs) hlist).trans ?_
    rw [hdrop', hdrop, Store.put_put, Store.put_put]
    rfl

theorem detachConf_some (client : ι) (address : ι → CidrLimits.Ip) (types : MaskitemType → Bool)
    (h : Good lost s) :
    ∃ s', detachConf address client types s = some s' ∧ Good lost s' ∧ s'.clients = s.clients ∧
      ((∀ type, types type = true) → s'.attached client = []) := by
  have hloop : ∀ rest (s₁ : State ι), Good lost s₁ → rest.Nodup → rest ⊆ s₁.attached client →
      s₁.clients = s.clients → ∃ s', detachLoop address client types rest s₁ = some s' ∧
        Good lost s' ∧ s'.clients = s.clients ∧ ((∀ type, types type = true) →
          s₁.attached client = rest → s'.attached client = []) := by
    intro rest
    induction rest with
    | nil => exact fun s₁ hs _ _ hclients => ⟨s₁, rfl, hs, hclients, fun _ hnil => hnil⟩
    | cons c rest ih =>
      intro s₁ hs hnodup hsub hclients
      obtain ⟨hnot, hnodup'⟩ := List.nodup_cons.mp hnodup
      have hmem : c ∈ s₁.attached client := hsub (List.mem_cons_self ..)
      have hclient : client ∈ s₁.clients := by
        by_contra hno
        rw [hs.sound.linked.idle client hno] at hmem
        exact absurd hmem List.not_mem_nil
      obtain ⟨conf, k, cls, hconf, hattachable, hrefs, hk, hcls, hclsrefs⟩ :=
        held_some hs.sound ((mem_held s₁ c).mpr ⟨client, hclient, hmem⟩)
      have hguard : (guard (attachable conf.item.type = true ∧ 0 < conf.refs ∧ 0 < cls.refs) :
          Option Unit) = some () := if_pos ⟨hattachable, hrefs, hclsrefs⟩
      unfold detachLoop
      simp only [hconf, hk, hcls, hguard, Option.bind_eq_bind, Option.bind_some]
      by_cases htype : types conf.item.type = true
      · obtain ⟨s₂, heq, hs₂, hclients₂, hattached⟩ := detachOne_some address hs hclient hmem
        rw [if_pos htype, heq, Option.bind_some]
        obtain ⟨s', hrest, hs', hclients', hnil⟩ := ih s₂ hs₂ hnodup' (by
          intro c' hc'
          rw [hattached, Function.update_self]
          refine (List.mem_erase_of_ne ?_).mpr (hsub (List.mem_cons_of_mem _ hc'))
          rintro rfl
          exact hnot hc') (hclients₂.trans hclients)
        refine ⟨s', hrest, hs', hclients', fun hall heq => hnil hall ?_⟩
        rw [hattached, Function.update_self, heq, List.erase_cons_head]
      · rw [if_neg htype]
        obtain ⟨s', hrest, hs', hclients', -⟩ := ih s₁ hs hnodup'
          (fun c' hc' => hsub (List.mem_cons_of_mem _ hc')) hclients
        exact ⟨s', hrest, hs', hclients', fun hall => absurd (hall _) htype⟩
  obtain ⟨s', heq, hs', hclients, hnil⟩ :=
    hloop _ s h (h.sound.linked.once client) (List.Subset.refl _) rfl
  exact ⟨s', heq, hs', hclients, fun hall => hnil hall rfl⟩

end Drop

end Attach

end IrcdHybrid.ConfLifetimes
