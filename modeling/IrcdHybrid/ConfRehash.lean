import IrcdHybrid.ConfCounts

/-!
Reading the configuration again. The clearing empties the lists and the auth blocks of the
table, the classes are marked, the file is read, and the marked classes that nobody is attached
through are deleted. Nothing that is held goes, and of what is not held only lost X-lines stay.
-/

namespace IrcdHybrid.ConfRehash

open Hostmask hiding MaskItem
open Rehash hiding clearOutOldConf clearOutAddressConf
open CString Retention ConfItems ConfCounts

variable {ι : Type} {lost : Prop} {s : State ι} {c k : ℕ} {conf : Cell MaskItem}
  {cls : Cell ClassItem}

theorem clearList_some {type : MaskitemType} (h : Sound lost s) (hforgets : Forgets s → lost)
    (htype : type ∈ freeItems) :
    ∃ s', clearList s type = some s' ∧ Sound lost s' ∧ Clears s s' ∧ s'.lists type = [] := by
  apply foldlM_some (P := fun rest s' => Sound lost s' ∧ Clears s s' ∧ s'.lists type = rest)
  · intro c rest s' ⟨hs, hclears, hlist⟩
    obtain ⟨conf, new, hconf, rfl, hnew, hx, heq⟩ :=
      clearItem_eq (c := c) hs (fun hf => hforgets (hclears.forgets hf)) htype (by simp [hlist])
    refine ⟨_, heq, hs.unlisted hconf hnew, hclears.trans (clears_unlisted hconf hnew hx), ?_⟩
    show Function.update s'.lists _ _ _ = rest
    rw [Function.update_self, hlist, List.erase_cons_head]
  · exact ⟨h, clears_refl s, rfl⟩

theorem clearLists_some (h : Sound lost s) (hforgets : Forgets s → lost) :
    ∃ s', freeItems.foldlM clearList s = some s' ∧ Sound lost s' ∧ Clears s s' ∧
      ∀ type ∈ freeItems, s'.lists type = [] := by
  obtain ⟨s', heq, ⟨hs, hclears, hempty⟩, -⟩ := foldlM_some (f := clearList)
    (P := fun types s' => (Sound lost s' ∧ Clears s s' ∧
      ∀ type ∈ freeItems, type ∈ types ∨ s'.lists type = []) ∧ ∀ type ∈ types, type ∈ freeItems)
    (by
      intro type types s' ⟨⟨hs, hclears, hempty⟩, hsub⟩
      obtain ⟨s'', heq, hs'', hclears', hnil⟩ := clearList_some hs
        (fun hf => hforgets (hclears.forgets hf)) (hsub type (List.mem_cons_self ..))
      refine ⟨s'', heq, ⟨hs'', hclears.trans hclears', ?_⟩,
        fun other hother => hsub other (List.mem_cons_of_mem _ hother)⟩
      intro other hother
      rcases hempty other hother with hmem | hgone
      · rcases List.mem_cons.mp hmem with rfl | hmem
        · exact Or.inr hnil
        · exact Or.inl hmem
      · right
        have hsubset := hclears'.lists other
        rw [hgone] at hsubset
        exact List.subset_nil.mp hsubset)
    freeItems s ⟨⟨h, clears_refl s, fun type htype => Or.inl htype⟩, fun _ htype => htype⟩
  refine ⟨s', heq, hs, hclears, fun type htype => ?_⟩
  rcases hempty type htype with hmem | hnil
  · exact absurd hmem (List.not_mem_nil)
  · exact hnil

theorem mark_some (hcls : s.classes.cell k = some cls) :
    ∃ new, (classMarkForDeletion s).classes.cell k = some new ∧ new.refs = cls.refs := by
  unfold classMarkForDeletion
  dsimp only
  rw [hcls]
  split
  · exact ⟨_, rfl, rfl⟩
  · exact ⟨cls, rfl, rfl⟩

theorem mark_none : (classMarkForDeletion s).classes.cell k = none ↔ s.classes.cell k = none := by
  unfold classMarkForDeletion
  dsimp only
  split
  · exact Option.map_eq_none_iff
  · exact Iff.rfl

theorem mark_default (h : Classed s) :
    (classMarkForDeletion s).classes.cell classDefault = s.classes.cell classDefault := by
  obtain ⟨rest, hrest⟩ := List.getLast?_eq_some_iff.mp h.last
  have hnot : classDefault ∉ s.classList.dropLast := by
    have hnodup := h.nodup
    rw [hrest] at hnodup ⊢
    rw [List.dropLast_concat]
    intro hmem
    exact (List.nodup_append.mp hnodup).2.2 _ hmem _ (List.mem_singleton_self _) rfl
  exact if_neg hnot

theorem classMarkForDeletion_sound (h : Sound lost s) : Sound lost (classMarkForDeletion s) := by
  have hcell : ∀ k, (∃ new, (classMarkForDeletion s).classes.cell k = some new) ↔
      ∃ cls, s.classes.cell k = some cls := by
    intro k
    rw [← Option.ne_none_iff_exists', ← Option.ne_none_iff_exists', Ne, Ne, mark_none]
  refine ⟨h.confs, ⟨?_, ?_, ?_⟩, ⟨h.linked.nodup, h.linked.once, h.linked.idle⟩,
    ⟨h.configured.listed, h.configured.used, h.configured.nodup⟩,
    ⟨?_, h.classed.nodup, h.classed.last, ?_⟩, ⟨?_, h.typed.auth, h.typed.attached⟩, h.kept⟩
  · intro k new hnew
    obtain ⟨cls, hcls⟩ := (hcell k).mp ⟨new, hnew⟩
    obtain ⟨new', hnew', hrefs⟩ := mark_some hcls
    obtain rfl := Option.some.inj (hnew.symm.trans hnew')
    exact hrefs.trans (h.classes.refs k cls hcls)
  · intro k hnone
    exact h.classes.gone k (mark_none.mp hnone)
  · intro k hk
    exact mark_none.mpr (h.classes.beyond k hk)
  · intro k
    exact (h.classed.listed k).trans (hcell k).symm
  · rw [mark_default h.classed]
    exact h.classed.default
  · intro c conf hconf hattachable
    obtain ⟨k, cls, hk, hcls⟩ := h.typed.classed c conf hconf hattachable
    obtain ⟨new, hnew⟩ := (hcell k).mpr ⟨cls, hcls⟩
    exact ⟨k, new, hk, hnew⟩

/-- A record stays, or it is cleared; an auth block does not stay. -/
theorem clearAddress_cases {type : MaskitemType} (h : Sound lost s) (htype : type ∈ addressItems)
    (hc : c ∈ s.lists type) :
    (type ≠ .client ∧ clearAddress type s c = some s) ∨
      ∃ conf new, s.confs.cell c = some conf ∧ conf.item.type = type ∧ Leaves lost s c conf new ∧
        clearAddress type s c = some (unlisted s type c new) := by
  obtain ⟨conf, hconf, -, rfl⟩ := h.configured.listed type c hc
  have hstep : clearAddress conf.item.type s c =
      if conf.item.holdUntil ≠ 0 ∨ conf.item.isConfDatabase = true then some s
      else (unlist conf.item.type c s).bind (freeUnheld c) := by
    unfold clearAddress
    rw [hconf]
    rfl
  rw [hstep]
  by_cases hstays : conf.item.holdUntil ≠ 0 ∨ conf.item.isConfDatabase = true
  · left
    refine ⟨fun hclient => ?_, if_pos hstays⟩
    obtain ⟨huntil, hdatabase⟩ := h.typed.auth c conf hconf hclient
    rcases hstays with hne | heq
    · exact hne huntil
    · rw [hdatabase] at heq
      exact absurd heq (by simp)
  · right
    obtain ⟨new, hnew, heq⟩ := freeUnheld_unlisted h hconf
    refine ⟨conf, new, hconf, rfl, hnew, ?_⟩
    rw [if_neg hstays, unlist_eq _ hconf, Option.bind_some]
    exact heq

theorem clearTable_some {type : MaskitemType} (h : Sound lost s) (htype : type ∈ addressItems) :
    ∃ s', clearTable s type = some s' ∧ Sound lost s' ∧ Clears s s' ∧
      (type = .client → s'.lists type = []) := by
  obtain ⟨s', heq, hs, hclears, -, -, hnil⟩ := foldlM_some (f := clearAddress type)
    (P := fun rest s' => Sound lost s' ∧ Clears s s' ∧ rest.Nodup ∧ rest ⊆ s'.lists type ∧
      (type = .client → s'.lists type = rest))
    (by
      intro c rest s' ⟨hs, hclears, hnodup, hsub, hclient⟩
      obtain ⟨hnot, hnodup'⟩ := List.nodup_cons.mp hnodup
      have hmem : c ∈ s'.lists type := hsub (List.mem_cons_self ..)
      rcases clearAddress_cases hs htype hmem with ⟨hne, heq⟩ |
        ⟨conf, new, hconf, rfl, hnew, heq⟩
      · exact ⟨s', heq, hs, hclears, hnodup', fun c' hc' => hsub (List.mem_cons_of_mem _ hc'),
          fun h => absurd h hne⟩
      · have hlist : (unlisted s' conf.item.type c new).lists conf.item.type =
            (s'.lists conf.item.type).erase c := Function.update_self _ _ _
        refine ⟨_, heq, hs.unlisted hconf hnew, hclears.trans (clears_unlisted hconf hnew ?_),
          hnodup', ?_, ?_⟩
        · intro hx
          rw [hx] at htype
          exact absurd htype (by decide)
        · intro c' hc'
          rw [hlist]
          refine (List.mem_erase_of_ne ?_).mpr (hsub (List.mem_cons_of_mem _ hc'))
          rintro rfl
          exact hnot hc'
        · intro hisClient
          rw [hlist, hclient hisClient, List.erase_cons_head])
    (s.lists type) s ⟨h, clears_refl s, h.configured.nodup type, List.Subset.refl _, fun _ => rfl⟩
  exact ⟨s', heq, hs, hclears, hnil⟩

theorem clearOutAddressConf_some (h : Sound lost s) :
    ∃ s', clearOutAddressConf s = some s' ∧ Sound lost s' ∧ Clears s s' ∧
      s'.lists .client = [] := by
  obtain ⟨s', heq, -, hs, hclears, hempty⟩ := foldlM_some (f := clearTable)
    (P := fun types s' => types ⊆ addressItems ∧ Sound lost s' ∧ Clears s s' ∧
      (.client ∈ types ∨ s'.lists .client = []))
    (by
      intro type types s' ⟨hsub, hs, hclears, hempty⟩
      obtain ⟨s'', heq, hs'', hclears', hnil⟩ := clearTable_some hs (hsub (List.mem_cons_self ..))
      refine ⟨s'', heq, fun t ht => hsub (List.mem_cons_of_mem _ ht), hs'',
        hclears.trans hclears', ?_⟩
      rcases hempty with hmem | hgone
      · rcases List.mem_cons.mp hmem with rfl | hmem
        · exact Or.inr (hnil rfl)
        · exact Or.inl hmem
      · right
        have hsubset := hclears'.lists .client
        rw [hgone] at hsubset
        exact List.subset_nil.mp hsubset)
    addressItems s ⟨List.Subset.refl _, h, clears_refl s, Or.inl (by decide)⟩
  refine ⟨s', heq, hs, hclears, ?_⟩
  rcases hempty with hmem | hnil
  · exact absurd hmem (List.not_mem_nil)
  · exact hnil

/-- Clearing takes every auth block and every item of the lists out of use. -/
theorem clearOutOldConf_some (h : Sound lost s) (hforgets : Forgets s → lost) :
    ∃ s', clearOutOldConf s = some s' ∧ Sound lost s' ∧ Clears s s' ∧
      ∀ type, type ∈ freeItems ∨ type = .client → s'.lists type = [] := by
  obtain ⟨s₁, heq₁, hs₁, hclears₁, hempty⟩ := clearLists_some h hforgets
  have hs₂ := classMarkForDeletion_sound hs₁
  have hclears₂ : Clears s₁ (classMarkForDeletion s₁) :=
    ⟨(clears_refl s₁).lists, (clears_refl s₁).items, (clears_refl s₁).xlines⟩
  obtain ⟨s', heq, hs', hclears₃, hnil⟩ := clearOutAddressConf_some hs₂
  refine ⟨s', ?_, hs', (hclears₁.trans hclears₂).trans hclears₃, ?_⟩
  · unfold clearOutOldConf
    rw [heq₁]
    exact heq
  · intro type htype
    rcases htype with hfree | rfl
    · have hsubset := hclears₃.lists type
      rw [show (classMarkForDeletion s₁).lists type = [] from hempty type hfree] at hsubset
      exact List.subset_nil.mp hsubset
    · exact hnil

/-- The state without a class. -/
def without (s : State ι) (k : ℕ) : State ι :=
  { s with classes := s.classes.put k none, classList := s.classList.erase k }

theorem getLast?_erase {l : List ℕ} {a b : ℕ} (hlast : l.getLast? = some a) (hne : b ≠ a) :
    (l.erase b).getLast? = some a := by
  obtain ⟨rest, rfl⟩ := List.getLast?_eq_some_iff.mp hlast
  by_cases hmem : b ∈ rest
  · rw [List.erase_append_left _ hmem, List.getLast?_append]
    rfl
  · rw [List.erase_of_not_mem (by simp [hmem, hne])]
    exact hlast

/-- A class out of use that nobody is attached through can go: no item that is there is in it. -/
theorem classFree_some (h : Sound lost s) (hcurrent : Current s)
    (hcls : s.classes.cell k = some cls) (hactive : cls.active = false) (hzero : cls.refs = 0) :
    classFree k s = some (without s k) ∧ Sound lost (without s k) ∧ Current (without s k) := by
  have hne : k ≠ classDefault := by
    rintro rfl
    obtain ⟨d, hd, hdactive⟩ := h.classed.default
    rw [Option.some.inj (hcls.symm.trans hd), hdactive] at hactive
    exact absurd hactive (by simp)
  have hthrough : through s k = 0 := (h.classes.refs k cls hcls).symm.trans hzero
  have hother : ∀ {k'}, k' ≠ k → (without s k).classes.cell k' = s.classes.cell k' :=
    fun hk => Store.put_of_ne _ _ hk
  have hitem : ∀ c conf, s.confs.cell c = some conf → attachable conf.item.type = true →
      ∀ k', conf.item.classPtr = some k' → k' ≠ k := by
    rintro c conf hconf hattachable k' hk' rfl
    cases hon : conf.active with
    | true =>
      obtain ⟨d, hd, hdactive⟩ := hcurrent c conf hconf hon hattachable k' hk'
      rw [Option.some.inj (hcls.symm.trans hd), hdactive] at hactive
      exact absurd hactive (by simp)
    | false =>
      rcases h.kept c conf hconf hon with hheld | ⟨hx, -⟩
      · have hpos := through_pos hheld ((classOf_eq hconf).trans hk')
        omega
      · rw [hx] at hattachable
        exact absurd hattachable (by decide)
  obtain ⟨hfree, hcounts⟩ := h.classes.free hcls hthrough
  refine ⟨?_, ⟨h.confs, hcounts, ⟨h.linked.nodup, h.linked.once, h.linked.idle⟩,
    ⟨h.configured.listed, h.configured.used, h.configured.nodup⟩, ⟨?_, h.classed.nodup.erase k,
    getLast?_erase h.classed.last hne, ?_⟩, ⟨?_, h.typed.auth, h.typed.attached⟩, h.kept⟩, ?_⟩
  · have hguard : (guard (k ≠ classDefault ∧ cls.active = false ∧ cls.refs = 0) : Option Unit) =
        some () := if_pos ⟨hne, hactive, hzero⟩
    unfold classFree
    rw [hcls, Option.bind_eq_bind, Option.bind_some, hguard, hfree]
    rfl
  · intro k'
    show k' ∈ s.classList.erase k ↔ _
    rw [h.classed.nodup.mem_erase_iff, h.classed.listed]
    by_cases hk : k' = k
    · subst hk
      constructor
      · rintro ⟨hself, -⟩
        exact absurd rfl hself
      · intro ⟨d, hd⟩
        exact absurd ((Store.put_self _ _ _).symm.trans hd) (by simp)
    · rw [hother hk]
      exact and_iff_right hk
  · rw [hother hne.symm]
    exact h.classed.default
  · intro c conf hconf hattachable
    obtain ⟨k', d, hk', hd⟩ := h.typed.classed c conf hconf hattachable
    exact ⟨k', d, hk', (hother (hitem c conf hconf hattachable k' hk')).trans hd⟩
  · intro c conf hconf hon hattachable k' hk'
    rw [hother (hitem c conf hconf hattachable k' hk')]
    exact hcurrent c conf hconf hon hattachable k' hk'

theorem classDeleteMarked_some (h : Sound lost s) (hcurrent : Current s) :
    ∃ s', classDeleteMarked s = some s' ∧ Good lost s' ∧ s'.confs = s.confs := by
  obtain ⟨s', heq, hs, hcurrent', -, -, hused, hconfs⟩ := foldlM_some (f := deleteMarked)
    (P := fun rest s' => Sound lost s' ∧ Current s' ∧ rest.Nodup ∧ rest ⊆ s'.classList ∧
      (∀ k cls, s'.classes.cell k = some cls → cls.active = false →
        k ∈ rest ∨ 0 < through s' k) ∧ s'.confs = s.confs)
    (by
      intro k rest s' ⟨hs, hcurrent, hnodup, hsub, hused, hconfs⟩
      obtain ⟨hnot, hnodup'⟩ := List.nodup_cons.mp hnodup
      obtain ⟨cls, hcls⟩ := (hs.classed.listed k).mp (hsub (List.mem_cons_self ..))
      have hstep : deleteMarked s' k =
          if cls.active = false ∧ cls.refs = 0 then classFree k s' else some s' := by
        unfold deleteMarked
        rw [hcls]
        rfl
      rw [hstep]
      by_cases hgoes : cls.active = false ∧ cls.refs = 0
      · obtain ⟨hfree, hs'', hcurrent''⟩ := classFree_some hs hcurrent hcls hgoes.1 hgoes.2
        refine ⟨_, (if_pos hgoes).trans hfree, hs'', hcurrent'', hnodup', ?_, ?_, hconfs⟩
        · intro k' hk'
          refine (List.mem_erase_of_ne ?_).mpr (hsub (List.mem_cons_of_mem _ hk'))
          rintro rfl
          exact hnot hk'
        · intro k' d hd hoff
          have hne : k' ≠ k := by
            rintro rfl
            exact absurd ((Store.put_self _ _ _).symm.trans hd) (by simp)
          rcases hused k' d ((Store.put_of_ne _ _ hne).symm.trans hd) hoff with hmem | hpos
          · exact Or.inl ((List.mem_cons.mp hmem).resolve_left hne)
          · exact Or.inr hpos
      · refine ⟨s', if_neg hgoes, hs, hcurrent, hnodup',
          fun k' hk' => hsub (List.mem_cons_of_mem _ hk'), ?_, hconfs⟩
        intro k' d hd hoff
        rcases hused k' d hd hoff with hmem | hpos
        · rcases List.mem_cons.mp hmem with rfl | hmem
          · right
            obtain rfl := Option.some.inj (hcls.symm.trans hd)
            have hrefs := hs.classes.refs k' cls hcls
            have hnz : cls.refs ≠ 0 := fun hz => hgoes ⟨hoff, hz⟩
            omega
          · exact Or.inl hmem
        · exact Or.inr hpos)
    s.classList s ⟨h, hcurrent, h.classed.nodup, List.Subset.refl _,
      fun k cls hcls _ => Or.inl ((h.classed.listed k).mpr ⟨cls, hcls⟩), rfl⟩
  refine ⟨s', heq, ⟨hs, hcurrent', fun k cls hcls hoff => ?_⟩, hconfs⟩
  exact (hused k cls hcls hoff).resolve_left List.not_mem_nil

/-- A class changes in other ways than its count, and is not taken out of use. -/
theorem putClass_sound {new : Cell ClassItem} (h : Sound lost s)
    (hcls : s.classes.cell k = some cls) (hrefs : new.refs = cls.refs)
    (hactive : cls.active = true → new.active = true) :
    Sound lost { s with classes := s.classes.put k (some new) } := by
  have hthere : ∀ k', (∃ d, (s.classes.put k (some new)).cell k' = some d) ↔
      ∃ d, s.classes.cell k' = some d := by
    intro k'
    by_cases hk : k' = k
    · subst hk
      exact ⟨fun _ => ⟨cls, hcls⟩, fun _ => ⟨new, Store.put_self _ _ _⟩⟩
    · rw [Store.put_of_ne _ _ hk]
  refine ⟨h.confs, h.classes.put_same hcls hrefs,
    ⟨h.linked.nodup, h.linked.once, h.linked.idle⟩,
    ⟨h.configured.listed, h.configured.used, h.configured.nodup⟩,
    ⟨fun k' => (h.classed.listed k').trans (hthere k').symm, h.classed.nodup, h.classed.last, ?_⟩,
    ⟨?_, h.typed.auth, h.typed.attached⟩, h.kept⟩
  · obtain ⟨d, hd, hon⟩ := h.classed.default
    by_cases hk : classDefault = k
    · subst hk
      rw [Option.some.inj (hd.symm.trans hcls)] at hon
      exact ⟨new, Store.put_self _ _ _, hactive hon⟩
    · exact ⟨d, (Store.put_of_ne _ _ hk).trans hd, hon⟩
  · intro c conf hconf hattachable
    obtain ⟨k', d, hk', hd⟩ := h.typed.classed c conf hconf hattachable
    obtain ⟨d', hd'⟩ := (hthere k').mpr ⟨d, hd⟩
    exact ⟨k', d', hk', hd'⟩

theorem classMake_sound (h : Sound lost s) : Sound lost (classMake s) := by
  have hnext : s.classes.cell s.classes.next = none := h.classes.beyond _ (Nat.le_refl _)
  have hold : ∀ {k d}, s.classes.cell k = some d → (classMake s).classes.cell k = some d := by
    intro k d hd
    refine (Store.add_of_ne _ _ ?_).trans hd
    rintro rfl
    exact absurd (hnext.symm.trans hd) (by simp)
  have hnew : s.classes.next ∉ s.classList := by
    rw [h.classed.listed]
    rintro ⟨d, hd⟩
    exact absurd (hnext.symm.trans hd) (by simp)
  refine ⟨h.confs, h.classes.add _, ⟨h.linked.nodup, h.linked.once, h.linked.idle⟩,
    ⟨h.configured.listed, h.configured.used, h.configured.nodup⟩,
    ⟨?_, List.nodup_cons.mpr ⟨hnew, h.classed.nodup⟩, ?_, ?_⟩,
    ⟨?_, h.typed.auth, h.typed.attached⟩, h.kept⟩
  · intro k
    show k ∈ s.classes.next :: s.classList ↔ _
    rw [List.mem_cons, h.classed.listed]
    by_cases hk : k = s.classes.next
    · subst hk
      exact ⟨fun _ => ⟨_, Store.add_self _ _⟩, fun _ => Or.inl rfl⟩
    · rw [show (classMake s).classes.cell k = s.classes.cell k from Store.add_of_ne _ _ hk]
      exact or_iff_right hk
  · show (s.classes.next :: s.classList).getLast? = some classDefault
    rw [List.getLast?_cons, h.classed.last]
    rfl
  · obtain ⟨d, hd, hon⟩ := h.classed.default
    exact ⟨d, hold hd, hon⟩
  · intro c conf hconf hattachable
    obtain ⟨k, d, hk, hd⟩ := h.typed.classed c conf hconf hattachable
    exact ⟨k, d, hk, hold hd⟩

theorem classFind_mem {name : CStr} {active : Bool} (hfind : classFind name active s = some k) :
    k ∈ s.classList ∧ (active = true → (s.classes.cell k).any Cell.active = true) := by
  unfold classFind at hfind
  cases hname : s.classList.find? (hasName s name) with
  | none =>
    rw [hname] at hfind
    exact absurd hfind (by simp)
  | some k' =>
    rw [hname] at hfind
    dsimp only at hfind
    split at hfind
    · exact absurd hfind (by simp)
    · next hnot =>
      obtain rfl := Option.some.inj hfind
      refine ⟨List.mem_of_find?_eq_some hname, fun hactive => ?_⟩
      rw [hactive] at hnot
      simpa using hnot

/-- The class an item asks for, or the first one, is in use. -/
theorem confAddClass_active (h : Sound lost s) (className : CStr) :
    ∃ cls, s.classes.cell (confAddClass className s) = some cls ∧ cls.active = true := by
  unfold confAddClass
  cases hfind : classFind className true s with
  | none => exact h.classed.default
  | some k =>
    obtain ⟨hmem, hactive⟩ := classFind_mem hfind
    obtain ⟨cls, hcls⟩ := (h.classed.listed k).mp hmem
    refine ⟨cls, hcls, ?_⟩
    have hon := hactive rfl
    rw [hcls] at hon
    exact hon

/-- An item is made that is in a class, if clients can be attached to it. -/
theorem confMake_sound {item : MaskItem} (h : Sound lost s)
    (hclassed : attachable item.type = true →
      ∃ k cls, item.classPtr = some k ∧ s.classes.cell k = some cls)
    (hauth : item.type = .client → item.holdUntil = 0 ∧ item.isConfDatabase = false) :
    Sound lost (confMake item s) := by
  have hnext : s.confs.cell s.confs.next = none := h.confs.beyond _ (Nat.le_refl _)
  have hnot : ∀ {c}, c ∈ held s → c ≠ s.confs.next := by
    rintro c hc rfl
    exact absurd h.confs.next_free (List.count_pos_iff.mpr hc).ne'
  have hcell : ∀ {c conf}, (confMake item s).confs.cell c = some conf →
      (c = s.confs.next ∧ conf = ⟨0, true, item⟩) ∨ s.confs.cell c = some conf := by
    intro c conf hconf
    by_cases hc : c = s.confs.next
    · subst hc
      exact Or.inl ⟨rfl, (Option.some.inj ((Store.add_self _ _).symm.trans hconf)).symm⟩
    · exact Or.inr ((Store.add_of_ne _ _ hc).symm.trans hconf)
  have hthrough : ∀ k, through (confMake item s) k = through s k := by
    intro k
    refine through_congr s (confMake item s) rfl (fun c hc => ?_) k
    unfold classOf
    rw [show (confMake item s).confs.cell c = s.confs.cell c from Store.add_of_ne _ _ (hnot hc)]
  have hlists : ∀ {type c}, c ∈ (confMake item s).lists type ↔
      (c = s.confs.next ∧ type = item.type) ∨ c ∈ s.lists type := by
    intro type c
    show c ∈ Function.update s.lists item.type (s.confs.next :: s.lists item.type) type ↔ _
    by_cases htype : type = item.type
    · subst htype
      rw [Function.update_self, List.mem_cons]
      simp
    · rw [Function.update_of_ne htype]
      simp [htype]
  have hunlisted : s.confs.next ∉ s.lists item.type := by
    intro hmem
    obtain ⟨d, hd, -⟩ := h.configured.listed _ _ hmem
    exact absurd (hnext.symm.trans hd) (by simp)
  refine ⟨h.confs.add item, h.classes.congr hthrough,
    ⟨h.linked.nodup, h.linked.once, h.linked.idle⟩, ⟨?_, ?_, ?_⟩,
    ⟨h.classed.listed, h.classed.nodup, h.classed.last, h.classed.default⟩, ⟨?_, ?_, ?_⟩, ?_⟩
  · intro type c hc
    rcases hlists.mp hc with ⟨rfl, rfl⟩ | hmem
    · exact ⟨_, Store.add_self _ _, rfl, rfl⟩
    · obtain ⟨d, hd, hrest⟩ := h.configured.listed type c hmem
      refine ⟨d, (Store.add_of_ne _ _ ?_).trans hd, hrest⟩
      rintro rfl
      exact absurd (hnext.symm.trans hd) (by simp)
  · intro c conf hconf hon
    rcases hcell hconf with ⟨rfl, rfl⟩ | hold
    · exact hlists.mpr (Or.inl ⟨rfl, rfl⟩)
    · exact hlists.mpr (Or.inr (h.configured.used c conf hold hon))
  · intro type
    show (Function.update s.lists item.type (s.confs.next :: s.lists item.type) type).Nodup
    by_cases htype : type = item.type
    · subst htype
      rw [Function.update_self]
      exact List.nodup_cons.mpr ⟨hunlisted, h.configured.nodup _⟩
    · rw [Function.update_of_ne htype]
      exact h.configured.nodup type
  · intro c conf hconf hattachable
    rcases hcell hconf with ⟨-, rfl⟩ | hold
    · exact hclassed hattachable
    · exact h.typed.classed c conf hold hattachable
  · intro c conf hconf htype
    rcases hcell hconf with ⟨-, rfl⟩ | hold
    · exact hauth htype
    · exact h.typed.auth c conf hold htype
  · intro c hc conf hconf
    rcases hcell hconf with ⟨rfl, -⟩ | hold
    · exact absurd rfl (hnot hc)
    · exact h.typed.attached c hc conf hold
  · intro c conf hconf hoff
    rcases hcell hconf with ⟨-, rfl⟩ | hold
    · exact absurd hoff (by simp)
    · exact h.kept c conf hold hoff

theorem classEntry_some [DecidableEq ι] (address : ι → CidrLimits.Ip) (h : Sound lost s)
    (b : ClassBlock) :
    ∃ s', classEntry address s b = some s' ∧ Sound lost s' ∧ s'.confs = s.confs ∧
      s'.lists = s.lists := by
  unfold classEntry
  by_cases hname : b.name = []
  · rw [if_pos hname]
    exact ⟨s, rfl, h, rfl, rfl⟩
  · rw [if_neg hname]
    cases hfind : classFind b.name false s with
    | some k =>
      obtain ⟨cls, hcls⟩ := (h.classed.listed k).mp (classFind_mem hfind).1
      dsimp only
      rw [hcls]
      exact ⟨_, rfl, putClass_sound h hcls rfl (fun _ => rfl), rfl, rfl⟩
    | none =>
      have hnew : (classMake s).classes.cell s.classes.next = some _ := Store.add_self _ _
      dsimp only
      rw [hnew]
      exact ⟨_, rfl, putClass_sound (classMake_sound h) hnew rfl (fun _ => rfl), rfl, rfl⟩

theorem readEntry_sound (h : Sound lost s) (hcurrent : Current s) (e : Entry) :
    Sound lost (readEntry s e) ∧ Current (readEntry s e) := by
  obtain ⟨cls, hcls, hon⟩ := confAddClass_active h e.className
  constructor
  · refine confMake_sound h (fun hattachable => ?_) (fun _ => ⟨rfl, rfl⟩)
    exact ⟨_, cls, if_pos hattachable, hcls⟩
  · intro c conf hconf hactive hattachable k hk
    by_cases hc : c = s.confs.next
    · subst hc
      obtain rfl := Option.some.inj ((Store.add_self _ _).symm.trans hconf)
      rw [if_pos hattachable] at hk
      obtain rfl := Option.some.inj hk
      exact ⟨cls, hcls, hon⟩
    · exact hcurrent c conf ((Store.add_of_ne _ _ hc).symm.trans hconf) hactive hattachable k hk

/-- What was there before the items of the file are made stays. -/
theorem readEntries_sound (entries : List Entry) (h : Sound lost s) (hcurrent : Current s) :
    Sound lost (entries.foldl readEntry s) ∧ Current (entries.foldl readEntry s) ∧
      ∀ c conf, s.confs.cell c = some conf →
        (entries.foldl readEntry s).confs.cell c = some conf := by
  induction entries generalizing s with
  | nil => exact ⟨h, hcurrent, fun _ _ hconf => hconf⟩
  | cons e rest ih =>
    obtain ⟨hs, hcurrent'⟩ := readEntry_sound h hcurrent e
    obtain ⟨hs', hcurrent'', hstays⟩ := ih hs hcurrent'
    refine ⟨hs', hcurrent'', fun c conf hconf => hstays c conf ?_⟩
    exact (Store.add_of_ne _ _ (h.confs.lt_next hconf).ne).trans hconf

/-- A file is read over a configuration that has nothing in use that clients can be attached to. -/
theorem readConf_some [DecidableEq ι] (address : ι → CidrLimits.Ip) (file : ConfFile)
    (h : Sound lost s) (hempty : ∀ type, attachable type = true → s.lists type = []) :
    ∃ s', readConf address file s = some s' ∧ Good lost s' ∧
      ∀ c conf, s.confs.cell c = some conf → s'.confs.cell c = some conf := by
  obtain ⟨s₁, heq₁, hs₁, hconfs₁, hlists₁⟩ := foldlM_some (f := classEntry address)
    (P := fun _ s' => Sound lost s' ∧ s'.confs = s.confs ∧ s'.lists = s.lists)
    (by
      intro b rest s' ⟨hs, hconfs, hlists⟩
      obtain ⟨s'', heq, hs'', hconfs', hlists'⟩ := classEntry_some address hs b
      exact ⟨s'', heq, hs'', hconfs'.trans hconfs, hlists'.trans hlists⟩)
    file.classes s ⟨h, rfl, rfl⟩
  have hcurrent : Current s₁ := by
    intro c conf hconf hactive hattachable
    have hmem := hs₁.configured.used c conf hconf hactive
    rw [hlists₁, hempty _ hattachable] at hmem
    exact absurd hmem List.not_mem_nil
  obtain ⟨hs₂, hcurrent₂, hstays⟩ := readEntries_sound file.entries hs₁ hcurrent
  obtain ⟨s', heq, hgood, hconfs⟩ := classDeleteMarked_some hs₂ hcurrent₂
  refine ⟨s', ?_, hgood, fun c conf hconf => ?_⟩
  · unfold readConf
    rw [heq₁]
    exact heq
  · rw [hconfs]
    exact hstays c conf (hconfs₁ ▸ hconf)

/-- An X-line with a time that was on the list is there after the file has been read again, and
out of use. -/
theorem rehash_some [DecidableEq ι] (address : ι → CidrLimits.Ip) (file : ConfFile)
    (h : Good lost s) (hforgets : Forgets s → lost) :
    ∃ s', rehash address (some file) s = some s' ∧ Good lost s' ∧
      ∀ c ∈ s.lists .xline, ∀ conf, s.confs.cell c = some conf → conf.item.holdUntil ≠ 0 →
        ∃ conf', s'.confs.cell c = some conf' ∧ conf'.active = false ∧
          conf'.item.type = .xline := by
  obtain ⟨s₁, heq₁, hs₁, hclears, hempty⟩ := clearOutOldConf_some h.sound hforgets
  obtain ⟨s', heq, hgood, hstays⟩ := readConf_some address file hs₁ (by
    intro type htype
    apply hempty
    revert htype
    cases type <;> decide)
  refine ⟨s', ?_, hgood, ?_⟩
  · unfold rehash
    rw [heq₁]
    exact heq
  · intro c hc conf hconf huntil
    obtain ⟨old, hold, -, htype⟩ := h.sound.configured.listed _ c hc
    obtain rfl := Option.some.inj (hold.symm.trans hconf)
    obtain ⟨conf', hconf', hitem⟩ := hclears.xlines c old hold htype huntil
    refine ⟨conf', hstays c conf' hconf', ?_, by rw [hitem, htype]⟩
    cases hactive : conf'.active with
    | false => rfl
    | true =>
      have hmem := hs₁.configured.used c conf' hconf' hactive
      rw [hitem, htype, hempty .xline (Or.inl (by decide))] at hmem
      exact absurd hmem List.not_mem_nil

end IrcdHybrid.ConfRehash
