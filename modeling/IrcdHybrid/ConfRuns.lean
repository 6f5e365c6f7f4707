import IrcdHybrid.ConfLifetimes

/-!
Whole runs. From the reading of the first file on, no operation goes wrong, and items and
classes live exactly as long as they are used, up to the reading of a file that forgets an
X-line with a time.
-/

namespace IrcdHybrid.ConfRuns

open Hostmask hiding MaskItem
open Rehash hiding clearOutOldConf clearOutAddressConf
open CString Retention ConfItems ConfCounts ConfRehash ConfLifetimes

variable {ι : Type} {lost : Prop} {s s' : State ι} {c : ℕ} {conf : Cell MaskItem}

/-- Attachments are the same in another order, and nothing else of the configuration changes. -/
theorem Good.congr (h : Good lost s) (hconfs : s'.confs = s.confs) (hclasses : s'.classes = s.classes)
    (hlists : s'.lists = s.lists) (hclassList : s'.classList = s.classList)
    (hperm : (held s').Perm (held s)) (hlinked : Linked s') : Good lost s' := by
  have hthrough : ∀ k, through s' k = through s k := by
    intro k
    unfold through classOf
    rw [hconfs]
    exact hperm.countP_eq _
  have hmem : ∀ c, c ∈ held s' ↔ c ∈ held s := fun c => hperm.mem_iff
  refine ⟨⟨?_, ?_, hlinked, ⟨?_, ?_, ?_⟩, ⟨?_, ?_, ?_, ?_⟩, ⟨?_, ?_, ?_⟩, ?_⟩, ?_, ?_⟩
  · rw [hconfs]
    exact h.sound.confs.congr fun c => hperm.count_eq c
  · rw [hclasses]
    exact h.sound.classes.congr hthrough
  · rw [hlists, hconfs]
    exact h.sound.configured.listed
  · rw [hlists, hconfs]
    exact h.sound.configured.used
  · rw [hlists]
    exact h.sound.configured.nodup
  · rw [hclassList, hclasses]
    exact h.sound.classed.listed
  · rw [hclassList]
    exact h.sound.classed.nodup
  · rw [hclassList]
    exact h.sound.classed.last
  · rw [hclasses]
    exact h.sound.classed.default
  · rw [hconfs, hclasses]
    exact h.sound.typed.classed
  · rw [hconfs]
    exact h.sound.typed.auth
  · intro c hc
    rw [hconfs]
    exact h.sound.typed.attached c ((hmem c).mp hc)
  · intro c conf hconf hoff
    rw [hconfs] at hconf
    exact (h.sound.kept c conf hconf hoff).imp_left (hmem c).mpr
  · unfold Current
    rw [hconfs, hclasses]
    exact h.current
  · intro k cls hcls hoff
    rw [hclasses] at hcls
    rw [hthrough k]
    exact h.used k cls hcls hoff

theorem flatMap_erase [DecidableEq ι] {l : List ι} {client : ι} {f : ι → List ℕ}
    (hnil : f client = []) : (l.erase client).flatMap f = l.flatMap f := by
  induction l with
  | nil => rfl
  | cons other rest ih =>
    by_cases hother : other = client
    · subst hother
      rw [List.erase_cons_head, List.flatMap_cons, hnil, List.nil_append]
    · rw [List.erase_cons_tail (by simpa using hother), List.flatMap_cons, List.flatMap_cons, ih]

theorem connect_good {client : ι} (h : Good lost s) (hnot : client ∉ s.clients) :
    Good lost { s with clients := client :: s.clients } := by
  have hheld : held { s with clients := client :: s.clients } = held s := by
    show (client :: s.clients).flatMap s.attached = s.clients.flatMap s.attached
    rw [List.flatMap_cons, h.sound.linked.idle client hnot, List.nil_append]
  refine Good.congr h rfl rfl rfl rfl (List.Perm.of_eq hheld)
    ⟨List.nodup_cons.mpr ⟨hnot, h.sound.linked.nodup⟩, h.sound.linked.once, ?_⟩
  intro other hother
  exact h.sound.linked.idle other fun hmem => hother (List.mem_cons_of_mem _ hmem)

theorem exit_some [DecidableEq ι] (address : ι → CidrLimits.Ip) (client : ι) (h : Good lost s) :
    ∃ s', exit address client s = some s' ∧ Good lost s' := by
  obtain ⟨s₁, heq, hs₁, -, hnil⟩ := detachConf_some client address (fun _ => true) h
  have hnil := hnil fun _ => rfl
  refine ⟨{ s₁ with
    clients := s₁.clients.erase client
    localClients := s₁.localClients.erase client }, ?_, ?_⟩
  · unfold exit
    rw [heq]
    rfl
  · refine Good.congr hs₁ rfl rfl rfl rfl (List.Perm.of_eq (flatMap_erase hnil))
      ⟨hs₁.sound.linked.nodup.erase client, hs₁.sound.linked.once, ?_⟩
    intro other hother
    by_cases hself : other = client
    · subst hself
      exact hnil
    · exact hs₁.sound.linked.idle other fun hmem =>
        hother ((List.mem_erase_of_ne hself).mpr hmem)

theorem ban_good {type : MaskitemType} (h : Good lost s) (htype : isBan type = true)
    (holdUntil : ℤ) (database : Bool) :
    Good lost (confMake ⟨type, none, holdUntil, database, false⟩ s) := by
  have hnot : attachable type = false ∧ type ≠ .client := by
    revert htype
    cases type <;> decide
  have hsound : Sound lost (confMake ⟨type, none, holdUntil, database, false⟩ s) := by
    refine confMake_sound h.sound (fun hattachable => ?_) (fun heq => absurd heq hnot.2)
    change attachable type = true at hattachable
    rw [hnot.1] at hattachable
    exact absurd hattachable (by simp)
  have hthrough : ∀ k, through (confMake ⟨type, none, holdUntil, database, false⟩ s) k =
      through s k := by
    intro k
    refine through_congr s (confMake ⟨type, none, holdUntil, database, false⟩ s) rfl
      (fun c hc => ?_) k
    obtain ⟨conf, hconf⟩ := h.sound.confs.held (List.count_pos_iff.mpr hc)
    have hne : c ≠ s.confs.next := (h.sound.confs.lt_next hconf).ne
    rw [classOf_eq hconf]
    exact classOf_eq ((Store.add_of_ne _ _ hne).trans hconf)
  refine ⟨hsound, ?_, fun k cls hcls hoff => ?_⟩
  · intro c conf hconf hactive hattachable
    by_cases hc : c = s.confs.next
    · subst hc
      obtain rfl := Option.some.inj ((Store.add_self _ _).symm.trans hconf)
      change attachable type = true at hattachable
      rw [hnot.1] at hattachable
      exact absurd hattachable (by simp)
    · exact h.current c conf ((Store.add_of_ne _ _ hc).symm.trans hconf) hactive hattachable
  · rw [hthrough k]
    exact h.used k cls hcls hoff

theorem lift_some (h : Good lost s) (c : ℕ) : ∃ s', lift c s = some s' ∧ Good lost s' := by
  unfold lift
  cases hconf : s.confs.cell c with
  | none => exact ⟨s, rfl, h⟩
  | some conf =>
    dsimp only
    by_cases hban : isBan conf.item.type = true ∧ c ∈ s.lists conf.item.type
    · rw [if_pos hban, confFree_listed hconf]
      have hnot : attachable conf.item.type = false := by
        have htype := hban.1
        revert htype
        cases conf.item.type <;> decide
      have hleaves : Leaves lost s c conf none := by
        refine Or.inl ⟨rfl, fun hheld => ?_⟩
        rw [h.sound.typed.attached c hheld conf hconf] at hnot
        exact absurd hnot (by simp)
      refine ⟨_, rfl, h.sound.unlisted hconf hleaves, ?_, fun k cls hcls hoff => ?_⟩
      · intro c' d hd hactive hattachable
        by_cases hc : c' = c
        · subst hc
          exact absurd ((Store.put_self _ _ _).symm.trans hd) (by simp)
        · exact h.current c' d ((unlisted_cell _ hc).symm.trans hd) hactive hattachable
      · have hthrough : through (unlisted s conf.item.type c none) k = through s k :=
          through_congr s (unlisted s conf.item.type c none) rfl
            (fun c' hc' => unlisted_classOf hconf hleaves _ hc') k
        rw [hthrough]
        exact h.used k cls hcls hoff
    · rw [if_neg hban]
      exact ⟨s, rfl, h⟩

section Runs

variable [DecidableEq ι] (address : ι → CidrLimits.Ip)

/-- No operation goes wrong; X-lines are lost when a file is read that forgets one. -/
theorem apply_some (h : Good lost s) (op : Op ι)
    (hop : ∀ file, op = .rehash (some file) → Forgets s → lost) :
    ∃ s', apply address s op = some s' ∧ Good lost s' := by
  cases op with
  | connect client =>
    show ∃ s', (if client ∈ s.clients then some s else _) = some s' ∧ _
    by_cases hclient : client ∈ s.clients
    · rw [if_pos hclient]
      exact ⟨s, rfl, h⟩
    · rw [if_neg hclient]
      exact ⟨_, rfl, connect_good h hclient⟩
  | attach client c =>
    show ∃ s', (if client ∈ s.clients ∧ found s c = true then
      (attachConf address client c s).map Prod.fst else some s) = some s' ∧ _
    by_cases hcalled : client ∈ s.clients ∧ found s c = true
    · obtain ⟨s', out, heq, hs'⟩ := attachConf_some address h hcalled.1 hcalled.2
      rw [if_pos hcalled, heq]
      exact ⟨s', rfl, hs'⟩
    · rw [if_neg hcalled]
      exact ⟨s, rfl, h⟩
  | register client =>
    show ∃ s', (if client ∈ s.clients then _ else some s) = some s' ∧ _
    by_cases hclient : client ∈ s.clients
    · rw [if_pos hclient]
      exact ⟨_, rfl, Good.congr h rfl rfl rfl rfl (List.Perm.refl _)
        ⟨h.sound.linked.nodup, h.sound.linked.once, h.sound.linked.idle⟩⟩
    · rw [if_neg hclient]
      exact ⟨s, rfl, h⟩
  | detach client types =>
    obtain ⟨s', heq, hs', -⟩ := detachConf_some client address types h
    exact ⟨s', heq, hs'⟩
  | exit client => exact exit_some address client h
  | rehash file =>
    cases file with
    | none => exact ⟨s, rfl, h⟩
    | some file =>
      obtain ⟨s', heq, hs', -⟩ := rehash_some address file h (hop file rfl)
      exact ⟨s', heq, hs'⟩
  | ban type holdUntil database =>
    show ∃ s', (if isBan type = true then _ else some s) = some s' ∧ _
    by_cases hban : isBan type = true
    · rw [if_pos hban]
      exact ⟨_, rfl, ban_good h hban holdUntil database⟩
    · rw [if_neg hban]
      exact ⟨s, rfl, h⟩
  | lift c => exact lift_some h c

omit [DecidableEq ι] in
theorem classInit_sound : Sound False (classInit : State ι) := by
  have hother : ∀ {k}, k ≠ classDefault → (classInit : State ι).classes.cell k = none :=
    fun hk => Store.put_of_ne Store.empty _ hk
  have hdefault : (classInit : State ι).classes.cell classDefault =
      some ⟨0, true, "default".toList, CidrLimits.ClassItem.blank⟩ :=
    Store.put_self Store.empty _ _
  have hcell : ∀ {k cls}, (classInit : State ι).classes.cell k = some cls →
      k = classDefault ∧ cls = ⟨0, true, "default".toList, CidrLimits.ClassItem.blank⟩ := by
    intro k cls hcls
    by_cases hk : k = classDefault
    · subst hk
      exact ⟨rfl, (Option.some.inj (hdefault.symm.trans hcls)).symm⟩
    · exact absurd ((hother hk).symm.trans hcls) (by simp)
  have hnone : ∀ {c conf}, (classInit : State ι).confs.cell c = some conf → False :=
    fun hconf => absurd hconf (by simp [classInit, Store.empty])
  refine ⟨counts_empty, ⟨?_, fun _ _ => rfl, ?_⟩, ⟨List.nodup_nil, fun _ => List.nodup_nil,
    fun _ _ => rfl⟩, ⟨fun _ _ hc => absurd hc List.not_mem_nil, fun _ _ hconf => (hnone hconf).elim,
    fun _ => List.nodup_nil⟩, ⟨?_, List.nodup_singleton _, rfl, ⟨_, hdefault, rfl⟩⟩,
    ⟨fun _ _ hconf => (hnone hconf).elim, fun _ _ hconf => (hnone hconf).elim,
    fun _ hc => absurd hc List.not_mem_nil⟩, fun _ _ hconf => (hnone hconf).elim⟩
  · intro k cls hcls
    rw [(hcell hcls).2]
    rfl
  · intro k hk
    apply hother
    rintro rfl
    exact absurd hk (Nat.not_succ_le_self _)
  · intro k
    rw [show (classInit : State ι).classList = [classDefault] from rfl, List.mem_singleton]
    constructor
    · rintro rfl
      exact ⟨_, hdefault⟩
    · rintro ⟨cls, hcls⟩
      exact (hcell hcls).1

/-- No operation forgets an X-line. -/
def Remembers (file : ConfFile) (ops : List (Op ι)) : Prop :=
  ∀ before new, before ++ [Op.rehash (some new)] <+: ops →
    ∀ s, run address file before = some s → ¬ Forgets s

theorem run_concat (file : ConfFile) (before : List (Op ι)) (op : Op ι) :
    run address file (before ++ [op]) =
      (run address file before).bind fun s => apply address s op := by
  unfold run
  cases readConf address file classInit with
  | none => rfl
  | some s =>
    simp only [Option.bind_eq_bind, Option.bind_some, List.foldlM_append]
    congr 1
    funext s'
    show (apply address s' op).bind (fun s => some s) = _
    exact Option.bind_fun_some _

/-- A run goes on to its end, and the invariant holds of the state reached. -/
theorem run_some (lost : Prop) (file : ConfFile) (ops : List (Op ι)) (hlost : ¬ lost → Remembers address file ops) :
    ∃ s, run address file ops = some s ∧ Good lost s := by
  induction ops using List.reverseRecOn with
  | nil =>
    have hsound : Sound lost (classInit : State ι) :=
      ⟨classInit_sound.confs, classInit_sound.classes, classInit_sound.linked, classInit_sound.configured,
        classInit_sound.classed, classInit_sound.typed, fun _ _ hconf => absurd hconf (by
          simp [classInit, Store.empty])⟩
    obtain ⟨s, heq, hs, -⟩ := readConf_some address file hsound (fun _ _ => rfl)
    refine ⟨s, ?_, hs⟩
    unfold run
    rw [heq]
    rfl
  | append_singleton before op ih =>
    obtain ⟨s, heq, hs⟩ := ih fun hnot b new hb =>
      hlost hnot b new (hb.trans (List.prefix_append _ _))
    obtain ⟨s', hop, hs'⟩ := apply_some address hs op (by
      rintro new rfl hforgets
      by_contra hnot
      exact hlost hnot before new (List.prefix_refl _) s heq hforgets)
    refine ⟨s', ?_, hs'⟩
    rw [run_concat, heq]
    exact hop

end Runs

/-- An item has as many holds as there are clients attached to it, a class as many as there are
attachments through it; what the configuration has, and what somebody is attached to, is there;
and what is there and out of use has somebody attached to it. -/
structure LivesAsUsed (s : State ι) : Prop where
  confRefs : ∀ c conf, s.confs.cell c = some conf →
    conf.refs = s.clients.countP fun client => decide (c ∈ s.attached client)
  classRefs : ∀ k cls, s.classes.cell k = some cls → cls.refs = through s k
  configured : ∀ type, ∀ c ∈ s.lists type, ∃ conf, s.confs.cell c = some conf ∧ conf.active = true
  attached : ∀ client, ∀ c ∈ s.attached client, ∃ conf k cls, s.confs.cell c = some conf ∧
    conf.item.classPtr = some k ∧ s.classes.cell k = some cls
  confUsed : ∀ c conf, s.confs.cell c = some conf → conf.active = false →
    ∃ client, c ∈ s.attached client
  classUsed : ∀ k cls, s.classes.cell k = some cls → cls.active = false →
    ∃ client, ∃ c ∈ s.attached client, classOf s c = some k

theorem count_held (clients : List ι) (f : ι → List ℕ) (hnodup : ∀ client, (f client).Nodup) :
    (clients.flatMap f).count c = clients.countP fun client => decide (c ∈ f client) := by
  induction clients with
  | nil => rfl
  | cons client rest ih =>
    rw [List.flatMap_cons, List.count_append, ih, List.countP_cons, (hnodup client).count]
    by_cases hc : c ∈ f client
    · simp [hc, Nat.add_comm]
    · simp [hc]

theorem Good.livesAsUsed (h : Good False s) : LivesAsUsed s := by
  refine ⟨?_, h.sound.classes.refs, ?_, ?_, ?_, ?_⟩
  · intro c conf hconf
    rw [h.sound.confs.refs c conf hconf]
    exact count_held _ _ h.sound.linked.once
  · intro type c hc
    obtain ⟨conf, hconf, hon, -⟩ := h.sound.configured.listed type c hc
    exact ⟨conf, hconf, hon⟩
  · intro client c hc
    have hclient : client ∈ s.clients := by
      by_contra hnot
      rw [h.sound.linked.idle client hnot] at hc
      exact absurd hc List.not_mem_nil
    obtain ⟨conf, k, cls, hconf, -, -, hk, hcls, -⟩ :=
      held_some h.sound ((mem_held s c).mpr ⟨client, hclient, hc⟩)
    exact ⟨conf, k, cls, hconf, hk, hcls⟩
  · intro c conf hconf hoff
    rcases h.sound.kept c conf hconf hoff with hheld | ⟨-, hfalse⟩
    · obtain ⟨client, -, hc⟩ := (mem_held s c).mp hheld
      exact ⟨client, hc⟩
    · exact hfalse.elim
  · intro k cls hcls hoff
    obtain ⟨c, hc, hclass⟩ := List.countP_pos_iff.mp (h.used k cls hcls hoff)
    obtain ⟨client, -, hmem⟩ := (mem_held s c).mp hc
    exact ⟨client, c, hmem, by simpa using hclass⟩

/-- After a file has been read that forgets an X-line, there is one that nobody can use. -/
theorem forgets_misses [DecidableEq ι] (address : ι → CidrLimits.Ip) (file : ConfFile)
    (h : Good True s) (hforgets : Forgets s) :
    ∃ s', rehash address (some file) s = some s' ∧ ¬ LivesAsUsed s' := by
  obtain ⟨s', heq, hs', hlost⟩ := rehash_some address file h (fun _ => trivial)
  refine ⟨s', heq, fun hlives => ?_⟩
  obtain ⟨c, hc, conf, hconf, huntil⟩ := hforgets
  obtain ⟨conf', hconf', hoff, htype⟩ := hlost c hc conf hconf huntil
  obtain ⟨client, hmem⟩ := hlives.confUsed c conf' hconf' hoff
  have hclient : client ∈ s'.clients := by
    by_contra hnot
    rw [hs'.sound.linked.idle client hnot] at hmem
    exact absurd hmem List.not_mem_nil
  have hattachable := hs'.sound.typed.attached c ((mem_held s' c).mpr ⟨client, hclient, hmem⟩)
    conf' hconf'
  rw [htype] at hattachable
  exact absurd hattachable (by decide)

/-- No run goes wrong, and in every state of a run items and classes live exactly as long as
they are used if and only if no file is read while an X-line with a time is on the list. -/
theorem lives_as_used_iff [DecidableEq ι] (address : ι → CidrLimits.Ip) (file : ConfFile)
    (ops : List (Op ι)) :
    (∃ s, run address file ops = some s) ∧
      ((∀ before, before <+: ops → ∀ s, run address file before = some s → LivesAsUsed s) ↔
        Remembers address file ops) := by
  constructor
  · obtain ⟨s, heq, -⟩ := run_some address True file ops fun hnot => absurd trivial hnot
    exact ⟨s, heq⟩
  constructor
  · intro hlives before new hprefix s heq hforgets
    obtain ⟨s₁, heq₁, hs₁⟩ :=
      run_some address True file before fun hnot => absurd trivial hnot
    obtain rfl := Option.some.inj (heq.symm.trans heq₁)
    obtain ⟨s', hread, hmisses⟩ := forgets_misses address new hs₁ hforgets
    refine hmisses (hlives _ hprefix s' ?_)
    rw [run_concat, heq]
    exact hread
  · intro hremembers before hprefix s heq
    obtain ⟨s₁, heq₁, hs₁⟩ := run_some address False file before fun _ b new hb =>
      hremembers b new (hb.trans hprefix)
    obtain rfl := Option.some.inj (heq.symm.trans heq₁)
    exact Good.livesAsUsed hs₁

/-- A temporary X-line outlives the reading of the file, and nothing leads to it any more. -/
theorem lost_xline_kept :
    ¬ ∀ (address : ℕ → CidrLimits.Ip) (file : ConfFile) (ops : List (Op ℕ)) (s : State ℕ),
      run address file ops = some s → LivesAsUsed s := by
  intro hall
  have hrun : ∃ s, run (fun _ : ℕ => CidrLimits.Ip.v4 0) ⟨[], []⟩
      [.ban .xline 3600 true, .rehash (some ⟨[], []⟩)] = some s ∧ s.attached = (fun _ => []) ∧
        (s.confs.cell 0).any (fun conf => !conf.active) = true := ⟨_, rfl, rfl, rfl⟩
  obtain ⟨s, heq, hattached, hoff⟩ := hrun
  cases hconf : s.confs.cell 0 with
  | none =>
    rw [hconf] at hoff
    exact absurd hoff (by simp)
  | some conf =>
    rw [hconf, Option.any_some, Bool.not_eq_true'] at hoff
    obtain ⟨client, hmem⟩ := (hall _ _ _ s heq).confUsed 0 conf hconf hoff
    rw [hattached] at hmem
    exact absurd hmem List.not_mem_nil

end IrcdHybrid.ConfRuns
