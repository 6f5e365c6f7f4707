import IrcdHybrid.DatabaseSave
import Mathlib.Data.List.Perm.Basic

/-!
Saving the five ban databases and loading them on an empty server. Every stored entry comes
back, in the bucket or the list it was in, and is met by the lookups that met it. A loader
puts each entry in front of those before it and hands out new precedences, so the order is
not kept: where several entries match, another of them may be the answer.
-/

namespace IrcdHybrid.BanRoundTrip

open CString Codec Hostmask BanDatabase ResvDatabase BanTables DatabaseSave

/-- A K-line, D-line or G-line, in its bucket. A D-line has no user. -/
structure StoredLine (slot : Slot) (a : Arec) : Prop where
  kind : a.type = .kline ∨ a.type = .dline ∨ a.type = .gline
  type_eq : a.conf.type = a.type
  slot_eq : a.conf.slot = slot
  host : ∃ host, a.conf.host = some host ∧ host ≠ []
  user : a.type = .dline → a.conf.user = none
  name : a.conf.name = none
  user_text : IsText a.conf.user
  host_text : IsText a.conf.host
  reason_text : IsText a.conf.reason
  setat_lt : a.conf.setat < 2 ^ 64
  holdUntil_lt : a.conf.holdUntil < 2 ^ 64

/-- An X-line, or what a RESV has in common with it. -/
structure StoredName (type : MaskitemType) (conf : Conf) : Prop where
  type_eq : conf.type = type
  user : conf.user = none
  host : conf.host = none
  name_text : IsText conf.name
  reason_text : IsText conf.reason
  setat_lt : conf.setat < 2 ^ 64
  holdUntil_lt : conf.holdUntil < 2 ^ 64

/-- As `create_resv` makes it. -/
structure StoredResv (type : MaskitemType) (conf : Conf) : Prop extends StoredName type conf where
  name : ∃ name, conf.name = some name ∧ isChanPrefix name = decide (type = .cresv)
  reason : ∃ reason, conf.reason = some reason ∧ reason.length ≤ reasonlen

def sameName (conf conf' : Conf) : Prop :=
  irccmp (chars (conf.name.getD [])) (chars (conf'.name.getD [])) = 0

/-- Tables whose database entries are as the commands and the loaders make them, and no more of
them than a file can count. -/
structure StoredBans where
  tables : Tables
  line : ∀ slot, ∀ a ∈ tables.atable slot, a.conf.isConfDatabase = true → StoredLine slot a
  xline : ∀ conf ∈ tables.xlines, StoredName .xline conf
  cresv : ∀ conf ∈ tables.cresvItems.filter Conf.isConfDatabase, StoredResv .cresv conf
  nresv : ∀ conf ∈ tables.nresvItems.filter Conf.isConfDatabase, StoredResv .nresv conf
  cresv_distinct : (tables.cresvItems.filter Conf.isConfDatabase).Pairwise
    (fun conf conf' => ¬ sameName conf conf')
  nresv_distinct : (tables.nresvItems.filter Conf.isConfDatabase).Pairwise
    (fun conf conf' => ¬ sameName conf conf')
  few_lines : tables.klines.length + tables.dlines.length + tables.glines.length < 2 ^ 32
  few_xlines : tables.xlines.length < 2 ^ 32
  few_resvs : tables.resvs.length < 2 ^ 32

/-- The start of the server. -/
def loadDatabases (file : Database → List Byte) : Option Tables :=
  (BanTables.loadKlineDatabase (file .kline) Tables.empty).bind fun t =>
  (BanTables.loadDlineDatabase (file .dline) t).bind fun t =>
  (BanTables.loadGlineDatabase (file .gline) t).bind fun t =>
  (BanTables.loadXlineDatabase (file .xline) t).bind fun t =>
  BanTables.loadResvDatabase (file .resv) t

/-- What an entry is, apart from its rank in the table. -/
def entry (a : Arec) : MaskitemType × Conf := (a.type, a.conf)

def stored (as : List Arec) : List Arec := as.filter (fun a => a.conf.isConfDatabase)

/-- Two lists that the lookups by name cannot tell apart, unless several items match. -/
structure SameItems (items items' : List Conf) : Prop where
  perm : items'.Perm items
  matching : ∀ name, (findMatchingNameConf items' name).isSome =
    (findMatchingNameConf items name).isSome

/-- The stored entries of `t`, and nothing else, are in `t'`. -/
structure Restored (t t' : Tables) : Prop where
  lines : (t'.arecs.map entry).Perm ((stored t.arecs).map entry)
  buckets : ∀ slot, ((t'.atable slot).map entry).Perm ((stored (t.atable slot)).map entry)
  met : ∀ crypt q doMatch, ((t'.met crypt q doMatch).map entry).Perm
    ((stored (t.met crypt q doMatch)).map entry)
  answer : ∀ crypt q doMatch,
    (∀ a, t'.findConf crypt q doMatch = some a → a ∈ t'.met crypt q doMatch) ∧
      (t'.findConf crypt q doMatch = none ↔ t'.met crypt q doMatch = [])
  xlines : SameItems t.xlines t'.xconfItems
  cresvs : SameItems (t.cresvItems.filter Conf.isConfDatabase) t'.cresvItems
  nresvs : SameItems (t.nresvItems.filter Conf.isConfDatabase) t'.nresvItems
  channel : ∀ name, findExactNameConf t'.cresvItems name =
    findExactNameConf (t.cresvItems.filter Conf.isConfDatabase) name
  nick : ∀ name, findExactNameConf t'.nresvItems name =
    findExactNameConf (t.nresvItems.filter Conf.isConfDatabase) name

theorem addLines_atable (confs : List Conf) (t : Tables) (type : MaskitemType) (slot : Slot) :
    ((t.addLines type confs).atable slot).map entry =
      ((confs.filter (fun conf => conf.slot = slot)).map (fun conf => (type, conf))).reverse ++
        (t.atable slot).map entry := by
  induction confs generalizing t with
  | nil => rfl
  | cons conf confs ih =>
    show (((t.addConfByAddress type conf).addLines type confs).atable slot).map entry = _
    rw [ih]
    by_cases hslot : conf.slot = slot
    · have hself : ((t.addConfByAddress type conf).atable slot).map entry =
          (type, conf) :: (t.atable slot).map entry := by
        show ((Function.update t.atable conf.slot _ : Slot → List Arec) slot).map entry = _
        rw [hslot, Function.update_self]
        rfl
      rw [hself, List.filter_cons_of_pos (by simpa using hslot), List.map_cons,
        List.reverse_cons, List.append_assoc]
      rfl
    · have hother : (t.addConfByAddress type conf).atable slot = t.atable slot :=
        Function.update_of_ne (Ne.symm hslot) ..
      rw [hother, List.filter_cons_of_neg (by simpa using hslot)]

/-- The counter that hands out precedences runs down by one for each line. -/
theorem addLines_precedence (confs : List Conf) (t : Tables) (type : MaskitemType)
    (hroom : confs.length ≤ t.precValue) (hprec : t.precValue < 2 ^ 32)
    (hpos : ∀ slot, ∀ a ∈ t.atable slot, 0 < a.precedence) :
    (t.addLines type confs).precValue = t.precValue - confs.length ∧
      ∀ slot, ∀ a ∈ (t.addLines type confs).atable slot, 0 < a.precedence := by
  induction confs generalizing t with
  | nil => exact ⟨rfl, hpos⟩
  | cons conf confs ih =>
    rw [List.length_cons] at hroom
    have hdecr : (t.addConfByAddress type conf).precValue = t.precValue - 1 := by
      show (t.precValue + (2 ^ 32 - 1)) % 2 ^ 32 = t.precValue - 1
      omega
    have hnext : ∀ slot, ∀ a ∈ (t.addConfByAddress type conf).atable slot, 0 < a.precedence := by
      intro slot a ha
      change a ∈ (Function.update t.atable conf.slot _ : Slot → List Arec) slot at ha
      by_cases hslot : slot = conf.slot
      · subst hslot
        rw [Function.update_self] at ha
        rcases List.mem_cons.mp ha with rfl | ha
        · show 0 < t.precValue
          omega
        · exact hpos _ a ha
      · rw [Function.update_of_ne hslot] at ha
        exact hpos slot a ha
    obtain ⟨hvalue, hall⟩ := ih (t.addConfByAddress type conf) (by omega) (by omega) hnext
    refine ⟨?_, hall⟩
    show ((t.addConfByAddress type conf).addLines type confs).precValue = _
    rw [hvalue, hdecr, List.length_cons]
    omega

theorem filter_flatMap_slot (slots : List Slot) (bucket : Slot → List Arec) (slot : Slot)
    (hnodup : slots.Nodup) (hmem : slot ∈ slots)
    (hfiled : ∀ s, ∀ a ∈ bucket s, a.conf.slot = s) :
    (slots.flatMap bucket).filter (fun a => a.conf.slot = slot) = bucket slot := by
  have hself : (bucket slot).filter (fun a => a.conf.slot = slot) = bucket slot :=
    List.filter_eq_self.mpr (fun a ha => decide_eq_true (hfiled slot a ha))
  have hother : ∀ s, s ≠ slot → (bucket s).filter (fun a => a.conf.slot = slot) = [] := by
    intro s hs
    apply List.filter_eq_nil_iff.mpr
    intro a ha
    rw [hfiled s a ha]
    simpa using hs
  induction slots with
  | nil => exact absurd hmem (List.not_mem_nil)
  | cons s slots ih =>
    rw [List.flatMap_cons, List.filter_append]
    obtain ⟨hs, hnodup⟩ := List.nodup_cons.mp hnodup
    by_cases heq : s = slot
    · subst heq
      have hnone : (slots.flatMap bucket).filter (fun a => a.conf.slot = s) = [] := by
        rw [List.filter_flatMap]
        apply List.flatMap_eq_nil_iff.mpr
        intro s' hs'
        exact hother s' (fun heq => hs (heq ▸ hs'))
      rw [hself, hnone, List.append_nil]
    · rw [hother s heq, List.nil_append]
      exact ih hnodup ((List.mem_cons.mp hmem).resolve_left (Ne.symm heq))

theorem lines_slot (s : StoredBans) (type : MaskitemType) (slot : Slot) :
    ((s.tables.lines type).filter (fun conf => conf.slot = slot)).map (fun conf => (type, conf)) =
      ((s.tables.atable slot).filter (savedAs type)).map entry := by
  have hfiled : ∀ sl, ∀ a ∈ (s.tables.atable sl).filter (savedAs type), a.conf.slot = sl := by
    intro sl a ha
    obtain ⟨hmem, htest⟩ := List.mem_filter.mp ha
    exact (s.line sl a hmem (Bool.and_eq_true_iff.mp htest).2).slot_eq
  have hflat : s.tables.arecs.filter (savedAs type) =
      (List.finRange atableSize).flatMap
        (fun sl => (s.tables.atable sl).filter (savedAs type)) := List.filter_flatMap
  unfold Tables.lines
  rw [List.filter_map, hflat]
  show ((((List.finRange atableSize).flatMap _).filter
    (fun a : Arec => decide (a.conf.slot = slot))).map _).map _ = _
  rw [filter_flatMap_slot _ _ slot (List.nodup_finRange _) (List.mem_finRange slot) hfiled,
    List.map_map]
  apply List.map_congr_left
  intro a ha
  have htype := of_decide_eq_true (Bool.and_eq_true_iff.mp (List.mem_filter.mp ha).2).1
  show (type, a.conf) = (a.type, a.conf)
  rw [htype]

theorem perm_kinds (as : List Arec)
    (h : ∀ a ∈ as, a.conf.isConfDatabase = true →
      a.type = .kline ∨ a.type = .dline ∨ a.type = .gline) :
    (as.filter (savedAs .gline) ++ (as.filter (savedAs .dline) ++ as.filter (savedAs .kline))).Perm
      (stored as) := by
  induction as with
  | nil => exact List.Perm.refl _
  | cons a as ih =>
    have hrest := ih (fun b hb => h b (List.mem_cons_of_mem _ hb))
    cases hdb : a.conf.isConfDatabase with
    | false =>
      have hnot : ∀ type, savedAs type a = false := by
        intro type
        unfold savedAs
        rw [hdb, Bool.and_false]
      rw [List.filter_cons_of_neg (by simp [hnot]), List.filter_cons_of_neg (by simp [hnot]),
        List.filter_cons_of_neg (by simp [hnot]),
        show stored (a :: as) = stored as from List.filter_cons_of_neg (by simp [hdb])]
      exact hrest
    | true =>
      rw [show stored (a :: as) = a :: stored as from List.filter_cons_of_pos hdb]
      rcases h a (List.mem_cons_self ..) hdb with htype | htype | htype
      · rw [List.filter_cons_of_neg (by simp [savedAs, htype]),
          List.filter_cons_of_neg (by simp [savedAs, htype]),
          List.filter_cons_of_pos (by simp [savedAs, htype, hdb]), ← List.append_assoc]
        refine List.perm_middle.trans (List.Perm.cons a ?_)
        rw [List.append_assoc]
        exact hrest
      · rw [List.filter_cons_of_neg (by simp [savedAs, htype]),
          List.filter_cons_of_pos (by simp [savedAs, htype, hdb]),
          List.filter_cons_of_neg (by simp [savedAs, htype])]
        exact List.perm_middle.trans (List.Perm.cons a hrest)
      · rw [List.filter_cons_of_pos (by simp [savedAs, htype, hdb]),
          List.filter_cons_of_neg (by simp [savedAs, htype]),
          List.filter_cons_of_neg (by simp [savedAs, htype])]
        exact List.Perm.cons a hrest

theorem loadDatabase_save (k : Kind) (saved : Saved k) :
    ∃ items, loadDatabase k (saveDatabase saved.records) = some items ∧
      items.map Fields.record = saved.records := by
  obtain ⟨items, hload, hrecords, -⟩ :=
    (installsComplete_iff k saved (saveDatabase saved.records).length).mpr (Or.inr le_rfl)
  rw [List.take_length] at hload
  refine ⟨items, hload, hrecords.trans ?_⟩
  apply (contained_eq_self_iff recordSize saved.records _).mpr
  rw [length_saveDatabase]
  exact Nat.le_sub_of_add_le' le_rfl

/-- The items a loader makes of the records that a saver wrote are the saved ones. -/
theorem load_confs (k : Kind) (record : Conf → Record) (make : Record → Conf) (confs : List Conf)
    (hvalid : ∀ conf ∈ confs, (record conf).Valid k)
    (hmake : ∀ conf ∈ confs, make (record conf) = conf) (hfew : confs.length < 2 ^ 32) :
    ∃ items, loadDatabase k (saveDatabase (confs.map record)) = some items ∧
      items.map (fun v => make v.record) = confs := by
  have hrecords : ∀ r ∈ confs.map record, r.Valid k := by
    intro r hr
    obtain ⟨conf, hconf, rfl⟩ := List.mem_map.mp hr
    exact hvalid conf hconf
  obtain ⟨items, hload, hitems⟩ :=
    loadDatabase_save k ⟨confs.map record, hrecords, by rwa [List.length_map]⟩
  refine ⟨items, hload, ?_⟩
  have hmap := congrArg (List.map make) hitems
  rw [List.map_map, List.map_map] at hmap
  exact hmap.trans ((List.map_congr_left hmake).trans (List.map_id _))

theorem exists_line (s : StoredBans) (type : MaskitemType) (conf : Conf)
    (h : conf ∈ s.tables.lines type) :
    ∃ slot a, StoredLine slot a ∧ a.type = type ∧ a.conf = conf ∧ conf.isConfDatabase = true := by
  obtain ⟨a, ha, rfl⟩ := List.mem_map.mp h
  obtain ⟨hmem, htest⟩ := List.mem_filter.mp ha
  obtain ⟨slot, -, hslot⟩ := List.mem_flatMap.mp hmem
  obtain ⟨htype, hdb⟩ := Bool.and_eq_true_iff.mp htest
  exact ⟨slot, a, s.line slot a hslot hdb, of_decide_eq_true htype, rfl, hdb⟩

theorem hasHost_of_some (k : Kind) (i : ℕ) (strings : List (Option (List Byte)))
    (hk : k.host = some i) (h : ∃ host, (strings[i]?).join = some host ∧ host ≠ []) :
    hasHost k strings = true := by
  obtain ⟨host, hsome, hne⟩ := h
  unfold hasHost
  rw [hk]
  show (strings[i]?).join.any (fun host => !host.isEmpty) = true
  rw [hsome]
  show (!host.isEmpty) = true
  cases host with
  | nil => exact absurd rfl hne
  | cons c host => rfl

theorem valid_userHostReason (slot : Slot) (a : Arec) (h : StoredLine slot a) (k : Kind)
    (hk : k = ⟨3, some 1⟩) : a.conf.userHostReason.Valid k := by
  subst hk
  refine ⟨rfl, ?_, hasHost_of_some _ 1 _ rfl h.host, h.setat_lt, h.holdUntil_lt⟩
  intro text htext
  change text ∈ [a.conf.user, a.conf.host, a.conf.reason] at htext
  simp only [List.mem_cons, List.not_mem_nil, or_false] at htext
  rcases htext with rfl | rfl | rfl
  · exact h.user_text
  · exact h.host_text
  · exact h.reason_text

theorem valid_hostReason (slot : Slot) (a : Arec) (h : StoredLine slot a) :
    a.conf.hostReason.Valid dline := by
  refine ⟨rfl, ?_, hasHost_of_some _ 0 _ rfl h.host, h.setat_lt, h.holdUntil_lt⟩
  intro text htext
  change text ∈ [a.conf.host, a.conf.reason] at htext
  simp only [List.mem_cons, List.not_mem_nil, or_false] at htext
  rcases htext with rfl | rfl
  · exact h.host_text
  · exact h.reason_text

theorem valid_nameReason (type : MaskitemType) (conf : Conf) (h : StoredName type conf) :
    conf.nameReason.Valid xline := by
  refine ⟨rfl, ?_, rfl, h.setat_lt, h.holdUntil_lt⟩
  intro text htext
  change text ∈ [conf.name, conf.reason] at htext
  simp only [List.mem_cons, List.not_mem_nil, or_false] at htext
  rcases htext with rfl | rfl
  · exact h.name_text
  · exact h.reason_text

theorem load_lines (s : StoredBans) (k : Kind) (type : MaskitemType) (hk : k = ⟨3, some 1⟩)
    (hfew : (s.tables.lines type).length < 2 ^ 32) :
    ∃ items, loadDatabase k
        (saveDatabase ((s.tables.lines type).map Conf.userHostReason)) = some items ∧
      items.map (fun v => lineConf type v.record) = s.tables.lines type := by
  apply load_confs k Conf.userHostReason (lineConf type) (s.tables.lines type) _ _ hfew
  · intro conf hconf
    obtain ⟨slot, a, hline, -, rfl, -⟩ := exists_line s type conf hconf
    exact valid_userHostReason slot a hline k hk
  · intro conf hconf
    obtain ⟨slot, a, hline, htype, rfl, hdb⟩ := exists_line s type conf hconf
    have hname := hline.name
    have hconftype := hline.type_eq.trans htype
    obtain ⟨_, conf, _⟩ := a
    cases conf
    dsimp only at hname hconftype hdb
    subst hname hconftype hdb
    rfl

theorem loadKlineDatabase_contents (s : StoredBans) (t : Tables) :
    BanTables.loadKlineDatabase (Database.kline.contents s.tables) t =
      some (t.addLines .kline s.tables.klines) := by
  have hfew := s.few_lines
  obtain ⟨items, hload, hitems⟩ := load_lines s kline .kline rfl
    (show s.tables.klines.length < _ by omega)
  exact Option.map_eq_some_iff.mpr ⟨items, hload, congrArg (t.addLines .kline) hitems⟩

theorem loadGlineDatabase_contents (s : StoredBans) (t : Tables) :
    BanTables.loadGlineDatabase (Database.gline.contents s.tables) t =
      some (t.addLines .gline s.tables.glines) := by
  have hfew := s.few_lines
  obtain ⟨items, hload, hitems⟩ := load_lines s gline .gline rfl
    (show s.tables.glines.length < _ by omega)
  exact Option.map_eq_some_iff.mpr ⟨items, hload, congrArg (t.addLines .gline) hitems⟩

theorem loadDlineDatabase_contents (s : StoredBans) (t : Tables) :
    BanTables.loadDlineDatabase (Database.dline.contents s.tables) t =
      some (t.addLines .dline s.tables.dlines) := by
  have hfew := s.few_lines
  have hvalid : ∀ conf ∈ s.tables.dlines, conf.hostReason.Valid dline := by
    intro conf hconf
    obtain ⟨slot, a, hline, -, rfl, -⟩ := exists_line s .dline conf hconf
    exact valid_hostReason slot a hline
  have hmake : ∀ conf ∈ s.tables.dlines, dlineConf conf.hostReason = conf := by
    intro conf hconf
    obtain ⟨slot, a, hline, htype, rfl, hdb⟩ := exists_line s .dline conf hconf
    have hname := hline.name
    have huser := hline.user htype
    have hconftype := hline.type_eq.trans htype
    obtain ⟨_, conf, _⟩ := a
    cases conf
    dsimp only at hname huser hconftype hdb
    subst hname huser hconftype hdb
    rfl
  obtain ⟨items, hload, hitems⟩ := load_confs dline _ dlineConf s.tables.dlines hvalid hmake
    (by omega)
  exact Option.map_eq_some_iff.mpr ⟨items, hload, congrArg (t.addLines .dline) hitems⟩

theorem loadXlineDatabase_contents (s : StoredBans) (t : Tables) :
    BanTables.loadXlineDatabase (Database.xline.contents s.tables) t =
      some (t.addXlines s.tables.xlines) := by
  have hmake : ∀ conf ∈ s.tables.xlines, xlineConf conf.nameReason = conf := by
    intro conf hconf
    have hline := s.xline conf hconf
    have htype := hline.type_eq
    have huser := hline.user
    have hhost := hline.host
    have hdb : conf.isConfDatabase = true := (List.mem_filter.mp hconf).2
    cases conf
    dsimp only at htype huser hhost hdb
    subst htype huser hhost hdb
    rfl
  obtain ⟨items, hload, hitems⟩ := load_confs xline _ xlineConf s.tables.xlines
    (fun conf hconf => valid_nameReason .xline conf (s.xline conf hconf)) hmake s.few_xlines
  exact Option.map_eq_some_iff.mpr ⟨items, hload, congrArg t.addXlines hitems⟩

/-- What `create_resv` and the loader make of a record. -/
def madeResv (r : ResvRecord) : Resv := ⟨r.name, r.reason, r.setat, r.holdUntil, true⟩

def recordConf (r : ResvRecord) : Conf :=
  resvConf (if isChanPrefix r.name then .cresv else .nresv) (madeResv r)

theorem exists_resvRecord (type : MaskitemType) (htype : type = .cresv ∨ type = .nresv)
    (confs : List Conf) (hdb : ∀ conf ∈ confs, conf.isConfDatabase = true)
    (h : ∀ conf ∈ confs, StoredResv type conf) :
    ∃ rs : List ResvRecord, rs.map ResvRecord.record = confs.map Conf.nameReason ∧
      rs.map recordConf = confs ∧
      ∀ r ∈ rs, isChanPrefix r.name = decide (type = .cresv) ∧ r.reason.length ≤ reasonlen := by
  induction confs with
  | nil => exact ⟨[], rfl, rfl, fun r hr => absurd hr (List.not_mem_nil)⟩
  | cons conf confs ih =>
    obtain ⟨rs, hrecords, hconfs, hall⟩ := ih
      (fun conf hconf => hdb conf (List.mem_cons_of_mem _ hconf))
      (fun conf hconf => h conf (List.mem_cons_of_mem _ hconf))
    have hresv := h conf (List.mem_cons_self ..)
    have hconfdb := hdb conf (List.mem_cons_self ..)
    obtain ⟨name, hname, hchan⟩ := hresv.name
    obtain ⟨reason, hreason, hlen⟩ := hresv.reason
    have hrecord : recordConf ⟨name, reason, conf.setat, conf.holdUntil,
        hname ▸ hresv.name_text, hreason ▸ hresv.reason_text, hresv.setat_lt,
        hresv.holdUntil_lt⟩ = conf := by
      have hconftype := hresv.type_eq
      have huser := hresv.user
      have hhost := hresv.host
      have hif : (if isChanPrefix name then MaskitemType.cresv else .nresv) = type := by
        rw [hchan]
        rcases htype with rfl | rfl
        · rfl
        · rfl
      unfold recordConf madeResv resvConf
      dsimp only
      rw [hif]
      cases conf
      dsimp only at hname hreason hconftype huser hhost hconfdb
      subst hname hreason hconftype huser hhost hconfdb
      rfl
    refine ⟨⟨name, reason, conf.setat, conf.holdUntil, hname ▸ hresv.name_text,
      hreason ▸ hresv.reason_text, hresv.setat_lt, hresv.holdUntil_lt⟩ :: rs, ?_, ?_, ?_⟩
    · have hnamed : conf.nameReason =
          ⟨[some name, some reason], conf.setat, conf.holdUntil⟩ := by
        unfold Conf.nameReason
        rw [hname, hreason]
      rw [List.map_cons, List.map_cons, hrecords, hnamed]
      rfl
    · rw [List.map_cons, hrecord, hconfs]
    · intro r hr
      rcases List.mem_cons.mp hr with rfl | hr
      · exact ⟨hchan, hlen⟩
      · exact hall r hr

def takes (name name' : List Byte) : Prop :=
  isChanPrefix name = isChanPrefix name' ∧ irccmp (chars name) (chars name') = 0

theorem reserved_add (l : Resvs) (conf : Resv) (name : List Byte)
    (h : reserved l name = false) (hnot : ¬ takes conf.name name) :
    reserved (l.add conf) name = false := by
  unfold takes at hnot
  unfold reserved Resvs.listOf at h ⊢
  unfold Resvs.add
  by_cases hname : isChanPrefix name = true
  · rw [if_pos hname] at h ⊢
    by_cases hconf : isChanPrefix conf.name = true
    · rw [if_pos hconf, List.any_cons, h, Bool.or_false]
      have hne : irccmp (chars conf.name) (chars name) ≠ 0 :=
        fun heq => hnot ⟨hconf.trans hname.symm, heq⟩
      rw [beq_eq_false_iff_ne.mpr hne, Bool.and_false]
    · rw [if_neg hconf]
      exact h
  · rw [if_neg hname] at h ⊢
    by_cases hconf : isChanPrefix conf.name = true
    · rw [if_pos hconf]
      exact h
    · rw [if_neg hconf, List.any_cons, h, Bool.or_false]
      have hne : irccmp (chars conf.name) (chars name) ≠ 0 := by
        intro heq
        rw [Bool.not_eq_true] at hname hconf
        exact hnot ⟨hconf.trans hname.symm, heq⟩
      rw [beq_eq_false_iff_ne.mpr hne, Bool.and_false]

theorem foldl_install (rs : List ResvRecord) (l : Resvs)
    (hreason : ∀ r ∈ rs, r.reason.length ≤ reasonlen)
    (hdistinct : rs.Pairwise (fun r r' => ¬ takes r.name r'.name))
    (hfree : ∀ r ∈ rs, reserved l r.name = false) :
    rs.foldl install l =
      ⟨((rs.filter (fun r => isChanPrefix r.name)).map madeResv).reverse ++ l.cresv,
        ((rs.filter (fun r => !isChanPrefix r.name)).map madeResv).reverse ++ l.nresv⟩ := by
  induction rs generalizing l with
  | nil => rfl
  | cons r rs ih =>
    obtain ⟨hr, hdistinct⟩ := List.pairwise_cons.mp hdistinct
    have hlen := hreason r (List.mem_cons_self ..)
    have hinstall : install l r = l.add (madeResv r) := by
      unfold install madeResv
      rw [hfree r (List.mem_cons_self ..), if_neg (by decide), Nat.min_eq_left hlen,
        List.take_length]
    have hfree' : ∀ r' ∈ rs, reserved (l.add (madeResv r)) r'.name = false :=
      fun r' hr' => reserved_add l _ _ (hfree r' (List.mem_cons_of_mem _ hr')) (hr r' hr')
    rw [List.foldl_cons, hinstall,
      ih _ (fun r' hr' => hreason r' (List.mem_cons_of_mem _ hr')) hdistinct hfree']
    unfold Resvs.add
    by_cases hchan : isChanPrefix r.name = true
    · rw [if_pos (show isChanPrefix (madeResv r).name = true from hchan),
        List.filter_cons_of_pos (by simpa using hchan),
        List.filter_cons_of_neg (by simp [hchan]), List.map_cons,
        List.reverse_cons, List.append_assoc]
      rfl
    · rw [if_neg (show ¬ isChanPrefix (madeResv r).name = true from hchan),
        List.filter_cons_of_neg (by simpa using hchan),
        List.filter_cons_of_pos (by simp [hchan]), List.map_cons,
        List.reverse_cons, List.append_assoc]
      rfl

theorem loadResvDatabase_save (rs : List ResvRecord) (hfew : rs.length < 2 ^ 32)
    (hreason : ∀ r ∈ rs, r.reason.length ≤ reasonlen)
    (hdistinct : rs.Pairwise (fun r r' => ¬ takes r.name r'.name)) :
    ResvDatabase.loadResvDatabase (saveDatabase (rs.map ResvRecord.record)) ⟨[], []⟩ =
      some ⟨((rs.filter (fun r => isChanPrefix r.name)).map madeResv).reverse,
        ((rs.filter (fun r => !isChanPrefix r.name)).map madeResv).reverse⟩ := by
  have hwhole := (resvsInstalled_iff ⟨[], []⟩ ⟨rs, hfew⟩
    (ResvDatabase.saveResvDatabase rs).length).mpr (Or.inr (Or.inl le_rfl))
  have hall : contained resvSize rs ((ResvDatabase.saveResvDatabase rs).length - 8) = rs := by
    apply (contained_eq_self_iff resvSize rs _).mpr
    rw [length_saveResvDatabase]
    exact Nat.le_sub_of_add_le' le_rfl
  have hfree : ∀ r ∈ rs, reserved ⟨[], []⟩ r.name = false := by
    intro r _
    unfold reserved Resvs.listOf
    split
    · rfl
    · rfl
  unfold ResvDatabase.InstallsComplete at hwhole
  rw [List.take_length, hall, foldl_install rs _ hreason hdistinct hfree, List.append_nil,
    List.append_nil] at hwhole
  exact hwhole

/-- Two RESVs of one list with distinct names do not take each other's name. -/
theorem pairwise_takes (rs : List ResvRecord) (confs : List Conf) (h : rs.map recordConf = confs)
    (hdistinct : confs.Pairwise (fun conf conf' => ¬ sameName conf conf')) :
    rs.Pairwise (fun r r' => ¬ takes r.name r'.name) := by
  subst h
  rw [List.pairwise_map] at hdistinct
  exact hdistinct.imp (fun hne htakes => hne htakes.2)

theorem loadResvDatabase_contents (s : StoredBans) (t : Tables) (hc : t.cresvItems = [])
    (hn : t.nresvItems = []) :
    BanTables.loadResvDatabase (Database.resv.contents s.tables) t =
      some { t with
        cresvItems := (s.tables.cresvItems.filter Conf.isConfDatabase).reverse
        nresvItems := (s.tables.nresvItems.filter Conf.isConfDatabase).reverse } := by
  obtain ⟨cs, hcrecords, hcconfs, hcall⟩ := exists_resvRecord .cresv (Or.inl rfl)
    (s.tables.cresvItems.filter Conf.isConfDatabase)
    (fun conf hconf => (List.mem_filter.mp hconf).2) s.cresv
  obtain ⟨ns, hnrecords, hnconfs, hnall⟩ := exists_resvRecord .nresv (Or.inr rfl)
    (s.tables.nresvItems.filter Conf.isConfDatabase)
    (fun conf hconf => (List.mem_filter.mp hconf).2) s.nresv
  have hcchan : ∀ r ∈ cs, isChanPrefix r.name = true := fun r hr => (hcall r hr).1
  have hnchan : ∀ r ∈ ns, isChanPrefix r.name = false := fun r hr => (hnall r hr).1
  have hbytes : Database.resv.contents s.tables =
      saveDatabase ((cs ++ ns).map ResvRecord.record) := by
    show saveDatabase (s.tables.resvs.map Conf.nameReason) = _
    unfold Tables.resvs
    rw [List.map_append, List.map_append, hcrecords, hnrecords]
  have hfew : (cs ++ ns).length < 2 ^ 32 := by
    have hlen := s.few_resvs
    unfold Tables.resvs at hlen
    rw [← hcconfs, ← hnconfs, List.length_append, List.length_map, List.length_map] at hlen
    rwa [List.length_append]
  have hreason : ∀ r ∈ cs ++ ns, r.reason.length ≤ reasonlen := by
    intro r hr
    rcases List.mem_append.mp hr with hr | hr
    · exact (hcall r hr).2
    · exact (hnall r hr).2
  have hdistinct : (cs ++ ns).Pairwise (fun r r' => ¬ takes r.name r'.name) := by
    refine List.pairwise_append.mpr ⟨pairwise_takes cs _ hcconfs s.cresv_distinct,
      pairwise_takes ns _ hnconfs s.nresv_distinct, ?_⟩
    intro c hcmem n hnmem htakes
    have hchan := htakes.1
    rw [hcchan c hcmem, hnchan n hnmem] at hchan
    exact absurd hchan (by decide)
  have hfilter : (cs ++ ns).filter (fun r => isChanPrefix r.name) = cs ∧
      (cs ++ ns).filter (fun r => !isChanPrefix r.name) = ns := by
    have hcs : cs.filter (fun r => isChanPrefix r.name) = cs := List.filter_eq_self.mpr hcchan
    have hns : ns.filter (fun r => isChanPrefix r.name) = [] :=
      List.filter_eq_nil_iff.mpr (fun r hr => by rw [hnchan r hr]; decide)
    have hcs' : cs.filter (fun r => !isChanPrefix r.name) = [] :=
      List.filter_eq_nil_iff.mpr (fun r hr => by rw [hcchan r hr]; decide)
    have hns' : ns.filter (fun r => !isChanPrefix r.name) = ns :=
      List.filter_eq_self.mpr (fun r hr => by rw [hnchan r hr]; rfl)
    rw [List.filter_append, List.filter_append, hcs, hns, hcs', hns', List.append_nil,
      List.nil_append]
    exact ⟨rfl, rfl⟩
  have hload := loadResvDatabase_save (cs ++ ns) hfew hreason hdistinct
  have hcmade : cs.map (fun r => resvConf .cresv (madeResv r)) = cs.map recordConf := by
    apply List.map_congr_left
    intro r hr
    unfold recordConf
    rw [hcchan r hr]
    rfl
  have hnmade : ns.map (fun r => resvConf .nresv (madeResv r)) = ns.map recordConf := by
    apply List.map_congr_left
    intro r hr
    unfold recordConf
    rw [hnchan r hr]
    rfl
  unfold BanTables.loadResvDatabase
  rw [hc, hn, hbytes, List.map_nil, hload, hfilter.1, hfilter.2, ← hcconfs, ← hnconfs,
    Option.map_some, ← hcmade, ← hnmade, List.map_reverse, List.map_map, List.map_reverse,
    List.map_map]
  rfl

def reloaded (t : Tables) : Tables :=
  { (((Tables.empty.addLines .kline t.klines).addLines .dline t.dlines).addLines
      .gline t.glines).addXlines t.xlines with
    cresvItems := (t.cresvItems.filter Conf.isConfDatabase).reverse
    nresvItems := (t.nresvItems.filter Conf.isConfDatabase).reverse }

theorem addLines_items (confs : List Conf) (t : Tables) (type : MaskitemType) :
    (t.addLines type confs).xconfItems = t.xconfItems ∧
      (t.addLines type confs).cresvItems = t.cresvItems ∧
      (t.addLines type confs).nresvItems = t.nresvItems := by
  induction confs generalizing t with
  | nil => exact ⟨rfl, rfl, rfl⟩
  | cons conf confs ih => exact ih (t.addConfByAddress type conf)

theorem addXlines_eq (confs : List Conf) (t : Tables) :
    t.addXlines confs = { t with xconfItems := confs.reverse ++ t.xconfItems } := by
  induction confs generalizing t with
  | nil => rfl
  | cons conf confs ih =>
    show Tables.addXlines { t with xconfItems := conf :: t.xconfItems } confs = _
    rw [ih, List.reverse_cons, List.append_assoc]
    rfl

theorem loadDatabases_contents (s : StoredBans) :
    loadDatabases (fun db => db.contents s.tables) = some (reloaded s.tables) := by
  have hk := addLines_items s.tables.klines Tables.empty .kline
  have hd := addLines_items s.tables.dlines (Tables.empty.addLines .kline s.tables.klines) .dline
  have hg := addLines_items s.tables.glines
    ((Tables.empty.addLines .kline s.tables.klines).addLines .dline s.tables.dlines) .gline
  unfold loadDatabases
  rw [loadKlineDatabase_contents, Option.bind_some, loadDlineDatabase_contents, Option.bind_some,
    loadGlineDatabase_contents, Option.bind_some, loadXlineDatabase_contents, Option.bind_some]
  apply loadResvDatabase_contents
  · rw [addXlines_eq]
    dsimp only
    rw [hg.2.1, hd.2.1, hk.2.1]
    rfl
  · rw [addXlines_eq]
    dsimp only
    rw [hg.2.2, hd.2.2, hk.2.2]
    rfl

theorem reloaded_atable (t : Tables) :
    (reloaded t).atable = (((Tables.empty.addLines .kline t.klines).addLines
      .dline t.dlines).addLines .gline t.glines).atable := by
  unfold reloaded
  rw [addXlines_eq]

theorem reloaded_xconfItems (t : Tables) : (reloaded t).xconfItems = t.xlines.reverse := by
  unfold reloaded
  rw [addXlines_eq]
  show t.xlines.reverse ++ _ = _
  rw [(addLines_items ..).1, (addLines_items ..).1, (addLines_items ..).1]
  exact List.append_nil _

theorem buckets_perm (s : StoredBans) (slot : Slot) :
    (((reloaded s.tables).atable slot).map entry).Perm
      ((stored (s.tables.atable slot)).map entry) := by
  have hkind := perm_kinds (s.tables.atable slot)
    (fun a ha hdb => (s.line slot a ha hdb).kind)
  have hrev : ∀ type, ((s.tables.lines type).filter (fun conf => conf.slot = slot)).map
      (fun conf => (type, conf)) = ((s.tables.atable slot).filter (savedAs type)).map entry :=
    fun type => lines_slot s type slot
  rw [reloaded_atable, addLines_atable, addLines_atable, addLines_atable]
  unfold Tables.klines Tables.dlines Tables.glines
  rw [hrev .kline, hrev .dline, hrev .gline]
  refine List.Perm.trans ?_ (hkind.map entry)
  rw [List.map_append, List.map_append]
  refine (List.reverse_perm _).append ((List.reverse_perm _).append ?_)
  rw [show (Tables.empty.atable slot).map entry = [] from rfl, List.append_nil]
  exact List.reverse_perm _

/-- What a walk over some buckets accepts, when it does not ask for the precedence. -/
theorem met_perm (t t' : Tables) (test : Arec → Bool) (test' : MaskitemType × Conf → Bool)
    (htest : ∀ a, test a = test' (entry a)) (slots : List Slot)
    (hperm : ∀ slot, ((t'.atable slot).map entry).Perm ((stored (t.atable slot)).map entry)) :
    (((slots.flatMap t'.atable).filter test).map entry).Perm
      ((stored ((slots.flatMap t.atable).filter test)).map entry) := by
  have hfilter : ∀ as : List Arec, (as.filter test).map entry = (as.map entry).filter test' := by
    intro as
    rw [List.filter_map]
    exact congrArg (List.map entry) (List.filter_congr (fun a _ => htest a))
  have hcomm : stored ((slots.flatMap t.atable).filter test) =
      (stored (slots.flatMap t.atable)).filter test := by
    unfold stored
    rw [List.filter_filter, List.filter_filter]
    exact List.filter_congr (fun a _ => Bool.and_comm _ _)
  have hstored : stored (slots.flatMap t.atable) =
      slots.flatMap (fun slot => stored (t.atable slot)) := List.filter_flatMap
  rw [hcomm, hfilter, hfilter, hstored, List.map_flatMap, List.map_flatMap]
  exact (List.Perm.flatMap_left slots (fun slot _ => hperm slot)).filter test'

theorem perm_met (s : StoredBans) (crypt : CStr → CStr → Option CStr) (q : Query)
    (doMatch : Bool) :
    (((reloaded s.tables).met crypt q doMatch).map entry).Perm
      ((stored (s.tables.met crypt q doMatch)).map entry) := by
  have hperm := buckets_perm s
  have hname : (((reloaded s.tables).metByName crypt q doMatch).map entry).Perm
      ((stored (s.tables.metByName crypt q doMatch)).map entry) := by
    unfold Tables.metByName
    cases q.name with
    | none => exact List.Perm.refl _
    | some name =>
      exact met_perm s.tables (reloaded s.tables) _
        (fun e => hostTest crypt q doMatch name (Arec.addressRec ⟨e.1, e.2, 0⟩))
        (fun a => rfl) _ hperm
  have haddr : (((reloaded s.tables).metByAddr crypt q doMatch).map entry).Perm
      ((stored (s.tables.metByAddr crypt q doMatch)).map entry) := by
    obtain ⟨name, addr, type, fam, username, password⟩ := q
    cases addr with
    | none => exact List.Perm.refl _
    | some addr =>
      cases fam with
      | inet =>
        exact met_perm s.tables (reloaded s.tables) _
          (fun e => ipv4Test crypt _ doMatch addr (Arec.addressRec ⟨e.1, e.2, 0⟩))
          (fun a => rfl) _ hperm
      | inet6 =>
        exact met_perm s.tables (reloaded s.tables) _
          (fun e => ipv6Test crypt _ doMatch addr (Arec.addressRec ⟨e.1, e.2, 0⟩))
          (fun a => rfl) _ hperm
      | other => exact List.Perm.refl _
  unfold Tables.met stored
  rw [List.map_append, List.filter_append, List.map_append]
  exact haddr.append hname

theorem reloaded_precedence (s : StoredBans) (slot : Slot) :
    ∀ a ∈ (reloaded s.tables).atable slot, 0 < a.precedence := by
  have hfew := s.few_lines
  have hempty : Tables.empty.precValue = 2 ^ 32 - 1 := rfl
  obtain ⟨hk, hkpos⟩ := addLines_precedence s.tables.klines Tables.empty .kline (by omega) (by omega)
    (fun _ a ha => absurd ha (List.not_mem_nil))
  obtain ⟨hd, hdpos⟩ := addLines_precedence s.tables.dlines _ .dline (by omega) (by omega) hkpos
  obtain ⟨-, hgpos⟩ := addLines_precedence s.tables.glines _ .gline (by omega) (by omega) hdpos
  rw [reloaded_atable]
  exact hgpos slot

theorem mem_met (t : Tables) (crypt : CStr → CStr → Option CStr) (q : Query) (doMatch : Bool)
    (a : Arec) (h : a ∈ t.met crypt q doMatch) : ∃ slot, a ∈ t.atable slot := by
  have hwalk : ∀ (test : Arec → Bool) (slots : List Slot),
      a ∈ (slots.flatMap t.atable).filter test → ∃ slot, a ∈ t.atable slot := by
    intro test slots ha
    obtain ⟨slot, -, hmem⟩ := List.mem_flatMap.mp (List.mem_filter.mp ha).1
    exact ⟨slot, hmem⟩
  rcases List.mem_append.mp h with ha | ha
  · unfold Tables.metByAddr at ha
    split at ha
    · exact hwalk _ _ ha
    · exact hwalk _ _ ha
    · exact absurd ha (List.not_mem_nil)
  · unfold Tables.metByName at ha
    split at ha
    · exact hwalk _ _ ha
    · exact absurd ha (List.not_mem_nil)

theorem sameItems_of_perm (items items' : List Conf) (h : items'.Perm items) :
    SameItems items items' := by
  refine ⟨h, ?_⟩
  intro name
  unfold findMatchingNameConf
  rw [Bool.eq_iff_iff, List.find?_isSome, List.find?_isSome]
  constructor
  · rintro ⟨conf, hmem, htest⟩
    exact ⟨conf, h.mem_iff.mp hmem, htest⟩
  · rintro ⟨conf, hmem, htest⟩
    exact ⟨conf, h.mem_iff.mpr hmem, htest⟩

theorem find_of_perm {items items' : List Conf} (test : Conf → Bool) (h : items'.Perm items)
    (hunique : ∀ a ∈ items, ∀ b ∈ items, test a = true → test b = true → a = b) :
    items'.find? test = items.find? test := by
  cases hfind : items.find? test with
  | none =>
    apply List.find?_eq_none.mpr
    intro conf hconf
    exact List.find?_eq_none.mp hfind conf (h.mem_iff.mp hconf)
  | some a =>
    have ha := List.mem_of_find?_eq_some hfind
    have hta := List.find?_some hfind
    cases hfind' : items'.find? test with
    | none => exact absurd hta (List.find?_eq_none.mp hfind' a (h.mem_iff.mpr ha))
    | some b =>
      have hb := h.mem_iff.mp (List.mem_of_find?_eq_some hfind')
      rw [hunique a ha b hb hta (List.find?_some hfind')]

theorem findExactNameConf_perm {items items' : List Conf} (h : items'.Perm items)
    (hdistinct : items.Pairwise (fun conf conf' => ¬ sameName conf conf')) (name : CStr) :
    findExactNameConf items' name = findExactNameConf items name := by
  apply find_of_perm _ h
  intro a ha b hb hta htb
  by_contra hne
  have hsymm : Std.Symm (fun conf conf' : Conf => ¬ sameName conf conf') :=
    ⟨fun conf conf' hnot hsame => hnot ((irccmp_comm_zero _ _).mp hsame)⟩
  apply hdistinct.forall ha hb hne
  have hown : ∀ conf : Conf, isNamed irccmp name conf = true →
      irccmp (chars (conf.name.getD [])) name = 0 := by
    intro conf htest
    obtain ⟨own, hsome, htest⟩ := (Option.any_eq_true _ _).mp htest
    rw [hsome]
    exact beq_iff_eq.mp (Bool.and_eq_true_iff.mp htest).2
  exact irccmp_trans_zero _ name _ (hown a hta) ((irccmp_comm_zero _ _).mp (hown b htb))

/-- Saving the five databases and loading them on an empty server. -/
theorem databases_round_trip (s : StoredBans) :
    ∃ t, loadDatabases (fun db => db.contents s.tables) = some t ∧ Restored s.tables t := by
  have hcperm := List.reverse_perm (s.tables.cresvItems.filter Conf.isConfDatabase)
  have hnperm := List.reverse_perm (s.tables.nresvItems.filter Conf.isConfDatabase)
  refine ⟨_, loadDatabases_contents s, ?_, buckets_perm s, perm_met s, ?_, ?_,
    sameItems_of_perm _ _ hcperm, sameItems_of_perm _ _ hnperm,
    findExactNameConf_perm hcperm s.cresv_distinct,
    findExactNameConf_perm hnperm s.nresv_distinct⟩
  · have hstored : stored s.tables.arecs =
        (List.finRange atableSize).flatMap (fun slot => stored (s.tables.atable slot)) :=
      List.filter_flatMap
    rw [hstored]
    unfold Tables.arecs
    rw [List.map_flatMap, List.map_flatMap]
    exact List.Perm.flatMap_left _ (fun slot _ => buckets_perm s slot)
  · intro crypt q doMatch
    apply findConf_spec
    intro a ha
    obtain ⟨slot, hmem⟩ := mem_met _ crypt q doMatch a ha
    exact reloaded_precedence s slot a hmem
  · rw [reloaded_xconfItems]
    exact sameItems_of_perm _ _ (List.reverse_perm _)

def textOf (s : String) : Option (List Byte) := some (bytesOf s.toList)

def joeKline : Conf := ⟨.kline, textOf "joe", textOf "*.net", none, textOf "x", 1, 2, true⟩

def netKline : Conf := ⟨.kline, textOf "*", textOf "*.net", none, textOf "y", 3, 4, true⟩

/-- The newer one stands in front, with the lower precedence. -/
def twoKlines : List Arec := [⟨.kline, netKline, 0xFFFFFFFE⟩, ⟨.kline, joeKline, 0xFFFFFFFF⟩]

def twoKlineTables : Tables :=
  ⟨Function.update (fun _ => []) netKline.slot twoKlines, 0xFFFFFFFD, [], [], []⟩

def joeQuery : Query := ⟨some "x.net".toList, none, .kline, .inet, some "joe".toList, none⟩

theorem arecs_single (slot : Slot) (as : List Arec) (precValue : ℕ) (xs cs ns : List Conf) :
    Tables.arecs ⟨Function.update (fun _ => []) slot as, precValue, xs, cs, ns⟩ = as := by
  have hwalk : ∀ slots : List Slot, slots.Nodup → slot ∈ slots →
      slots.flatMap (Function.update (fun _ => []) slot as) = as := by
    intro slots hnodup hmem
    induction slots with
    | nil => exact absurd hmem (List.not_mem_nil)
    | cons s slots ih =>
      obtain ⟨hs, hnodup⟩ := List.nodup_cons.mp hnodup
      rw [List.flatMap_cons]
      by_cases heq : s = slot
      · subst heq
        rw [Function.update_self, List.flatMap_eq_nil_iff.mpr, List.append_nil]
        intro s' hs'
        exact Function.update_of_ne (fun heq : s' = s => hs (heq ▸ hs')) ..
      · rw [Function.update_of_ne heq, List.nil_append]
        exact ih hnodup ((List.mem_cons.mp hmem).resolve_left (Ne.symm heq))
  exact hwalk _ (List.nodup_finRange _) (List.mem_finRange slot)

theorem twoKlineTables_lines (type : MaskitemType) :
    twoKlineTables.lines type = (twoKlines.filter (savedAs type)).map Arec.conf := by
  unfold Tables.lines twoKlineTables
  rw [arecs_single]

theorem storedLine_twoKlines (a : Arec) (h : a ∈ twoKlines) : StoredLine netKline.slot a := by
  have hbytes : ∀ s : String, (0 ∉ bytesOf s.toList ∧ (bytesOf s.toList).length < 2 ^ 32 - 1) →
      IsText (textOf s) := fun s hs => hs
  rcases List.mem_cons.mp h with rfl | h
  · exact ⟨Or.inl rfl, rfl, rfl, ⟨_, rfl, by decide⟩, by simp, rfl, hbytes _ (by decide),
      hbytes _ (by decide), hbytes _ (by decide), by decide, by decide⟩
  · obtain rfl := List.mem_singleton.mp h
    exact ⟨Or.inl rfl, rfl, rfl, ⟨_, rfl, by decide⟩, by simp, rfl, hbytes _ (by decide),
      hbytes _ (by decide), hbytes _ (by decide), by decide, by decide⟩

def twoKlineBans : StoredBans where
  tables := twoKlineTables
  line := by
    intro slot a ha _
    change a ∈ (Function.update (fun _ => []) netKline.slot twoKlines : Slot → List Arec) slot at ha
    by_cases hslot : slot = netKline.slot
    · subst hslot
      rw [Function.update_self] at ha
      exact storedLine_twoKlines a ha
    · rw [Function.update_of_ne hslot] at ha
      exact absurd ha (List.not_mem_nil)
  xline := fun conf hconf => absurd hconf (List.not_mem_nil)
  cresv := fun conf hconf => absurd hconf (List.not_mem_nil)
  nresv := fun conf hconf => absurd hconf (List.not_mem_nil)
  cresv_distinct := List.Pairwise.nil
  nresv_distinct := List.Pairwise.nil
  few_lines := by
    unfold Tables.klines Tables.dlines Tables.glines
    rw [twoKlineTables_lines, twoKlineTables_lines, twoKlineTables_lines]
    decide
  few_xlines := by decide
  few_resvs := by decide

/-- The order is not kept: the lookup that found the one K-line finds the other after a restart. -/
theorem lookup_answers_another :
    ¬ ∀ s : StoredBans, (∀ slot, stored (s.tables.atable slot) = s.tables.atable slot) →
      ∀ t, loadDatabases (fun db => db.contents s.tables) = some t →
        ∀ crypt q doMatch, (t.findConf crypt q doMatch).map entry =
          (s.tables.findConf crypt q doMatch).map entry := by
  intro h
  have hstored : ∀ slot, stored (twoKlineBans.tables.atable slot) =
      twoKlineBans.tables.atable slot := by
    intro slot
    show stored ((Function.update (fun _ => []) netKline.slot twoKlines : Slot → List Arec) slot) =
      (Function.update (fun _ => []) netKline.slot twoKlines : Slot → List Arec) slot
    by_cases hslot : slot = netKline.slot
    · rw [hslot, Function.update_self]
      rfl
    · rw [Function.update_of_ne hslot]
      rfl
  have hsame := h twoKlineBans hstored _ (loadDatabases_contents twoKlineBans) (fun _ _ => none)
    joeQuery true
  have hbefore : (twoKlineTables.findConf (fun _ _ => none) joeQuery true).map entry =
      some (.kline, joeKline) := by decide +kernel
  have hafter : ((reloaded twoKlineTables).findConf (fun _ _ => none) joeQuery true).map entry =
      some (.kline, netKline) := by
    unfold reloaded Tables.klines Tables.dlines Tables.glines
    rw [twoKlineTables_lines, twoKlineTables_lines, twoKlineTables_lines]
    decide +kernel
  rw [show twoKlineBans.tables = twoKlineTables from rfl, hbefore, hafter] at hsame
  exact absurd hsame (by decide)

end IrcdHybrid.BanRoundTrip
