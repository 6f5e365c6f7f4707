import IrcdHybrid.CidrLimits

/-!
Runs of clients registering and leaving and of class blocks being read. The blocks of a class
stay those of its clients as long as no class block changes a limit that clients are counted
under, and a run shows that they do not stay so otherwise.
-/

namespace IrcdHybrid.CidrRuns

open Netmask KeyCounts CidrLimits

section World

variable {ι κ : Type*} [DecidableEq ι] [DecidableEq κ] (address : ι → Ip)

/-- The one auth block of a local client is the item he was attached to first; nobody else has
any; and the counts of all classes are right. -/
structure Inv (w : World ι κ) : Prop where
  nodup : w.localClients.Nodup
  auth : ∀ client ∈ w.localClients, ∃ conf, (w.confs client).getLast? = some conf ∧
    (w.confs client).filter (fun conf => conf.type == .client) = [conf]
  others : ∀ client, client ∉ w.localClients →
    (w.confs client).filter (fun conf => conf.type == .client) = []
  counts : ∀ k, ClassCounts (w.classes k) ((attachedTo w k).map address)

omit [DecidableEq ι] in
theorem inv_start : Inv address (start : World ι κ) :=
  ⟨List.nodup_nil, by simp [start], fun _ _ => rfl, fun _ => classCounts_blank _⟩

omit [DecidableEq ι] in
/-- Being attached to a class is a matter of the auth blocks. -/
theorem any_eq_filter_any (confs : List (MaskItem κ)) (k : κ) :
    confs.any (fun conf => conf.type == .client && conf.classPtr == k) =
      (confs.filter (fun conf => conf.type == .client)).any (fun conf => conf.classPtr == k) := by
  rw [List.any_filter]

omit [DecidableEq ι] in
theorem attachedTo_congr (w w' : World ι κ) (k : κ) (hlocal : w'.localClients = w.localClients)
    (h : ∀ client ∈ w.localClients,
      (w'.confs client).filter (fun conf => conf.type == .client) =
        (w.confs client).filter (fun conf => conf.type == .client)) :
    attachedTo w' k = attachedTo w k := by
  unfold attachedTo
  rw [hlocal]
  apply List.filter_congr
  intro client hclient
  rw [any_eq_filter_any, any_eq_filter_any, h client hclient]

omit [DecidableEq ι] in
theorem inv_of_sameAuth (w w' : World ι κ) (h : Inv address w) (hclasses : w'.classes = w.classes)
    (hlocal : w'.localClients = w.localClients)
    (hauth : ∀ client, (w'.confs client).filter (fun conf => conf.type == .client) =
      (w.confs client).filter (fun conf => conf.type == .client))
    (hlast : ∀ client ∈ w.localClients, ∀ conf, (w.confs client).getLast? = some conf →
      (w.confs client).filter (fun conf => conf.type == .client) = [conf] →
      (w'.confs client).getLast? = some conf) : Inv address w' := by
  refine ⟨hlocal ▸ h.nodup, fun client hclient => ?_, fun client hclient => ?_, fun k => ?_⟩
  · rw [hlocal] at hclient
    obtain ⟨conf, hconf, hfilter⟩ := h.auth client hclient
    exact ⟨conf, hlast client hclient conf hconf hfilter, (hauth client).trans hfilter⟩
  · rw [hlocal] at hclient
    exact (hauth client).trans (h.others client hclient)
  · rw [hclasses, attachedTo_congr w w' k hlocal fun client _ => hauth client]
    exact h.counts k

theorem detachConf_classes (client : ι) (types : ConfType → Bool) (w : World ι κ) :
    (detachConf address client types w).classes =
      (((w.confs client).filter (fun conf => types conf.type)).filter
        (fun conf => conf.type == .client)).foldl
        (fun classes conf => Function.update classes conf.classPtr
          (removeFromCidrCheck (address client) (classes conf.classPtr))) w.classes := by
  rw [List.foldl_filter]
  unfold detachConf
  simp only [beq_iff_eq]

theorem inv_attach (client : ι) (conf : MaskItem κ) (w : World ι κ) (h : Inv address w)
    (hconf : conf.type ≠ .client) : Inv address (attachConf address client conf w).1 := by
  unfold attachConf
  by_cases hmem : conf ∈ w.confs client
  · rw [if_pos hmem]
    exact h
  · rw [if_neg hmem]
    dsimp only
    rw [if_neg hconf]
    apply inv_of_sameAuth address w _ h
    · exact Function.update_eq_self _ _
    · rfl
    · intro other
      dsimp only
      by_cases hother : other = client
      · rw [hother, Function.update_self, List.filter_cons_of_neg (by simpa using hconf)]
      · rw [Function.update_of_ne hother]
    · intro other _ auth hlast _
      dsimp only
      by_cases hother : other = client
      · rw [hother] at hlast ⊢
        rw [Function.update_self, List.getLast?_cons, hlast, Option.getD_some]
      · rwa [Function.update_of_ne hother]

theorem inv_detach (client : ι) (types : ConfType → Bool) (w : World ι κ) (h : Inv address w)
    (htypes : types .client = false) : Inv address (detachConf address client types w) := by
  apply inv_of_sameAuth address w _ h
  · rw [detachConf_classes]
    have hnone : ((w.confs client).filter (fun conf => types conf.type)).filter
        (fun conf => conf.type == .client) = [] := by
      rw [List.filter_eq_nil_iff]
      intro conf hmem hconf
      have htype := (List.mem_filter.mp hmem).2
      rw [beq_iff_eq.mp hconf, htypes] at htype
      exact absurd htype (by simp)
    rw [hnone]
    rfl
  · rfl
  · intro other
    show ((Function.update w.confs client
      ((w.confs client).filter (fun conf => !types conf.type))) other).filter _ = _
    by_cases hother : other = client
    · rw [hother, Function.update_self, List.filter_filter]
      apply List.filter_congr
      intro conf _
      by_cases hconf : conf.type = .client
      · simp [hconf, htypes]
      · simp [hconf]
    · rw [Function.update_of_ne hother]
  · intro other _ auth hlast hauth
    show ((Function.update w.confs client
      ((w.confs client).filter (fun conf => !types conf.type))) other).getLast? = some auth
    by_cases hother : other = client
    · rw [hother] at hlast hauth ⊢
      rw [Function.update_self]
      have hclient : auth.type = .client := by
        have hmem : auth ∈ (w.confs client).filter (fun conf => conf.type == .client) := by
          rw [hauth]
          exact List.mem_singleton_self auth
        exact beq_iff_eq.mp (List.mem_filter.mp hmem).2
      obtain ⟨init, hinit⟩ := List.getLast?_eq_some_iff.mp hlast
      have hauth' : [auth].filter (fun conf => !types conf.type) = [auth] := by
        simp [hclient, htypes]
      rw [hinit, List.filter_append, hauth', List.getLast?_concat]
    · rwa [Function.update_of_ne hother]

omit [DecidableEq ι] in
/-- The clients attached to a class when one more is on the list, or one fewer. -/
theorem attachedTo_cons (w w' : World ι κ) (client : ι) (conf : MaskItem κ) (k : κ)
    (hlocal : w'.localClients.Perm (client :: w.localClients)) (hnew : client ∉ w.localClients)
    (hconf : (w'.confs client).filter (fun conf => conf.type == .client) = [conf])
    (hrest : ∀ other, other ≠ client → w'.confs other = w.confs other) :
    (attachedTo w' k).Perm (if conf.classPtr = k then client :: attachedTo w k
      else attachedTo w k) := by
  unfold attachedTo
  apply (hlocal.filter _).trans
  have hsame : w.localClients.filter (fun client => (w'.confs client).any
      (fun conf => conf.type == .client && conf.classPtr == k)) =
      w.localClients.filter (fun client => (w.confs client).any
        (fun conf => conf.type == .client && conf.classPtr == k)) := by
    apply List.filter_congr
    intro other hother
    rw [hrest other fun heq => hnew (heq ▸ hother)]
  have hhead : (w'.confs client).any (fun conf => conf.type == .client && conf.classPtr == k) =
      decide (conf.classPtr = k) := by
    rw [any_eq_filter_any, hconf]
    simp [beq_eq_decide]
  by_cases hk : conf.classPtr = k
  · rw [List.filter_cons_of_pos (by rw [hhead]; simpa using hk), if_pos hk, hsame]
  · rw [List.filter_cons_of_neg (by rw [hhead]; simpa using hk), if_neg hk, hsame]

theorem inv_close (client : ι) (w : World ι κ) (h : Inv address w) :
    Inv address (close address client w) := by
  have hgone : (close address client w).confs client = [] := by
    show Function.update w.confs client ((w.confs client).filter (fun _ => !true)) client = []
    rw [Function.update_self]
    simp
  have hrest : ∀ other, other ≠ client →
      (close address client w).confs other = w.confs other :=
    fun other hother => Function.update_of_ne hother _ _
  have hall : (w.confs client).filter (fun conf => (fun _ => true) conf.type) = w.confs client := by
    simp
  have hclasses : (close address client w).classes =
      ((w.confs client).filter (fun conf => conf.type == .client)).foldl
        (fun classes conf => Function.update classes conf.classPtr
          (removeFromCidrCheck (address client) (classes conf.classPtr))) w.classes := by
    show (detachConf address client (fun _ => true) w).classes = _
    rw [detachConf_classes, hall]
  refine ⟨h.nodup.erase client, fun other hother => ?_, fun other hother => ?_, fun k => ?_⟩
  · have hne : other ≠ client := by
      rintro rfl
      exact absurd hother h.nodup.not_mem_erase
    rw [hrest other hne]
    exact h.auth other (List.mem_of_mem_erase hother)
  · by_cases hne : other = client
    · rw [hne, hgone]
      rfl
    · rw [hrest other hne]
      apply h.others other
      intro hmem
      exact hother ((List.mem_erase_of_ne hne).mpr hmem)
  · by_cases hmem : client ∈ w.localClients
    · obtain ⟨conf, _, hconf⟩ := h.auth client hmem
      have hperm := attachedTo_cons (close address client w) w client conf k
        (List.perm_cons_erase hmem) h.nodup.not_mem_erase hconf
        (fun other hother => (hrest other hother).symm)
      have hcounts := ClassCounts.perm _ _ _ (h.counts k) (hperm.map address)
      rw [hclasses, hconf]
      show ClassCounts (Function.update w.classes conf.classPtr _ k) _
      by_cases hk : conf.classPtr = k
      · subst hk
        rw [if_pos rfl] at hcounts
        rw [Function.update_self]
        exact removeFromCidrCheck_counts (address client) _ _ hcounts
      · rw [if_neg hk] at hcounts
        rw [Function.update_of_ne (Ne.symm hk)]
        exact hcounts
    · rw [hclasses, h.others client hmem]
      have hsame : attachedTo (close address client w) k = attachedTo w k := by
        apply attachedTo_congr
        · exact List.erase_of_not_mem hmem
        · intro other hother
          rw [hrest other fun heq => hmem (heq ▸ hother)]
      rw [hsame]
      exact h.counts k

theorem attachConf_client (client : ι) (conf : MaskItem κ) (w : World ι κ)
    (hconf : conf.type = .client) (hnone : w.confs client = []) :
    attachConf address client conf w =
      match cidrLimitReached conf.exemptLimits (address client) (w.classes conf.classPtr) with
      | none => (w, .tooMany)
      | some c => ({ w with
          classes := Function.update w.classes conf.classPtr c
          confs := Function.update w.confs client (conf :: w.confs client) }, .ok) := by
  have hmem : conf ∉ w.confs client := by
    rw [hnone]
    exact List.not_mem_nil
  unfold attachConf
  rw [if_neg hmem]
  refine (if_pos hconf).trans ?_
  cases cidrLimitReached conf.exemptLimits (address client) (w.classes conf.classPtr) with
  | none => rfl
  | some c => rfl

theorem inv_register (client : ι) (conf : MaskItem κ) (w : World ι κ) (h : Inv address w)
    (hconf : conf.type = .client) (hnew : client ∉ w.localClients) (hnone : w.confs client = []) :
    Inv address (register address client conf w) := by
  unfold register
  rw [attachConf_client address client conf w hconf hnone]
  cases hlimit : cidrLimitReached conf.exemptLimits (address client) (w.classes conf.classPtr) with
  | none =>
    dsimp only
    rw [if_neg (by simp)]
    exact h
  | some c =>
    obtain ⟨hcounts, _⟩ := cidrLimitReached_counts _ _ _ _ _ (h.counts conf.classPtr) hlimit
    dsimp only
    rw [if_pos rfl]
    set w' : World ι κ := ⟨Function.update w.classes conf.classPtr c,
      Function.update w.confs client (conf :: w.confs client), client :: w.localClients⟩ with hw'
    have hself : w'.confs client = [conf] := by
      rw [hw']
      show Function.update w.confs client _ client = [conf]
      rw [Function.update_self, hnone]
    have hrest : ∀ other, other ≠ client → w'.confs other = w.confs other :=
      fun other hother => Function.update_of_ne hother _ _
    have hauth : (w'.confs client).filter (fun conf => conf.type == .client) = [conf] := by
      rw [hself, List.filter_cons_of_pos (by simp [hconf]), List.filter_nil]
    refine ⟨List.nodup_cons.mpr ⟨hnew, h.nodup⟩, fun other hother => ?_, fun other hother => ?_,
      fun k => ?_⟩
    · by_cases hne : other = client
      · subst hne
        exact ⟨conf, by rw [hself]; rfl, hauth⟩
      · rw [hrest other hne]
        apply h.auth other
        exact (List.mem_cons.mp hother).resolve_left hne
    · have hne : other ≠ client := fun heq => hother (heq ▸ List.mem_cons_self)
      rw [hrest other hne]
      exact h.others other fun hmem => hother (List.mem_cons_of_mem client hmem)
    · have hperm := attachedTo_cons w w' client conf k (List.Perm.refl _) hnew hauth hrest
      apply ClassCounts.perm _ _ _ _ (hperm.map address).symm
      show ClassCounts (Function.update w.classes conf.classPtr c k) _
      by_cases hk : conf.classPtr = k
      · subst hk
        rw [if_pos rfl, Function.update_self]
        exact hcounts
      · rw [if_neg hk, Function.update_of_ne (Ne.symm hk)]
        exact h.counts k

theorem setLimits_counts (c old : ClassItem) (new : Limits) (ips : List Ip)
    (hsettings : c.settings = old.settings) (h : ClassCounts c ips)
    (h4 : Keeps old new old.cidrBitlenIpv4 new.cidrBitlenIpv4 old.listIpv4
      (ips.all fun ip => !isV4 ip))
    (h6 : Keeps old new old.cidrBitlenIpv6 new.cidrBitlenIpv6 old.listIpv6 (ips.all isV4))
    (hempty4 : (ips.all fun ip => !isV4 ip) = true →
      old.listIpv4 = [] ∨ rebuilds old new = true → c.listIpv4 = [])
    (hempty6 : ips.all isV4 = true →
      old.listIpv6 = [] ∨ rebuilds old new = true → c.listIpv6 = []) :
    ClassCounts (c.setLimits new) ips := by
  have hbits4 : c.cidrBitlenIpv4 = old.cidrBitlenIpv4 := congrArg (fun s => s.1) hsettings
  have hbits6 : c.cidrBitlenIpv6 = old.cidrBitlenIpv6 := congrArg (fun s => s.2.1) hsettings
  have hper : c.numberPerCidr = old.numberPerCidr := congrArg (fun s => s.2.2) hsettings
  constructor
  · intro hnew hnewBits
    show Counts c.listIpv4 (ips.filterMap (key4 new.cidrBitlenIpv4))
    rcases h4 with hoff | hoff | ⟨hon, hsame⟩ | ⟨habsent, hlist⟩
    · exact absurd hoff hnew
    · exact absurd hoff hnewBits
    · have hcounts := h.ipv4 (by rw [hper]; exact hon) (by rw [hbits4, hsame]; exact hnewBits)
      rwa [hbits4, hsame] at hcounts
    · have hnone : ips.filterMap (key4 new.cidrBitlenIpv4) = [] := by
        rw [List.filterMap_eq_nil_iff]
        intro ip hip
        have hv6 := List.all_eq_true.mp habsent ip hip
        cases ip with
        | v4 addr => exact absurd hv6 (by simp [isV4])
        | v6 addr => rfl
      rw [hempty4 habsent hlist, hnone]
      exact counts_nil
  · intro hnew hnewBits
    show Counts c.listIpv6 (ips.filterMap (key6 new.cidrBitlenIpv6))
    rcases h6 with hoff | hoff | ⟨hon, hsame⟩ | ⟨habsent, hlist⟩
    · exact absurd hoff hnew
    · exact absurd hoff hnewBits
    · have hcounts := h.ipv6 (by rw [hper]; exact hon) (by rw [hbits6, hsame]; exact hnewBits)
      rwa [hbits6, hsame] at hcounts
    · have hnone : ips.filterMap (key6 new.cidrBitlenIpv6) = [] := by
        rw [List.filterMap_eq_nil_iff]
        intro ip hip
        have hv4 := List.all_eq_true.mp habsent ip hip
        cases ip with
        | v4 addr => rfl
        | v6 addr => exact absurd hv4 (by simp [isV4])
      rw [hempty6 habsent hlist, hnone]
      exact counts_nil

theorem foldl_listIpv4 (ips : List Ip) (c : ClassItem)
    (h : (ips.all fun ip => !isV4 ip) = true) :
    (ips.foldl (fun c ip => (cidrLimitReached true ip c).getD c) c).listIpv4 = c.listIpv4 := by
  induction ips generalizing c with
  | nil => rfl
  | cons ip ips ih =>
    rw [List.all_cons, Bool.and_eq_true] at h
    rw [List.foldl_cons, ih _ h.2]
    cases ip with
    | v4 addr => exact absurd h.1 (by simp [isV4])
    | v6 addr =>
      unfold cidrLimitReached limitReached
      split
      · rfl
      · dsimp only
        split
        · rw [if_neg (by simp)]
          rfl
        · rfl

theorem foldl_listIpv6 (ips : List Ip) (c : ClassItem) (h : ips.all isV4 = true) :
    (ips.foldl (fun c ip => (cidrLimitReached true ip c).getD c) c).listIpv6 = c.listIpv6 := by
  induction ips generalizing c with
  | nil => rfl
  | cons ip ips ih =>
    rw [List.all_cons, Bool.and_eq_true] at h
    rw [List.foldl_cons, ih _ h.2]
    cases ip with
    | v6 addr => exact absurd h.1 (by simp [isV4])
    | v4 addr =>
      unfold cidrLimitReached limitReached
      split
      · rfl
      · dsimp only
        split
        · rfl
        · rw [if_neg (by simp)]
          rfl

omit [DecidableEq ι] in
/-- The walk over the local clients is one over the addresses attached to the class. -/
theorem rebuildCidrList_eq (k : κ) (w : World ι κ) (h : Inv address w) :
    rebuildCidrList address k w = ((attachedTo w k).map address).foldl
      (fun c ip => (cidrLimitReached true ip c).getD c)
      { (w.classes k) with listIpv4 := [], listIpv6 := [] } := by
  have hfilter : w.localClients.filter (tailIn w k) = attachedTo w k := by
    unfold attachedTo
    apply List.filter_congr
    intro client hclient
    obtain ⟨conf, hlast, hconf⟩ := h.auth client hclient
    have htype : conf.type = .client := by
      have hmem : conf ∈ (w.confs client).filter (fun conf => conf.type == .client) := by
        rw [hconf]
        exact List.mem_singleton_self conf
      exact beq_iff_eq.mp (List.mem_filter.mp hmem).2
    unfold tailIn
    rw [any_eq_filter_any, hconf, hlast]
    simp [htype]
  unfold rebuildCidrList
  rw [hfilter, List.foldl_map]

omit [DecidableEq ι] in
theorem inv_classEntry (k : κ) (new : Limits) (w : World ι κ) (h : Inv address w)
    (hharmless : Harmless address w (.reread k new)) :
    Inv address (classEntry address k new w) := by
  obtain ⟨h4, h6⟩ := hharmless
  refine ⟨h.nodup, h.auth, h.others, fun k' => ?_⟩
  show ClassCounts (Function.update w.classes k _ k') ((attachedTo w k').map address)
  by_cases hk : k' = k
  · subst hk
    rw [Function.update_self]
    cases hrebuilds : rebuilds (w.classes k') new with
    | false =>
      rw [if_neg (by simp)]
      apply setLimits_counts _ (w.classes k') new _ rfl (h.counts k') h4 h6
      · intro _ hlist
        rw [hrebuilds] at hlist
        exact hlist.resolve_right (by simp)
      · intro _ hlist
        rw [hrebuilds] at hlist
        exact hlist.resolve_right (by simp)
    | true =>
      rw [if_pos rfl, rebuildCidrList_eq address k' w h]
      obtain ⟨hcounts, hsettings⟩ := foldl_counts ((attachedTo w k').map address) []
        { (w.classes k') with listIpv4 := [], listIpv6 := [] }
        ⟨fun _ _ => counts_nil, fun _ _ => counts_nil⟩
      rw [List.append_nil] at hcounts
      apply setLimits_counts _ (w.classes k') new _ hsettings hcounts h4 h6
      · intro habsent _
        rw [foldl_listIpv4 _ _ habsent]
      · intro habsent _
        rw [foldl_listIpv6 _ _ habsent]
  · rw [Function.update_of_ne hk]
    exact h.counts k'

theorem inv_apply (w : World ι κ) (op : Op ι κ) (h : Inv address w) (hcalled : Called w op)
    (hharmless : Harmless address w op) : Inv address (apply address w op) := by
  cases op with
  | register client conf =>
    exact inv_register address client conf w h hcalled.1 hcalled.2.1 hcalled.2.2
  | attach client conf => exact inv_attach address client conf w h hcalled
  | detach client types => exact inv_detach address client types w h hcalled
  | close client => exact inv_close address client w h
  | reread k new => exact inv_classEntry address k new w h hharmless
  | make k =>
    refine ⟨h.nodup, h.auth, h.others, fun k' => ?_⟩
    show ClassCounts (Function.update w.classes k ClassItem.blank k') _
    by_cases hk : k' = k
    · rw [hk, Function.update_self]
      exact classCounts_blank _
    · rw [Function.update_of_ne hk]
      exact h.counts k'

theorem inv_reaches (w : World ι κ)
    (hw : Reaches address (fun w op => Called w op ∧ Harmless address w op) w) :
    Inv address w := by
  induction hw with
  | start => exact inv_start address
  | step w op _ hop ih => exact inv_apply address w op ih hop.1 hop.2

end World

/-- The blocks that the address lies in are not over the limit. -/
structure WithinLimit (c : ClassItem) (ip : Ip) : Prop where
  ipv4 : c.numberPerCidr ≠ 0 → c.cidrBitlenIpv4 ≠ 0 →
    ∀ e ∈ c.listIpv4, lies4 c.cidrBitlenIpv4 ip e.1 = true → e.2 ≤ c.numberPerCidr
  ipv6 : c.numberPerCidr ≠ 0 → c.cidrBitlenIpv6 ≠ 0 →
    ∀ e ∈ c.listIpv6, lies6 c.cidrBitlenIpv6 ip e.1 = true → e.2 ≤ c.numberPerCidr

theorem limitReached_le {κ : Type*} [DecidableEq κ] {key : Ip → Option κ}
    {lies : Ip → κ → Bool} (hkeyed : Keyed key lies) (perCidr : ℕ) (l l' : List (κ × ℕ))
    (ips : List Ip) (ip : Ip) (k : κ) (h : Counts l (ips.filterMap key)) (hk : key ip = some k)
    (hper : perCidr ≠ 0) (hl : limitReached false perCidr (lies ip) k l = some l') :
    ∀ e ∈ l', lies ip e.1 = true → e.2 ≤ perCidr := by
  intro e he hlies
  have hcounts' := limitReached_counts hkeyed false perCidr h hk hl
  obtain ⟨other, _, hother⟩ := exists_of_entry hcounts' e he
  have hek : e.1 = k := by
    have hsome := (hkeyed ip other e.1 hother).mp hlies
    rw [hk] at hsome
    exact (Option.some.inj hsome).symm
  rw [hcounts'.count e he, hek, List.filterMap_cons_some hk, List.count_cons_self]
  have hnumber := h.number_eq (hits_of_counts hkeyed h hk)
  unfold limitReached at hl
  split at hl
  · exact absurd hl (by simp)
  · rename_i hfull
    rw [hnumber] at hfull
    by_cases hmem : k ∈ ips.filterMap key
    · rw [if_pos hmem] at hfull
      simp only [Option.any_some, Bool.not_false, Bool.true_and, decide_eq_true_eq] at hfull
      omega
    · rw [List.count_eq_zero_of_not_mem hmem]
      omega

theorem cidrLimitReached_le (ip : Ip) (c c' : ClassItem) (ips : List Ip) (h : ClassCounts c ips)
    (hc : cidrLimitReached false ip c = some c') : WithinLimit c' ip := by
  unfold cidrLimitReached at hc
  by_cases hper : c.numberPerCidr = 0
  · rw [if_pos hper] at hc
    obtain rfl := Option.some.inj hc
    exact ⟨fun h => absurd hper h, fun h => absurd hper h⟩
  · rw [if_neg hper] at hc
    cases ip with
    | v4 addr =>
      dsimp only at hc
      by_cases hbits : c.cidrBitlenIpv4 = 0
      · rw [if_pos hbits] at hc
        obtain rfl := Option.some.inj hc
        exact ⟨fun _ hb => absurd hbits hb, fun _ _ e _ hlies => absurd hlies (by simp [lies6])⟩
      · rw [if_neg hbits] at hc
        obtain ⟨l, hl, rfl⟩ := Option.map_eq_some_iff.mp hc
        refine ⟨fun _ _ => ?_, fun _ _ e _ hlies => absurd hlies (by simp [lies6])⟩
        exact limitReached_le (keyed4 c.cidrBitlenIpv4) _ _ _ ips (.v4 addr) _
          (h.ipv4 hper hbits) rfl hper hl
    | v6 addr =>
      dsimp only at hc
      by_cases hbits : c.cidrBitlenIpv6 > 0
      · rw [if_pos hbits] at hc
        obtain ⟨l, hl, rfl⟩ := Option.map_eq_some_iff.mp hc
        refine ⟨fun _ _ e _ hlies => absurd hlies (by simp [lies4]), fun _ hb => ?_⟩
        exact limitReached_le (keyed6 c.cidrBitlenIpv6) _ _ _ ips (.v6 addr) _
          (h.ipv6 hper hb) rfl hper hl
      · rw [if_neg hbits] at hc
        obtain rfl := Option.some.inj hc
        refine ⟨fun _ _ e _ hlies => absurd hlies (by simp [lies4]), fun _ hb => ?_⟩
        exact absurd (Nat.pos_of_ne_zero hb) hbits

/-- As long as no class block changes a limit under clients it counts, the blocks are exact, and
whoever is not exempt is attached only within the limit. -/
theorem cidr_limits_exact {ι κ : Type*} [DecidableEq ι] [DecidableEq κ] (address : ι → Ip)
    (w : World ι κ)
    (hw : Reaches address (fun w op => Called w op ∧ Harmless address w op) w) :
    Exact address w ∧ ∀ client conf, Called w (.register client conf) →
      conf.exemptLimits = false → (attachConf address client conf w).2 = .ok →
      WithinLimit ((attachConf address client conf w).1.classes conf.classPtr)
        (address client) := by
  have hinv := inv_reaches address w hw
  refine ⟨fun k => (hinv.counts k).exact, ?_⟩
  intro client conf ⟨hconf, _, hnone⟩ hexempt hok
  rw [attachConf_client address client conf w hconf hnone] at hok ⊢
  cases hlimit : cidrLimitReached conf.exemptLimits (address client) (w.classes conf.classPtr) with
  | none =>
    rw [hlimit] at hok
    exact absurd hok (by simp)
  | some c =>
    rw [hexempt] at hlimit
    show WithinLimit (Function.update w.classes conf.classPtr c conf.classPtr) (address client)
    rw [Function.update_self]
    exact cidrLimitReached_le _ _ _ _ (hinv.counts conf.classPtr) hlimit

def sampleLimits (bits : ℕ) (h : bits ≤ 32) : Limits := ⟨bits, 0, 2, h, by omega⟩

def sampleConf : MaskItem Unit := ⟨1, .client, (), false⟩

/-- 10.0.1.1. -/
def sampleAddress : Unit → Ip := fun _ => .v4 0x0A000101

def sampleFirst : Op Unit Unit := .reread () (sampleLimits 24 (by omega))

/-- A class with a limit for each /24, and a client. -/
def sampleWorld : World Unit Unit :=
  apply sampleAddress (apply sampleAddress start sampleFirst) (.register () sampleConf)

theorem sample_exact : Exact sampleAddress sampleWorld := by
  have hfirst : Reaches sampleAddress (fun w op => Called w op ∧ Harmless sampleAddress w op)
      (apply sampleAddress start sampleFirst) := by
    apply Reaches.step start sampleFirst Reaches.start
    exact ⟨trivial, Or.inr (Or.inr (Or.inr ⟨rfl, Or.inl rfl⟩)), Or.inr (Or.inl rfl)⟩
  refine (cidr_limits_exact sampleAddress sampleWorld ?_).1
  apply Reaches.step _ (.register () sampleConf) hfirst
  exact ⟨⟨rfl, List.not_mem_nil, rfl⟩, trivial⟩

/-- When the length changes to 16 the blocks are rebuilt for 24. -/
theorem rebuilt_for_old_length :
    let w := apply sampleAddress sampleWorld (.reread () (sampleLimits 16 (by omega)))
    Reaches sampleAddress Called w ∧ ¬ Exact sampleAddress w := by
  intro w
  constructor
  · have hfirst : Reaches sampleAddress Called (apply sampleAddress start sampleFirst) :=
      Reaches.step start sampleFirst Reaches.start trivial
    have hsecond : Reaches sampleAddress Called sampleWorld := by
      apply Reaches.step _ (.register () sampleConf) hfirst
      exact ⟨rfl, List.not_mem_nil, rfl⟩
    exact Reaches.step _ _ hsecond trivial
  · intro h
    have hexact := (h ()).ipv4 (by decide +kernel) (by decide +kernel)
    have hmem : ((0x0A000100 : BitVec 32), 1) ∈ (w.classes ()).listIpv4 := by decide +kernel
    have hmasked := hexact.masked _ hmem
    exact absurd hmasked (by decide +kernel)

end IrcdHybrid.CidrRuns
