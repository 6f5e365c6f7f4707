import IrcdHybrid.KlineCheck
import Mathlib.Data.List.Nodup
import Mathlib.Data.List.Induction

/-!
Taking back K- and G-lines. The entry is looked for with `find_conf_by_address`,
which for an address finds the best entry whose mask contains it, and is then
deleted from the bucket that the text of the request hashes to. So the entry that
was named goes if it is the one that was found; a wider mask that is found instead
is not in that bucket, or is deleted in its place.
-/

namespace IrcdHybrid.Unkline

open CString Netmask BestScan Match Hostmask BanEnforcement KlineCheck

section Remove

variable (crypt : CStr → CStr → Option CStr)

/-- `piphost` and `aftype`. -/
def requestAddr (host : CStr) : Option SsAddr × Family :=
  match parseNetmask host with
  | .ipv6 addr _ => (some ⟨0, addr⟩, .inet6)
  | .ipv4 addr _ => (some ⟨addr, fun _ => 0⟩, .inet)
  | .host => (none, .other)

def request (type : MaskitemType) (host user : CStr) : Query :=
  ⟨some host, (requestAddr host).1, type, (requestAddr host).2, some user, none⟩

/-- `remove_kline_match` and `remove_gline_match`; `isConfDatabase` is the flag of the items,
by their addresses. -/
def removeMatch (isConfDatabase : ℕ → Bool) (type : MaskitemType) (t : Atable)
    (host user : CStr) : Atable × Bool :=
  match findConfByAddress crypt t (request type host user) false with
  | some r =>
    if isConfDatabase r.conf.ptr then (deleteOneAddressConf t host r.conf, true) else (t, false)
  | none => (t, false)

def removeKlineMatch (isConfDatabase : ℕ → Bool) (t : Atable) (host user : CStr) : Atable × Bool :=
  removeMatch crypt isConfDatabase .kline t host user

def removeGlineMatch (isConfDatabase : ℕ → Bool) (t : Atable) (user host : CStr) : Atable × Bool :=
  removeMatch crypt isConfDatabase .gline t host user

/-- The same host mask: the same address and bits, or the same text. -/
def SameHost (a b : CStr) : Prop :=
  match parseNetmask a, parseNetmask b with
  | .ipv4 x n, .ipv4 y m => x = y ∧ n = m
  | .ipv6 x n, .ipv6 y m => x = y ∧ n = m
  | .host, .host => irccmp a b = 0
  | _, _ => False

/-- The entry has this type, user mask and host mask. -/
structure Named (type : MaskitemType) (host user : CStr) (r : AddressRec) : Prop where
  type : r.type = type
  user : ∃ username, r.conf.user = some username ∧ irccmp username user = 0
  host : SameHost r.conf.host host

/-- A named entry that the database saves. -/
def Saved (isConfDatabase : ℕ → Bool) (type : MaskitemType) (host user : CStr) (r : AddressRec) :
    Prop :=
  Named type host user r ∧ isConfDatabase r.conf.ptr = true

/-- The entry is gone and nothing else. -/
def Gone (t t' : Atable) (r : AddressRec) : Prop :=
  ∀ hv, t'.bucket hv = (t.bucket hv).filter (fun x => !isConf r.conf x)

/-- What taking back a ban should do. -/
def RemovesNamed (isConfDatabase : ℕ → Bool) (type : MaskitemType) (l : AccessList) (t : Atable)
    (host user : CStr) (result : Atable × Bool) : Prop :=
  ((∃ r ∈ l.entries, Saved isConfDatabase type host user r) → result.2 = true ∧
      ∃ r ∈ l.entries, Saved isConfDatabase type host user r ∧ Gone t result.1 r) ∧
    ((¬ ∃ r ∈ l.entries, Saved isConfDatabase type host user r) → result = (t, false))

/-- The entries that the probes by address have a choice of. -/
def seenAddr (t : Atable) (q : Query) (doMatch : Bool) : List AddressRec :=
  match q.addr, q.fam with
  | some addr, .inet6 =>
    ((ipv6Probes addr).flatMap t.bucket).filter (ipv6Test crypt q doMatch addr)
  | some addr, .inet =>
    ((ipv4Probes addr).flatMap t.bucket).filter (ipv4Test crypt q doMatch addr)
  | _, _ => []

/-- The entries that the probes by name have a choice of. -/
def seenName (t : Atable) (q : Query) (doMatch : Bool) : List AddressRec :=
  match q.name with
  | some name => ((hostProbes name).flatMap t.bucket).filter (hostTest crypt q doMatch name)
  | none => []

/-- All of them, in the order of the walk. -/
def seen (t : Atable) (q : Query) (doMatch : Bool) : List AddressRec :=
  seenAddr crypt t q doMatch ++ seenName crypt t q doMatch

/-- The entries whose mask contains the requested address, or has the requested text. -/
def answering (t : Atable) (type : MaskitemType) (host user : CStr) : List AddressRec :=
  seen crypt t (request type host user) false

/-- The one that counts is the oldest of them; precedences count down. -/
def Foremost (t : Atable) (type : MaskitemType) (host user : CStr) (r : AddressRec) : Prop :=
  Leads AddressRec.precedence 0 (answering crypt t type host user) r

/-- The foremost of the entries that contain what is asked for is the one that was named; or it
is none of the database's, and none was named. -/
def ForemostNamed (isConfDatabase : ℕ → Bool) (type : MaskitemType) (l : AccessList) (t : Atable)
    (host user : CStr) : Prop :=
  (∃ r, Foremost crypt t type host user r ∧ Saved isConfDatabase type host user r) ∨
    ((∀ r, Foremost crypt t type host user r → isConfDatabase r.conf.ptr = false) ∧
      ¬ ∃ r ∈ l.entries, Saved isConfDatabase type host user r)

end Remove

theorem isWild_congr (c d : Char) (h : toLower c = toLower d) : isWild c = isWild d := by
  have hstar := toLower_eq_iff_of_unfolded '*' c (by decide)
  have hquestion := toLower_eq_iff_of_unfolded '?' c (by decide)
  rw [h, toLower_eq_iff_of_unfolded '*' d (by decide)] at hstar
  rw [h, toLower_eq_iff_of_unfolded '?' d (by decide)] at hquestion
  unfold isWild
  rw [Bool.eq_iff_iff]
  simp only [Bool.or_eq_true, decide_eq_true_eq]
  rw [hstar, hquestion]

theorem dot_congr (c d : Char) (h : toLower c = toLower d) : c = '.' ↔ d = '.' := by
  rw [← toLower_eq_iff_of_unfolded '.' c (by decide), h,
    toLower_eq_iff_of_unfolded '.' d (by decide)]

/-- The scan stops at the same place in two texts that fold together. -/
theorem scanBack_congr (s t read read' hp hp' : CStr) (h : SameFold s t)
    (hread : SameFold read read') (hhp : SameFold hp hp') :
    (scanBack s read hp).map (List.map toLower) = (scanBack t read' hp').map (List.map toLower) := by
  induction s generalizing t read read' hp hp' with
  | nil =>
    have hnil : t = [] := by simpa [SameFold] using h.symm
    rw [hnil]
    rfl
  | cons c s ih =>
    cases t with
    | nil => simp [SameFold] at h
    | cons d t =>
      obtain ⟨hcd, htail⟩ := List.cons.inj h
      have hdot := dot_congr c d hcd
      unfold scanBack
      rw [isWild_congr c d hcd]
      split
      · exact congrArg some hhp
      · apply ih t _ _ _ _ htail
        · show (c :: read).map toLower = (d :: read').map toLower
          rw [List.map_cons, List.map_cons, hcd, hread]
        · by_cases hc : c = '.'
          · rw [if_pos hc, if_pos (hdot.mp hc)]
            exact hread
          · rw [if_neg hc, if_neg (fun hd => hc (hdot.mpr hd))]
            exact hhp

theorem filedText_congr (s t : CStr) (h : SameFold s t) : SameFold (filedText s) (filedText t) := by
  have hrev : SameFold s.reverse t.reverse := by
    show s.reverse.map toLower = t.reverse.map toLower
    rw [List.map_reverse, List.map_reverse, h]
  have hscan := scanBack_congr s.reverse t.reverse [] [] [] [] hrev rfl rfl
  unfold filedText
  cases hs : scanBack s.reverse [] [] with
  | none =>
    cases ht : scanBack t.reverse [] [] with
    | none => exact h
    | some u => simp [hs, ht] at hscan
  | some u =>
    cases ht : scanBack t.reverse [] [] with
    | none => simp [hs, ht] at hscan
    | some v =>
      rw [hs, ht] at hscan
      exact Option.some.inj hscan

theorem sameFold_of_irccmp (s t : CStr) (h : irccmp s t = 0) : SameFold s t := by
  have hup := (irccmp_eq_zero_iff s t).mp h
  clear h
  unfold SameFold
  induction s generalizing t with
  | nil =>
    have hnil : t = [] := by simpa using hup.symm
    rw [hnil]
  | cons c s ih =>
    cases t with
    | nil => simp at hup
    | cons d t =>
      obtain ⟨hcd, htail⟩ := List.cons.inj hup
      rw [List.map_cons, List.map_cons, ih t htail, (toUpper_eq_iff c d).mp hcd]

theorem slotOf_sameHost (a b : CStr) (h : SameHost a b) : slotOf a = slotOf b := by
  unfold SameHost at h
  unfold slotOf
  cases ha : parseNetmask a with
  | ipv4 x n =>
    cases hb : parseNetmask b with
    | ipv4 y m =>
      rw [ha, hb] at h
      obtain ⟨rfl, rfl⟩ := h
      rfl
    | ipv6 y m => rw [ha, hb] at h; exact h.elim
    | host => rw [ha, hb] at h; exact h.elim
  | ipv6 x n =>
    cases hb : parseNetmask b with
    | ipv4 y m => rw [ha, hb] at h; exact h.elim
    | ipv6 y m =>
      rw [ha, hb] at h
      obtain ⟨rfl, rfl⟩ := h
      rfl
    | host => rw [ha, hb] at h; exact h.elim
  | host =>
    cases hb : parseNetmask b with
    | ipv4 y m => rw [ha, hb] at h; exact h.elim
    | ipv6 y m => rw [ha, hb] at h; exact h.elim
    | host =>
      rw [ha, hb] at h
      exact hashText_eq _ _ (filedText_congr a b (sameFold_of_irccmp a b h))

section Remove

variable (crypt : CStr → CStr → Option CStr)

theorem probeAddr_eq (t : Atable) (q : Query) (doMatch : Bool) :
    probeAddr crypt t q doMatch =
      scan (fun _ => true) AddressRec.precedence start (seenAddr crypt t q doMatch) := by
  obtain ⟨name, addr, type, fam, username, password⟩ := q
  cases addr with
  | none => rfl
  | some addr =>
    cases fam with
    | inet => exact scan_filter _ _ _ _
    | inet6 => exact scan_filter _ _ _ _
    | other => rfl

theorem probeName_eq (t : Atable) (q : Query) (doMatch : Bool) (s : Best AddressRec) :
    probeName crypt t q doMatch s =
      scan (fun _ => true) AddressRec.precedence s (seenName crypt t q doMatch) := by
  obtain ⟨name, addr, type, fam, username, password⟩ := q
  cases name with
  | none => rfl
  | some name => exact scan_filter _ _ _ _

theorem find_eq_scan (t : Atable) (q : Query) (doMatch : Bool) :
    findConfByAddress crypt t q doMatch =
      (scan (fun _ => true) AddressRec.precedence start (seen crypt t q doMatch)).item := by
  unfold findConfByAddress seen
  rw [probeName_eq, probeAddr_eq, ← scan_append]

theorem find_eq_some_iff (t : Atable) (q : Query) (doMatch : Bool) (r : AddressRec) :
    findConfByAddress crypt t q doMatch = some r ↔
      Leads AddressRec.precedence 0 (seen crypt t q doMatch) r := by
  rw [find_eq_scan, scan_item_iff]
  simp [start]

/-- Nothing that the request reaches lies in a bucket that is not walked. -/
theorem mem_seenAddr_iff (t : Atable) (l : AccessList) (h : Holds t l) (q : Query)
    (r : AddressRec) :
    r ∈ seenAddr crypt t q false ↔
      r ∈ l.entries ∧ isHost r.mask = false ∧ accepts crypt q false r = true := by
  obtain ⟨name, addr, type, fam, username, password⟩ := q
  cases addr with
  | none => cases hmask : r.mask <;> simp [seenAddr, accepts, isHost, hmask]
  | some addr =>
    cases fam with
    | inet =>
      unfold seenAddr accepts
      rw [List.mem_filter, mem_flatMap_bucket t l h]
      unfold ipv4Test
      cases hmask : r.mask with
      | ipv4 mask bits =>
        have hprobe := slotOf_mem_ipv4Probes r addr mask bits hmask
        simp only [isHost, Bool.and_eq_true, Option.any_some, decide_true, Bool.true_and]
        tauto
      | ipv6 mask bits => simp
      | host => simp [isHost]
    | inet6 =>
      unfold seenAddr accepts
      rw [List.mem_filter, mem_flatMap_bucket t l h]
      unfold ipv6Test
      cases hmask : r.mask with
      | ipv4 mask bits => simp
      | ipv6 mask bits =>
        have hprobe := slotOf_mem_ipv6Probes r addr mask bits hmask
        simp only [isHost, Bool.and_eq_true, Option.any_some, decide_true, Bool.true_and]
        tauto
      | host => simp [isHost]
    | other => cases hmask : r.mask <;> simp [seenAddr, accepts, isHost, hmask]

theorem getMaskHash_mem_of_irccmp (host name : CStr) (h : irccmp host name = 0) :
    getMaskHash host ∈ hostProbes name := by
  have hsame := filedText_congr host name (sameFold_of_irccmp host name h)
  unfold getMaskHash
  rw [hashText_eq _ _ hsame]
  rcases filedText_spec name with hnil | ⟨hself, _⟩ | ⟨pre, htext, _⟩
  · rw [hnil]
    exact List.mem_append_right _ (List.mem_singleton.mpr rfl)
  · rw [hself]
    exact hashText_mem_hostProbes name name (Or.inl rfl)
  · apply hashText_mem_hostProbes
    have hmem := mem_afterDots pre (filedText name)
    rw [← htext] at hmem
    exact Or.inr hmem

theorem mem_seenName_iff (t : Atable) (l : AccessList) (h : Holds t l) (q : Query)
    (r : AddressRec) :
    r ∈ seenName crypt t q false ↔
      r ∈ l.entries ∧ isHost r.mask = true ∧ accepts crypt q false r = true := by
  obtain ⟨name, addr, type, fam, username, password⟩ := q
  cases name with
  | none => cases hmask : r.mask <;> simp [seenName, accepts, isHost, hmask]
  | some name =>
    unfold seenName accepts
    rw [List.mem_filter, mem_flatMap_bucket t l h, slotOf_eq]
    unfold hostTest
    cases hmask : r.mask with
    | ipv4 mask bits => simp [isHost]
    | ipv6 mask bits => simp [isHost]
    | host =>
      have hprobe : irccmp r.conf.host name = 0 → getMaskHash r.conf.host ∈ hostProbes name :=
        getMaskHash_mem_of_irccmp r.conf.host name
      simp only [isHost, cmpfunc, Bool.and_eq_true, Option.any_some, beq_iff_eq]
      tauto

theorem mem_answering_iff (t : Atable) (l : AccessList) (h : Holds t l) (type : MaskitemType)
    (host user : CStr) (r : AddressRec) :
    r ∈ answering crypt t type host user ↔
      r ∈ l.entries ∧ accepts crypt (request type host user) false r = true := by
  unfold answering seen
  rw [List.mem_append, mem_seenAddr_iff crypt t l h, mem_seenName_iff crypt t l h]
  cases isHost r.mask <;> simp

theorem foremost_mem (t : Atable) (l : AccessList) (h : Holds t l) (type : MaskitemType)
    (host user : CStr) (r : AddressRec) (hr : Foremost crypt t type host user r) :
    r ∈ l.entries := by
  obtain ⟨_, front, rest, heq, _⟩ := hr
  have hmem : r ∈ answering crypt t type host user := by simp [heq]
  exact ((mem_answering_iff crypt t l h type host user r).mp hmem).1

/-- Every item has one entry. -/
def OneEach (l : AccessList) : Prop := (l.entries.map (fun r => r.conf.ptr)).Nodup

theorem OneEach.eq_of_ptr (l : AccessList) (h : OneEach l) (r x : AddressRec)
    (hr : r ∈ l.entries) (hx : x ∈ l.entries) (heq : x.conf.ptr = r.conf.ptr) : x = r :=
  List.inj_on_of_nodup_map h hx hr heq

theorem eraseP_isConf (conf : MaskItem) (rs : List AddressRec)
    (h : (rs.map (fun r => r.conf.ptr)).Nodup) :
    rs.eraseP (isConf conf) = rs.filter (fun x => !isConf conf x) := by
  induction rs with
  | nil => rfl
  | cons r rs ih =>
    obtain ⟨hr, hrest⟩ := List.nodup_cons.mp h
    by_cases hconf : isConf conf r = true
    · have hself : rs.filter (fun x => !isConf conf x) = rs := by
        apply List.filter_eq_self.mpr
        intro x hx
        by_contra hnot
        have hx' : x.conf.ptr = conf.ptr := by simpa [isConf] using hnot
        have hr' : r.conf.ptr = conf.ptr := by simpa [isConf] using hconf
        exact hr (List.mem_map.mpr ⟨x, hx, hx'.trans hr'.symm⟩)
      rw [List.eraseP_cons_of_pos hconf, List.filter_cons_of_neg (by simpa using hconf), hself]
    · rw [List.eraseP_cons_of_neg hconf, List.filter_cons_of_pos (by simpa using hconf), ih hrest]

/-- Deleting an entry through the text that it is filed under. -/
theorem delete_gone (t : Atable) (l : AccessList) (h : Holds t l) (hone : OneEach l)
    (r : AddressRec) (hr : r ∈ l.entries) (host : CStr) (hslot : slotOf r.conf.host = slotOf host) :
    Gone t (deleteOneAddressConf t host r.conf) r := by
  intro hv
  have hnodup : ((t.bucket hv).map (fun r => r.conf.ptr)).Nodup := by
    rw [h.bucket_eq]
    exact hone.sublist (List.filter_sublist.map _)
  show Function.update t.bucket (slotOf host) _ hv = _
  by_cases hhv : hv = slotOf host
  · subst hhv
    rw [Function.update_self]
    exact eraseP_isConf r.conf _ hnodup
  · rw [Function.update_of_ne hhv]
    symm
    apply List.filter_eq_self.mpr
    intro x hx
    rw [h.bucket_eq, List.mem_filter, beq_iff_eq] at hx
    by_contra hnot
    have hptr : x.conf.ptr = r.conf.ptr := by simpa [isConf] using hnot
    rw [hone.eq_of_ptr l r x hr hx.1 hptr] at hx
    exact hhv (hx.2.symm.trans hslot)

theorem mem_bucket (t : Atable) (l : AccessList) (h : Holds t l) (r : AddressRec)
    (hr : r ∈ l.entries) : r ∈ t.bucket (slotOf r.conf.host) := by
  rw [h.bucket_eq]
  exact List.mem_filter.mpr ⟨hr, beq_iff_eq.mpr rfl⟩

/-- Whatever bucket it is done in, no other item's entry is deleted. -/
theorem mem_delete (t : Atable) (host : CStr) (conf : MaskItem) (hv : Slot) (x : AddressRec)
    (hx : x ∈ t.bucket hv) (hne : x.conf.ptr ≠ conf.ptr) :
    x ∈ (deleteOneAddressConf t host conf).bucket hv := by
  show x ∈ Function.update t.bucket (slotOf host) _ hv
  by_cases hhv : hv = slotOf host
  · subst hhv
    rw [Function.update_self]
    exact (List.mem_eraseP_of_neg (by simpa [isConf] using hne)).mpr hx
  · rwa [Function.update_of_ne hhv]

/-- The named entry, and no other, is taken back exactly when it is the foremost to answer. -/
theorem removeMatch_iff (isConfDatabase : ℕ → Bool) (type : MaskitemType) (t : Atable)
    (l : AccessList) (host user : CStr) (h : Holds t l) (hone : OneEach l) :
    RemovesNamed isConfDatabase type l t host user
        (removeMatch crypt isConfDatabase type t host user) ↔
      ForemostNamed crypt isConfDatabase type l t host user := by
  have hiff : ∀ r, findConfByAddress crypt t (request type host user) false = some r ↔
      Foremost crypt t type host user r := fun r => find_eq_some_iff crypt t _ false r
  unfold RemovesNamed ForemostNamed removeMatch
  cases hfind : findConfByAddress crypt t (request type host user) false with
  | none =>
    have hnone : ∀ r, ¬ Foremost crypt t type host user r := by
      intro r hr
      rw [← hiff, hfind] at hr
      exact absurd hr (by simp)
    constructor
    · intro ⟨hremoves, _⟩
      refine Or.inr ⟨fun r hr => absurd hr (hnone r), fun hsome => ?_⟩
      exact absurd (hremoves hsome).1 (by simp)
    · intro hor
      rcases hor with ⟨r, hr, _⟩ | ⟨_, hnot⟩
      · exact absurd hr (hnone r)
      · exact ⟨fun hsome => absurd hsome hnot, fun _ => rfl⟩
  | some r =>
    have hforemost := (hiff r).mp hfind
    have hr := foremost_mem crypt t l h type host user r hforemost
    have hsame : ∀ x, Foremost crypt t type host user x → x = r := by
      intro x hx
      rw [← hiff, hfind] at hx
      exact (Option.some.inj hx).symm
    dsimp only
    by_cases hdb : isConfDatabase r.conf.ptr = true
    · rw [if_pos hdb]
      constructor
      · intro ⟨hremoves, hkeeps⟩
        by_cases hsome : ∃ r ∈ l.entries, Saved isConfDatabase type host user r
        · obtain ⟨_, e, he, hsaved, hgone⟩ := hremoves hsome
          -- the entry that is gone is the one that was found
          have hptr : e.conf.ptr = r.conf.ptr := by
            by_contra hne
            have hkept := mem_delete t host r.conf _ e (mem_bucket t l h e he) hne
            rw [hgone] at hkept
            have hnot := (List.mem_filter.mp hkept).2
            simp [isConf] at hnot
          rw [hone.eq_of_ptr l r e hr he hptr] at hsaved
          exact Or.inl ⟨r, hforemost, hsaved⟩
        · have hfalse := congrArg Prod.snd (hkeeps hsome)
          exact absurd hfalse (by simp)
      · intro hor
        rcases hor with ⟨x, hx, hsaved⟩ | ⟨hall, _⟩
        · rw [hsame x hx] at hsaved
          have hslot := slotOf_sameHost _ _ hsaved.1.host
          refine ⟨fun _ => ⟨rfl, r, hr, hsaved, delete_gone t l h hone r hr host hslot⟩, ?_⟩
          exact fun hnone => absurd ⟨r, hr, hsaved⟩ hnone
        · exact absurd hdb (by rw [hall r hforemost]; decide)
    · rw [if_neg hdb]
      constructor
      · intro ⟨hremoves, _⟩
        refine Or.inr ⟨fun x hx => ?_, fun hsome => ?_⟩
        · rw [hsame x hx]
          simpa using hdb
        · exact absurd (hremoves hsome).1 (by simp)
      · intro hor
        rcases hor with ⟨x, hx, hsaved⟩ | ⟨_, hnone⟩
        · rw [hsame x hx] at hsaved
          exact absurd hsaved.2 hdb
        · exact ⟨fun hsome => absurd hsome hnone, fun _ => rfl⟩

/-- No item is added while it is stored: each is allocated for its entry. -/
def Allocated (ops : List Op) : Prop :=
  ∀ before type conf after, ops = before ++ Op.add type conf :: after →
    ∀ r ∈ (AccessList.run before).entries, r.conf.ptr ≠ conf.ptr

theorem oneEach_run (ops : List Op) (h : Allocated ops) : OneEach (AccessList.run ops) := by
  induction ops using List.reverseRecOn with
  | nil => exact List.nodup_nil
  | append_singleton ops op ih =>
    have hops : OneEach (AccessList.run ops) := by
      apply ih
      intro before type conf after heq
      exact h before type conf (after ++ [op]) (by rw [heq]; simp)
    have hrun : AccessList.run (ops ++ [op]) = (AccessList.run ops).apply op := by
      simp [AccessList.run]
    rw [hrun]
    cases op with
    | add type conf =>
      refine List.nodup_cons.mpr ⟨?_, hops⟩
      intro hmem
      obtain ⟨r, hr, heq⟩ := List.mem_map.mp hmem
      exact h ops type conf [] rfl r hr heq
    | delete address conf => exact hops.sublist (List.eraseP_sublist.map _)

/-- UNKLINE and its counterpart for G-lines, on every table that additions and deletions make. -/
theorem unkline_iff (ops : List Op) (isConfDatabase : ℕ → Bool) (host user : CStr)
    (h : Allocated ops) :
    (RemovesNamed isConfDatabase .kline (AccessList.run ops) (Atable.run ops) host user
        (removeKlineMatch crypt isConfDatabase (Atable.run ops) host user) ↔
      ForemostNamed crypt isConfDatabase .kline (AccessList.run ops) (Atable.run ops) host user) ∧
    (RemovesNamed isConfDatabase .gline (AccessList.run ops) (Atable.run ops) host user
        (removeGlineMatch crypt isConfDatabase (Atable.run ops) user host) ↔
      ForemostNamed crypt isConfDatabase .gline (AccessList.run ops) (Atable.run ops) host user) :=
  ⟨removeMatch_iff crypt isConfDatabase .kline _ _ host user (holds_run ops) (oneEach_run ops h),
    removeMatch_iff crypt isConfDatabase .gline _ _ host user (holds_run ops) (oneEach_run ops h)⟩

end Remove

theorem sameHost_self (host : CStr) : SameHost host host := by
  unfold SameHost
  cases parseNetmask host with
  | ipv4 x n => exact ⟨rfl, rfl⟩
  | ipv6 x n => exact ⟨rfl, rfl⟩
  | host => exact (irccmp_eq_zero_iff host host).mpr rfl

theorem saved_self (ptr precValue : ℕ) (user host : CStr) :
    Saved (fun _ => true) .kline host user (addressRec .kline (klineConf ptr user host) precValue) :=
  ⟨⟨rfl, ⟨user, rfl, (irccmp_eq_zero_iff user user).mpr rfl⟩, sameHost_self host⟩, rfl⟩

def noCrypt : CStr → CStr → Option CStr := fun _ _ => none

def address : CStr := "10.0.0.1".toList

def anyUser : CStr := ['*']

def addressOps : List Op := [.add .kline (klineConf 2 anyUser address)]

theorem addressOps_allocated : Allocated addressOps := by
  intro before type conf after heq r hr
  cases before with
  | nil => simp [AccessList.run] at hr
  | cons op before =>
    have hlen := congrArg List.length heq
    simp [addressOps] at hlen

/-- A K-line that is the only one is taken back. -/
theorem unkline_only :
    RemovesNamed (fun _ => true) .kline (AccessList.run addressOps) (Atable.run addressOps)
      address anyUser
      (removeKlineMatch noCrypt (fun _ => true) (Atable.run addressOps) address anyUser) := by
  have hiff := (unkline_iff noCrypt addressOps (fun _ => true) address anyUser
    addressOps_allocated).1
  apply hiff.mpr
  have hsome : (findConfByAddress noCrypt (Atable.run addressOps)
      (request .kline address anyUser) false).isSome = true := by
    decide +kernel
  obtain ⟨r, hr⟩ := Option.isSome_iff_exists.mp hsome
  have hforemost := (find_eq_some_iff noCrypt _ _ _ r).mp hr
  refine Or.inl ⟨r, hforemost, ?_⟩
  have hmem := foremost_mem noCrypt _ _ (holds_run addressOps) _ _ _ r hforemost
  rw [List.mem_singleton.mp hmem]
  exact saved_self 2 _ anyUser address

def network : CStr := "10.0.0.0/8".toList

def nestedOps : List Op :=
  [.add .kline (klineConf 1 anyUser network), .add .kline (klineConf 2 anyUser address)]

/-- The network is found in place of the address inside it, and is not in the bucket of the
address; nothing is taken back, and 1 is returned. -/
theorem unkline_finds_network :
    ¬ RemovesNamed (fun _ => true) .kline (AccessList.run nestedOps) (Atable.run nestedOps)
      address anyUser
      (removeKlineMatch noCrypt (fun _ => true) (Atable.run nestedOps) address anyUser) := by
  have hfound : (findConfByAddress noCrypt (Atable.run nestedOps)
      (request .kline address anyUser) false).map (fun r => r.conf.ptr) = some 1 := by
    decide +kernel
  have hbucket : ((Atable.run nestedOps).bucket (slotOf address)).map (fun r => r.conf.ptr) =
      [2] := by
    decide +kernel
  obtain ⟨found, hfind, hptr⟩ := Option.map_eq_some_iff.mp hfound
  have hresult : removeKlineMatch noCrypt (fun _ => true) (Atable.run nestedOps) address anyUser =
      (deleteOneAddressConf (Atable.run nestedOps) address found.conf, true) := by
    unfold removeKlineMatch removeMatch
    rw [hfind]
    rfl
  have hsame : ∀ hv, (deleteOneAddressConf (Atable.run nestedOps) address found.conf).bucket hv =
      (Atable.run nestedOps).bucket hv := by
    intro hv
    show Function.update (Atable.run nestedOps).bucket (slotOf address) _ hv = _
    by_cases hhv : hv = slotOf address
    · subst hhv
      rw [Function.update_self]
      apply List.eraseP_of_forall_not
      intro x hx
      have hx2 : x.conf.ptr ∈ [2] := hbucket ▸ List.mem_map_of_mem hx
      simp [isConf, hptr, List.mem_singleton.mp hx2]
    · rw [Function.update_of_ne hhv]
  rw [hresult]
  intro ⟨hremoves, _⟩
  have hmem : addressRec .kline (klineConf 2 anyUser address) (decr 0xFFFFFFFF) ∈
      (AccessList.run nestedOps).entries := List.mem_cons_self
  obtain ⟨_, r, hr, _, hgone⟩ := hremoves ⟨_, hmem, saved_self 2 _ anyUser address⟩
  have hkept := mem_bucket (Atable.run nestedOps) _ (holds_run nestedOps) r hr
  rw [← hsame, hgone] at hkept
  simp [isConf] at hkept

end IrcdHybrid.Unkline
