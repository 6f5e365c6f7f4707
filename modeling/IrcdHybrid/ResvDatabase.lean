import IrcdHybrid.BanDatabase

/-!
The RESV database. Its loader copies the strings into the item and frees its own, and
`create_resv` takes no name that is reserved already, so what a cut file does depends on
what the two pointers hold when the reading stops: nothing yet, the strings of a record
that was passed over, or strings that are freed.
-/

namespace IrcdHybrid.ResvDatabase

open CString Codec BanDatabase

def reasonlen : ℕ := 180

/-- A RESV, in either list. -/
structure Resv where
  name : List Byte
  reason : List Byte
  setat : ℕ
  holdUntil : ℕ
  isConfDatabase : Bool

/-- `cresv_items` and `nresv_items`. -/
structure Resvs where
  cresv : List Resv
  nresv : List Resv

def chars (s : List Byte) : CStr := s.map (fun c => Char.ofNat c.val)

def isChanPrefix (name : List Byte) : Bool := (chars name).head? == some '#'

/-- `map_to_list`. -/
def Resvs.listOf (l : Resvs) (name : List Byte) : List Resv :=
  if isChanPrefix name then l.cresv else l.nresv

def Resvs.add (l : Resvs) (conf : Resv) : Resvs :=
  if isChanPrefix conf.name then ⟨conf :: l.cresv, l.nresv⟩ else ⟨l.cresv, conf :: l.nresv⟩

/-- `find_exact_name_conf` answers an item. -/
def reserved (l : Resvs) (name : List Byte) : Bool :=
  (l.listOf name).any
    (fun conf => !conf.name.isEmpty && irccmp (chars conf.name) (chars name) == 0)

/-- What a pointer of the loader holds. -/
inductive Ref where
  | null
  | live (text : List Byte)
  | freed

/-- The item made, if any; `none` where a freed string is read. -/
def createResv (l : Resvs) : Ref → Ref → Option (Option Resv)
  | .null, _ => some none
  | _, .null => some none
  | .freed, _ => none
  | .live name, reason =>
    if reserved l name then some none
    else
      match reason with
      | .live reason => some (some ⟨name, reason.take (min reason.length reasonlen), 0, 0, false⟩)
      | _ => none

structure Vars where
  name : Ref
  reason : Ref
  setat : ℕ
  hold : ℕ

/-- `SAFE_READ(read_string(&var, f))`. -/
def safeReadRef (var : Ref) (f : List Byte) : Ref × List Byte :=
  match readString f with
  | (none, rest) => (var, rest)
  | (some none, rest) => (.null, rest)
  | (some (some s), rest) => (.live s, rest)

def readVars (v : Vars) (f : List Byte) : Vars × List Byte :=
  let name := safeReadRef v.name f
  let reason := safeReadRef v.reason name.2
  let setat := readUint64 reason.2
  let hold := readUint64 setat.2
  (⟨name.1, reason.1, setat.1.getD v.setat, hold.1.getD v.hold⟩, hold.2)

/-- The loop of `load_resv_database`. -/
def loadResvs : ℕ → Vars → List Byte → Resvs → Option Resvs
  | 0, _, _, l => some l
  | records + 1, v, f, l =>
    let next := readVars v f
    match createResv l next.1.name next.1.reason with
    | none => none
    | some none => loadResvs records next.1 next.2 l
    | some (some conf) =>
      loadResvs records { next.1 with name := .freed, reason := .freed } next.2
        (l.add { conf with
          setat := next.1.setat, holdUntil := next.1.hold, isConfDatabase := true })

def loadResvDatabase (bytes : List Byte) (l : Resvs) : Option Resvs :=
  let header := loadHeader bytes
  loadResvs header.1 ⟨.null, .null, 0, 0⟩ header.2 l

/-- A record as it is saved. -/
structure ResvRecord where
  name : List Byte
  reason : List Byte
  setat : ℕ
  holdUntil : ℕ
  name_text : IsText (some name)
  reason_text : IsText (some reason)
  setat_lt : setat < 2 ^ 64
  holdUntil_lt : holdUntil < 2 ^ 64

def ResvRecord.record (r : ResvRecord) : Record :=
  ⟨[some r.name, some r.reason], r.setat, r.holdUntil⟩

/-- The records of the database. -/
structure SavedResvs where
  records : List ResvRecord
  few : records.length < 2 ^ 32

def saveResvDatabase (rs : List ResvRecord) : List Byte :=
  saveDatabase (rs.map ResvRecord.record)

def resvSize (r : ResvRecord) : ℕ := recordSize r.record

def nameSize (r : ResvRecord) : ℕ := (writeString (some r.name)).length

def reasonSize (r : ResvRecord) : ℕ := (writeString (some r.reason)).length

/-- A whole record makes an item, unless its name is reserved. -/
def install (l : Resvs) (r : ResvRecord) : Resvs :=
  if reserved l r.name then l
  else l.add ⟨r.name, r.reason.take (min r.reason.length reasonlen), r.setat, r.holdUntil, true⟩

/-- From the first `n` bytes come exactly the records that are completely in them, in order. -/
def InstallsComplete (l : Resvs) (rs : List ResvRecord) (n : ℕ) : Prop :=
  loadResvDatabase ((saveResvDatabase rs).take n) l =
    some ((contained resvSize rs (n - 8)).foldl install l)

/-- The cut is in a record after which the loader has no name to install: it is the first, and
its two strings are not both there; or the name that is there is reserved already, or is that of
the record before, which was passed over. -/
def CutUnseen (l : Resvs) (rs : List ResvRecord) (n : ℕ) : Prop :=
  ∃ before r after m, rs = before ++ r :: after ∧ n = 8 + (before.map resvSize).sum + m ∧
    m < resvSize r ∧
    ((before = [] ∧ m < nameSize r + reasonSize r) ∨
      (nameSize r ≤ m ∧ reserved (before.foldl install l) r.name = true) ∨
      (m < nameSize r ∧ ∃ earlier q, before = earlier ++ [q] ∧
        reserved (earlier.foldl install l) q.name = true))

theorem writeRecord_record (r : ResvRecord) (rest : List Byte) :
    writeRecord r.record ++ rest = writeString (some r.name) ++ (writeString (some r.reason) ++
      (writeUint64 r.setat ++ (writeUint64 r.holdUntil ++ rest))) := by
  simp [writeRecord, writeStrings, ResvRecord.record]

theorem resvSize_eq (r : ResvRecord) : resvSize r = nameSize r + reasonSize r + 16 := by
  have hlen := congrArg List.length (writeRecord_record r [])
  rw [List.append_nil, List.append_nil] at hlen
  unfold resvSize recordSize nameSize reasonSize
  rw [hlen, List.length_append, List.length_append, List.length_append, length_writeUint64,
    length_writeUint64]
  omega

theorem safeReadRef_take (s : List Byte) (var : Ref) (rest : List Byte) (m : ℕ)
    (h : IsText (some s)) :
    safeReadRef var ((writeString (some s) ++ rest).take m) =
      if (writeString (some s)).length ≤ m then
        (.live s, rest.take (m - (writeString (some s)).length))
      else (var, []) := by
  have hread : readString ((writeString (some s) ++ rest).take m) = _ :=
    string.read_take (some s) rest m h
  have hsize : string.size (some s) = (writeString (some s)).length := rfl
  rw [hsize] at hread
  unfold safeReadRef
  rw [hread]
  by_cases hm : (writeString (some s)).length ≤ m
  · rw [if_pos hm, if_pos hm]
  · rw [if_neg hm, if_neg hm]

theorem safeReadRef_nil (var : Ref) : safeReadRef var [] = (var, []) := rfl

theorem readUint64_nil : readUint64 [] = (none, []) := uint64.read_nil

theorem readUint64_take (val : ℕ) (rest : List Byte) (m : ℕ) (h : val < 2 ^ 64) :
    readUint64 ((writeUint64 val ++ rest).take m) =
      if 8 ≤ m then (some val, rest.take (m - 8)) else (none, []) := by
  have hread : readUint64 ((writeUint64 val ++ rest).take m) = _ :=
    uint64.read_take val rest m (show val < 256 ^ 8 by omega)
  have hsize : uint64.size val = 8 := length_writeUint64 val
  rw [hsize] at hread
  exact hread

theorem readVars_whole (r : ResvRecord) (v : Vars) (rest : List Byte) (m : ℕ)
    (hm : resvSize r ≤ m) :
    readVars v ((writeRecord r.record ++ rest).take m) =
      (⟨.live r.name, .live r.reason, r.setat, r.holdUntil⟩, rest.take (m - resvSize r)) := by
  have hsize := resvSize_eq r
  unfold nameSize reasonSize at hsize
  unfold readVars
  rw [writeRecord_record, safeReadRef_take _ _ _ _ r.name_text, if_pos (by omega)]
  dsimp only
  rw [safeReadRef_take _ _ _ _ r.reason_text, if_pos (by omega)]
  dsimp only
  rw [readUint64_take _ _ _ r.setat_lt, if_pos (by omega)]
  dsimp only
  rw [readUint64_take _ _ _ r.holdUntil_lt, if_pos (by omega)]
  have hleft : m - (writeString (some r.name)).length - (writeString (some r.reason)).length - 8 -
      8 = m - resvSize r := by omega
  rw [hleft]
  rfl

/-- A record that is cut: the strings that are there, and the end of the file. -/
theorem readVars_cut (r : ResvRecord) (v : Vars) (rest : List Byte) (m : ℕ)
    (hm : m < resvSize r) :
    (readVars v ((writeRecord r.record ++ rest).take m)).2 = [] ∧
      (readVars v ((writeRecord r.record ++ rest).take m)).1.name =
        (if nameSize r ≤ m then .live r.name else v.name) ∧
      (readVars v ((writeRecord r.record ++ rest).take m)).1.reason =
        (if nameSize r + reasonSize r ≤ m then .live r.reason else v.reason) := by
  have hsize := resvSize_eq r
  unfold nameSize reasonSize at hsize ⊢
  unfold readVars
  rw [writeRecord_record, safeReadRef_take _ _ _ _ r.name_text]
  by_cases hname : (writeString (some r.name)).length ≤ m
  · rw [if_pos hname, if_pos hname]
    dsimp only
    rw [safeReadRef_take _ _ _ _ r.reason_text]
    by_cases hreason : (writeString (some r.reason)).length ≤ m - (writeString (some r.name)).length
    · have hboth : (writeString (some r.name)).length + (writeString (some r.reason)).length ≤ m := by
        omega
      rw [if_pos hreason, if_pos hboth]
      dsimp only
      rw [readUint64_take _ _ _ r.setat_lt]
      split
      · have hshort : ¬ 8 ≤ m - (writeString (some r.name)).length -
            (writeString (some r.reason)).length - 8 := by omega
        dsimp only
        rw [readUint64_take _ _ _ r.holdUntil_lt, if_neg hshort]
        exact ⟨rfl, rfl, rfl⟩
      · dsimp only
        rw [readUint64_nil]
        exact ⟨rfl, rfl, rfl⟩
    · have hboth : ¬ (writeString (some r.name)).length + (writeString (some r.reason)).length ≤
          m := by omega
      rw [if_neg hreason, if_neg hboth]
      dsimp only
      rw [readUint64_nil]
      dsimp only
      rw [readUint64_nil]
      exact ⟨rfl, rfl, rfl⟩
  · have hboth : ¬ (writeString (some r.name)).length + (writeString (some r.reason)).length ≤
        m := by omega
    rw [if_neg hname, if_neg hname, if_neg hboth]
    dsimp only
    rw [safeReadRef_nil]
    dsimp only
    rw [readUint64_nil]
    dsimp only
    rw [readUint64_nil]
    exact ⟨rfl, rfl, rfl⟩

theorem readVars_nil (v : Vars) : readVars v [] = (v, []) := by
  unfold readVars
  rw [safeReadRef_nil]
  dsimp only
  rw [safeReadRef_nil]
  dsimp only
  rw [readUint64_nil]
  dsimp only
  rw [readUint64_nil]
  rfl

theorem createResv_live (l : Resvs) (name reason : List Byte) :
    createResv l (.live name) (.live reason) =
      some (if reserved l name then none
        else some ⟨name, reason.take (min reason.length reasonlen), 0, 0, false⟩) := by
  show (if reserved l name then some none
    else some (some (Resv.mk name (reason.take (min reason.length reasonlen)) 0 0 false))) = _
  by_cases hres : reserved l name = true
  · rw [if_pos hres, if_pos hres]
  · rw [if_neg hres, if_neg hres]

theorem createResv_live_iff (l : Resvs) (name : List Byte) (reason : Ref) (h : reason ≠ .null) :
    createResv l (.live name) reason = some none ↔ reserved l name = true := by
  cases reason with
  | null => exact absurd rfl h
  | live reason =>
    rw [createResv_live]
    split
    · simp [*]
    · simp [*]
  | freed =>
    show (if reserved l name then some none else none) = some none ↔ _
    split
    · simp [*]
    · simp [*]

/-- What the two pointers hold after a record. -/
def heldName (l : Resvs) (r : ResvRecord) : Ref :=
  if reserved l r.name then .live r.name else .freed

def heldReason (l : Resvs) (r : ResvRecord) : Ref :=
  if reserved l r.name then .live r.reason else .freed

theorem loadResvs_whole (r : ResvRecord) (records : ℕ) (v : Vars) (rest : List Byte) (m : ℕ)
    (l : Resvs) (hm : resvSize r ≤ m) :
    loadResvs (records + 1) v ((writeRecord r.record ++ rest).take m) l =
      loadResvs records ⟨heldName l r, heldReason l r, r.setat, r.holdUntil⟩
        (rest.take (m - resvSize r)) (install l r) := by
  conv_lhs => unfold loadResvs
  dsimp only
  rw [readVars_whole r v rest m hm]
  dsimp only
  rw [createResv_live]
  unfold heldName heldReason install
  by_cases hres : reserved l r.name = true
  · rw [if_pos hres, if_pos hres, if_pos hres, if_pos hres]
  · rw [if_neg hres, if_neg hres, if_neg hres, if_neg hres]

theorem loadResvs_nil (records : ℕ) (v : Vars) (l : Resvs)
    (h : createResv l v.name v.reason = some none) :
    loadResvs records v [] l = some l := by
  induction records with
  | zero => rfl
  | succ records ih =>
    unfold loadResvs
    rw [readVars_nil]
    dsimp only
    rw [h]
    exact ih

def Resvs.count (l : Resvs) : ℕ := l.cresv.length + l.nresv.length

theorem count_add (l : Resvs) (conf : Resv) : (l.add conf).count = l.count + 1 := by
  unfold Resvs.add Resvs.count
  split
  · show (conf :: l.cresv).length + l.nresv.length = _
    rw [List.length_cons]
    omega
  · show l.cresv.length + (conf :: l.nresv).length = _
    rw [List.length_cons]
    omega

theorem loadResvs_count (records : ℕ) (v : Vars) (f : List Byte) (l l' : Resvs)
    (h : loadResvs records v f l = some l') : l.count ≤ l'.count := by
  induction records generalizing v f l with
  | zero =>
    obtain rfl := Option.some.inj h
    exact Nat.le_refl _
  | succ records ih =>
    unfold loadResvs at h
    dsimp only at h
    split at h
    · exact absurd h (by simp)
    · exact ih _ _ _ h
    · have hle := ih _ _ _ h
      rw [count_add] at hle
      omega

/-- The cut iteration decides: it leaves the lists alone, or something else comes of it. -/
theorem loadResvs_cut (r : ResvRecord) (records : ℕ) (v : Vars) (rest : List Byte) (m : ℕ)
    (l : Resvs) (hm : m < resvSize r) :
    loadResvs (records + 1) v ((writeRecord r.record ++ rest).take m) l = some l ↔
      createResv l (if nameSize r ≤ m then .live r.name else v.name)
        (if nameSize r + reasonSize r ≤ m then .live r.reason else v.reason) = some none := by
  obtain ⟨hrest, hname, hreason⟩ := readVars_cut r v rest m hm
  rw [← hname, ← hreason]
  conv_lhs => unfold loadResvs
  dsimp only
  rw [hrest]
  cases hcreate : createResv l (readVars v ((writeRecord r.record ++ rest).take m)).1.name
      (readVars v ((writeRecord r.record ++ rest).take m)).1.reason with
  | none => simp
  | some made =>
    cases made with
    | none => exact ⟨fun _ => rfl, fun _ => loadResvs_nil records _ l hcreate⟩
    | some conf =>
      constructor
      · intro h
        have hle := loadResvs_count _ _ _ _ _ h
        rw [count_add] at hle
        omega
      · intro h
        exact absurd (Option.some.inj h) (by simp)

/-- The pointers after some whole records. -/
def held (v : Vars) (l : Resvs) : List ResvRecord → Vars
  | [] => v
  | r :: rs => held ⟨heldName l r, heldReason l r, r.setat, r.holdUntil⟩ (install l r) rs

theorem held_append (v : Vars) (l : Resvs) (earlier : List ResvRecord) (q : ResvRecord) :
    held v l (earlier ++ [q]) = ⟨heldName (earlier.foldl install l) q,
      heldReason (earlier.foldl install l) q, q.setat, q.holdUntil⟩ := by
  induction earlier generalizing v l with
  | nil => rfl
  | cons r earlier ih => exact ih _ _

theorem loadResvs_front (before : List ResvRecord) (records : ℕ) (v : Vars) (rest : List Byte)
    (m : ℕ) (l : Resvs) :
    loadResvs (before.length + records) v
        (((before.map ResvRecord.record).flatMap writeRecord ++ rest).take
          ((before.map resvSize).sum + m)) l =
      loadResvs records (held v l before) (rest.take m) (before.foldl install l) := by
  induction before generalizing v l with
  | nil => simp [held]
  | cons r before ih =>
    have hcount : (r :: before).length + records = before.length + records + 1 := by
      rw [List.length_cons]
      omega
    have hleft : resvSize r + (before.map resvSize).sum + m - resvSize r =
        (before.map resvSize).sum + m := by omega
    rw [hcount, List.map_cons, List.map_cons, List.flatMap_cons, List.append_assoc,
      List.sum_cons, loadResvs_whole r _ v _ _ l (by omega), hleft]
    exact ih _ _

theorem contained_front (before after : List ResvRecord) (r : ResvRecord) (m : ℕ)
    (hm : m < resvSize r) :
    contained resvSize (before ++ r :: after) ((before.map resvSize).sum + m) = before := by
  induction before with
  | nil =>
    show contained resvSize (r :: after) (0 + m) = []
    unfold contained
    rw [if_neg (by omega)]
  | cons q before ih =>
    rw [List.cons_append, List.map_cons, List.sum_cons]
    unfold contained
    have hleft : resvSize q + (before.map resvSize).sum + m - resvSize q =
        (before.map resvSize).sum + m := by omega
    rw [if_pos (by omega), hleft, ih]

theorem exists_cut (rs : List ResvRecord) (n : ℕ) (h : n < (rs.map resvSize).sum) :
    ∃ before r after m, rs = before ++ r :: after ∧ n = (before.map resvSize).sum + m ∧
      m < resvSize r := by
  induction rs generalizing n with
  | nil => simp at h
  | cons r rs ih =>
    by_cases hr : resvSize r ≤ n
    · rw [List.map_cons, List.sum_cons] at h
      obtain ⟨before, q, after, m, heq, hn, hm⟩ := ih (n - resvSize r) (by omega)
      refine ⟨r :: before, q, after, m, by rw [heq]; rfl, ?_, hm⟩
      rw [List.map_cons, List.sum_cons]
      omega
    · exact ⟨[], r, rs, n, rfl, by simp, by omega⟩

/-- What the pointers hold at the cut, and when that is nothing to install. -/
theorem createResv_cut_iff (l : Resvs) (before : List ResvRecord) (r : ResvRecord) (m : ℕ) :
    createResv (before.foldl install l)
        (if nameSize r ≤ m then .live r.name else (held ⟨.null, .null, 0, 0⟩ l before).name)
        (if nameSize r + reasonSize r ≤ m then .live r.reason
          else (held ⟨.null, .null, 0, 0⟩ l before).reason) = some none ↔
      (before = [] ∧ m < nameSize r + reasonSize r) ∨
        (nameSize r ≤ m ∧ reserved (before.foldl install l) r.name = true) ∨
        (m < nameSize r ∧ ∃ earlier q, before = earlier ++ [q] ∧
          reserved (earlier.foldl install l) q.name = true) := by
  rcases List.eq_nil_or_concat before with rfl | ⟨earlier, q, rfl⟩
  · by_cases hname : nameSize r ≤ m
    · rw [if_pos hname]
      by_cases hboth : nameSize r + reasonSize r ≤ m
      · rw [if_pos hboth, createResv_live_iff _ _ _ (by simp)]
        constructor
        · exact fun hres => Or.inr (Or.inl ⟨hname, hres⟩)
        · intro hor
          rcases hor with ⟨_, hlt⟩ | ⟨_, hres⟩ | ⟨hlt, _⟩
          · omega
          · exact hres
          · omega
      · rw [if_neg hboth]
        exact ⟨fun _ => Or.inl ⟨rfl, by omega⟩, fun _ => rfl⟩
    · rw [if_neg hname]
      exact ⟨fun _ => Or.inl ⟨rfl, by omega⟩, fun _ => rfl⟩
  · rw [List.concat_eq_append, held_append]
    by_cases hname : nameSize r ≤ m
    · have hreason : (if nameSize r + reasonSize r ≤ m then Ref.live r.reason
          else heldReason (earlier.foldl install l) q) ≠ .null := by
        unfold heldReason
        split
        · simp
        · split <;> simp
      rw [if_pos hname, createResv_live_iff _ _ _ hreason]
      constructor
      · exact fun hres => Or.inr (Or.inl ⟨hname, hres⟩)
      · intro hor
        rcases hor with ⟨hnil, _⟩ | ⟨_, hres⟩ | ⟨hlt, _⟩
        · simp at hnil
        · exact hres
        · omega
    · have hboth : ¬ nameSize r + reasonSize r ≤ m := by omega
      rw [if_neg hname, if_neg hboth]
      unfold heldName heldReason
      by_cases hres : reserved (earlier.foldl install l) q.name = true
      · rw [if_pos hres, if_pos hres, createResv_live_iff _ _ _ (by simp), List.foldl_append]
        have hpassed : install (earlier.foldl install l) q = earlier.foldl install l := if_pos hres
        show reserved (install (earlier.foldl install l) q) q.name = true ↔ _
        rw [hpassed]
        exact ⟨fun _ => Or.inr (Or.inr ⟨by omega, earlier, q, rfl, hres⟩), fun _ => hres⟩
      · rw [if_neg hres, if_neg hres]
        constructor
        · intro h
          exact absurd h (by simp [createResv])
        · intro hor
          rcases hor with ⟨hnil, _⟩ | ⟨hle, _⟩ | ⟨_, earlier', q', heq, hres'⟩
          · simp at hnil
          · exact absurd hle hname
          · obtain ⟨rfl, hq⟩ := List.append_inj' heq rfl
            rw [← List.cons.inj hq |>.1] at hres'
            exact absurd hres' hres

theorem length_saveResvDatabase (rs : List ResvRecord) :
    (saveResvDatabase rs).length = 8 + (rs.map resvSize).sum := by
  unfold saveResvDatabase
  rw [length_saveDatabase, List.map_map]
  rfl

theorem resvSize_pos (r : ResvRecord) : 0 < resvSize r := recordSize_pos r.record

theorem cutUnseen_iff (l : Resvs) (before after : List ResvRecord) (r : ResvRecord) (m : ℕ)
    (hm : m < resvSize r) :
    CutUnseen l (before ++ r :: after) (8 + (before.map resvSize).sum + m) ↔
      (before = [] ∧ m < nameSize r + reasonSize r) ∨
        (nameSize r ≤ m ∧ reserved (before.foldl install l) r.name = true) ∨
        (m < nameSize r ∧ ∃ earlier q, before = earlier ++ [q] ∧
          reserved (earlier.foldl install l) q.name = true) := by
  constructor
  · intro ⟨before', r', after', m', heq, hn, hm', hor⟩
    have hfront := contained_front before after r m hm
    have hfront' := contained_front before' after' r' m' hm'
    have hsum : (before'.map resvSize).sum + m' = (before.map resvSize).sum + m := by omega
    rw [← heq, hsum, hfront] at hfront'
    subst hfront'
    obtain ⟨rfl, _⟩ := List.cons.inj (List.append_cancel_left heq)
    obtain rfl : m' = m := by omega
    exact hor
  · exact fun hor => ⟨before, r, after, m, rfl, rfl, hm, hor⟩

/-- Exactly which cuts the loader of the RESV database survives. -/
theorem resvsInstalled_iff (l : Resvs) (saved : SavedResvs) (n : ℕ) :
    InstallsComplete l saved.records n ↔
      n < 8 ∨ (saveResvDatabase saved.records).length ≤ n ∨ CutUnseen l saved.records n := by
  obtain ⟨rs, few⟩ := saved
  have hfew : (rs.map ResvRecord.record).length < 2 ^ 32 := by rwa [List.length_map]
  dsimp only
  rw [length_saveResvDatabase]
  unfold InstallsComplete loadResvDatabase saveResvDatabase
  rw [loadHeader_take _ n hfew, List.length_map]
  by_cases hn : n < 8
  · rw [if_pos hn, Nat.sub_eq_zero_of_le (by omega), contained_zero _ _ resvSize_pos]
    exact ⟨fun _ => Or.inl hn, fun _ => rfl⟩
  · rw [if_neg hn]
    by_cases hall : (rs.map resvSize).sum ≤ n - 8
    · have hrun := loadResvs_front rs 0 ⟨.null, .null, 0, 0⟩ []
        (n - 8 - (rs.map resvSize).sum) l
      rw [List.append_nil, Nat.add_sub_cancel' hall] at hrun
      rw [(contained_eq_self_iff resvSize rs (n - 8)).mpr hall]
      exact ⟨fun _ => Or.inr (Or.inl (by omega)), fun _ => hrun⟩
    · obtain ⟨before, r, after, m, rfl, hcut, hm⟩ := exists_cut rs (n - 8) (by omega)
      have hn8 : n = 8 + (before.map resvSize).sum + m := by omega
      have hcount : (before ++ r :: after).length = before.length + (after.length + 1) := by
        rw [List.length_append, List.length_cons]
      have hbytes : ((before ++ r :: after).map ResvRecord.record).flatMap writeRecord =
          (before.map ResvRecord.record).flatMap writeRecord ++
            (writeRecord r.record ++ (after.map ResvRecord.record).flatMap writeRecord) := by
        simp
      rw [hcount, hbytes, hcut, loadResvs_front, contained_front before after r m hm,
        loadResvs_cut r _ _ _ m _ hm, createResv_cut_iff, ← cutUnseen_iff l before after r m hm,
        ← hn8]
      constructor
      · exact fun hor => Or.inr (Or.inr hor)
      · intro hor
        rcases hor with hlt | hle | hcut
        · exact absurd hlt hn
        · omega
        · exact hcut

/-- All five loaders, on all that can be left of a file. -/
theorem truncated_iff (n : ℕ) :
    (∀ saved : Saved kline,
      BanDatabase.InstallsComplete loadKlineDatabase saved.records n ↔
        n < 8 ∨ (saveDatabase saved.records).length ≤ n) ∧
    (∀ saved : Saved dline,
      BanDatabase.InstallsComplete loadDlineDatabase saved.records n ↔
        n < 8 ∨ (saveDatabase saved.records).length ≤ n) ∧
    (∀ saved : Saved gline,
      BanDatabase.InstallsComplete loadGlineDatabase saved.records n ↔
        n < 8 ∨ (saveDatabase saved.records).length ≤ n) ∧
    (∀ saved : Saved xline,
      BanDatabase.InstallsComplete loadXlineDatabase saved.records n ↔
        n < 8 ∨ (saveDatabase saved.records).length ≤ n) ∧
    ∀ (l : Resvs) (saved : SavedResvs),
      InstallsComplete l saved.records n ↔
        n < 8 ∨ (saveResvDatabase saved.records).length ≤ n ∨ CutUnseen l saved.records n :=
  ⟨fun saved => installsComplete_iff kline saved n, fun saved => installsComplete_iff dline saved n,
    fun saved => installsComplete_iff gline saved n, fun saved => installsComplete_iff xline saved n,
    fun l saved => resvsInstalled_iff l saved n⟩

/-- Two K-lines: a user, a host and a reason each. -/
def savedKlines : List Record :=
  [⟨["*", "a.b", "x"].map (fun s => some (bytesOf s.toList)), 1, 2⟩,
    ⟨["*", "c.d", "y"].map (fun s => some (bytesOf s.toList)), 3, 4⟩]

/-- Cut behind the first record, the file gives that one twice, with the same strings. -/
theorem cut_kline_twice :
    ¬ BanDatabase.InstallsComplete loadKlineDatabase savedKlines 44 := by
  intro ⟨items, hload, hrecords, _⟩
  have htwo : (loadKlineDatabase ((saveDatabase savedKlines).take 44)).map List.length = some 2 := by
    decide +kernel
  have hone : (complete savedKlines 44).length = 1 := by decide +kernel
  rw [hload] at htwo
  have hlen := congrArg List.length hrecords
  rw [List.length_map, hone] at hlen
  have hcount : items.length = 2 := Option.some.inj htwo
  omega

end IrcdHybrid.ResvDatabase
