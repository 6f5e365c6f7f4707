import IrcdHybrid.Codec
import IrcdHybrid.CString
import Mathlib.Data.List.Range
import Mathlib.Data.List.Nodup

/-!
The ban databases. A file is a version number, a count, and so many records; strings have
their length in front, numbers are big-endian. `SAFE_READ` is a loop of its own, so the
`break` in it leaves nothing but the macro: when a read fails, the variable keeps what it
had and the loader goes on, to the last of the records that the count promises.
-/

namespace IrcdHybrid.BanDatabase

open CString Codec

abbrev Byte := Fin 256

instance instNeZeroByte : NeZero 256 := ⟨by decide⟩

def uint32 : Format Byte ℕ := number 256 4 (by decide)

def uint64 : Format Byte ℕ := number 256 8 (by decide)

def writeUint32 (val : ℕ) : List Byte := uint32.write val

def readUint32 (f : List Byte) : Option ℕ × List Byte := uint32.read f

def writeUint64 (val : ℕ) : List Byte := uint64.write val

def readUint64 (f : List Byte) : Option ℕ × List Byte := uint64.read f

def writeString : Option (List Byte) → List Byte
  | none => writeUint32 0
  | some s =>
    let len := min (s.length % 2 ^ 32) 4294967294
    writeUint32 (len + 1) ++ s.take len ++ [0]

/-- The string that is pointed to ends at the first zero byte of what was read. -/
def readString (f : List Byte) : Option (Option (List Byte)) × List Byte :=
  match readUint32 f with
  | (none, f) => (none, f)
  | (some len, f) =>
    if len = 0 then (some none, f)
    else if len ≤ f.length then (some (some ((f.take len).takeWhile (fun c => c ≠ 0))), f.drop len)
    else (none, [])

def bytesOf (s : CStr) : List Byte := s.map (fun c => Fin.ofNat 256 c.toNat)

/-- A C string, no longer than the length field can say. -/
def IsText : Option (List Byte) → Prop
  | none => True
  | some s => 0 ∉ s ∧ s.length < 2 ^ 32 - 1

theorem writeString_some (s : List Byte) (h : IsText (some s)) :
    writeString (some s) = writeUint32 (s.length + 1) ++ (s ++ [0]) := by
  have hlen : s.length < 2 ^ 32 - 1 := h.2
  have hmin : min (s.length % 2 ^ 32) 4294967294 = s.length := by
    rw [Nat.mod_eq_of_lt (by omega)]
    omega
  unfold writeString
  dsimp only
  rw [hmin, List.take_length, List.append_assoc]

theorem length_writeUint32 (val : ℕ) : (writeUint32 val).length = 4 := length_digits 256 4 val

theorem length_writeUint64 (val : ℕ) : (writeUint64 val).length = 8 := length_digits 256 8 val

theorem readUint32_write (val : ℕ) (rest : List Byte) (h : val < 2 ^ 32) :
    readUint32 (writeUint32 val ++ rest) = (some val, rest) :=
  uint32.read_write val rest (show val < 256 ^ 4 by omega)

theorem readString_write (s : Option (List Byte)) (rest : List Byte) (h : IsText s) :
    readString (writeString s ++ rest) = (some s, rest) := by
  cases s with
  | none =>
    unfold writeString readString
    rw [readUint32_write 0 rest (by omega)]
    rfl
  | some s =>
    have hlen : s.length < 2 ^ 32 - 1 := h.2
    rw [writeString_some s h, List.append_assoc]
    unfold readString
    rw [readUint32_write _ _ (by omega)]
    have htake : (s ++ [0] ++ rest).take (s.length + 1) = s ++ [0] :=
      List.take_left' (by simp)
    have hdrop : (s ++ [0] ++ rest).drop (s.length + 1) = rest := List.drop_left' (by simp)
    have hwhile : (s ++ [(0 : Byte)]).takeWhile (fun c => c ≠ 0) = s := by
      rw [List.takeWhile_append_of_pos]
      · simp
      · intro c hc
        have hne : c ≠ 0 := fun heq => h.1 (heq ▸ hc)
        simpa using hne
    dsimp only
    rw [if_neg (by omega), if_pos (by simp), htake, hdrop, hwhile]

/-- Strings notice the end of the file too: in their length, or in their text. -/
theorem readString_cut (s : Option (List Byte)) (front : List Byte) (h : IsText s)
    (hfront : front <+: writeString s) (hne : front ≠ writeString s) :
    readString front = (none, []) := by
  cases s with
  | none =>
    unfold readString
    rw [show readUint32 front = (none, []) from
      uint32.read_cut 0 front (show 0 < 256 ^ 4 by omega) hfront hne]
  | some s =>
    have hlen : s.length < 2 ^ 32 - 1 := h.2
    have hvalid : uint32.Valid (s.length + 1) := show s.length + 1 < 256 ^ 4 by omega
    rw [writeString_some s h] at hfront hne
    have hprefix : writeUint32 (s.length + 1) <+: writeUint32 (s.length + 1) ++ (s ++ [0]) :=
      List.prefix_append _ _
    unfold readString
    rcases List.prefix_or_prefix_of_prefix hfront hprefix with hshort | ⟨text, rfl⟩
    · by_cases heq : front = writeUint32 (s.length + 1)
      · have hread := readUint32_write (s.length + 1) [] (by omega)
        rw [List.append_nil] at hread
        rw [heq, hread]
        simp
      · rw [show readUint32 front = (none, []) from uint32.read_cut _ front hvalid hshort heq]
    · rw [readUint32_write _ _ (by omega)]
      have hle := hfront.length_le
      have hneq : text.length ≠ (s ++ [(0 : Byte)]).length := by
        intro heq
        apply hne
        apply hfront.eq_of_length
        rw [List.length_append, List.length_append, heq]
      simp only [List.length_append, List.length_singleton] at hle hneq
      dsimp only
      rw [if_neg (by omega), if_neg (by omega)]

def string : Format Byte (Option (List Byte)) where
  Valid := IsText
  write := writeString
  read := readString
  read_write := readString_write
  read_cut := readString_cut
  read_nil := rfl

/-- What one record of a file says. -/
structure Record where
  strings : List (Option (List Byte))
  setat : ℕ
  holdUntil : ℕ

/-- How many strings a record of the database has, and which of them
`add_conf_by_address` needs. -/
structure Kind where
  strings : ℕ
  host : Option ℕ

/-- User, host and reason. -/
def kline : Kind := ⟨3, some 1⟩

def gline : Kind := ⟨3, some 1⟩

/-- Host and reason. -/
def dline : Kind := ⟨2, some 0⟩

/-- Name and reason. -/
def xline : Kind := ⟨2, none⟩

def hasHost (k : Kind) (strings : List (Option (List Byte))) : Bool :=
  k.host.all (fun i => ((strings[i]?).join).any (fun host => !host.isEmpty))

structure Record.Valid (k : Kind) (r : Record) : Prop where
  length : r.strings.length = k.strings
  text : ∀ s ∈ r.strings, IsText s
  host : hasHost k r.strings = true
  setat : r.setat < 2 ^ 64
  holdUntil : r.holdUntil < 2 ^ 64

/-- The records of one database, as they are saved. -/
structure Saved (k : Kind) where
  records : List Record
  valid : ∀ r ∈ records, r.Valid k
  few : records.length < 2 ^ 32

def writeStrings (strings : List (Option (List Byte))) : List Byte := strings.flatMap writeString

def writeRecord (r : Record) : List Byte :=
  writeStrings r.strings ++ (writeUint64 r.setat ++ writeUint64 r.holdUntil)

def klineDbVersion : ℕ := 1

/-- `save_kline_database` and its like. -/
def saveDatabase (rs : List Record) : List Byte :=
  writeUint32 klineDbVersion ++ (writeUint32 rs.length ++ rs.flatMap writeRecord)

/-- A string on the heap. -/
structure Str where
  ptr : ℕ
  text : List Byte

/-- What is unread, and the next address of the allocator. -/
structure File where
  bytes : List Byte
  heap : ℕ

/-- `SAFE_READ(read_string(&var, f))`. -/
def safeReadString (var : Option Str) (f : File) : Option Str × File :=
  match readString f.bytes with
  | (none, rest) => (var, ⟨rest, f.heap⟩)
  | (some none, rest) => (none, ⟨rest, f.heap⟩)
  | (some (some s), rest) => (some ⟨f.heap, s⟩, ⟨rest, f.heap + 1⟩)

/-- `SAFE_READ(read_uint64(&var, f))`. -/
def safeReadUint64 (var : ℕ) (f : File) : ℕ × File :=
  let res := readUint64 f.bytes
  (res.1.getD var, ⟨res.2, f.heap⟩)

def safeReadStrings : List (Option Str) → File → List (Option Str) × File
  | [], f => ([], f)
  | var :: vars, f =>
    let first := safeReadString var f
    let rest := safeReadStrings vars first.2
    (first.1 :: rest.1, rest.2)

/-- The variables of a loader, and the item that is made of them. -/
structure Fields where
  strings : List (Option Str)
  setat : ℕ
  holdUntil : ℕ

def Fields.record (v : Fields) : Record := ⟨v.strings.map (Option.map Str.text), v.setat, v.holdUntil⟩

def Fields.ptrs (v : Fields) : List ℕ := v.strings.filterMap (Option.map Str.ptr)

def readFields (v : Fields) (f : File) : Fields × File :=
  let strings := safeReadStrings v.strings f
  let setat := safeReadUint64 v.setat strings.2
  let hold := safeReadUint64 v.holdUntil setat.2
  (⟨strings.1, setat.1, hold.1⟩, hold.2)

/-- The loop of a loader: the items it makes, or `none` where a null or empty host is handed to
`add_conf_by_address`. -/
def loadRecords (k : Kind) : ℕ → Fields → File → Option (List Fields)
  | 0, _, _ => some []
  | records + 1, v, f =>
    let next := readFields v f
    if hasHost k next.1.record.strings then
      (loadRecords k records next.1 next.2).map (fun items => next.1 :: items)
    else none

/-- The number of records to read; none when there is no version. -/
def loadHeader (bytes : List Byte) : ℕ × List Byte :=
  match readUint32 bytes with
  | (none, f) => (0, f)
  | (some version, f) =>
    if version < 1 then (0, f)
    else
      let records := readUint32 f
      (records.1.getD 0, records.2)

def loadDatabase (k : Kind) (bytes : List Byte) : Option (List Fields) :=
  let header := loadHeader bytes
  loadRecords k header.1 ⟨List.replicate k.strings none, 0, 0⟩ ⟨header.2, 0⟩

def loadKlineDatabase : List Byte → Option (List Fields) := loadDatabase kline

def loadDlineDatabase : List Byte → Option (List Fields) := loadDatabase dline

def loadGlineDatabase : List Byte → Option (List Fields) := loadDatabase gline

def loadXlineDatabase : List Byte → Option (List Fields) := loadDatabase xline

def recordSize (r : Record) : ℕ := (writeRecord r).length

/-- The records that are completely in the first `n` bytes of the file. -/
def complete (rs : List Record) (n : ℕ) : List Record := contained recordSize rs (n - 8)

/-- From the first `n` bytes come exactly the records that are completely in them, in order, each
with strings of its own. -/
def InstallsComplete (load : List Byte → Option (List Fields)) (rs : List Record) (n : ℕ) :
    Prop :=
  ∃ items, load ((saveDatabase rs).take n) = some items ∧
    items.map Fields.record = complete rs n ∧ (items.flatMap Fields.ptrs).Nodup

theorem loadHeader_take (rs : List Record) (n : ℕ) (h : rs.length < 2 ^ 32) :
    loadHeader ((saveDatabase rs).take n) =
      if n < 8 then (0, []) else (rs.length, (rs.flatMap writeRecord).take (n - 8)) := by
  have hversion : uint32.Valid klineDbVersion := show 1 < 256 ^ 4 by omega
  have hcount : uint32.Valid rs.length := show rs.length < 256 ^ 4 by omega
  have hsize : ∀ v, uint32.size v = 4 := length_writeUint32
  have hread : readUint32 ((saveDatabase rs).take n) = _ := uint32.read_take klineDbVersion _ n hversion
  rw [hsize] at hread
  unfold loadHeader
  rw [hread]
  by_cases hn : 4 ≤ n
  · have hnext : readUint32 ((writeUint32 rs.length ++ rs.flatMap writeRecord).take (n - 4)) = _ :=
      uint32.read_take rs.length _ (n - 4) hcount
    rw [hsize] at hnext
    rw [if_pos hn]
    dsimp only
    rw [if_neg (by decide), hnext]
    by_cases hn8 : n < 8
    · rw [if_neg (by omega), if_pos hn8]
      rfl
    · rw [if_pos (by omega), if_neg hn8, Nat.sub_sub]
      rfl
  · rw [if_neg hn, if_pos (by omega)]

/-- The strings, as the allocator places them. -/
def placed : ℕ → List (Option (List Byte)) → List (Option Str)
  | _, [] => []
  | heap, none :: ss => none :: placed heap ss
  | heap, some s :: ss => some ⟨heap, s⟩ :: placed (heap + 1) ss

def countTexts (ss : List (Option (List Byte))) : ℕ := ss.countP Option.isSome

theorem placed_text (heap : ℕ) (ss : List (Option (List Byte))) :
    (placed heap ss).map (Option.map Str.text) = ss := by
  induction ss generalizing heap with
  | nil => rfl
  | cons s ss ih =>
    cases s with
    | none => exact congrArg (List.cons none) (ih heap)
    | some s => exact congrArg (List.cons (some s)) (ih (heap + 1))

theorem placed_ptr (heap : ℕ) (ss : List (Option (List Byte))) :
    (placed heap ss).filterMap (Option.map Str.ptr) = List.range' heap (countTexts ss) := by
  induction ss generalizing heap with
  | nil => rfl
  | cons s ss ih =>
    cases s with
    | none => exact ih heap
    | some s =>
      show heap :: (placed (heap + 1) ss).filterMap (Option.map Str.ptr) = _
      rw [ih]
      unfold countTexts
      rw [List.countP_cons_of_pos rfl, List.range'_succ]

theorem safeReadStrings_write (ss : List (Option (List Byte))) (vars : List (Option Str))
    (heap : ℕ) (rest : List Byte) (h : ∀ s ∈ ss, IsText s) (hlen : vars.length = ss.length) :
    safeReadStrings vars ⟨writeStrings ss ++ rest, heap⟩ =
      (placed heap ss, ⟨rest, heap + countTexts ss⟩) := by
  induction ss generalizing vars heap with
  | nil =>
    rw [List.length_eq_zero_iff.mp hlen]
    rfl
  | cons s ss ih =>
    cases vars with
    | nil => simp at hlen
    | cons var vars =>
      have hread := readString_write s (writeStrings ss ++ rest) (h s (by simp))
      have htext : ∀ s ∈ ss, IsText s := fun s hs => h s (List.mem_cons_of_mem _ hs)
      have hlen' : vars.length = ss.length := by simpa using hlen
      have hbytes : writeStrings (s :: ss) ++ rest = writeString s ++ (writeStrings ss ++ rest) := by
        simp [writeStrings]
      unfold safeReadStrings safeReadString
      dsimp only
      rw [hbytes, hread]
      cases s with
      | none =>
        dsimp only
        rw [ih vars heap htext hlen']
        rfl
      | some s =>
        dsimp only
        rw [ih vars (heap + 1) htext hlen']
        unfold countTexts
        rw [List.countP_cons_of_pos rfl, Nat.add_assoc, Nat.add_comm 1]
        rfl

theorem readUint64_write (val : ℕ) (rest : List Byte) (h : val < 2 ^ 64) :
    readUint64 (writeUint64 val ++ rest) = (some val, rest) :=
  uint64.read_write val rest (show val < 256 ^ 8 by omega)

theorem readFields_write (k : Kind) (r : Record) (v : Fields) (heap : ℕ) (rest : List Byte)
    (h : r.Valid k) (hlen : v.strings.length = k.strings) :
    readFields v ⟨writeRecord r ++ rest, heap⟩ =
      (⟨placed heap r.strings, r.setat, r.holdUntil⟩, ⟨rest, heap + countTexts r.strings⟩) := by
  have hbytes : writeRecord r ++ rest =
      writeStrings r.strings ++ (writeUint64 r.setat ++ (writeUint64 r.holdUntil ++ rest)) := by
    simp [writeRecord]
  unfold readFields safeReadUint64
  rw [hbytes, safeReadStrings_write r.strings v.strings heap _ h.text (hlen.trans h.length.symm)]
  dsimp only
  rw [readUint64_write _ _ h.setat]
  dsimp only
  rw [readUint64_write _ _ h.holdUntil]
  rfl

/-- A loader that is given all the records makes them all, on strings that follow each other on
the heap. -/
theorem loadRecords_write (k : Kind) (rs : List Record) (v : Fields) (heap : ℕ)
    (h : ∀ r ∈ rs, r.Valid k) (hlen : v.strings.length = k.strings) :
    ∃ items, loadRecords k rs.length v ⟨rs.flatMap writeRecord, heap⟩ = some items ∧
      items.map Fields.record = rs ∧ ∃ m, items.flatMap Fields.ptrs = List.range' heap m := by
  induction rs generalizing v heap with
  | nil => exact ⟨[], rfl, rfl, 0, rfl⟩
  | cons r rs ih =>
    have hr := h r (by simp)
    have hread := readFields_write k r v heap (rs.flatMap writeRecord) hr hlen
    have hrecord : Fields.record ⟨placed heap r.strings, r.setat, r.holdUntil⟩ = r := by
      unfold Fields.record
      rw [placed_text]
    have hplaced : (placed heap r.strings).length = k.strings := by
      have hmap := congrArg List.length (placed_text heap r.strings)
      rw [List.length_map] at hmap
      exact hmap.trans hr.length
    obtain ⟨items, hload, hrecords, m, hptrs⟩ :=
      ih ⟨placed heap r.strings, r.setat, r.holdUntil⟩ (heap + countTexts r.strings)
        (fun r hr => h r (List.mem_cons_of_mem _ hr)) hplaced
    refine ⟨⟨placed heap r.strings, r.setat, r.holdUntil⟩ :: items, ?_, ?_,
      countTexts r.strings + m, ?_⟩
    · rw [List.length_cons, List.flatMap_cons]
      unfold loadRecords
      dsimp only
      rw [hread, hrecord, if_pos hr.host, hload]
      rfl
    · rw [List.map_cons, hrecord, hrecords]
    · rw [List.flatMap_cons, hptrs]
      unfold Fields.ptrs
      rw [placed_ptr, ← List.range'_append_1]

theorem loadRecords_length (k : Kind) (records : ℕ) (v : Fields) (f : File) (items : List Fields)
    (h : loadRecords k records v f = some items) : items.length = records := by
  induction records generalizing v f items with
  | zero =>
    obtain rfl := Option.some.inj h
    rfl
  | succ records ih =>
    unfold loadRecords at h
    dsimp only at h
    split at h
    · obtain ⟨rest, hrest, rfl⟩ := Option.map_eq_some_iff.mp h
      rw [List.length_cons, ih _ _ rest hrest]
    · exact absurd h (by simp)

theorem recordSize_pos (r : Record) : 0 < recordSize r := by
  unfold recordSize writeRecord
  rw [List.length_append, List.length_append, length_writeUint64, length_writeUint64]
  omega

theorem complete_of_lt (rs : List Record) (n : ℕ) (h : n < 8) : complete rs n = [] := by
  unfold complete
  rw [Nat.sub_eq_zero_of_le (by omega)]
  exact contained_zero recordSize rs recordSize_pos

theorem length_saveDatabase (rs : List Record) :
    (saveDatabase rs).length = 8 + (rs.map recordSize).sum := by
  unfold saveDatabase
  rw [List.length_append, List.length_append, length_writeUint32, length_writeUint32,
    List.length_flatMap]
  show 4 + (4 + (rs.map recordSize).sum) = _
  omega

/-- Once the count is read, nothing but the end of the file will do. -/
theorem installsComplete_iff (k : Kind) (saved : Saved k) (n : ℕ) :
    InstallsComplete (loadDatabase k) saved.records n ↔
      n < 8 ∨ (saveDatabase saved.records).length ≤ n := by
  unfold InstallsComplete loadDatabase
  rw [loadHeader_take saved.records n saved.few]
  by_cases hn : n < 8
  · rw [if_pos hn, complete_of_lt _ n hn]
    exact ⟨fun _ => Or.inl hn, fun _ => ⟨[], rfl, rfl, List.nodup_nil⟩⟩
  · rw [if_neg hn, length_saveDatabase]
    constructor
    · intro ⟨items, hload, hrecords, _⟩
      have hcount := loadRecords_length k _ _ _ items hload
      have hlen := congrArg List.length hrecords
      rw [List.length_map, hcount] at hlen
      have hall := (contained_initial recordSize saved.records (n - 8)).eq_of_length hlen.symm
      have hsum := (contained_eq_self_iff recordSize saved.records (n - 8)).mp hall
      exact Or.inr (by omega)
    · intro hor
      have hsum : (saved.records.map recordSize).sum ≤ n - 8 := by omega
      have hall := (contained_eq_self_iff recordSize saved.records (n - 8)).mpr hsum
      have hbytes : (saved.records.flatMap writeRecord).length ≤ n - 8 := by
        rw [List.length_flatMap]
        exact hsum
      obtain ⟨items, hload, hrecords, m, hptrs⟩ :=
        loadRecords_write k saved.records ⟨List.replicate k.strings none, 0, 0⟩ 0 saved.valid
          (List.length_replicate)
      rw [List.take_of_length_le hbytes]
      refine ⟨items, hload, hrecords.trans hall.symm, ?_⟩
      rw [hptrs]
      exact List.nodup_range'

end IrcdHybrid.BanDatabase
