import IrcdHybrid.BanTables
import IrcdHybrid.Stdio

/-!
Saving the ban databases. A saver writes a temporary file beside the database, gives up at the
first write that fails, and moves the file over the database only when it is closed and
nothing failed. So whatever the system refuses, and wherever, the database is what it was or
it is the new one in full; what is left of a temporary file is removed by the next save.
-/

namespace IrcdHybrid.DatabaseSave

open CString BanDatabase BanTables Stdio

def hybPathMax : ℕ := 4096

/-- The configured directory; the names of the databases in it are no longer than a path may be. -/
structure DataPath where
  text : CStr
  short : text.length + 9 < hybPathMax

section Calls

variable (fate : ℕ → Fate)

/-- The bytes of a number, one call each. -/
def putBytes (bytes : List Byte) : Write CStr Byte := Write.all (bytes.map (fputc fate))

def putUint32 (val : ℕ) : Write CStr Byte := putBytes fate (writeUint32 val)

def putUint64 (val : ℕ) : Write CStr Byte := putBytes fate (writeUint64 val)

/-- `fwrite(s, 1, len, f->fp) != len` is a failure. -/
def putText (s : List Byte) : Write CStr Byte := fun sys =>
  let res := fwrite fate s sys
  (res.1 == s.length, res.2)

def putString : Option (List Byte) → Write CStr Byte
  | none => putUint32 fate 0
  | some s =>
    let len := min (s.length % 2 ^ 32) 4294967294
    (putUint32 fate (len + 1)).andThen
      ((if 0 < len then putText fate (s.take len) else Write.done).andThen (fputc fate 0))

/-- `struct dbFILE` of a file that is open for writing. -/
structure DbFile where
  filename : CStr
  tempname : CStr

def openDbWrite (name : CStr) (version : ℕ) (s : System CStr Byte) :
    Option DbFile × System CStr Byte :=
  let filename := name.take hybPathMax
  let tempname := (filename ++ ".new".toList).take hybPathMax
  if tempname = [] ∨ tempname = filename then (none, s)
  else
    let opened := openExcl fate tempname (remove fate tempname s)
    let fp := if opened.1 then fdopen fate tempname opened.2 else opened
    let versioned := if fp.1 then putUint32 fate version fp.2 else fp
    if versioned.1 then (some ⟨filename, tempname⟩, versioned.2)
    else
      let closed := if fp.1 then (fclose fate versioned.2).2 else versioned.2
      (none, remove fate tempname closed)

def restoreDb (f : DbFile) (s : System CStr Byte) : System CStr Byte :=
  remove fate f.tempname (fclose fate s).2

def closeDb (f : DbFile) (s : System CStr Byte) : System CStr Byte :=
  let closed := fclose fate s
  if closed.1 then
    if f.tempname ≠ [] ∧ f.tempname ≠ f.filename then
      let renamed := rename fate f.tempname f.filename closed.2
      if renamed.1 then renamed.2 else remove fate f.tempname renamed.2
    else closed.2
  else closed.2

/-- The first pass over the list, on an unsigned int. -/
def countRecords {α : Type*} (l : List α) : ℕ := l.foldl (fun records _ => (records + 1) % 2 ^ 32) 0

/-- `SAFE_WRITE` for every field of a record. -/
def putRecord (r : Record) : Write CStr Byte :=
  (Write.all (r.strings.map (putString fate))).andThen
    ((putUint64 fate r.setat).andThen (putUint64 fate r.holdUntil))

/-- Open, write, and either restore or close. -/
def save (name : CStr) (rs : List Record) (s : System CStr Byte) : System CStr Byte :=
  match openDbWrite fate name klineDbVersion s with
  | (none, s) => s
  | (some f, s) =>
    let written :=
      ((putUint32 fate (countRecords rs)).andThen (Write.all (rs.map (putRecord fate)))) s
    if written.1 then closeDb fate f written.2 else restoreDb fate f written.2

variable (dir : DataPath)

def kpath : CStr := dir.text ++ "/kline.db".toList

def resvpath : CStr := dir.text ++ "/resv.db".toList

def dlpath : CStr := dir.text ++ "/dline.db".toList

def xpath : CStr := dir.text ++ "/xline.db".toList

def gpath : CStr := dir.text ++ "/gline.db".toList

def saveKlineDatabase (t : Tables) : System CStr Byte → System CStr Byte :=
  save fate (kpath dir) (t.klines.map Conf.userHostReason)

def saveDlineDatabase (t : Tables) : System CStr Byte → System CStr Byte :=
  save fate (dlpath dir) (t.dlines.map Conf.hostReason)

def saveGlineDatabase (t : Tables) : System CStr Byte → System CStr Byte :=
  save fate (gpath dir) (t.glines.map Conf.userHostReason)

def saveResvDatabase (t : Tables) : System CStr Byte → System CStr Byte :=
  save fate (resvpath dir) (t.resvs.map Conf.nameReason)

def saveXlineDatabase (t : Tables) : System CStr Byte → System CStr Byte :=
  save fate (xpath dir) (t.xlines.map Conf.nameReason)

end Calls

inductive Database where
  | kline | dline | gline | resv | xline

def Database.path (dir : DataPath) : Database → CStr
  | .kline => kpath dir
  | .dline => dlpath dir
  | .gline => gpath dir
  | .resv => resvpath dir
  | .xline => xpath dir

def Database.saver (fate : ℕ → Fate) (dir : DataPath) (t : Tables) :
    Database → System CStr Byte → System CStr Byte
  | .kline => saveKlineDatabase fate dir t
  | .dline => saveDlineDatabase fate dir t
  | .gline => saveGlineDatabase fate dir t
  | .resv => saveResvDatabase fate dir t
  | .xline => saveXlineDatabase fate dir t

def Database.records (t : Tables) : Database → List Record
  | .kline => t.klines.map Conf.userHostReason
  | .dline => t.dlines.map Conf.hostReason
  | .gline => t.glines.map Conf.userHostReason
  | .resv => t.resvs.map Conf.nameReason
  | .xline => t.xlines.map Conf.nameReason

/-- The complete file. -/
def Database.contents (t : Tables) (db : Database) : List Byte := saveDatabase (db.records t)

theorem Database.saver_eq (fate : ℕ → Fate) (dir : DataPath) (t : Tables) (db : Database) :
    db.saver fate dir t = save fate (db.path dir) (db.records t) := by
  cases db with
  | kline => rfl
  | dline => rfl
  | gline => rfl
  | resv => rfl
  | xline => rfl

theorem Database.length_path (dir : DataPath) (db : Database) :
    (db.path dir).length < hybPathMax := by
  have hshort := dir.short
  cases db with
  | kline => exact (List.length_append ..).trans_lt hshort
  | dline => exact (List.length_append ..).trans_lt hshort
  | gline => exact (List.length_append ..).trans_lt hshort
  | resv =>
    show (dir.text ++ _).length < _
    rw [List.length_append]
    exact (Nat.lt_succ_self _).trans hshort
  | xline => exact (List.length_append ..).trans_lt hshort

variable {fate : ℕ → Fate} {path : CStr} {before : CStr → Option (List Byte)}

theorem puts_putBytes (bytes : List Byte) : Puts fate (putBytes fate bytes) bytes := by
  have h : Puts fate (putBytes fate bytes) (bytes.flatMap fun byte => [byte]) :=
    puts_all _ _ bytes (fun byte _ => puts_fputc byte)
  rw [List.flatMap_singleton'] at h
  exact h

theorem puts_putUint32 (val : ℕ) : Puts fate (putUint32 fate val) (writeUint32 val) :=
  puts_putBytes _

theorem puts_putUint64 (val : ℕ) : Puts fate (putUint64 fate val) (writeUint64 val) :=
  puts_putBytes _

theorem puts_putString (s : Option (List Byte)) : Puts fate (putString fate s) (writeString s) := by
  cases s with
  | none => exact puts_putUint32 0
  | some s =>
    unfold putString writeString
    dsimp only
    rw [List.append_assoc]
    apply puts_andThen (puts_putUint32 _)
    apply puts_andThen _ (puts_fputc 0)
    split
    · rename_i hpos
      apply puts_fwrite
      apply List.ne_nil_of_length_pos
      rw [List.length_take]
      omega
    · rename_i hzero
      rw [Nat.eq_zero_of_not_pos hzero, List.take_zero]
      exact puts_done

theorem puts_putRecord (r : Record) : Puts fate (putRecord fate r) (writeRecord r) :=
  puts_andThen (puts_all _ _ _ (fun s _ => puts_putString s))
    (puts_andThen (puts_putUint64 _) (puts_putUint64 _))

theorem countRecords_eq {α : Type*} (l : List α) : countRecords l = l.length % 2 ^ 32 := by
  have hcount : ∀ n, l.foldl (fun records _ => (records + 1) % 2 ^ 32) (n % 2 ^ 32) =
      (n + l.length) % 2 ^ 32 := by
    induction l with
    | nil => intro n; rfl
    | cons a l ih =>
      intro n
      rw [List.foldl_cons, List.length_cons, Nat.mod_add_mod, ih (n + 1)]
      omega
  have h := hcount 0
  rw [Nat.zero_add] at h
  exact h

/-- The four bytes do not see what a count has beyond them. -/
theorem writeUint32_mod (val : ℕ) : writeUint32 (val % 2 ^ 32) = writeUint32 val :=
  Codec.digits_mod 256 4 val

/-- Version, count and records. -/
def body (fate : ℕ → Fate) (rs : List Record) : Write CStr Byte :=
  (putUint32 fate (countRecords rs)).andThen (Write.all (rs.map (putRecord fate)))

theorem puts_body (rs : List Record) :
    Puts fate (body fate rs) (writeUint32 rs.length ++ rs.flatMap writeRecord) := by
  rw [← writeUint32_mod, ← countRecords_eq]
  exact puts_andThen (puts_putUint32 _) (puts_all _ _ _ (fun r _ => puts_putRecord r))

/-- The temporary file of a database. -/
def tempname (name : CStr) : CStr := (name.take hybPathMax ++ ".new".toList).take hybPathMax

theorem tempname_ne (name : CStr) (h : name.length < hybPathMax) :
    tempname name ≠ [] ∧ tempname name ≠ name := by
  have hlen : name.length < (tempname name).length := by
    unfold tempname
    rw [List.take_of_length_le h.le, List.length_take, List.length_append]
    exact lt_min h (Nat.lt_add_of_pos_right (by decide))
  constructor
  · exact List.ne_nil_of_length_pos (Nat.zero_lt_of_lt hlen)
  · intro heq
    rw [heq] at hlen
    exact Nat.lt_irrefl _ hlen

/-- A file that is opened holds its version, a file that is not opened leaves the others alone. -/
theorem openDbWrite_spec (name : CStr) (h : name.length < hybPathMax) (s : System CStr Byte) :
    ((openDbWrite fate name klineDbVersion s).1 = some ⟨name, tempname name⟩ ∧
      Holding (tempname name) s.file (writeUint32 klineDbVersion)
        (openDbWrite fate name klineDbVersion s).2) ∨
    ((openDbWrite fate name klineDbVersion s).1 = none ∧ ¬ Obliging fate ∧
      ∀ q ≠ tempname name, (openDbWrite fate name klineDbVersion s).2.file q = s.file q) := by
  have hne := tempname_ne name h
  have htake : name.take hybPathMax = name := List.take_of_length_le h.le
  unfold openDbWrite
  dsimp only
  rw [show (name.take hybPathMax ++ ".new".toList).take hybPathMax = tempname name from rfl, htake,
    if_neg (not_or.mpr hne)]
  have hothers : ∀ q ≠ tempname name,
      (openExcl fate (tempname name) (remove fate (tempname name) s)).2.file q = s.file q := by
    intro q hq
    rw [openExcl_others _ q hq, remove_others _ q hq]
  by_cases hopen : (openExcl fate (tempname name) (remove fate (tempname name) s)).1 = true
  · rw [if_pos hopen]
    have hempty := openExcl_empty _ hopen
    generalize (openExcl fate (tempname name) (remove fate (tempname name) s)).2 = opened
      at hothers hempty
    by_cases hfp : (fdopen fate (tempname name) opened).1 = true
    · have hholding := fdopen_holding opened hempty hothers hfp
      have hputs := @puts_putUint32 fate klineDbVersion
      rw [if_pos hfp]
      generalize (fdopen fate (tempname name) opened).2 = stream at hholding
      by_cases hver : (putUint32 fate klineDbVersion stream).1 = true
      · left
        rw [if_pos hver]
        exact ⟨rfl, hputs.put _ _ _ _ hholding hver⟩
      · right
        rw [if_neg hver, if_pos hfp]
        refine ⟨rfl, fun hobl => hver (hputs.obliging hobl _ _ _ _ hholding), ?_⟩
        intro q hq
        rw [remove_others _ q hq]
        exact fclose_others (hputs.fail _ _ _ _ hholding (Bool.eq_false_iff.mpr hver)) q hq
    · right
      rw [if_neg hfp, if_neg hfp, if_neg hfp]
      refine ⟨rfl, fun hobl => hfp (fdopen_obliging _ hobl), ?_⟩
      intro q hq
      rw [remove_others _ q hq, fdopen_file]
      exact hothers q hq
  · right
    rw [if_neg hopen, if_neg hopen, if_neg hopen, if_neg hopen]
    refine ⟨rfl, fun hobl => hopen (openExcl_obliging _ hobl (remove_obliging s hobl)), ?_⟩
    intro q hq
    rw [remove_others _ q hq]
    exact hothers q hq

theorem restoreDb_others (f : DbFile) {s : System CStr Byte} (h : Open f.tempname before s)
    (q : CStr) (hq : q ≠ f.tempname) : (restoreDb fate f s).file q = before q := by
  unfold restoreDb
  rw [remove_others _ q hq]
  exact fclose_others h q hq

theorem closeDb_spec (name : CStr) (h : name.length < hybPathMax) (bytes : List Byte)
    {s : System CStr Byte} (hs : Holding (tempname name) before bytes s) :
    (∀ q ≠ tempname name, q ≠ name →
      (closeDb fate ⟨name, tempname name⟩ s).file q = before q) ∧
    ((closeDb fate ⟨name, tempname name⟩ s).file name = some bytes ∨
      ((closeDb fate ⟨name, tempname name⟩ s).file name = before name ∧ ¬ Obliging fate)) := by
  have hne := tempname_ne name h
  have hothers : ∀ q ≠ tempname name, (fclose fate s).2.file q = before q :=
    fclose_others hs.open
  unfold closeDb
  dsimp only
  by_cases hclosed : (fclose fate s).1 = true
  · rw [if_pos hclosed, if_pos hne]
    have hfull := fclose_holding hs hclosed
    have hfile := @rename_file CStr Byte _ fate (tempname name) name (fclose fate s).2
    by_cases hrenamed : (rename fate (tempname name) name (fclose fate s).2).1 = true
    · rw [if_pos hrenamed] at hfile ⊢
      rw [hfile]
      constructor
      · intro q hq hqname
        rw [Function.update_of_ne hq, Function.update_of_ne hqname]
        exact hothers q hq
      · left
        rw [Function.update_of_ne hne.2.symm, Function.update_self, hfull]
    · rw [if_neg hrenamed] at hfile ⊢
      constructor
      · intro q hq _
        rw [remove_others _ q hq, hfile]
        exact hothers q hq
      · right
        rw [remove_others _ name hne.2.symm, hfile]
        refine ⟨hothers name hne.2.symm, fun hobl => hrenamed (rename_obliging _ _ _ hobl ?_)⟩
        rw [hfull]
        rfl
  · rw [if_neg hclosed]
    exact ⟨fun q hq _ => hothers q hq, Or.inr ⟨hothers name hne.2.symm,
      fun hobl => hclosed (fclose_obliging hs.open hobl)⟩⟩

theorem save_opened (name : CStr) (rs : List Record) (s : System CStr Byte) (f : DbFile)
    (opened : System CStr Byte)
    (h : openDbWrite fate name klineDbVersion s = (some f, opened)) :
    save fate name rs s =
      if (body fate rs opened).1 then closeDb fate f (body fate rs opened).2
      else restoreDb fate f (body fate rs opened).2 := by
  unfold save
  rw [h]
  rfl

theorem save_refused (name : CStr) (rs : List Record) (s opened : System CStr Byte)
    (h : openDbWrite fate name klineDbVersion s = (none, opened)) :
    save fate name rs s = opened := by
  unfold save
  rw [h]

theorem save_spec (name : CStr) (h : name.length < hybPathMax) (rs : List Record)
    (s : System CStr Byte) :
    (∀ q ≠ tempname name, q ≠ name → (save fate name rs s).file q = s.file q) ∧
    ((save fate name rs s).file name = some (saveDatabase rs) ∨
      ((save fate name rs s).file name = s.file name ∧ ¬ Obliging fate)) := by
  have hne := tempname_ne name h
  have hspec := @openDbWrite_spec fate name h s
  cases hopened : openDbWrite fate name klineDbVersion s with
  | mk f opened =>
    rw [hopened] at hspec
    rcases hspec with ⟨hf, hholding⟩ | ⟨hf, hobl, hothers⟩
    · have hputs := @puts_body fate rs
      rw [save_opened name rs s _ opened (hopened.trans (congrArg (fun f => (f, opened)) hf))]
      by_cases hbody : (body fate rs opened).1 = true
      · rw [if_pos hbody]
        exact closeDb_spec name h (saveDatabase rs) (hputs.put _ _ _ _ hholding hbody)
      · have hopen := hputs.fail _ _ _ _ hholding (Bool.eq_false_iff.mpr hbody)
        rw [if_neg hbody]
        exact ⟨fun q hq _ => restoreDb_others _ hopen q hq,
          Or.inr ⟨restoreDb_others _ hopen name hne.2.symm,
            fun hobl => hbody (hputs.obliging hobl _ _ _ _ hholding)⟩⟩
    · rw [save_refused name rs s opened (hopened.trans (congrArg (fun f => (f, opened)) hf))]
      exact ⟨fun q hq _ => hothers q hq, Or.inr ⟨hothers name hne.2.symm, hobl⟩⟩

/-- Saving is atomic for each of the five databases: whatever call the system refuses, and after
however much of the data, the database is what it was or the new one in full, nothing but the
temporary file is touched besides, and a later save that meets no refusal succeeds. -/
theorem save_atomic (dir : DataPath) (db : Database) (fate : ℕ → Fate) (t : Tables)
    (s : System CStr Byte) :
    ((db.saver fate dir t s).file (db.path dir) = s.file (db.path dir) ∨
      (db.saver fate dir t s).file (db.path dir) = some (db.contents t)) ∧
    (∀ q, q ≠ db.path dir → q ≠ tempname (db.path dir) →
      (db.saver fate dir t s).file q = s.file q) ∧
    ∀ later t', Obliging later →
      (db.saver later dir t' (db.saver fate dir t s)).file (db.path dir) =
        some (db.contents t') := by
  have hlen := db.length_path dir
  refine ⟨?_, ?_, ?_⟩
  · rw [Database.saver_eq]
    rcases (save_spec (db.path dir) hlen (db.records t) s).2 with hnew | ⟨hold, -⟩
    · exact Or.inr hnew
    · exact Or.inl hold
  · intro q hq hqtemp
    rw [Database.saver_eq]
    exact (save_spec (db.path dir) hlen (db.records t) s).1 q hqtemp hq
  · intro later t' hobl
    rw [Database.saver_eq later]
    rcases (@save_spec later (db.path dir) hlen (db.records t') _).2 with
      hnew | ⟨-, hrefused⟩
    · exact hnew
    · exact absurd hobl hrefused

end IrcdHybrid.DatabaseSave
