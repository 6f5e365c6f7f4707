import Mathlib.Logic.Function.Basic
import Mathlib.Data.List.TakeDrop

/-!
Buffered output to a file on a system that may refuse any call. A stream holds back what it
was given until the buffer is flushed, some of it at a time, so a file that is written may
hold any front of what was put; only a close that goes through says that all of it is there.
A write that is built from smaller ones by stopping at the first that fails either puts all
its bytes or fails, and touches no other file.
-/

namespace IrcdHybrid.Stdio

variable {Path β : Type*} [DecidableEq Path]

/-- What becomes of one call: whether it goes through, how much of the buffer it flushes, and
how much a failing write takes. -/
structure Fate where
  ok : Bool
  flushed : ℕ
  taken : ℕ

structure Stream (Path β : Type*) where
  path : Path
  buffer : List β

/-- The files, the stream that is open for writing, and the calls made so far. -/
structure System (Path β : Type*) where
  file : Path → Option (List β)
  stream : Option (Stream Path β)
  calls : ℕ

section Calls

variable (fate : ℕ → Fate)

/-- The buffer of the open stream with `bytes` added, the first `k` of it flushed. -/
def System.put (s : System Path β) (bytes : List β) (k : ℕ) : System Path β :=
  match s.stream with
  | none => { s with calls := s.calls + 1 }
  | some st =>
    let buffer := st.buffer ++ bytes
    { file := Function.update s.file st.path
        (some ((s.file st.path).getD [] ++ buffer.take k))
      stream := some { st with buffer := buffer.drop k }
      calls := s.calls + 1 }

/-- Answers how many of the bytes are taken. -/
def fwrite (bytes : List β) (s : System Path β) : ℕ × System Path β :=
  let fate := fate s.calls
  let n := if fate.ok then bytes.length else min fate.taken (bytes.length - 1)
  (n, s.put (bytes.take n) fate.flushed)

/-- Answers whether the byte is taken. -/
def fputc (byte : β) (s : System Path β) : Bool × System Path β :=
  let res := fwrite fate [byte] s
  (res.1 == 1, res.2)

/-- Flushes the rest and closes; the stream is gone either way. -/
def fclose (s : System Path β) : Bool × System Path β :=
  match s.stream with
  | none => (false, { s with calls := s.calls + 1 })
  | some st =>
    let fate := fate s.calls
    let k := if fate.ok then st.buffer.length else fate.flushed
    (fate.ok, { s.put [] k with stream := none })

def remove (path : Path) (s : System Path β) : System Path β :=
  { s with
    file := if (fate s.calls).ok then Function.update s.file path none else s.file
    calls := s.calls + 1 }

/-- `open` with `O_CREAT | O_EXCL`. -/
def openExcl (path : Path) (s : System Path β) : Bool × System Path β :=
  if (fate s.calls).ok && (s.file path).isNone then
    (true, { s with file := Function.update s.file path (some []), calls := s.calls + 1 })
  else (false, { s with calls := s.calls + 1 })

def fdopen (path : Path) (s : System Path β) : Bool × System Path β :=
  if (fate s.calls).ok then (true, { s with stream := some ⟨path, []⟩, calls := s.calls + 1 })
  else (false, { s with calls := s.calls + 1 })

def rename (old new : Path) (s : System Path β) : Bool × System Path β :=
  if (fate s.calls).ok && (s.file old).isSome then
    (true, { s with
      file := Function.update (Function.update s.file new (s.file old)) old none
      calls := s.calls + 1 })
  else (false, { s with calls := s.calls + 1 })

end Calls

/-- A write answers whether it went through. -/
abbrev Write (Path β : Type*) := System Path β → Bool × System Path β

/-- The second only when the first went through. -/
def Write.andThen (w v : Write Path β) : Write Path β := fun s =>
  let res := w s
  if res.1 then v res.2 else res

def Write.done : Write Path β := fun s => (true, s)

def Write.all (ws : List (Write Path β)) : Write Path β := ws.foldr Write.andThen Write.done

/-- The stream is open on `path`; no other file has changed. -/
structure Open (path : Path) (before : Path → Option (List β)) (s : System Path β) : Prop where
  stream : ∃ buffer, s.stream = some ⟨path, buffer⟩
  others : ∀ q ≠ path, s.file q = before q

/-- And what is in the file and in the buffer is `bytes`. -/
structure Holding (path : Path) (before : Path → Option (List β)) (bytes : List β)
    (s : System Path β) : Prop where
  stream : ∃ front buffer, s.stream = some ⟨path, buffer⟩ ∧ s.file path = some front ∧
    front ++ buffer = bytes
  others : ∀ q ≠ path, s.file q = before q

omit [DecidableEq Path] in
theorem Holding.open {path : Path} {before : Path → Option (List β)} {bytes : List β}
    {s : System Path β} (h : Holding path before bytes s) : Open path before s := by
  obtain ⟨front, buffer, hstream, -, -⟩ := h.stream
  exact ⟨⟨buffer, hstream⟩, h.others⟩

/-- The system refuses nothing. -/
def Obliging (fate : ℕ → Fate) : Prop := ∀ n, (fate n).ok = true

/-- All the bytes or a failure, and no failure where nothing is refused. -/
structure Puts (fate : ℕ → Fate) (w : Write Path β) (bytes : List β) : Prop where
  put : ∀ path before held s, Holding path before held s → (w s).1 = true →
    Holding path before (held ++ bytes) (w s).2
  fail : ∀ path before held s, Holding path before held s → (w s).1 = false →
    Open path before (w s).2
  obliging : Obliging fate → ∀ path before held s, Holding path before held s → (w s).1 = true

variable {fate : ℕ → Fate} {path : Path} {before : Path → Option (List β)}

theorem holding_put {held : List β} {s : System Path β} (h : Holding path before held s)
    (bytes : List β) (k : ℕ) : Holding path before (held ++ bytes) (s.put bytes k) := by
  obtain ⟨front, buffer, hstream, hfile, hheld⟩ := h.stream
  unfold System.put
  rw [hstream]
  dsimp only
  rw [hfile]
  constructor
  · refine ⟨_, _, rfl, Function.update_self .., ?_⟩
    show front ++ (buffer ++ bytes).take k ++ (buffer ++ bytes).drop k = _
    rw [List.append_assoc, List.take_append_drop, ← hheld, List.append_assoc]
  · intro q hq
    show Function.update s.file path _ q = _
    rw [Function.update_of_ne hq]
    exact h.others q hq

theorem puts_fwrite (bytes : List β) (hne : bytes ≠ []) :
    Puts fate (fun s : System Path β =>
      let res := fwrite fate bytes s
      (res.1 == bytes.length, res.2)) bytes := by
  have hpos : 0 < bytes.length := List.length_pos_iff.mpr hne
  constructor
  · intro path before held s h hok
    have hn : (fwrite fate bytes s).1 = bytes.length := by simpa using hok
    have hput := holding_put h (bytes.take (fwrite fate bytes s).1) (fate s.calls).flushed
    rw [hn, List.take_length] at hput
    show Holding path before _ (s.put (bytes.take (fwrite fate bytes s).1) _)
    rw [hn, List.take_length]
    exact hput
  · intro path before held s h _
    exact (holding_put h (bytes.take (fwrite fate bytes s).1) (fate s.calls).flushed).open
  · intro hobliging path before held s _
    show ((if (fate s.calls).ok then bytes.length else _) == bytes.length) = true
    rw [if_pos (hobliging _)]
    exact beq_self_eq_true _

theorem puts_fputc (byte : β) : Puts fate (fputc fate byte : Write Path β) [byte] :=
  puts_fwrite [byte] (List.cons_ne_nil _ _)

omit [DecidableEq Path] in
theorem puts_done : Puts fate (Write.done : Write Path β) [] := by
  constructor
  · intro path before held s h _
    rw [List.append_nil]
    exact h
  · intro path before held s h _
    exact h.open
  · intro _ path before held s _
    rfl

omit [DecidableEq Path] in
theorem puts_andThen {w v : Write Path β} {bytes more : List β} (hw : Puts fate w bytes)
    (hv : Puts fate v more) : Puts fate (w.andThen v) (bytes ++ more) := by
  constructor
  · intro path before held s h hok
    unfold Write.andThen at hok ⊢
    by_cases hfirst : (w s).1 = true
    · rw [if_pos hfirst] at hok ⊢
      rw [← List.append_assoc]
      exact hv.put path before _ _ (hw.put path before held s h hfirst) hok
    · rw [if_neg hfirst] at hok
      exact absurd hok hfirst
  · intro path before held s h hfail
    unfold Write.andThen at hfail ⊢
    by_cases hfirst : (w s).1 = true
    · rw [if_pos hfirst] at hfail ⊢
      exact hv.fail path before _ _ (hw.put path before held s h hfirst) hfail
    · rw [if_neg hfirst]
      exact hw.fail path before held s h (Bool.eq_false_iff.mpr hfirst)
  · intro hobliging path before held s h
    have hfirst := hw.obliging hobliging path before held s h
    unfold Write.andThen
    rw [if_pos hfirst]
    exact hv.obliging hobliging path before _ _ (hw.put path before held s h hfirst)

omit [DecidableEq Path] in
/-- A list of writes puts what each of them puts, in order. -/
theorem puts_all {α : Type*} (w : α → Write Path β) (bytes : α → List β) (as : List α)
    (h : ∀ a ∈ as, Puts fate (w a) (bytes a)) :
    Puts fate (Write.all (as.map w)) (as.flatMap bytes) := by
  induction as with
  | nil => exact puts_done
  | cons a as ih =>
    rw [List.flatMap_cons]
    exact puts_andThen (h a (List.mem_cons_self ..))
      (ih (fun b hb => h b (List.mem_cons_of_mem _ hb)))

/-- A close that goes through leaves all of it in the file. -/
theorem fclose_holding {held : List β} {s : System Path β} (h : Holding path before held s)
    (hok : (fclose fate s).1 = true) : (fclose fate s).2.file path = some held := by
  obtain ⟨front, buffer, hstream, hfile, hheld⟩ := h.stream
  unfold fclose at hok ⊢
  rw [hstream] at hok ⊢
  dsimp only at hok ⊢
  rw [if_pos hok]
  unfold System.put
  rw [hstream]
  dsimp only
  rw [hfile, Function.update_self, List.append_nil, List.take_length]
  exact congrArg some hheld

theorem fclose_others {s : System Path β} (h : Open path before s) (q : Path) (hq : q ≠ path) :
    (fclose fate s).2.file q = before q := by
  obtain ⟨buffer, hstream⟩ := h.stream
  unfold fclose
  rw [hstream]
  dsimp only
  unfold System.put
  rw [hstream]
  dsimp only
  rw [Function.update_of_ne hq]
  exact h.others q hq

theorem fclose_obliging {s : System Path β} (h : Open path before s) (hobliging : Obliging fate) :
    (fclose fate s).1 = true := by
  obtain ⟨buffer, hstream⟩ := h.stream
  unfold fclose
  rw [hstream]
  exact hobliging _

theorem remove_others (s : System Path β) (q : Path) (hq : q ≠ path) :
    (remove fate path s).file q = s.file q := by
  show (if (fate s.calls).ok then Function.update s.file path none else s.file) q = s.file q
  split
  · exact Function.update_of_ne hq ..
  · rfl

theorem remove_obliging (s : System Path β) (hobliging : Obliging fate) :
    (remove fate path s).file path = none := by
  show (if (fate s.calls).ok then Function.update s.file path none else s.file) path = none
  rw [if_pos (hobliging _), Function.update_self]

theorem openExcl_others (s : System Path β) (q : Path) (hq : q ≠ path) :
    (openExcl fate path s).2.file q = s.file q := by
  unfold openExcl
  split
  · exact Function.update_of_ne hq ..
  · rfl

theorem openExcl_empty (s : System Path β) (h : (openExcl fate path s).1 = true) :
    (openExcl fate path s).2.file path = some [] := by
  unfold openExcl at h ⊢
  split at h
  · rename_i hnew
    rw [if_pos hnew]
    exact Function.update_self ..
  · exact absurd h (by simp)

theorem openExcl_obliging (s : System Path β) (hobliging : Obliging fate)
    (h : s.file path = none) : (openExcl fate path s).1 = true := by
  have hnew : ((fate s.calls).ok && (s.file path).isNone) = true := by
    rw [hobliging, h]
    rfl
  unfold openExcl
  rw [if_pos hnew]

omit [DecidableEq Path] in
theorem fdopen_file (s : System Path β) :
    (fdopen fate path s).2.file = s.file := by
  unfold fdopen
  split
  · rfl
  · rfl

omit [DecidableEq Path] in
theorem fdopen_holding (s : System Path β) (hempty : s.file path = some [])
    (hothers : ∀ q ≠ path, s.file q = before q) (h : (fdopen fate path s).1 = true) :
    Holding path before [] (fdopen fate path s).2 := by
  unfold fdopen at h ⊢
  split at h
  · rename_i hok
    rw [if_pos hok]
    exact ⟨⟨[], [], rfl, hempty, rfl⟩, hothers⟩
  · exact absurd h (by simp)

omit [DecidableEq Path] in
theorem fdopen_obliging (s : System Path β) (hobliging : Obliging fate) :
    (fdopen fate path s).1 = true := by
  unfold fdopen
  rw [if_pos (hobliging _)]

theorem rename_file (old new : Path) (s : System Path β) :
    (rename fate old new s).2.file = (if (rename fate old new s).1 then
      Function.update (Function.update s.file new (s.file old)) old none else s.file) := by
  unfold rename
  split
  · rfl
  · rfl

theorem rename_obliging (old new : Path) (s : System Path β) (hobliging : Obliging fate)
    (h : (s.file old).isSome = true) : (rename fate old new s).1 = true := by
  have hboth : ((fate s.calls).ok && (s.file old).isSome) = true := by
    rw [hobliging, h]
    rfl
  unfold rename
  rw [if_pos hboth]

end IrcdHybrid.Stdio
