import IrcdHybrid.ArgumentUse
import IrcdHybrid.Wire
import Mathlib.Data.List.GetD

/-!
How `parse` takes the parameters out of a line: in place, with a terminator over every blank in
front of a parameter, and a pointer for each in an array of `MAXPARA + 2`.
-/

namespace IrcdHybrid.LineTokens

open CString Wire ArgumentUse

def NUL : Char := '\x00'

/-- What an element of `para` may point at: a place in the line, or `message->extra`. -/
inductive Pointer
  | text (p : ℕ)
  | extra
  deriving DecidableEq

abbrev Para := List (Slot Pointer)

/-- `char *para[MAXPARA + 2]`, before anything is written. -/
def noPara : Para := List.replicate (MAXPARA + 2) .unset

/-- A write beyond the array has no result. -/
def write (para : Para) (i : ℕ) (v : Slot Pointer) : Option Para :=
  if i < MAXPARA + 2 then some (para.set i v) else none

/-- Where `s` is: the bytes before it, as they are by now, and those from it on. -/
structure Cursor where
  seen : CStr
  rest : CStr

/-- `while (*s == ' ') *s++ = '\0'`. -/
def blankOut (seen : CStr) : CStr → Cursor
  | [] => ⟨seen, []⟩
  | c :: rest => if c = ' ' then blankOut (seen ++ [NUL]) rest else ⟨seen, c :: rest⟩

/-- `while (*s && *s != ' ') ++s`. -/
def passWord (seen : CStr) : CStr → Cursor
  | [] => ⟨seen, []⟩
  | c :: rest => if c = ' ' then ⟨seen, c :: rest⟩ else passWord (seen ++ [c]) rest

/-- What the tokenizer leaves: `parc`, `para`, and the line. -/
structure Tokens where
  parc : ℕ
  para : Para
  mem : CStr
  deriving DecidableEq

/-- The loop over the parameters. A numeric keeps the colon. -/
def splitLoop (numeric paramcount : ℕ) : ℕ → ℕ → Para → Cursor → Option Tokens
  | 0, _, _, _ => none
  | fuel + 1, parc, para, s =>
    let s := blankOut s.seen s.rest
    match s.rest with
    | [] => some ⟨parc, para, s.seen⟩
    | c :: rest =>
      if c = ':' then
        (write para (parc + 1) (.value (.text (s.seen.length + if numeric = 0 then 1 else 0)))).map
          fun para => ⟨parc + 1, para, s.seen ++ c :: rest⟩
      else
        (write para (parc + 1) (.value (.text s.seen.length))).bind fun para =>
          if paramcount ≤ parc + 1 then some ⟨parc + 1, para, s.seen ++ c :: rest⟩
          else splitLoop numeric paramcount fuel (parc + 1) para (passWord s.seen (c :: rest))

/-- `para[parc] = ch`, and `para[++parc] = message->extra` with `MFLG_EXTRA`. -/
def startPara (ch : ℕ) (extra : Bool) : Option Para :=
  (write noPara 0 (.value (.text ch))).bind fun para =>
    if extra then write para 1 (.value .extra) else some para

/-- From there to `para[++parc] = NULL`. There is no `s` when the command is the end of the
line. -/
def splitPara (extra : Bool) (numeric paramcount ch : ℕ) (seen : CStr) (s : Option CStr) :
    Option Tokens := do
  let para ← startPara ch extra
  let parc := if extra then 1 else 0
  let t ← match s with
    | none => some ⟨parc, para, seen⟩
    | some rest =>
      splitLoop numeric (min paramcount MAXPARA) (MAXPARA + 1) parc para ⟨seen, rest⟩
  (write t.para (t.parc + 1) .null).map fun para => ⟨t.parc + 1, para, t.mem⟩

/-- What a handler finds in an element of `para`. -/
inductive Arg
  | text (w : CStr)
  | extra
  deriving DecidableEq

/-- `EmptyString`, for an argument that is there. -/
def Arg.empty : Arg → Bool
  | .text w => decide (w = [])
  | .extra => false

/-- The string that starts at a place of the line. -/
def textAt (mem : CStr) (p : ℕ) : CStr := (mem.drop p).takeWhile fun c => decide (c ≠ NUL)

def look (mem : CStr) : Slot Pointer → Slot Arg
  | .unset => .unset
  | .null => .null
  | .value (.text p) => .value (.text (textAt mem p))
  | .value .extra => .value .extra

def Tokens.args (t : Tokens) (i : ℕ) : Slot Arg := look t.mem (t.para.getD i .unset)

/-- The parameters in a text, of which there may be `n` at most: words with blanks around them,
and in the end a text that follows a colon, or the last one that there may be, as it is. -/
inductive Grammar (keepColon : Bool) : ℕ → CStr → List CStr → Prop
  | none (n : ℕ) (blanks : CStr) (hblanks : ∀ c ∈ blanks, c = ' ') :
      Grammar keepColon (n + 1) blanks []
  | colon (n : ℕ) (blanks text : CStr) (hblanks : ∀ c ∈ blanks, c = ' ') :
      Grammar keepColon (n + 1) (blanks ++ ':' :: text) [if keepColon then ':' :: text else text]
  | last (blanks : CStr) (c : Char) (text : CStr) (hblanks : ∀ c ∈ blanks, c = ' ')
      (hspace : c ≠ ' ') (hcolon : c ≠ ':') : Grammar keepColon 1 (blanks ++ c :: text) [c :: text]
  | word (n : ℕ) (blanks w text : CStr) (ps : List CStr) (hblanks : ∀ c ∈ blanks, c = ' ')
      (hword : Word w) (htext : Broken text) (hrest : Grammar keepColon (n + 1) text ps) :
      Grammar keepColon (n + 2) (blanks ++ (w ++ text)) (w :: ps)

/-- The parameters, read off the text. -/
def params (keepColon : Bool) : ℕ → CStr → List CStr
  | 0, _ => []
  | n + 1, s =>
    match skipSpaces s with
    | [] => []
    | c :: t =>
      if c = ':' then [if keepColon then ':' :: t else t]
      else if n = 0 then [c :: t]
      else Wire.word (c :: t) :: params keepColon n (afterWord (c :: t))

theorem params_length (keepColon : Bool) (n : ℕ) (s : CStr) :
    (params keepColon n s).length ≤ n := by
  induction n generalizing s with
  | zero => exact le_refl 0
  | succ n ih =>
    unfold params
    split
    · exact Nat.zero_le _
    · split
      · exact Nat.succ_le_succ (Nat.zero_le n)
      · split
        · exact Nat.succ_le_succ (Nat.zero_le n)
        · exact Nat.succ_le_succ (ih _)

theorem skipSpaces_blanks (blanks s : CStr) (h : ∀ c ∈ blanks, c = ' ') :
    skipSpaces (blanks ++ s) = skipSpaces s := by
  unfold skipSpaces
  exact List.dropWhile_append_of_pos (fun c hc => by rw [h c hc]; rfl)

theorem skipSpaces_split (s : CStr) : ∃ blanks, s = blanks ++ skipSpaces s ∧
    ∀ c ∈ blanks, c = ' ' := by
  refine ⟨s.takeWhile (fun c => c == ' '), (List.takeWhile_append_dropWhile).symm, ?_⟩
  intro c hc
  simpa using List.mem_takeWhile_imp hc

theorem skipSpaces_head (s : CStr) (c : Char) (t : CStr) (h : skipSpaces s = c :: t) : c ≠ ' ' := by
  have hhead := List.head?_dropWhile_not (fun c => c == ' ') s
  rw [show s.dropWhile _ = c :: t from h] at hhead
  simpa using hhead

/-- A text that does not start with a blank is a word and what comes behind it. -/
theorem word_afterWord (c : Char) (t : CStr) (hspace : c ≠ ' ') (hcolon : c ≠ ':') :
    c :: t = Wire.word (c :: t) ++ afterWord (c :: t) ∧ Word (Wire.word (c :: t)) ∧
      Broken (afterWord (c :: t)) := by
  refine ⟨(List.takeWhile_append_dropWhile).symm, ⟨?_, ?_, ?_⟩, ?_⟩
  · simp [Wire.word, hspace]
  · intro hmem
    exact word_mem _ _ hmem rfl
  · simpa [Wire.word, hspace] using hcolon
  · cases hafter : afterWord (c :: t) with
    | nil => exact Or.inl rfl
    | cons d s =>
      have hhead := List.head?_dropWhile_not (fun c => c != ' ') (c :: t)
      rw [show (c :: t).dropWhile _ = d :: s from hafter] at hhead
      have hd : d = ' ' := by simpa using hhead
      exact Or.inr ⟨s, by rw [hd]⟩

theorem params_grammar (keepColon : Bool) (n : ℕ) (s : CStr) :
    Grammar keepColon (n + 1) s (params keepColon (n + 1) s) := by
  induction n generalizing s with
  | zero =>
    obtain ⟨blanks, hs, hblanks⟩ := skipSpaces_split s
    unfold params
    cases hskip : skipSpaces s with
    | nil =>
      rw [hskip, List.append_nil] at hs
      rw [hs]
      exact .none 0 blanks hblanks
    | cons c t =>
      rw [hskip] at hs
      dsimp only
      by_cases hcolon : c = ':'
      · rw [if_pos hcolon, hs, hcolon]
        exact .colon 0 blanks t hblanks
      · rw [if_neg hcolon, if_pos rfl, hs]
        exact .last blanks c t hblanks (skipSpaces_head s c t hskip) hcolon
  | succ n ih =>
    obtain ⟨blanks, hs, hblanks⟩ := skipSpaces_split s
    unfold params
    cases hskip : skipSpaces s with
    | nil =>
      rw [hskip, List.append_nil] at hs
      rw [hs]
      exact .none _ blanks hblanks
    | cons c t =>
      rw [hskip] at hs
      dsimp only
      by_cases hcolon : c = ':'
      · rw [if_pos hcolon, hs, hcolon]
        exact .colon _ blanks t hblanks
      · obtain ⟨hsplit, hword, hbroken⟩ :=
          word_afterWord c t (skipSpaces_head s c t hskip) hcolon
        rw [if_neg hcolon, if_neg (Nat.succ_ne_zero n), hs]
        conv => arg 3; rw [hsplit]
        exact .word n blanks _ _ _ hblanks hword hbroken (ih (afterWord (c :: t)))

theorem grammar_params (keepColon : Bool) (n : ℕ) (s : CStr) (ps : List CStr)
    (h : Grammar keepColon n s ps) : ps = params keepColon n s := by
  induction h with
  | none n blanks hblanks =>
    have hskip : skipSpaces blanks = [] := by
      have := skipSpaces_blanks blanks [] hblanks
      rwa [List.append_nil] at this
    unfold params
    rw [hskip]
  | colon n blanks text hblanks =>
    unfold params
    rw [skipSpaces_blanks blanks _ hblanks]
    rfl
  | last blanks c text hblanks hspace hcolon =>
    unfold params
    rw [skipSpaces_blanks blanks _ hblanks,
      show skipSpaces (c :: text) = c :: text by simp [skipSpaces, hspace]]
    dsimp only
    rw [if_neg hcolon, if_pos rfl]
  | word n blanks w text ps hblanks hword htext _ ih =>
    have hskip := skipSpaces_word w text hword
    have hw := word_append w text hword.no_space htext
    have hafter := afterWord_append w text hword.no_space htext
    obtain ⟨c, t, rfl⟩ := List.exists_cons_of_ne_nil hword.ne_nil
    have hcolon : c ≠ ':' := fun heq => hword.no_colon (by rw [heq]; rfl)
    rw [List.cons_append] at hskip hw hafter
    conv_rhs => unfold params
    rw [skipSpaces_blanks blanks _ hblanks, List.cons_append, hskip]
    dsimp only
    rw [if_neg hcolon, if_neg (Nat.succ_ne_zero n), hw, hafter, ← ih]

/-- An array with these elements written. -/
def filled (written : List (Slot Pointer)) : Para :=
  written ++ List.replicate (MAXPARA + 2 - written.length) .unset

theorem write_filled (written : List (Slot Pointer)) (v : Slot Pointer)
    (h : written.length < MAXPARA + 2) :
    write (filled written) written.length v = some (filled (written ++ [v])) := by
  unfold write
  rw [if_pos h]
  unfold filled
  obtain ⟨k, hk⟩ : ∃ k, MAXPARA + 2 - written.length = k + 1 :=
    ⟨MAXPARA + 2 - written.length - 1, by omega⟩
  rw [List.set_append_right _ _ (le_refl _), Nat.sub_self, hk, List.replicate_succ, List.set_cons_zero,
    List.length_append, List.length_singleton, List.append_assoc,
    show MAXPARA + 2 - (written.length + 1) = k by omega]
  rfl

theorem blankOut_eq (seen s : CStr) :
    ∃ k, blankOut seen s = ⟨seen ++ List.replicate k NUL, skipSpaces s⟩ ∧
      (s = [] → k = 0) ∧ (∀ u, s = ' ' :: u → ∃ j, k = j + 1) := by
  induction s generalizing seen with
  | nil => exact ⟨0, by simp [blankOut, skipSpaces], fun _ => rfl, by simp⟩
  | cons c s ih =>
    unfold blankOut
    by_cases hc : c = ' '
    · obtain ⟨k, heq, _, _⟩ := ih (seen ++ [NUL])
      refine ⟨k + 1, ?_, by simp, fun u _ => ⟨k, rfl⟩⟩
      rw [if_pos hc, heq, hc, skipSpaces_space, List.append_assoc, List.replicate_succ]
      rfl
    · refine ⟨0, ?_, by simp, fun u hu => absurd (List.cons.inj hu).1 hc⟩
      rw [if_neg hc, List.replicate_zero, List.append_nil]
      simp [skipSpaces, hc]

theorem passWord_eq (seen s : CStr) :
    passWord seen s = ⟨seen ++ Wire.word s, afterWord s⟩ := by
  induction s generalizing seen with
  | nil => simp [passWord, Wire.word, afterWord]
  | cons c s ih =>
    unfold passWord
    by_cases hc : c = ' '
    · rw [if_pos hc, hc]
      simp [Wire.word, afterWord]
    · rw [if_neg hc, ih]
      simp [Wire.word, afterWord, hc]

theorem look_text (before w t : CStr) (hw : NUL ∉ w) (ht : t = [] ∨ ∃ u, t = NUL :: u) :
    look (before ++ (w ++ t)) (.value (.text before.length)) = .value (.text w) := by
  show Slot.value (Arg.text (textAt (before ++ (w ++ t)) before.length)) = .value (.text w)
  unfold textAt
  rw [List.drop_left, List.takeWhile_append_of_pos (by
    intro c hc
    have hne : c ≠ NUL := fun heq => hw (heq ▸ hc)
    simpa using hne)]
  rcases ht with rfl | ⟨u, rfl⟩ <;> simp

theorem look_behind (before : CStr) (c : Char) (w t : CStr) (hw : NUL ∉ w)
    (ht : t = [] ∨ ∃ u, t = NUL :: u) :
    look (before ++ c :: (w ++ t)) (.value (.text (before.length + 1))) = .value (.text w) := by
  have h := look_text (before ++ [c]) w t hw ht
  rwa [List.append_assoc, List.length_append] at h

theorem look_rest (seen blanks w : CStr) (hw : NUL ∉ w) :
    look (seen ++ (blanks ++ w)) (.value (.text (seen ++ blanks).length)) = .value (.text w) := by
  have h := look_text (seen ++ blanks) w [] hw (Or.inl rfl)
  rwa [List.append_nil, List.append_assoc] at h

theorem look_colon (numeric : ℕ) (seen blanks t : CStr) (ht : NUL ∉ ':' :: t) :
    look (seen ++ (blanks ++ ':' :: t))
        (.value (.text ((seen ++ blanks).length + if numeric = 0 then 1 else 0))) =
      .value (.text (if decide (numeric ≠ 0) then ':' :: t else t)) := by
  by_cases hnumeric : numeric = 0
  · have h := look_behind (seen ++ blanks) ':' t [] (fun h => ht (List.mem_cons_of_mem _ h))
      (Or.inl rfl)
    rw [List.append_nil, List.append_assoc] at h
    rw [if_pos hnumeric, h]
    simp [hnumeric]
  · rw [if_neg hnumeric, Nat.add_zero, look_rest seen blanks _ ht]
    simp [hnumeric]

/-- What became of a text: where it went on with a blank there is a terminator now. -/
def Ended (s t : CStr) : Prop := (s = [] → t = []) ∧ ∀ u, s = ' ' :: u → ∃ v, t = NUL :: v

/-- The loop points at the parameters of the text, and goes no further than there is room. -/
theorem splitLoop_spec (numeric n : ℕ) (hn : n ≤ MAXPARA) (fuel parc : ℕ)
    (written : List (Slot Pointer)) (seen rest : CStr) (hlen : written.length = parc + 1)
    (hparc : parc < MAXPARA) (hfuel : n ≤ parc + fuel) (hpos : 0 < fuel) (hclean : NUL ∉ rest) :
    ∃ ptrs t, splitLoop numeric n fuel parc (filled written) ⟨seen, rest⟩ =
        some ⟨parc + ptrs.length, filled (written ++ ptrs), seen ++ t⟩ ∧
      Ended rest t ∧
      ptrs.map (look (seen ++ t)) =
        (params (decide (numeric ≠ 0)) (max 1 (n - parc)) rest).map (fun w => .value (.text w)) := by
  induction fuel generalizing parc written seen rest with
  | zero => exact absurd hpos (lt_irrefl 0)
  | succ fuel ih =>
    obtain ⟨k, hblank, hnil, hspace⟩ := blankOut_eq seen rest
    obtain ⟨m, hm⟩ : ∃ m, max 1 (n - parc) = m + 1 := ⟨max 1 (n - parc) - 1, by omega⟩
    have hended : ∀ t, (rest = [] → t = []) → Ended rest (List.replicate k NUL ++ t) := by
      intro t ht
      refine ⟨?_, ?_⟩
      · intro hrest
        rw [hnil hrest, ht hrest]
        rfl
      · intro u hu
        obtain ⟨j, rfl⟩ := hspace u hu
        exact ⟨List.replicate j NUL ++ t, rfl⟩
    unfold splitLoop
    dsimp only
    rw [hblank, hm]
    unfold params
    cases hskip : skipSpaces rest with
    | nil =>
      refine ⟨[], List.replicate k NUL, ?_, ?_, rfl⟩
      · rw [List.append_nil]
        rfl
      · have := hended [] (fun _ => rfl)
        rwa [List.append_nil] at this
    | cons c t =>
      have hclean' : NUL ∉ c :: t := fun hmem =>
        hclean ((List.dropWhile_suffix _).subset (show NUL ∈ skipSpaces rest from hskip ▸ hmem))
      have hne : ∀ t' : CStr, rest = [] → t' = [] := by
        intro t' hrest
        rw [hrest] at hskip
        cases hskip
      have hroom : written.length < MAXPARA + 2 := by omega
      dsimp only
      by_cases hcolon : c = ':'
      · rw [if_pos hcolon, if_pos hcolon, ← hlen, write_filled written _ hroom]
        refine ⟨[.value (.text ((seen ++ List.replicate k NUL).length +
          if numeric = 0 then 1 else 0))], List.replicate k NUL ++ c :: t, ?_, hended _ (hne _), ?_⟩
        · rw [Option.map_some, hlen, List.append_assoc]
          rfl
        · rw [hcolon] at hclean' ⊢
          rw [List.map_singleton, List.map_singleton, look_colon numeric seen _ t hclean']
      · rw [if_neg hcolon, if_neg hcolon, ← hlen, write_filled written _ hroom,
          Option.bind_some, hlen]
        by_cases hlast : n ≤ parc + 1
        · have hm0 : m = 0 := by omega
          rw [if_pos hlast, if_pos hm0]
          refine ⟨[.value (.text (seen ++ List.replicate k NUL).length)],
            List.replicate k NUL ++ c :: t, ?_, hended _ (hne _), ?_⟩
          · rw [List.append_assoc]
            rfl
          · rw [List.map_singleton, List.map_singleton, look_rest seen _ _ hclean']
        · have hm1 : m = max 1 (n - (parc + 1)) := by omega
          have hspacefree := skipSpaces_head rest c t hskip
          obtain ⟨hsplit, hword, hbroken⟩ := word_afterWord c t hspacefree hcolon
          obtain ⟨ptrs, t', hloop, hended', htexts⟩ := ih (parc + 1)
            (written ++ [.value (.text (seen ++ List.replicate k NUL).length)])
            (seen ++ List.replicate k NUL ++ Wire.word (c :: t)) (afterWord (c :: t))
            (by rw [List.length_append, hlen]; rfl) (by omega) (by omega) (by omega)
            (fun h => hclean' ((List.dropWhile_suffix _).subset h))
          rw [if_neg hlast, if_neg (by omega), passWord_eq, hloop]
          refine ⟨.value (.text (seen ++ List.replicate k NUL).length) :: ptrs,
            List.replicate k NUL ++ (Wire.word (c :: t) ++ t'), ?_, hended _ (hne _), ?_⟩
          · rw [List.length_cons, List.append_assoc, List.append_assoc, List.append_assoc,
              List.singleton_append, Nat.add_assoc, Nat.add_comm 1]
          · have hmem : seen ++ (List.replicate k NUL ++ (Wire.word (c :: t) ++ t')) =
                seen ++ List.replicate k NUL ++ Wire.word (c :: t) ++ t' := by
              simp only [List.append_assoc]
            have htail : t' = [] ∨ ∃ u, t' = NUL :: u := by
              rcases hbroken with hnone | ⟨u, hu⟩
              · exact Or.inl (hended'.1 hnone)
              · exact Or.inr (hended'.2 u hu)
            have htext := look_text (seen ++ List.replicate k NUL) (Wire.word (c :: t)) t'
              (fun h => hclean' (List.takeWhile_subset _ h)) htail
            rw [hmem, List.map_cons, List.map_cons, htexts, hm1, List.append_assoc, htext]

/-- The elements from the command on: `message->extra` if there is one, the parameters, and the
null pointer behind them. -/
def slots (command : CStr) (extra : Bool) (ps : List CStr) : List (Slot Arg) :=
  .value (.text command) :: ((if extra then [.value .extra] else []) ++
    (ps.map (fun w => .value (.text w)) ++ [.null]))

def vector (command : CStr) (extra : Bool) (ps : List CStr) (i : ℕ) : Slot Arg :=
  (slots command extra ps).getD i .unset

/-- How many elements there are before the null pointer. -/
def argCount (extra : Bool) (ps : List CStr) : ℕ := (if extra then 2 else 1) + ps.length

/-- How many parameters there may be in the line: one at least, and `message->extra` takes the
place of one. -/
def allowed (extra : Bool) (paramcount : ℕ) : ℕ :=
  max 1 (min paramcount MAXPARA - if extra then 1 else 0)

theorem allowed_le (extra : Bool) (paramcount : ℕ) : allowed extra paramcount ≤ MAXPARA := by
  have hmax : MAXPARA = 15 := rfl
  unfold allowed
  omega

theorem behind_at (ps : List CStr) (i : ℕ) (hi : i < ps.length) :
    (ps.map (fun w => Slot.value (Arg.text w)) ++ [Slot.null]).getD i .unset =
      .value (.text (ps.get ⟨i, hi⟩)) := by
  simp [List.getElem?_append, hi]

theorem behind_end (ps : List CStr) :
    (ps.map (fun w => Slot.value (Arg.text w)) ++ [Slot.null]).getD ps.length .unset = .null := by
  simp

theorem vector_filled (command : CStr) (extra : Bool) (ps : List CStr) :
    Filled (vector command extra ps) (argCount extra ps) := by
  refine ⟨?_, ?_⟩
  · intro i hi
    unfold argCount at hi
    cases i with
    | zero => exact ⟨_, rfl⟩
    | succ i =>
      cases extra with
      | true =>
        rw [if_pos rfl] at hi
        cases i with
        | zero => exact ⟨_, rfl⟩
        | succ i => exact ⟨_, behind_at ps i (by omega)⟩
      | false =>
        rw [if_neg (by decide)] at hi
        exact ⟨_, behind_at ps i (by omega)⟩
  · unfold argCount
    cases extra with
    | true =>
      rw [if_pos rfl, Nat.add_comm]
      exact behind_end ps
    | false =>
      rw [if_neg (by decide), Nat.add_comm]
      exact behind_end ps

theorem args_filled (parc : ℕ) (written : List (Slot Pointer)) (mem : CStr) (i : ℕ) :
    Tokens.args ⟨parc, filled written, mem⟩ i = (written.map (look mem)).getD i .unset := by
  unfold Tokens.args filled
  dsimp only
  by_cases hi : i < written.length
  · rw [List.getD_append _ _ _ _ hi, List.getD_eq_getElem _ _ hi,
      List.getD_eq_getElem _ _ (by rwa [List.length_map]), List.getElem_map]
  · have hunset : ∀ k j, (List.replicate k (Slot.unset : Slot Pointer)).getD j .unset = .unset := by
      intro k j
      rw [List.getD_eq_getElem?_getD, List.getElem?_replicate]
      split <;> rfl
    rw [List.getD_append_right _ _ _ _ (by omega), hunset,
      List.getD_eq_default _ _ (by rw [List.length_map]; omega)]
    rfl

/-- The elements in front of the loop. -/
def heads (ch : ℕ) (extra : Bool) : List (Slot Pointer) :=
  .value (.text ch) :: if extra then [.value .extra] else []

theorem heads_length (ch : ℕ) (extra : Bool) :
    (heads ch extra).length = (if extra then 1 else 0) + 1 := by
  cases extra <;> rfl

theorem startPara_eq (ch : ℕ) (extra : Bool) :
    startPara ch extra = some (filled (heads ch extra)) := by
  cases extra <;> rfl

theorem write_null (extra : Bool) (ch : ℕ) (w : CStr) (ptrs : List (Slot Pointer))
    (ps : List CStr) (mem : CStr) (hcount : ptrs.length = ps.length)
    (hroom : (heads ch extra).length + ptrs.length ≤ MAXPARA + 1)
    (hslots : (heads ch extra ++ ptrs).map (look mem) ++ [.null] = slots w extra ps) :
    ∃ t, (write (filled (heads ch extra ++ ptrs)) ((if extra then 1 else 0) + ptrs.length + 1)
        .null).map (fun para => Tokens.mk ((if extra then 1 else 0) + ptrs.length + 1) para mem) =
      some t ∧ t.parc = argCount extra ps ∧ t.args = vector w extra ps := by
  have hplace : (if extra then 1 else 0) + ptrs.length + 1 = (heads ch extra ++ ptrs).length := by
    rw [List.length_append, heads_length]
    omega
  rw [hplace, write_filled _ _ (by rw [List.length_append]; omega)]
  refine ⟨_, rfl, ?_, ?_⟩
  · rw [← hplace, hcount]
    unfold argCount
    cases extra <;> simp only [if_true, if_false, Bool.false_eq_true] <;> omega
  · funext i
    rw [args_filled, List.map_append, show [Slot.null].map (look mem) = [.null] from rfl, hslots]
    rfl

theorem heads_slots (extra : Bool) (before w t : CStr) (ptrs : List (Slot Pointer))
    (ps : List CStr) (hw : NUL ∉ w) (ht : t = [] ∨ ∃ u, t = NUL :: u)
    (hptrs : ptrs.map (look (before ++ (w ++ t))) = ps.map (fun p => .value (.text p))) :
    (heads before.length extra ++ ptrs).map (look (before ++ (w ++ t))) ++ [.null] =
      slots w extra ps := by
  rw [List.map_append, hptrs]
  unfold heads slots
  rw [List.map_cons, look_text before w t hw ht]
  cases extra <;> simp [look]

/-- The elements of `para` are the command and the parameters that the text has, and nothing is
written outside of the array. -/
theorem splitPara_spec (extra : Bool) (numeric paramcount : ℕ) (before w : CStr)
    (s : Option CStr) (hw : NUL ∉ w) (hs : ∀ rest, s = some rest → NUL ∉ rest) :
    ∃ t, splitPara extra numeric paramcount before.length
        (before ++ (w ++ if s.isSome then [NUL] else [])) s = some t ∧
      t.parc = argCount extra (s.elim [] (params (decide (numeric ≠ 0)) (allowed extra paramcount))) ∧
      t.args = vector w extra
        (s.elim [] (params (decide (numeric ≠ 0)) (allowed extra paramcount))) := by
  have hheads := heads_length before.length extra
  unfold splitPara
  rw [startPara_eq]
  cases s with
  | none =>
    have hnull := write_null extra before.length w [] [] _ rfl
      (by rw [hheads]; cases extra <;> decide)
      (heads_slots extra before w [] [] [] hw (Or.inl rfl) rfl)
    rw [List.append_nil (heads before.length extra)] at hnull
    exact hnull
  | some rest =>
    obtain ⟨ptrs, t, hloop, _, htexts⟩ := splitLoop_spec numeric (min paramcount MAXPARA)
      (Nat.min_le_right _ _) (MAXPARA + 1) (if extra then 1 else 0) (heads before.length extra)
      (before ++ (w ++ [NUL])) rest hheads (by cases extra <;> decide)
      (by have := Nat.min_le_right paramcount MAXPARA; omega) (Nat.succ_pos _) (hs rest rfl)
    have hcount : ptrs.length = (params (decide (numeric ≠ 0)) (allowed extra paramcount)
        rest).length := by
      have := congrArg List.length htexts
      rwa [List.length_map, List.length_map] at this
    have hmem : before ++ (w ++ [NUL]) ++ t = before ++ (w ++ NUL :: t) := by simp
    rw [hmem] at hloop htexts
    show ∃ u, ((splitLoop numeric (min paramcount MAXPARA) (MAXPARA + 1) (if extra then 1 else 0)
      (filled (heads before.length extra)) ⟨before ++ (w ++ [NUL]), rest⟩).bind fun t =>
        (write t.para (t.parc + 1) .null).map fun para =>
          Tokens.mk (t.parc + 1) para t.mem) = some u ∧ _
    rw [hloop, Option.bind_some]
    apply write_null extra before.length w ptrs _ _ hcount
    · have hle := params_length (decide (numeric ≠ 0)) (allowed extra paramcount) rest
      have hmax : MAXPARA = 15 := rfl
      rw [hheads, hcount]
      unfold allowed at hle ⊢
      cases extra with
      | true =>
        rw [if_pos rfl] at hle ⊢
        omega
      | false =>
        rw [if_neg (by decide)] at hle ⊢
        omega
    · exact heads_slots extra before w (NUL :: t) ptrs _ hw (Or.inr ⟨t, rfl⟩) htexts

end IrcdHybrid.LineTokens
