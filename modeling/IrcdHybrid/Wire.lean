import IrcdHybrid.CString
import Mathlib.Data.List.TakeWhile

/-!
Lines between servers. `parse` takes a line apart into its sender, its command
and its parameters; a parameter that starts with a colon takes the rest of the
line. A line is cut at 510 bytes when it is sent.
-/

namespace IrcdHybrid.Wire

open CString

def MAXPARA : ℕ := 15
def IRCD_BUFSIZE : ℕ := 512

/-- The bytes of the line that `send_format` lets through. -/
def sendFormat (line : CStr) : CStr := line.take (IRCD_BUFSIZE - 2)

structure Message where
  sender : Option CStr
  command : CStr
  params : List CStr
  deriving DecidableEq, Repr

def skipSpaces (s : CStr) : CStr := s.dropWhile (fun c => c == ' ')

def word (s : CStr) : CStr := s.takeWhile (fun c => c != ' ')

def afterWord (s : CStr) : CStr := s.dropWhile (fun c => c != ' ')

/-- The loop of `parse` over the parameters, with the number still to come. -/
def splitParams : ℕ → CStr → List CStr
  | 0, _ => []
  | n + 1, s =>
    match skipSpaces s with
    | [] => []
    | ':' :: rest => [rest]
    | c :: t => if n = 0 then [c :: t] else word (c :: t) :: splitParams n (afterWord (c :: t))

/-- The sender, and the text the command is looked for in. Without a blank after
the sender, the sender's own text is taken for the command. -/
def splitSender (ch : CStr) : Option CStr × CStr :=
  match ch with
  | ':' :: s => (some (word s), skipSpaces (if ' ' ∈ s then afterWord s else s))
  | _ => (none, ch)

/-- `parse` for a command that takes up to `MAXPARA` parameters. -/
def parse (line : CStr) : Option Message :=
  let (sender, ch) := splitSender (skipSpaces line)
  if ch = [] then none
  else some ⟨sender, word ch, splitParams MAXPARA (afterWord ch)⟩

/-- A parameter that is not the last one: it is delimited by blanks. -/
structure Word (w : CStr) : Prop where
  ne_nil : w ≠ []
  no_space : ' ' ∉ w
  no_colon : w.head? ≠ some ':'

/-- Every word with the blank in front of it. -/
def spaced (ws : List CStr) : CStr := ws.flatMap (fun w => ' ' :: w)

@[simp] theorem spaced_nil : spaced [] = [] := rfl

@[simp] theorem spaced_cons (w : CStr) (ws : List CStr) :
    spaced (w :: ws) = ' ' :: (w ++ spaced ws) := by simp [spaced]

theorem spaced_append (ws us : List CStr) : spaced (ws ++ us) = spaced ws ++ spaced us := by
  simp [spaced]

/-- The text is empty or goes on with a blank. -/
def Broken (s : CStr) : Prop := s = [] ∨ ∃ t, s = ' ' :: t

theorem broken_spaced (ws : List CStr) (s : CStr) (h : Broken s) : Broken (spaced ws ++ s) := by
  cases ws with
  | nil => exact h
  | cons w ws => exact Or.inr ⟨w ++ spaced ws ++ s, by simp⟩

theorem word_append (w s : CStr) (hw : ' ' ∉ w) (hs : Broken s) : word (w ++ s) = w := by
  unfold word
  rw [List.takeWhile_append_of_pos (by
    intro c hc
    have hne : c ≠ ' ' := fun h => hw (h ▸ hc)
    simpa using hne)]
  rcases hs with rfl | ⟨t, rfl⟩ <;> simp

theorem afterWord_append (w s : CStr) (hw : ' ' ∉ w) (hs : Broken s) :
    afterWord (w ++ s) = s := by
  unfold afterWord
  rw [List.dropWhile_append_of_pos (by
    intro c hc
    have hne : c ≠ ' ' := fun h => hw (h ▸ hc)
    simpa using hne)]
  rcases hs with rfl | ⟨t, rfl⟩ <;> simp

theorem skipSpaces_word (w s : CStr) (hw : Word w) : skipSpaces (w ++ s) = w ++ s := by
  cases w with
  | nil => exact absurd rfl hw.ne_nil
  | cons c w =>
    have hc : c ≠ ' ' := fun h => hw.no_space (by simp [h])
    simp [skipSpaces, hc]

theorem skipSpaces_space (s : CStr) : skipSpaces (' ' :: s) = skipSpaces s := by
  simp [skipSpaces]

theorem splitParams_space (n : ℕ) (s : CStr) : splitParams n (' ' :: s) = splitParams n s := by
  cases n with
  | zero => rfl
  | succ n =>
    unfold splitParams
    rw [skipSpaces_space]

/-- The words that a line does not lose. -/
def filled (ws : List CStr) : List CStr := ws.filter (fun w => w ≠ [])

theorem filled_words (ws : List CStr) (hws : ∀ w ∈ ws, Word w) : filled ws = ws :=
  List.filter_eq_self.mpr (fun w hw => decide_eq_true (hws w hw).ne_nil)

theorem splitParams_spaced (ws : List CStr) (n : ℕ) (s : CStr) (hws : ∀ w ∈ ws, w = [] ∨ Word w)
    (hn : ws.length < n) (hs : Broken s) :
    splitParams n (spaced ws ++ s) = filled ws ++ splitParams (n - (filled ws).length) s := by
  induction ws generalizing n with
  | nil => rfl
  | cons w ws ih =>
    obtain ⟨n, rfl⟩ : ∃ k, n = k + 1 := ⟨n - 1, by simp only [List.length_cons] at hn; omega⟩
    simp only [List.length_cons] at hn
    have hrest := broken_spaced ws s hs
    have hws' := fun u hu => hws u (List.mem_cons_of_mem w hu)
    rcases hws w List.mem_cons_self with rfl | hw
    · rw [spaced_cons, List.nil_append, List.cons_append, splitParams_space, ih _ hws' (by omega)]
      rfl
    have hskip : skipSpaces (spaced (w :: ws) ++ s) = w ++ (spaced ws ++ s) := by
      rw [spaced_cons, List.cons_append, skipSpaces_space, List.append_assoc,
        skipSpaces_word w _ hw]
    obtain ⟨c, t, rfl⟩ : ∃ c t, w = c :: t := List.exists_cons_of_ne_nil hw.ne_nil
    have hc : c ≠ ':' := fun h => hw.no_colon (by simp [h])
    have htail := ih n hws' (by omega)
    have hword := word_append (c :: t) (spaced ws ++ s) hw.no_space hrest
    have hafter := afterWord_append (c :: t) (spaced ws ++ s) hw.no_space hrest
    have hfilled : filled ((c :: t) :: ws) = (c :: t) :: filled ws := rfl
    have hn0 : n ≠ 0 := by omega
    rw [List.cons_append] at hskip hword hafter
    conv_lhs => unfold splitParams
    rw [hskip]
    split
    · next h => simp at h
    · next h => exact absurd (List.cons.inj h).1 hc
    · next c' t' _ h =>
      obtain ⟨rfl, rfl⟩ := List.cons.inj h
      rw [if_neg hn0, hword, hafter, htail, hfilled, List.length_cons, Nat.add_sub_add_right,
        List.cons_append]

theorem splitParams_trailing (n : ℕ) (s : CStr) (hn : 0 < n) :
    splitParams n (' ' :: ':' :: s) = [s] := by
  obtain ⟨n, rfl⟩ : ∃ k, n = k + 1 := ⟨n - 1, by omega⟩
  simp [splitParams, skipSpaces]

theorem splitParams_blank (n : ℕ) (s : CStr) (hs : ∀ c ∈ s, c = ' ') : splitParams n s = [] := by
  have hskip : skipSpaces s = [] := by
    unfold skipSpaces
    rw [List.dropWhile_eq_nil_iff]
    intro c hc
    simp [hs c hc]
  cases n with
  | zero => rfl
  | succ n => simp [splitParams, hskip]

theorem word_mem (s : CStr) (c : Char) (hc : c ∈ word s) : c ≠ ' ' := by
  simpa using List.mem_takeWhile_imp hc

theorem splitParams_word (n : ℕ) (s w : CStr) (hw : w ∈ (splitParams n s).dropLast) : Word w := by
  induction n generalizing s with
  | zero => simp [splitParams] at hw
  | succ n ih =>
    unfold splitParams at hw
    split at hw
    · simp at hw
    · simp at hw
    next c t hcolon heq =>
    split at hw
    · simp at hw
    have hspace : c ≠ ' ' := by
      intro hc
      have hhead := List.head?_dropWhile_not (fun c => c == ' ') s
      rw [show s.dropWhile (fun c => c == ' ') = c :: t from heq, hc] at hhead
      simp at hhead
    cases hrest : splitParams n (afterWord (c :: t)) with
    | nil => simp [hrest] at hw
    | cons u us =>
      rw [hrest, List.dropLast_cons_cons] at hw
      rcases List.mem_cons.mp hw with rfl | hw
      · have hword : word (c :: t) = c :: word t := by simp [word, hspace]
        refine ⟨by simp [hword], fun hmem => word_mem _ ' ' hmem rfl, ?_⟩
        rw [hword, List.head?_cons]
        intro hhead
        exact hcolon (Option.some.inj hhead)
      · exact ih (afterWord (c :: t)) (by rw [hrest]; exact hw)

theorem parse_params (line : CStr) (msg : Message) (h : parse line = some msg) :
    ∀ w ∈ msg.params.dropLast, Word w := by
  unfold parse at h
  split at h
  next sender ch _ =>
  split at h
  · simp at h
  · obtain rfl := Option.some.inj h
    exact fun w hw => splitParams_word MAXPARA (afterWord ch) w hw

/-- The words after the sender, and how they end. -/
def lineText (sender command : CStr) (ws : List CStr) (tail : CStr) : CStr :=
  ':' :: (sender ++ ' ' :: (command ++ (spaced ws ++ tail)))

/-- `parse` on a line in which a parameter may be empty. -/
theorem parse_filled (sender command : CStr) (ws : List CStr) (tail : CStr)
    (hsender : ' ' ∉ sender) (hcommand : Word command) (hws : ∀ w ∈ ws, w = [] ∨ Word w)
    (hlen : ws.length < MAXPARA) (htail : Broken tail) :
    parse (lineText sender command ws tail) =
      some ⟨some sender, command,
        filled ws ++ splitParams (MAXPARA - (filled ws).length) tail⟩ := by
  have hrest := broken_spaced ws tail htail
  have hbroken : Broken (' ' :: (command ++ (spaced ws ++ tail))) := Or.inr ⟨_, rfl⟩
  have hcolon : skipSpaces (lineText sender command ws tail) =
      lineText sender command ws tail := by simp [skipSpaces, lineText]
  have hsplit : splitSender (lineText sender command ws tail) =
      (some sender, command ++ (spaced ws ++ tail)) := by
    have hmem : ' ' ∈ sender ++ ' ' :: (command ++ (spaced ws ++ tail)) := by simp
    show (some (word _), skipSpaces (if ' ' ∈ sender ++ _ then afterWord _ else _)) = _
    rw [if_pos hmem, word_append _ _ hsender hbroken,
      afterWord_append _ _ hsender hbroken, skipSpaces_space, skipSpaces_word _ _ hcommand]
  have hne : command ++ (spaced ws ++ tail) ≠ [] := by simp [hcommand.ne_nil]
  unfold parse
  rw [hcolon, hsplit]
  dsimp only
  rw [if_neg hne, word_append _ _ hcommand.no_space hrest,
    afterWord_append _ _ hcommand.no_space hrest, splitParams_spaced ws MAXPARA tail hws hlen htail]

/-- `parse` on a line as the server prints it. -/
theorem parse_lineText (sender command : CStr) (ws : List CStr) (tail : CStr)
    (hsender : ' ' ∉ sender) (hcommand : Word command) (hws : ∀ w ∈ ws, Word w)
    (hlen : ws.length < MAXPARA) (htail : Broken tail) :
    parse (lineText sender command ws tail) =
      some ⟨some sender, command, ws ++ splitParams (MAXPARA - ws.length) tail⟩ := by
  rw [parse_filled sender command ws tail hsender hcommand (fun w hw => Or.inr (hws w hw)) hlen htail,
    filled_words ws hws]

theorem parse_trailing (sender command : CStr) (ws : List CStr) (last : CStr)
    (hsender : ' ' ∉ sender) (hcommand : Word command) (hws : ∀ w ∈ ws, Word w)
    (hlen : ws.length < MAXPARA) :
    parse (lineText sender command ws (' ' :: ':' :: last)) =
      some ⟨some sender, command, ws ++ [last]⟩ := by
  rw [parse_lineText sender command ws _ hsender hcommand hws hlen (Or.inr ⟨_, rfl⟩),
    splitParams_trailing _ _ (by omega)]

example : parse ":1AA TMODE 5 #c +k x :y z".toList =
    some ⟨some "1AA".toList, "TMODE".toList,
      ["5".toList, "#c".toList, "+k".toList, "x".toList, "y z".toList]⟩ := by decide

end IrcdHybrid.Wire
