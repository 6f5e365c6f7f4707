import IrcdHybrid.LineTokens

/-!
`parse`, from the line to the call of the handler: who the line is from, which command or numeric
it is, and with what the handler is called.
-/

namespace IrcdHybrid.LineParser

open CString Wire ArgumentUse LineTokens

inductive HandlerType
  | unregistered
  | client
  | server
  | encap
  | oper
  | dummy
  deriving DecidableEq

/-- What `ms_encap` finds of a command: `args_min` and the handler for `ENCAP`. -/
abbrev Sub := ℕ × (ℕ → Use Unit)

/-- A handler, from `parc` on. `ms_encap` alone looks for another command. -/
inductive Handler
  | plain (f : ℕ → Use Unit)
  | encap (f : Option Sub → ℕ → Use Unit)

def Handler.call (found : Option Sub) : Handler → ℕ → Use Unit
  | .plain f => f
  | .encap f => f found

/-- A `struct Message`; `extra` is `MFLG_EXTRA`. -/
structure Message where
  cmd : CStr
  argsMin : ℕ
  argsMax : ℕ
  extra : Bool
  handlers : HandlerType → Handler

/-- The client the line comes from. No client has the handlers for `ENCAP`. -/
structure Client where
  defunct : Bool
  isServer : Bool
  handler : HandlerType
  own : handler ≠ .encap

/-- Whom a server names as the sender; `here` says that the sender is behind this server. -/
structure Sender where
  isServer : Bool
  here : Bool

/-- What `parse` comes to. With `none` an element outside of `para` would be written. -/
inductive Outcome
  | ignored
  | unknownPrefix (sender : CStr)
  | fakeDirection (sender : CStr)
  | empty
  | unknownCommand (ch : CStr)
  | needMoreParams (m : Message) (t : Tokens)
  | command (m : Message) (t : Tokens)
  | numeric (n : ℕ) (fromServer : Bool) (t : Tokens)

/-- `while (*ch == ' ') ++ch`. -/
def skip (ch : Cursor) : Cursor :=
  ⟨ch.seen ++ ch.rest.takeWhile (fun c => c == ' '), skipSpaces ch.rest⟩

/-- `strchr(ch, ' ')`, with a terminator written there: what is in front, the line up to what
comes behind, and that. -/
def cut (ch : Cursor) : CStr × CStr × Option CStr :=
  if ' ' ∈ ch.rest then
    (word ch.rest, ch.seen ++ (word ch.rest ++ [NUL]), some (afterWord ch.rest).tail)
  else (ch.rest, ch.seen ++ (ch.rest ++ []), none)

def digit (c : Char) : ℕ := c.toNat - '0'.toNat

/-- The number, and what is behind it, of a numeric. -/
def numericAt : CStr → Option (ℕ × CStr × CStr)
  | a :: b :: c :: d :: rest =>
    if d = ' ' ∧ isDigit a = true ∧ isDigit b = true ∧ isDigit c = true then
      some (digit a * 100 + digit b * 10 + digit c, [a, b, c], rest)
    else none
  | _ => none

section Parse

variable (findCommand : CStr → Option Message) (findSender : CStr → Option Sender)

def parseHandleCommand (m : Message) (t : Tokens) : Outcome :=
  if t.parc < m.argsMin then .needMoreParams m t else .command m t

/-- From the command on. -/
def parseCommand (fromServer : Bool) (ch : Cursor) : Option Outcome :=
  if ch.rest = [] then some .empty
  else
    match numericAt ch.rest with
    | some (n, w, rest) =>
      (splitPara false n 2 ch.seen.length (ch.seen ++ (w ++ [NUL])) (some rest)).map
        fun t => .numeric n fromServer t
    | none =>
      let (w, seen, s) := cut ch
      match findCommand w with
      | none => some (.unknownCommand w)
      | some m =>
        (splitPara m.extra 0 m.argsMax ch.seen.length seen s).map (parseHandleCommand m)

def parse (c : Client) (line : CStr) : Option Outcome :=
  if c.defunct then some .ignored
  else
    let ch := skip ⟨[], line⟩
    match ch.rest with
    | [] => some .empty
    | d :: rest =>
      if d = ':' then
        let (sender, seen, s) := cut ⟨ch.seen ++ [':'], rest⟩
        -- without a blank the command is looked for where the sender is
        let ch : Cursor := match s with
          | some s => skip ⟨seen, s⟩
          | none => skip ⟨ch.seen ++ [':'], rest⟩
        if sender ≠ [] ∧ c.isServer then
          match findSender sender with
          | none => some (.unknownPrefix sender)
          | some p => if p.here then parseCommand findCommand p.isServer ch
            else some (.fakeDirection sender)
        else parseCommand findCommand c.isServer ch
      else parseCommand findCommand c.isServer ch

end Parse

inductive Reading
  | nothing
  | numeric (n : ℕ) (fromServer : Bool) (ch : CStr) (text : CStr)
  | command (m : Message) (ch : CStr) (text : CStr)

/-- A command, or a numeric, and the text its parameters are in. -/
def readCommand (findCommand : CStr → Option Message) (fromServer : Bool) (ch : CStr) : Reading :=
  match numericAt ch with
  | some (n, w, rest) => .numeric n fromServer w rest
  | none =>
    match findCommand (word ch) with
    | none => .nothing
    | some m => .command m (word ch) (afterWord ch).tail

/-- The sender counts on a line from a server alone, where it has to be known. -/
def readLine (findCommand : CStr → Option Message) (findSender : CStr → Option Sender)
    (c : Client) (line : CStr) : Reading :=
  let (sender, ch) := splitSender (skipSpaces line)
  let isServer : Option Bool :=
    if sender.getD [] ≠ [] ∧ c.isServer then
      (findSender (sender.getD [])).bind fun p => if p.here then some p.isServer else none
    else some c.isServer
  match isServer with
  | none => .nothing
  | some isServer =>
    if c.defunct ∨ ch = [] then .nothing else readCommand findCommand isServer ch

/-- The elements of `para` are the parameters that the grammar has in the text, with one place
taken by `message->extra`; there are not more than `MAXPARA`. -/
def Holds (t : Tokens) (keepColon extra : Bool) (paramcount : ℕ) (ch text : CStr) : Prop :=
  ∃ ps, Grammar keepColon (allowed extra paramcount) text ps ∧ ps.length ≤ MAXPARA ∧
    t.parc = argCount extra ps ∧ t.args = vector ch extra ps

/-- What comes of the line is what it says. -/
def Follows : Outcome → Reading → Prop
  | .command m t, .command m' ch text =>
    m = m' ∧ m.argsMin ≤ t.parc ∧ Holds t false m.extra m.argsMax ch text
  | .needMoreParams m t, .command m' ch text =>
    m = m' ∧ t.parc < m.argsMin ∧ Holds t false m.extra m.argsMax ch text
  | .numeric n fromServer t, .numeric n' fromServer' ch text =>
    n = n' ∧ fromServer = fromServer' ∧ Holds t (decide (n ≠ 0)) false 2 ch text
  | .command _ _, _ => False
  | .needMoreParams _ _, _ => False
  | .numeric _ _ _, _ => False
  | _, reading => reading = .nothing

theorem params_nil (keepColon : Bool) (n : ℕ) : params keepColon n [] = [] := by
  cases n <;> rfl

theorem cut_eq (ch : Cursor) :
    cut ch = (word ch.rest, ch.seen ++ (word ch.rest ++ if (cut ch).2.2.isSome then [NUL] else []),
      (cut ch).2.2) ∧ (cut ch).2.2.getD [] = (afterWord ch.rest).tail := by
  unfold cut
  by_cases hblank : ' ' ∈ ch.rest
  · rw [if_pos hblank]
    exact ⟨rfl, rfl⟩
  · rw [if_neg hblank]
    have hfree : ∀ c ∈ ch.rest, (c != ' ') = true := by
      intro c hc
      have hne : c ≠ ' ' := fun heq => hblank (heq ▸ hc)
      simpa using hne
    have hword : word ch.rest = ch.rest := List.takeWhile_eq_self_iff.mpr hfree
    have hafter : afterWord ch.rest = [] := List.dropWhile_eq_nil_iff.mpr hfree
    rw [hword, hafter]
    exact ⟨rfl, rfl⟩

/-- The tokenizer always comes to an end, and it does what the grammar says. -/
theorem splitPara_holds (extra : Bool) (numeric paramcount : ℕ) (before w : CStr)
    (s : Option CStr) (hw : NUL ∉ w) (hs : NUL ∉ s.getD []) :
    ∃ t, splitPara extra numeric paramcount before.length
        (before ++ (w ++ if s.isSome then [NUL] else [])) s = some t ∧
      Holds t (decide (numeric ≠ 0)) extra paramcount w (s.getD []) := by
  have hrest : ∀ rest, s = some rest → NUL ∉ rest := by
    rintro rest rfl
    exact hs
  obtain ⟨t, ht, hparc, hargs⟩ := splitPara_spec extra numeric paramcount before w s hw hrest
  have hps : s.elim [] (params (decide (numeric ≠ 0)) (allowed extra paramcount)) =
      params (decide (numeric ≠ 0)) (allowed extra paramcount) (s.getD []) := by
    cases s with
    | none => exact (params_nil _ _).symm
    | some rest => rfl
  rw [hps] at hparc hargs
  obtain ⟨m, hm⟩ : ∃ m, allowed extra paramcount = m + 1 :=
    ⟨allowed extra paramcount - 1, by unfold allowed; omega⟩
  refine ⟨t, ht, _, ?_, ?_, hparc, hargs⟩
  · rw [hm]
    exact params_grammar _ m _
  · exact le_trans (params_length _ _ _) (allowed_le extra paramcount)

theorem numericAt_some (s : CStr) (n : ℕ) (w rest : CStr) (h : numericAt s = some (n, w, rest)) :
    s = w ++ ' ' :: rest := by
  unfold numericAt at h
  split at h
  · split at h
    · next hdigits =>
      cases h
      rw [hdigits.1]
      rfl
    · cases h
  · cases h

section Follows

variable (findCommand : CStr → Option Message) (findSender : CStr → Option Sender)

theorem parseCommand_follows (fromServer : Bool) (ch : Cursor) (hclean : NUL ∉ ch.rest) :
    ∃ o, parseCommand findCommand fromServer ch = some o ∧
      Follows o (if ch.rest = [] then .nothing
        else readCommand findCommand fromServer ch.rest) := by
  unfold parseCommand
  by_cases hempty : ch.rest = []
  · rw [if_pos hempty, if_pos hempty]
    exact ⟨_, rfl, rfl⟩
  · rw [if_neg hempty, if_neg hempty]
    unfold readCommand
    cases hnumeric : numericAt ch.rest with
    | some r =>
      obtain ⟨n, w, rest⟩ := r
      have hsplit := numericAt_some _ n w rest hnumeric
      rw [hsplit] at hclean
      obtain ⟨t, ht, hholds⟩ := splitPara_holds false n 2 ch.seen w (some rest)
        (fun h => hclean (List.mem_append_left _ h))
        (fun h => hclean (List.mem_append_right _ (List.mem_cons_of_mem _ h)))
      refine ⟨.numeric n fromServer t, ?_, rfl, rfl, hholds⟩
      dsimp only
      rw [show splitPara false n 2 ch.seen.length (ch.seen ++ (w ++ [NUL])) (some rest) = some t
        from ht]
      rfl
    | none =>
      obtain ⟨hcut, htail⟩ := cut_eq ch
      dsimp only
      rw [hcut]
      dsimp only
      cases hfind : findCommand (word ch.rest) with
      | none => exact ⟨_, rfl, rfl⟩
      | some m =>
        obtain ⟨t, ht, hholds⟩ := splitPara_holds m.extra 0 m.argsMax ch.seen (word ch.rest)
          (cut ch).2.2 (fun h => hclean (List.takeWhile_subset _ h))
          (by
            rw [htail]
            exact fun h => hclean ((List.dropWhile_suffix _).subset (List.mem_of_mem_tail h)))
        rw [htail] at hholds
        dsimp only
        rw [ht]
        refine ⟨parseHandleCommand m t, rfl, ?_⟩
        unfold parseHandleCommand
        by_cases hfew : t.parc < m.argsMin
        · rw [if_pos hfew]
          exact ⟨rfl, hfew, hholds⟩
        · rw [if_neg hfew]
          exact ⟨rfl, Nat.le_of_not_lt hfew, hholds⟩

theorem skip_clean (ch : Cursor) (h : NUL ∉ ch.rest) : NUL ∉ (skip ch).rest :=
  fun hmem => h ((List.dropWhile_suffix _).subset hmem)

/-- Where the command is looked for when there is a sender. -/
theorem behind_sender (seen seen' rest : CStr) :
    (match (cut ⟨seen, rest⟩).2.2 with
      | some s => skip ⟨seen', s⟩
      | none => skip ⟨seen, rest⟩).rest =
    skipSpaces (if ' ' ∈ rest then afterWord rest else rest) := by
  unfold cut
  by_cases hblank : ' ' ∈ rest
  · rw [if_pos hblank, if_pos hblank]
    show skipSpaces (afterWord rest).tail = skipSpaces (afterWord rest)
    cases hafter : afterWord rest with
    | nil => rfl
    | cons d t =>
      have hhead := List.head?_dropWhile_not (fun c => c != ' ') rest
      rw [show rest.dropWhile _ = d :: t from hafter] at hhead
      have hd : d = ' ' := by simpa using hhead
      rw [hd, skipSpaces_space]
      rfl
  · rw [if_neg hblank, if_neg hblank]
    rfl

theorem parse_follows (c : Client) (line : CStr) (hclean : NUL ∉ line) :
    ∃ o, parse findCommand findSender c line = some o ∧
      Follows o (readLine findCommand findSender c line) := by
  unfold parse readLine
  by_cases hdefunct : c.defunct = true
  · refine ⟨.ignored, if_pos hdefunct, ?_⟩
    dsimp only
    split
    · rfl
    · rw [if_pos (Or.inl hdefunct)]
      rfl
  · rw [if_neg hdefunct]
    obtain ⟨ch, hch⟩ : ∃ ch, ch = skip ⟨[], line⟩ := ⟨_, rfl⟩
    have hskip : NUL ∉ ch.rest := hch ▸ skip_clean ⟨[], line⟩ hclean
    have hrest : skipSpaces line = ch.rest := hch ▸ rfl
    rw [← hch, hrest]
    dsimp only
    simp only [hdefunct, Bool.false_eq_true, false_or]
    cases hd : ch.rest with
    | nil =>
      refine ⟨.empty, rfl, ?_⟩
      simp [splitSender, Follows]
    | cons d rest =>
      rw [hd] at hskip
      dsimp only
      by_cases hcolon : d = ':'
      · -- the line has a sender
        obtain ⟨hcut, _⟩ := cut_eq ⟨ch.seen ++ [':'], rest⟩
        have hbehind := behind_sender (ch.seen ++ [':'])
          (cut ⟨ch.seen ++ [':'], rest⟩).2.1 rest
        have hclean' : NUL ∉ skipSpaces (if ' ' ∈ rest then afterWord rest else rest) := by
          intro hmem
          have hmem := (List.dropWhile_suffix _).subset hmem
          split at hmem
          · exact hskip (List.mem_cons_of_mem d ((List.dropWhile_suffix _).subset hmem))
          · exact hskip (List.mem_cons_of_mem d hmem)
        rw [if_pos hcolon, hcolon]
        rcases hc : cut ⟨ch.seen ++ [':'], rest⟩ with ⟨sender, seen, s⟩
        rw [hc] at hcut hbehind
        obtain rfl : sender = word rest := congrArg Prod.fst hcut
        dsimp only at hbehind ⊢
        generalize (match s with
          | some s => skip ⟨seen, s⟩
          | none => skip ⟨ch.seen ++ [':'], rest⟩) = ch' at hbehind ⊢
        have hfollows := fun fromServer => parseCommand_follows findCommand fromServer ch'
          (hbehind ▸ hclean')
        rw [hbehind] at hfollows
        rw [show splitSender (':' :: rest) = (some (word rest),
          skipSpaces (if ' ' ∈ rest then afterWord rest else rest)) from rfl]
        dsimp only [Option.getD_some]
        by_cases hserver : word rest ≠ [] ∧ c.isServer = true
        · rw [if_pos hserver, if_pos hserver]
          cases hfind : findSender (word rest) with
          | none => exact ⟨_, rfl, rfl⟩
          | some p =>
            rw [Option.bind_some]
            dsimp only
            by_cases hhere : p.here = true
            · rw [if_pos hhere, if_pos hhere]
              exact hfollows p.isServer
            · rw [if_neg hhere, if_neg hhere]
              exact ⟨_, rfl, rfl⟩
        · rw [if_neg hserver, if_neg hserver]
          exact hfollows c.isServer
      · have hsplit : splitSender (d :: rest) = (none, d :: rest) := by
          simp [splitSender, hcolon]
        rw [if_neg hcolon, hsplit]
        obtain ⟨o, ho, hfollows⟩ := parseCommand_follows findCommand c.isServer ch
          (hd ▸ hskip)
        rw [hd] at hfollows
        exact ⟨o, ho, hfollows⟩

end Follows

end IrcdHybrid.LineParser
