import IrcdHybrid.ChannelLines
import IrcdHybrid.TmodeLines

/-!
A member's picture of a channel. He reads every line as it comes over his
connection: a MODE line letter by letter, each with its parameter, and a JOIN
line for who has come in. The picture is a channel whose members go by their
nicks.
-/

namespace IrcdHybrid.ChannelView

open CString Numeral BanMask Channels Wire Burst Sjoin ChannelMode ChannelTable BurstLines
  ModeReplay TmodeLines ChannelLines

/-- Whether a letter goes with a parameter. -/
def takesArg (kind : Kind) (dir : Dir) : Bool :=
  match kind with
  | .mask _ => true
  | .status _ => true
  | .key => true
  | .limit => dir == .add
  | .simple _ => false

/-- The letters of a MODE line with their parameters. -/
def readItems : Dir → CStr → List CStr → List Item
  | _, [], _ => []
  | dir, c :: letters, args =>
    if c = '+' then readItems .add letters args
    else if c = '-' then readItems .del letters args
    else
      match kindOf c with
      | none => readItems dir letters args
      | some kind =>
        if takesArg kind dir then
          match args with
          | arg :: args => ⟨c, some arg, dir⟩ :: readItems dir letters args
          | [] => readItems dir letters []
        else ⟨c, none, dir⟩ :: readItems dir letters args

/-- The picture after one more line. -/
def replay (v : Channel) (l : Line) : Channel :=
  match parse (sendFormat l.text) with
  | none => v
  | some msg =>
    if msg.command = "MODE".toList then
      match msg.params with
      | _ :: letters :: args => (readItems .query letters args).foldl applyItem v
      | _ => v
    else if msg.command = "JOIN".toList then
      addUserToChannel v ((msg.sender.getD []).takeWhile (fun c => c != '!')) noFlags
    else v

/-- The picture that goes with a channel; its name and its age are not in it. -/
def seen (clients : Clients) (chptr : Channel) : Channel :=
  { chptr with
    name := []
    creationtime := 0
    members := chptr.members.map (fun member => ⟨nick clients member.id, member.flags⟩) }

/-- A change that is printed as it is read. -/
structure Shown (item : Item) : Prop where
  kind : ∃ kind, kindOf item.letter = some kind ∧ item.arg.isSome = takesArg kind item.dir
  dir : item.dir ≠ .query
  word : ∀ arg, item.arg = some arg → Word arg

theorem readItems_sign (dir : Dir) (st : Dir) (letters : CStr) (args : List CStr)
    (h : dir ≠ .query) : readItems st (signOf dir :: letters) args = readItems dir letters args := by
  cases dir with
  | query => exact absurd rfl h
  | add => rfl
  | del => rfl

theorem readItems_letter (item : Item) (letters : CStr) (args : List CStr) (h : Shown item) :
    readItems item.dir (item.letter :: letters) (item.arg.toList ++ args) =
      item :: readItems item.dir letters args := by
  obtain ⟨kind, hkind, harg⟩ := h.kind
  obtain ⟨hplus, hminus, -⟩ := kindOf_sign item.letter kind hkind
  obtain ⟨letter, arg, dir⟩ := item
  simp only at hkind harg hplus hminus ⊢
  conv_lhs => unfold readItems
  simp only [hplus, hminus, if_false, hkind]
  cases arg with
  | none => simp [← harg]
  | some arg => simp [← harg]

theorem readItems_lettersOf (items : List Item) (st : Dir) (h : ∀ item ∈ items, Shown item) :
    readItems st (lettersOf st items) (argsOf items) = items := by
  induction items generalizing st with
  | nil => rfl
  | cons item items ih =>
    have hitem := h item (by simp)
    have hrest := ih item.dir (fun x hx => h x (by simp [hx]))
    rw [lettersOf_cons, argsOf_cons]
    by_cases hdir : st = item.dir
    · rw [if_pos hdir, List.nil_append, hdir, readItems_letter item _ _ hitem, hrest]
    · rw [if_neg hdir, List.singleton_append, readItems_sign item.dir st _ _ hitem.dir,
        readItems_letter item _ _ hitem, hrest]

theorem mem_lettersOf_shown (items : List Item) (st : Dir) (h : ∀ item ∈ items, Shown item)
    (c : Char) (hc : c ∈ lettersOf st items) : c ≠ ' ' := by
  induction items generalizing st with
  | nil => exact absurd hc (by simp [lettersOf])
  | cons item items ih =>
    obtain ⟨kind, hkind, -⟩ := (h item (by simp)).kind
    obtain ⟨-, -, -, hspace, -⟩ := kindOf_sign item.letter kind hkind
    rw [lettersOf_cons] at hc
    rcases List.mem_append.mp hc with hsign | hc
    · by_cases hdir : st = item.dir
      · simp [hdir] at hsign
      · rw [if_neg hdir, List.mem_singleton] at hsign
        rw [hsign]
        cases item.dir <;> decide
    · rcases List.mem_cons.mp hc with rfl | hc
      · exact hspace
      · exact ih item.dir (fun x hx => h x (by simp [hx])) hc

theorem word_letters (items : List Item) (hne : items ≠ []) (h : ∀ item ∈ items, Shown item) :
    Word (lettersOf .query items) := by
  obtain ⟨item, rest, rfl⟩ := List.exists_cons_of_ne_nil hne
  have hdir := (h item (by simp)).dir
  have hhead : lettersOf .query (item :: rest) =
      signOf item.dir :: item.letter :: lettersOf item.dir rest := by
    rw [lettersOf_cons, if_neg hdir.symm]
    rfl
  refine ⟨by simp [hhead], fun hspace => mem_lettersOf_shown _ _ h ' ' hspace rfl, ?_⟩
  rw [hhead]
  intro hcolon
  have hsign : signOf item.dir = ':' := Option.some.inj hcolon
  cases hitem : item.dir with
  | query => exact hdir hitem
  | add => exact absurd hsign (by rw [hitem]; decide)
  | del => exact absurd hsign (by rw [hitem]; decide)

/-- A MODE line for these changes. -/
def itemsLine (origin name : CStr) (items : List Item) (tail : CStr) : CStr :=
  lineText origin "MODE".toList ([name, lettersOf .query items] ++ argsOf items) tail

/-- A line that is not cut off is read as the changes it was printed from. -/
theorem replay_items (v : Channel) (l : Line) (origin name tail : CStr) (items : List Item)
    (htext : l.text = itemsLine origin name items tail) (horigin : ' ' ∉ origin) (hname : Word name)
    (hne : items ≠ []) (h : ∀ item ∈ items, Shown item) (hargs : (argsOf items).length ≤ 12)
    (htail : ∀ c ∈ tail, c = ' ') (hlen : l.text.length ≤ IRCD_BUFSIZE - 2) :
    replay v l = items.foldl applyItem v := by
  have hwords : ∀ w ∈ [name, lettersOf .query items] ++ argsOf items, Word w := by
    intro w hw
    rcases List.mem_append.mp hw with hw | hw
    · rcases List.mem_pair.mp hw with rfl | rfl
      · exact hname
      · exact word_letters items hne h
    · obtain ⟨item, hitem, harg⟩ := List.mem_filterMap.mp hw
      exact (h item hitem).word w harg
  have hbroken : Broken tail := by
    cases tail with
    | nil => exact Or.inl rfl
    | cons c t =>
      obtain rfl := htail c (by simp)
      exact Or.inr ⟨t, rfl⟩
  have hparse : parse (sendFormat l.text) = some ⟨some origin, "MODE".toList,
      name :: lettersOf .query items :: argsOf items⟩ := by
    unfold sendFormat
    rw [List.take_of_length_le hlen, htext]
    unfold itemsLine
    rw [parse_lineText origin _ _ tail horigin ⟨by decide, by decide, by decide⟩ hwords
      (by
        have hmax : MAXPARA = 15 := rfl
        simp only [List.length_append, List.length_cons, List.length_nil]
        omega) hbroken, splitParams_blank _ _ htail, List.append_nil]
    rfl
  unfold replay
  rw [hparse]
  show (readItems .query (lettersOf .query items) (argsOf items)).foldl applyItem v = _
  rw [readItems_lettersOf items .query h]

/-- Letters with one sign that all take a parameter, as changes. -/
def itemsFor (dir : Dir) (changes : List (Char × CStr)) : List Item :=
  changes.map (fun ch => ⟨ch.1, some ch.2, dir⟩)

theorem argsOf_itemsFor (dir : Dir) (changes : List (Char × CStr)) :
    argsOf (itemsFor dir changes) = changes.map Prod.snd := by
  simp [argsOf, itemsFor, List.filterMap_map]

theorem lettersOf_itemsFor (dir : Dir) (changes : List (Char × CStr)) :
    lettersOf dir (itemsFor dir changes) = changes.map Prod.fst := by
  induction changes with
  | nil => rfl
  | cons ch changes ih =>
    show lettersOf dir (⟨ch.1, some ch.2, dir⟩ :: itemsFor dir changes) = _
    rw [lettersOf_cons, if_pos rfl, List.nil_append, ih]
    rfl

theorem modeLine_text (origin name : CStr) (dir : Dir) (changes : List (Char × CStr))
    (hne : changes ≠ []) (hdir : dir ≠ .query) :
    (modeLine origin name (signOf dir) changes).text =
      itemsLine origin name (itemsFor dir changes) [] := by
  obtain ⟨ch, rest, rfl⟩ := List.exists_cons_of_ne_nil hne
  have hletters : lettersOf .query (itemsFor dir (ch :: rest)) =
      signOf dir :: (ch :: rest).map Prod.fst := by
    rw [← lettersOf_itemsFor dir (ch :: rest)]
    show lettersOf .query (⟨ch.1, some ch.2, dir⟩ :: itemsFor dir rest) =
      signOf dir :: lettersOf dir (⟨ch.1, some ch.2, dir⟩ :: itemsFor dir rest)
    rw [lettersOf_cons, lettersOf_cons, if_neg hdir.symm, if_pos rfl]
    rfl
  unfold itemsLine lineText modeLine Line.text
  rw [hletters, argsOf_itemsFor]
  have hspaced : spaced ((ch :: rest).map Prod.snd) =
      (ch :: rest).flatMap (fun ch => ' ' :: ch.2) := by
    unfold spaced
    rw [List.flatMap_map]
  simp only [spaced_append, spaced_cons, spaced_nil, hspaced]
  simp

end IrcdHybrid.ChannelView
