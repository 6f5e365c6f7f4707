import IrcdHybrid.BanMask
import IrcdHybrid.BinarySearch
import IrcdHybrid.BlankWords
import IrcdHybrid.LastWins
import IrcdHybrid.Packing
import IrcdHybrid.Wire
import Mathlib.Data.List.Sort

/-!
The capability requests of a client (`m_cap.c`). A request is read word by word while the new
sets are made beside the old ones; they are taken over only when all of it could be read.
-/

namespace IrcdHybrid.CapRequest

open CString Wire BlankWords BinarySearch LastWins Packing
open BanMask (isSpace HOSTLEN)

abbrev CapSet := BitVec 32

structure Capability where
  cap : CapSet
  flags : BitVec 32
  name : CStr
deriving DecidableEq

def CAPFL_HIDDEN : BitVec 32 := 0x0001#32
def CAPFL_PROHIBIT : BitVec 32 := 0x0002#32
def CAPFL_PROTO : BitVec 32 := 0x0004#32
def CAPFL_STICKY : BitVec 32 := 0x0008#32

def Capability.flag (c : Capability) (f : BitVec 32) : Bool := c.flags &&& f != 0#32

def has (s : CapSet) (c : Capability) : Bool := s &&& c.cap != 0#32

def capUhnames : Capability := ⟨0x4#32, 0#32, "userhost-in-names".toList⟩
def capMultiPrefix : Capability := ⟨0x1#32, 0#32, "multi-prefix".toList⟩
def capAwayNotify : Capability := ⟨0x2#32, 0#32, "away-notify".toList⟩
def capExtendedJoin : Capability := ⟨0x8#32, 0#32, "extended-join".toList⟩

/-- The order of two texts without regard to case: the first letters that differ decide. -/
def strcasecmp : CStr → CStr → ℤ
  | [], [] => 0
  | [], d :: _ => -(d.toLower.toNat : ℤ)
  | c :: _, [] => c.toLower.toNat
  | c :: s, d :: t =>
    if c.toLower = d.toLower then strcasecmp s t else (c.toLower.toNat : ℤ) - d.toLower.toNat

def capabSort (cap1 cap2 : Capability) : ℤ := strcasecmp cap1.name cap2.name

/-- `capab_list`, which `module_init` sorts. -/
def capabList : List Capability :=
  [capUhnames, capMultiPrefix, capAwayNotify, capExtendedJoin].insertionSort
    fun cap1 cap2 => capabSort cap1 cap2 ≤ 0

/-- The key goes on to the end of the request, so a blank ends it too. -/
def capabSearch : CStr → CStr → ℤ
  | [], [] => 0
  | [], r :: _ => -((toLower r).toNat : ℤ)
  | k :: _, [] => if isSpace k then 0 else (toLower k).toNat
  | k :: key, r :: rb =>
    if toLower k = toLower r then capabSearch key rb
    else ((toLower k).toNat : ℤ) - (toLower r).toNat

/-- The sign of an element, and the text behind it. -/
def sign : CStr → Bool × CStr
  | '-' :: s => (true, s)
  | s => (false, s)

/-- What `find_cap` answers, and what it leaves in its two pointers. -/
structure Found where
  cap : Option Capability
  neg : Bool
  caplist : Option CStr

def pointTo (s : CStr) : Option CStr := if s = [] then none else some s

def findCap (caplist : CStr) : Found :=
  let (neg, caplist) := sign (caplist.dropWhile isSpace)
  if caplist = [] then ⟨none, neg, none⟩
  else
    match bsearch (fun cap => capabSearch caplist cap.name) capabList with
    | none => ⟨none, neg, pointTo ((caplist.dropWhile fun c => !isSpace c).dropWhile isSpace)⟩
    | some cap => ⟨some cap, neg, pointTo ((caplist.drop cap.name.length).dropWhile isSpace)⟩

/-- The sets that `cap_req` makes. -/
structure Sets where
  set : CapSet
  rem : CapSet
  cs : CapSet
  as : CapSet

def Sets.change (neg : Bool) (cap : Capability) (s : Sets) : Sets :=
  if neg then
    { rem := s.rem ||| cap.cap
      set := s.set &&& ~~~cap.cap
      cs := s.cs &&& ~~~cap.cap
      as := if cap.flag CAPFL_PROTO then s.as else s.as &&& ~~~cap.cap }
  else
    { rem := s.rem &&& ~~~cap.cap
      set := s.set ||| cap.cap
      cs := s.cs ||| cap.cap
      as := if cap.flag CAPFL_PROTO then s.as else s.as ||| cap.cap }

/-- The loop of `cap_req`, for so many passes; the inner `none` is its early return. -/
def reqLoop : ℕ → Option CStr → Sets → Option (Option Sets)
  | _, none, s => some (some s)
  | 0, some _, _ => none
  | fuel + 1, some cl, s =>
    let found := findCap cl
    match found.cap with
    | none => some none
    | some cap =>
      if (!found.neg && cap.flag CAPFL_PROHIBIT) || (found.neg && cap.flag CAPFL_STICKY) then
        some none
      else reqLoop fuel found.caplist (s.change found.neg cap)

/-- The lines that are sent, the buffer and what `loc` counts of it. -/
structure CapBuf where
  lines : List CStr
  capbuf : CStr
  loc : ℕ

def isIn (s : Option CapSet) (cap : Capability) : Bool :=
  match s with
  | none => false
  | some s => has s cap

/-- What `send_caplist` puts before a name: a separator and the modifiers. -/
def modifiers (rem : Option CapSet) (cap : Capability) : CStr :=
  if isIn rem cap then ['-']
  else
    (if cap.flag CAPFL_PROTO then ['~'] else []) ++ (if cap.flag CAPFL_STICKY then ['='] else [])

def shown (set rem : Option CapSet) (cap : Capability) : Bool :=
  isIn rem cap || isIn set cap ||
    !(rem.isSome || set.isSome || cap.flag CAPFL_HIDDEN)

def appendCap (cmdbuf : CStr) (clen : ℕ) (set rem : Option CapSet) (b : CapBuf)
    (cap : Capability) : CapBuf :=
  if !shown set rem cap then b
  else
    let pfx := (if b.loc ≠ 0 then [' '] else []) ++ modifiers rem cap
    let len := cap.name.length + pfx.length
    let b :=
      if IRCD_BUFSIZE < clen + b.loc + len + 15 then
        ⟨b.lines ++ [sendFormat (cmdbuf ++ "* :".toList ++ b.capbuf)], [], 0⟩
      else b
    { b with
      capbuf := b.capbuf ++ (pfx ++ cap.name).take (IRCD_BUFSIZE - b.loc - 1)
      loc := b.loc + len }

/-- A client without a name yet is called "*". -/
def shownName (name : CStr) : CStr := if name = [] then ['*'] else name

def capHeader (me name subcmd : CStr) : CStr :=
  ':' :: me ++ " CAP ".toList ++ shownName name ++ ' ' :: subcmd ++ [' ']

def sendCaplist (me name : CStr) (set rem : Option CapSet) (subcmd : CStr) : List CStr :=
  let header := capHeader me name subcmd
  let cmdbuf := header.take (IRCD_BUFSIZE - 1)
  let b := capabList.foldl (appendCap cmdbuf header.length set rem) ⟨[], [], 0⟩
  b.lines ++ [sendFormat (cmdbuf ++ ':' :: b.capbuf)]

structure Client where
  name : CStr
  unknown : Bool
  needCap : Bool
  capClient : CapSet
  capActive : CapSet

/-- The client and the lines that are sent to it. -/
structure Reply where
  client : Client
  sent : List CStr

def nakLine (me name caplist : CStr) : CStr :=
  capHeader me name "NAK".toList ++ ':' :: caplist

/-- `CAP REQ` may come without a list. -/
def capReq (fuel : ℕ) (me : CStr) (caplist : Option CStr) (c : Client) : Option Reply :=
  let c := if c.unknown then { c with needCap := true } else c
  match reqLoop fuel caplist ⟨0#32, 0#32, c.capClient, c.capActive⟩ with
  | none => none
  | some none => some ⟨c, [sendFormat (nakLine me c.name (caplist.getD []))]⟩
  | some (some s) =>
    some
      ⟨{ c with capClient := s.cs, capActive := s.as },
        sendCaplist me c.name (some s.set) (some s.rem) "ACK".toList⟩

/-- A word of a request that names a capability. -/
structure Token where
  neg : Bool
  cap : Capability

/-- The capability of that name, in any case of its letters. -/
def named (name : CStr) : Option Capability :=
  capabList.find? fun cap => name.map toLower = cap.name.map toLower

/-- A prohibited capability may not be set, and a sticky one not be cleared. -/
def Token.permitted (t : Token) : Bool :=
  if t.neg then !t.cap.flag CAPFL_STICKY else !t.cap.flag CAPFL_PROHIBIT

def tokenOf (w : CStr) : Option Token :=
  ((named (sign w).2).map fun cap => ⟨(sign w).1, cap⟩).filter Token.permitted

/-- The tokens of a request that can be granted: it has words, unless there is no list at all,
and every word names a capability that may be changed that way. -/
def tokens : Option CStr → Option (List Token)
  | none => some []
  | some text =>
    if words isSpace text = [] then none else (words isSpace text).mapM tokenOf

/-- Whether the last mention of the capability clears it, where there is one. -/
def lastMention (toks : List Token) (cap : Capability) : Option Bool :=
  last Token.cap Token.neg cap toks

/-- The text that an acknowledgement has for a capability. -/
def ackText (toks : List Token) (cap : Capability) : CStr :=
  if lastMention toks cap = some true then '-' :: cap.name else cap.name

/-- The tokens applied to a set, the last mention of a capability winning. -/
structure Applied (toks : List Token) (old new : CapSet) : Prop where
  known : ∀ cap ∈ capabList,
    has new cap = ((lastMention toks cap).map (!·)).getD (has old cap)
  other : ∀ m : CapSet, (∀ cap ∈ capabList, cap.cap &&& m = 0#32) → new &&& m = old &&& m

/-- What a granted request does. -/
structure Granted (me : CStr) (c : Client) (toks : List Token) (r : Reply) : Prop where
  client : Applied toks c.capClient r.client.capClient
  active : Applied toks c.capActive r.client.capActive
  ack : ∃ caps : List Capability, caps.Nodup ∧ (∀ cap, cap ∈ caps ↔ ∃ t ∈ toks, t.cap = cap) ∧
    r.sent = [capHeader me c.name "ACK".toList ++ ':' :: joined (ackText toks) ' ' caps]

/-- What a refused request does: the text is cut where the line is full. -/
structure Refused (me : CStr) (c : Client) (text : CStr) (r : Reply) : Prop where
  client : r.client.capClient = c.capClient
  active : r.client.capActive = c.capActive
  nak : r.sent = [sendFormat (nakLine me c.name text)]

section Scanner

/-- A letter of a word: no blank, and not the terminator. -/
def Letter (c : Char) : Prop := isSpace c = false ∧ c ≠ '\x00'

theorem capabList_eq :
    capabList = [capAwayNotify, capExtendedJoin, capMultiPrefix, capUhnames] := by
  decide +kernel

theorem name_letters (cap : Capability) (hcap : cap ∈ capabList) :
    cap.name ≠ [] ∧ ∀ c ∈ cap.name, Letter c := by
  rw [capabList_eq] at hcap
  have hall : ∀ cap ∈ [capAwayNotify, capExtendedJoin, capMultiPrefix, capUhnames],
      cap.name ≠ [] ∧ cap.name.all (fun c => !isSpace c && c != '\x00') = true := by
    decide +kernel
  obtain ⟨hne, hfree⟩ := hall cap hcap
  refine ⟨hne, ?_⟩
  intro c hc
  simpa [Letter] using List.all_eq_true.mp hfree c hc

theorem toLower_isSpace (c : Char) : isSpace (toLower c) = isSpace c := by
  unfold toLower
  split
  case isTrue h =>
    have hc : isSpace c = false := by
      have h1 : 65 ≤ c.toNat := h.1
      simp only [isSpace, Bool.or_eq_false_iff, Bool.and_eq_false_iff, decide_eq_false_iff_not,
        char_le_iff]
      refine ⟨?_, Or.inr ?_⟩
      · rintro rfl
        exact absurd h1 (by decide)
      · have h13 : ('\r').toNat = 13 := rfl
        omega
    have hlow : isSpace (Char.ofNat (c.toNat + 32)) = false := by
      have h1 : 65 ≤ c.toNat := h.1
      have h2 : c.toNat ≤ 94 := h.2
      have hnat := toNat_ofNat_small (c.toNat + 32) (by omega)
      simp only [isSpace, Bool.or_eq_false_iff, Bool.and_eq_false_iff, decide_eq_false_iff_not,
        char_le_iff]
      refine ⟨?_, Or.inr ?_⟩
      · intro heq
        rw [heq] at hnat
        have h32 : (' ').toNat = 32 := rfl
        omega
      · have h13 : ('\r').toNat = 13 := rfl
        omega
    rw [hc, hlow]
  case isFalse => rfl

theorem toLower_toNat_pos (c : Char) (hc : c ≠ '\x00') : 0 < (toLower c).toNat := by
  rw [toNat_toLower]
  have hpos : 0 < c.toNat := by
    rcases Nat.eq_zero_or_pos c.toNat with hzero | hpos
    · exact absurd (char_eq_of_toNat c '\x00' hzero) hc
    · exact hpos
  split <;> omega

theorem toLower_sub_ne (k r : Char) (h : toLower k ≠ toLower r) :
    ((toLower k).toNat : ℤ) - (toLower r).toNat ≠ 0 := by
  intro hzero
  exact h (char_eq_of_toNat _ _ (by omega))

/-- The search has found a name when the word at the front of the key is the name. -/
theorem capabSearch_eq_zero (w rest name : CStr) (hw : ∀ c ∈ w, Letter c)
    (hrest : Ends isSpace rest) (hname : ∀ c ∈ name, Letter c) :
    capabSearch (w ++ rest) name = 0 ↔ w.map toLower = name.map toLower := by
  induction w generalizing name with
  | nil =>
    cases rest with
    | nil =>
      cases name with
      | nil => simp [capabSearch]
      | cons r rb =>
        have hpos := toLower_toNat_pos r (hname r (by simp)).2
        simp [capabSearch]
        omega
    | cons k rest =>
      have hk : isSpace k = true := hrest k rfl
      cases name with
      | nil => simp [capabSearch, hk]
      | cons r rb =>
        have hne : toLower k ≠ toLower r := by
          intro heq
          have hsp := toLower_isSpace k
          rw [heq, toLower_isSpace, (hname r (by simp)).1, hk] at hsp
          cases hsp
        have hsub := toLower_sub_ne k r hne
        simpa [capabSearch, hne] using hsub
  | cons k w ih =>
    obtain ⟨hksp, hknul⟩ := hw k (by simp)
    cases name with
    | nil =>
      have hpos := toLower_toNat_pos k hknul
      simp [capabSearch, hksp]
      omega
    | cons r rb =>
      have hrec := ih rb (fun c hc => hw c (List.mem_cons_of_mem k hc))
        (fun c hc => hname c (List.mem_cons_of_mem r hc))
      by_cases heq : toLower k = toLower r
      · simp [capabSearch, heq, hrec]
      · have hsub := toLower_sub_ne k r heq
        simpa [capabSearch, heq] using hsub

/-- Names that begin with different letters are in the order of these letters. -/
theorem capabSearch_order (key as bs : CStr) (a b : Char)
    (hab : (toLower a).toNat < (toLower b).toNat) (h : 0 ≤ capabSearch key (b :: bs)) :
    0 < capabSearch key (a :: as) := by
  cases key with
  | nil =>
    simp only [capabSearch] at h
    omega
  | cons k key =>
    simp only [capabSearch] at h ⊢
    by_cases hkb : toLower k = toLower b
    · have hka : toLower k ≠ toLower a := by
        intro hka
        rw [← hka, hkb] at hab
        omega
      rw [if_neg hka, hkb]
      omega
    · rw [if_neg hkb] at h
      have hka : toLower k ≠ toLower a := by
        intro hka
        rw [← hka] at hab
        omega
      rw [if_neg hka]
      omega

theorem capabList_inOrder (key : CStr) :
    InOrder (fun cap => capabSearch key cap.name) capabList := by
  have hae : (toLower 'a').toNat < (toLower 'e').toNat := by decide
  have ham : (toLower 'a').toNat < (toLower 'm').toNat := by decide
  have hau : (toLower 'a').toNat < (toLower 'u').toNat := by decide
  have hem : (toLower 'e').toNat < (toLower 'm').toNat := by decide
  have heu : (toLower 'e').toNat < (toLower 'u').toNat := by decide
  have hmu : (toLower 'm').toNat < (toLower 'u').toNat := by decide
  rw [capabList_eq]
  simp only [InOrder, List.pairwise_cons, List.forall_mem_cons, List.not_mem_nil, false_imp_iff,
    implies_true, List.Pairwise.nil, and_true]
  exact ⟨⟨capabSearch_order key _ _ _ _ hae, capabSearch_order key _ _ _ _ ham,
      capabSearch_order key _ _ _ _ hau⟩,
    ⟨capabSearch_order key _ _ _ _ hem, capabSearch_order key _ _ _ _ heu⟩,
    capabSearch_order key _ _ _ _ hmu⟩

/-- The search finds the capability that the word at the front of the key names. -/
theorem bsearch_named (w rest : CStr) (hw : ∀ c ∈ w, Letter c) (hrest : Ends isSpace rest) :
    bsearch (fun cap => capabSearch (w ++ rest) cap.name) capabList = named w := by
  rw [bsearch_eq_find? _ _ (capabList_inOrder (w ++ rest))]
  unfold named
  apply List.find?_congr
  intro cap hcap
  simp only [decide_eq_decide]
  exact capabSearch_eq_zero w rest cap.name hw hrest (name_letters cap hcap).2

theorem sign_append (w rest : CStr) (hw : w ≠ []) :
    sign (w ++ rest) = ((sign w).1, (sign w).2 ++ rest) := by
  cases w with
  | nil => exact absurd rfl hw
  | cons c w =>
    by_cases hc : c = '-'
    · subst hc
      rfl
    · simp [sign, hc]

theorem sign_subset (w : CStr) : ∀ c ∈ (sign w).2, c ∈ w := by
  intro c hc
  unfold sign at hc
  split at hc
  · exact List.mem_cons_of_mem _ hc
  · exact hc

theorem named_length (w : CStr) (cap : Capability) (h : named w = some cap) :
    cap.name.length = w.length := by
  have hfound := List.find?_some h
  have hmap : w.map toLower = cap.name.map toLower := by simpa using hfound
  simpa using (congrArg List.length hmap).symm

theorem named_nil : named [] = none := by
  apply List.find?_eq_none.mpr
  intro cap hcap
  simpa using (name_letters cap hcap).1

/-- What is left of a request of which `ws` are still to be read. -/
def Left (ws : List CStr) (n : ℕ) (caplist : Option CStr) : Prop :=
  (ws = [] ∧ caplist = none) ∨
    ∃ r, caplist = some r ∧ words isSpace r = ws ∧ ws ≠ [] ∧ r.length < n ∧ '\x00' ∉ r

theorem pointTo_left (rest : CStr) (n : ℕ) (hn : rest.length < n) (hnul : '\x00' ∉ rest) :
    Left (words isSpace rest) n (pointTo (rest.dropWhile isSpace)) := by
  rw [← words_dropWhile]
  unfold pointTo
  by_cases hnil : rest.dropWhile isSpace = []
  · rw [if_pos hnil, hnil]
    exact Or.inl ⟨words_nil _, rfl⟩
  · rw [if_neg hnil]
    have hsub : (rest.dropWhile isSpace).Sublist rest := List.dropWhile_sublist _
    refine Or.inr ⟨_, rfl, rfl, words_ne_nil isSpace _ hnil ?_, ?_, ?_⟩
    · exact head_dropWhile isSpace rest
    · exact lt_of_le_of_lt hsub.length_le hn
    · exact fun hmem => hnul (hsub.subset hmem)

theorem findCap_blank (text : CStr) (h : words isSpace text = []) : (findCap text).cap = none := by
  have hnil : text.dropWhile isSpace = [] := by
    by_contra hne
    rw [← words_dropWhile] at h
    exact words_ne_nil isSpace _ hne (head_dropWhile isSpace text) h
  simp [findCap, hnil, sign]

/-- `find_cap` reads the first word of the request. -/
theorem findCap_word (text w : CStr) (ws : List CStr) (hnul : '\x00' ∉ text)
    (h : words isSpace text = w :: ws) :
    (findCap text).neg = (sign w).1 ∧ (findCap text).cap = named (sign w).2 ∧
      ((findCap text).cap ≠ none → Left ws text.length (findCap text).caplist) := by
  have hsub : (text.dropWhile isSpace).Sublist text := List.dropWhile_sublist _
  rw [← words_dropWhile] at h
  generalize ht : text.dropWhile isSpace = t at h hsub
  cases t with
  | nil => simp at h
  | cons c t =>
    have hc : isSpace c = false := head_dropWhile isSpace text c (by rw [ht]; rfl)
    rw [words_takeWhile isSpace c t hc] at h
    obtain ⟨rfl, rfl⟩ := List.cons_eq_cons.mp h
    have hfree := free_takeWhile isSpace (c :: t)
    have hends := ends_dropWhile isSpace (c :: t)
    have hsplit := List.takeWhile_append_dropWhile (p := fun c => !isSpace c) (l := c :: t)
    have hwne : (c :: t).takeWhile (fun c => !isSpace c) ≠ [] := by simp [hc]
    generalize (c :: t).takeWhile (fun c => !isSpace c) = w at hfree hsplit hwne
    generalize (c :: t).dropWhile (fun c => !isSpace c) = rest at hends hsplit
    have hnult : '\x00' ∉ w ++ rest := by
      rw [hsplit]
      exact fun hmem => hnul (hsub.subset hmem)
    have hletters : ∀ d ∈ (sign w).2, Letter d := by
      intro d hd
      have hdw := sign_subset w d hd
      refine ⟨hfree d hdw, ?_⟩
      rintro rfl
      exact hnult (List.mem_append_left _ hdw)
    have hlen : rest.length < text.length := by
      have hle := hsub.length_le
      rw [← hsplit, List.length_append] at hle
      have hpos := List.length_pos_iff.mpr hwne
      omega
    unfold findCap
    rw [ht, ← hsplit, sign_append w rest hwne]
    dsimp only
    split
    case isTrue hnil =>
      obtain ⟨hsnil, -⟩ := List.append_eq_nil_iff.mp hnil
      rw [hsnil, named_nil]
      exact ⟨rfl, rfl, fun hne => absurd rfl hne⟩
    case isFalse =>
      rw [bsearch_named (sign w).2 rest hletters hends]
      cases hcap : named (sign w).2 with
      | none => exact ⟨rfl, rfl, fun hne => absurd rfl hne⟩
      | some cap =>
        refine ⟨rfl, rfl, fun _ => ?_⟩
        dsimp only
        rw [named_length _ _ hcap, List.drop_left]
        exact pointTo_left rest _ hlen fun hmem => hnult (List.mem_append_right _ hmem)

end Scanner

section Loop

/-- The change that a token asks for. -/
def Sets.apply (s : Sets) (t : Token) : Sets := s.change t.neg t.cap

theorem tokenOf_eq (w : CStr) (neg : Bool) (cap : Capability) (hneg : (sign w).1 = neg)
    (hcap : named (sign w).2 = some cap) :
    tokenOf w =
      if (!neg && cap.flag CAPFL_PROHIBIT) || (neg && cap.flag CAPFL_STICKY) then none
      else some ⟨neg, cap⟩ := by
  unfold tokenOf
  rw [hcap, hneg]
  cases neg <;> cases hp : cap.flag CAPFL_PROHIBIT <;> cases hs : cap.flag CAPFL_STICKY <;>
    simp [Token.permitted, hp, hs]

/-- The loop ends, with the sets of the tokens, or early when a word is no token. -/
theorem reqLoop_words (fuel : ℕ) (text : CStr) (s : Sets) (hfuel : text.length < fuel)
    (hnul : '\x00' ∉ text) (hne : words isSpace text ≠ []) :
    reqLoop fuel (some text) s =
      some (((words isSpace text).mapM tokenOf).map fun toks => toks.foldl Sets.apply s) := by
  induction fuel generalizing text s with
  | zero => omega
  | succ fuel ih =>
    obtain ⟨w, ws, hws⟩ := List.exists_cons_of_ne_nil hne
    obtain ⟨hneg, hcap, hleft⟩ := findCap_word text w ws hnul hws
    rw [hws, List.mapM_cons, reqLoop]
    cases hfound : (findCap text).cap with
    | none =>
      have htok : tokenOf w = none := by
        unfold tokenOf
        rw [← hcap, hfound]
        rfl
      rw [htok]
      rfl
    | some cap =>
      rw [tokenOf_eq w (findCap text).neg cap hneg.symm (hcap.symm.trans hfound)]
      dsimp only
      split
      · rfl
      · rcases hleft (by simp [hfound]) with ⟨rfl, hnone⟩ | ⟨r, hr, hwr, hwsne, hlen, hnulr⟩
        · rw [hnone]
          cases fuel <;> rfl
        · have hrest := ih r (s.change (findCap text).neg cap) (by omega) hnulr (hwr ▸ hwsne)
          rw [hr, hrest, hwr]
          cases ws.mapM tokenOf <;> rfl

theorem reqLoop_tokens (fuel : ℕ) (request : Option CStr) (s : Sets)
    (hfuel : (request.getD []).length < fuel) (hnul : '\x00' ∉ request.getD []) :
    reqLoop fuel request s = some ((tokens request).map fun toks => toks.foldl Sets.apply s) := by
  cases request with
  | none => cases fuel <;> rfl
  | some text =>
    simp only [tokens]
    by_cases hnil : words isSpace text = []
    · obtain ⟨fuel, rfl⟩ : ∃ k, fuel = k + 1 := ⟨fuel - 1, by omega⟩
      rw [if_pos hnil, reqLoop, findCap_blank text hnil]
      rfl
    · rw [if_neg hnil]
      exact reqLoop_words fuel text s hfuel hnul hnil

end Loop

section Bits

theorem capabList_nodup : capabList.Nodup := by
  rw [capabList_eq]
  decide +kernel

theorem capabList_bits (a b : Capability) (ha : a ∈ capabList) (hb : b ∈ capabList) :
    a.cap &&& b.cap = if a = b then a.cap else 0#32 := by
  rw [capabList_eq] at ha hb
  have hall : ∀ a ∈ [capAwayNotify, capExtendedJoin, capMultiPrefix, capUhnames],
      ∀ b ∈ [capAwayNotify, capExtendedJoin, capMultiPrefix, capUhnames],
        a.cap &&& b.cap = if a = b then a.cap else 0#32 := by
    decide +kernel
  exact hall a ha b hb

theorem capabList_flags (cap : Capability) (hcap : cap ∈ capabList) :
    cap.cap ≠ 0#32 ∧ cap.flag CAPFL_PROTO = false ∧ cap.flag CAPFL_STICKY = false := by
  rw [capabList_eq] at hcap
  have hall : ∀ cap ∈ [capAwayNotify, capExtendedJoin, capMultiPrefix, capUhnames],
      cap.cap ≠ 0#32 ∧ cap.flag CAPFL_PROTO = false ∧ cap.flag CAPFL_STICKY = false := by
    decide +kernel
  exact hall cap hcap

theorem or_and_of_disjoint (s a m : CapSet) (h : a &&& m = 0#32) : (s ||| a) &&& m = s &&& m := by
  rw [BitVec.and_comm, BitVec.and_or_distrib_left, BitVec.and_comm m a, h, BitVec.or_zero,
    BitVec.and_comm]

theorem andNot_and_of_disjoint (s a m : CapSet) (h : a &&& m = 0#32) :
    (s &&& ~~~a) &&& m = s &&& m := by
  apply BitVec.eq_of_getLsbD_eq
  intro i hi
  have hbit : (a &&& m).getLsbD i = false := by
    rw [h]
    simp
  rw [BitVec.getLsbD_and] at hbit
  rw [BitVec.getLsbD_and, BitVec.getLsbD_and, BitVec.getLsbD_not, BitVec.getLsbD_and,
    decide_eq_true hi]
  cases ha : a.getLsbD i with
  | false => simp
  | true =>
    rw [ha, Bool.true_and] at hbit
    simp [hbit]

theorem has_or (s : CapSet) (a b : Capability) (ha : a ∈ capabList) (hb : b ∈ capabList) :
    has (s ||| a.cap) b = if a = b then true else has s b := by
  have hbits := capabList_bits a b ha hb
  by_cases hab : a = b
  · subst hab
    have hself : (s ||| a.cap) &&& a.cap = a.cap := by
      apply BitVec.eq_of_getLsbD_eq
      intro i hi
      rw [BitVec.getLsbD_and, BitVec.getLsbD_or]
      cases a.cap.getLsbD i <;> simp
    simp [has, hself, (capabList_flags a ha).1]
  · rw [if_neg hab] at hbits ⊢
    unfold has
    rw [or_and_of_disjoint s a.cap b.cap hbits]

theorem has_andNot (s : CapSet) (a b : Capability) (ha : a ∈ capabList) (hb : b ∈ capabList) :
    has (s &&& ~~~a.cap) b = if a = b then false else has s b := by
  have hbits := capabList_bits a b ha hb
  by_cases hab : a = b
  · subst hab
    have hself : (s &&& ~~~a.cap) &&& a.cap = 0#32 := by
      apply BitVec.eq_of_getLsbD_eq
      intro i hi
      simp
    simp [has, hself]
  · rw [if_neg hab] at hbits ⊢
    unfold has
    rw [andNot_and_of_disjoint s a.cap b.cap hbits]

end Bits

section Applying

variable (toks : List Token) (htoks : ∀ t ∈ toks, t.cap ∈ capabList) (s : Sets)

include htoks

/-- A set that every token sets or clears by its sign, told by its own part of the step. -/
theorem applied_of_step (get : Sets → CapSet) (flip : Bool)
    (hset : ∀ s t, t ∈ toks → get (s.apply t) =
      if t.neg = flip then get s ||| t.cap.cap else get s &&& ~~~t.cap.cap)
    (cap : Capability) (hcap : cap ∈ capabList) :
    has (get (toks.foldl Sets.apply s)) cap =
      ((lastMention toks cap).map (· == flip)).getD (has (get s) cap) := by
  unfold lastMention
  rw [← last_map (· == flip)]
  apply foldl_last Sets.apply (fun s cap => has (get s) cap) Token.cap (fun t => t.neg == flip)
    {cap | cap ∈ capabList} toks ?_ s cap hcap
  intro s t ht k hk
  rw [hset s t ht]
  by_cases hneg : t.neg = flip
  · rw [if_pos hneg, has_or _ _ _ (htoks t ht) hk]
    simp [hneg]
  · rw [if_neg hneg, has_andNot _ _ _ (htoks t ht) hk, beq_false_of_ne hneg]

theorem other_of_step (get : Sets → CapSet) (flip : Bool)
    (hset : ∀ s t, t ∈ toks → get (s.apply t) =
      if t.neg = flip then get s ||| t.cap.cap else get s &&& ~~~t.cap.cap)
    (m : CapSet) (hm : ∀ cap ∈ capabList, cap.cap &&& m = 0#32) :
    get (toks.foldl Sets.apply s) &&& m = get s &&& m := by
  induction toks generalizing s with
  | nil => rfl
  | cons t toks ih =>
    have hrest := ih (fun u hu => htoks u (List.mem_cons_of_mem t hu)) (s.apply t)
      (fun s u hu => hset s u (List.mem_cons_of_mem t hu))
    rw [List.foldl_cons, hrest, hset s t (by simp)]
    have hbits := hm t.cap (htoks t (by simp))
    split
    · exact or_and_of_disjoint _ _ _ hbits
    · exact andNot_and_of_disjoint _ _ _ hbits

theorem applied_set (get : Sets → CapSet)
    (hset : ∀ s t, t ∈ toks → get (s.apply t) =
      if t.neg = false then get s ||| t.cap.cap else get s &&& ~~~t.cap.cap) :
    Applied toks (get s) (get (toks.foldl Sets.apply s)) := by
  refine ⟨fun cap hcap => ?_, other_of_step toks htoks s get false hset⟩
  rw [applied_of_step toks htoks s get false hset cap hcap]
  cases lastMention toks cap with
  | none => rfl
  | some neg => cases neg <;> rfl

theorem applied_cs : Applied toks s.cs (toks.foldl Sets.apply s).cs := by
  apply applied_set toks htoks s Sets.cs
  intro s t _
  cases hneg : t.neg <;> simp [Sets.apply, Sets.change, hneg]

theorem applied_as : Applied toks s.as (toks.foldl Sets.apply s).as := by
  apply applied_set toks htoks s Sets.as
  intro s t ht
  have hproto := (capabList_flags t.cap (htoks t ht)).2.1
  cases hneg : t.neg <;> simp [Sets.apply, Sets.change, hneg, hproto]

theorem has_set (cap : Capability) (hcap : cap ∈ capabList) :
    has (toks.foldl Sets.apply s).set cap =
      ((lastMention toks cap).map (· == false)).getD (has s.set cap) := by
  apply applied_of_step toks htoks s Sets.set false ?_ cap hcap
  intro s t _
  cases hneg : t.neg <;> simp [Sets.apply, Sets.change, hneg]

theorem has_rem (cap : Capability) (hcap : cap ∈ capabList) :
    has (toks.foldl Sets.apply s).rem cap =
      ((lastMention toks cap).map (· == true)).getD (has s.rem cap) := by
  apply applied_of_step toks htoks s Sets.rem true ?_ cap hcap
  intro s t _
  cases hneg : t.neg <;> simp [Sets.apply, Sets.change, hneg]

end Applying

section Acknowledgement

/-- The text that is put into the buffer for a capability, without the separator. -/
def capText (rem : Option CapSet) (cap : Capability) : CStr := modifiers rem cap ++ cap.name

theorem modifiers_length (rem : Option CapSet) (cap : Capability) :
    (modifiers rem cap).length ≤ 2 := by
  unfold modifiers
  split
  · decide
  · cases cap.flag CAPFL_PROTO <;> cases cap.flag CAPFL_STICKY <;> decide

theorem appendCap_shown (cmdbuf : CStr) (clen : ℕ) (set rem : Option CapSet)
    (done : List Capability) (cap : Capability) (hshown : shown set rem cap = true)
    (hdone : done ≠ [] → joined (capText rem) ' ' done ≠ [])
    (hroom : clen + (joined (capText rem) ' ' done).length + (cap.name.length + 3) + 15 ≤
      IRCD_BUFSIZE) :
    appendCap cmdbuf clen set rem
        ⟨[], joined (capText rem) ' ' done, (joined (capText rem) ' ' done).length⟩ cap =
      ⟨[], joined (capText rem) ' ' (done ++ [cap]),
        (joined (capText rem) ' ' (done ++ [cap])).length⟩ := by
  have hmod := modifiers_length rem cap
  have hsep : (if (joined (capText rem) ' ' done).length ≠ 0 then [' '] else []) =
      if done = [] then [] else [' '] := by
    by_cases hnil : done = []
    · subst hnil
      rfl
    · rw [if_neg hnil, if_pos]
      exact fun hzero => hdone hnil (List.length_eq_zero_iff.mp hzero)
  have hconcat : joined (capText rem) ' ' (done ++ [cap]) =
      joined (capText rem) ' ' done ++
        (((if done = [] then [] else [' ']) ++ modifiers rem cap) ++ cap.name) := by
    rw [joined_concat]
    by_cases hnil : done = []
    · subst hnil
      simp [joined, capText]
    · simp [hnil, capText]
  have hpfx : ((if done = [] then ([] : CStr) else [' ']) ++ modifiers rem cap).length ≤ 3 := by
    rw [List.length_append]
    split <;> simp <;> omega
  unfold appendCap
  rw [if_neg (by simp [hshown])]
  dsimp only
  rw [hsep, hconcat]
  generalize (if done = [] then ([] : CStr) else [' ']) ++ modifiers rem cap = pfx at hpfx
  rw [if_neg (by omega)]
  dsimp only
  rw [List.take_of_length_le (by rw [List.length_append]; omega)]
  simp only [List.length_append, CapBuf.mk.injEq, true_and]
  omega

/-- While there is room for the names to come, nothing is flushed and nothing is cut. -/
theorem foldl_appendCap (cmdbuf : CStr) (clen : ℕ) (set rem : Option CapSet)
    (l done : List Capability) (hname : ∀ cap ∈ l, cap.name ≠ [])
    (hdone : done ≠ [] → joined (capText rem) ' ' done ≠ [])
    (hfit : clen + (joined (capText rem) ' ' done).length +
      (l.map fun cap => cap.name.length + 3).sum + 15 ≤ IRCD_BUFSIZE) :
    l.foldl (appendCap cmdbuf clen set rem)
        ⟨[], joined (capText rem) ' ' done, (joined (capText rem) ' ' done).length⟩ =
      ⟨[], joined (capText rem) ' ' (done ++ l.filter (shown set rem)),
        (joined (capText rem) ' ' (done ++ l.filter (shown set rem))).length⟩ := by
  induction l generalizing done with
  | nil => simp
  | cons cap l ih =>
    rw [List.map_cons, List.sum_cons] at hfit
    have hrest : ∀ cap ∈ l, cap.name ≠ [] := fun c hc => hname c (List.mem_cons_of_mem cap hc)
    rw [List.foldl_cons]
    by_cases hshown : shown set rem cap = true
    · have hmod := modifiers_length rem cap
      have hnext : appendCap cmdbuf clen set rem
          ⟨[], joined (capText rem) ' ' done, (joined (capText rem) ' ' done).length⟩ cap =
            ⟨[], joined (capText rem) ' ' (done ++ [cap]),
              (joined (capText rem) ' ' (done ++ [cap])).length⟩ := by
        apply appendCap_shown cmdbuf clen set rem done cap hshown hdone
        omega
      have hlen : (joined (capText rem) ' ' (done ++ [cap])).length ≤
          (joined (capText rem) ' ' done).length + (cap.name.length + 3) := by
        rw [joined_concat]
        split <;> simp [capText] <;> omega
      have hne : done ++ [cap] ≠ [] → joined (capText rem) ' ' (done ++ [cap]) ≠ [] := by
        intro _
        rw [joined_concat]
        simp [capText, hname cap]
      rw [hnext, ih (done ++ [cap]) hrest hne (by omega), List.filter_cons_of_pos hshown,
        List.append_assoc, List.singleton_append]
    · have hskip : appendCap cmdbuf clen set rem
          ⟨[], joined (capText rem) ' ' done, (joined (capText rem) ' ' done).length⟩ cap =
            ⟨[], joined (capText rem) ' ' done, (joined (capText rem) ' ' done).length⟩ := by
        simp [appendCap, hshown]
      rw [hskip, ih done hrest hdone (by omega), List.filter_cons_of_neg hshown]

theorem shownName_length (name : CStr) (h : name.length ≤ HOSTLEN) :
    (shownName name).length ≤ HOSTLEN := by
  unfold shownName
  split
  · decide
  · exact h

theorem capHeader_length (me name subcmd : CStr) (hme : me.length ≤ HOSTLEN)
    (hname : name.length ≤ HOSTLEN) : (capHeader me name subcmd).length ≤ 134 + subcmd.length := by
  have hshown := shownName_length name hname
  have hhost : HOSTLEN = 63 := rfl
  simp [capHeader]
  omega

/-- All names fit into one line, behind the longest header. -/
theorem sendCaplist_eq (me name subcmd : CStr) (set rem : Option CapSet)
    (hme : me.length ≤ HOSTLEN) (hname : name.length ≤ HOSTLEN) (hsub : subcmd.length ≤ 5) :
    sendCaplist me name set rem subcmd =
      [capHeader me name subcmd ++
        ':' :: joined (capText rem) ' ' (capabList.filter (shown set rem))] := by
  have hheader := capHeader_length me name subcmd hme hname
  have hsum : (capabList.map fun cap => cap.name.length + 3).sum = 65 := by
    rw [capabList_eq]
    decide +kernel
  have hsize : IRCD_BUFSIZE = 512 := rfl
  have hfold := foldl_appendCap (capHeader me name subcmd) (capHeader me name subcmd).length
    set rem capabList [] (fun cap hcap => (name_letters cap hcap).1) (fun h => absurd rfl h)
    (by simp only [joined, List.length_nil]; omega)
  have hjoined := joined_filter_length (capText rem) ' ' (shown set rem)
    (fun cap => cap.name.length + 3) capabList (by
      intro cap
      have hmod := modifiers_length rem cap
      simp only [capText, List.length_append]
      omega)
  unfold sendCaplist
  dsimp only
  rw [List.take_of_length_le (by omega)]
  simp only [joined, List.length_nil, List.nil_append] at hfold
  rw [hfold, List.nil_append]
  have hline : (capHeader me name subcmd ++
      ':' :: joined (capText rem) ' ' (capabList.filter (shown set rem))).length ≤
        IRCD_BUFSIZE - 2 := by
    simp only [List.length_append, List.length_cons]
    omega
  unfold sendFormat
  rw [List.take_of_length_le hline]

end Acknowledgement

section Request

theorem tokenOf_known (w : CStr) (t : Token) (h : tokenOf w = some t) : t.cap ∈ capabList := by
  obtain ⟨hmap, -⟩ := Option.filter_eq_some_iff.mp h
  obtain ⟨cap, hcap, rfl⟩ := Option.map_eq_some_iff.mp hmap
  exact List.mem_of_find?_eq_some hcap

theorem mapM_known (ws : List CStr) (toks : List Token) (h : ws.mapM tokenOf = some toks) :
    ∀ t ∈ toks, t.cap ∈ capabList := by
  induction ws generalizing toks with
  | nil =>
    cases h
    simp
  | cons w ws ih =>
    rw [List.mapM_cons] at h
    cases hw : tokenOf w with
    | none =>
      rw [hw] at h
      cases h
    | some t =>
      cases hws : ws.mapM tokenOf with
      | none =>
        rw [hw, hws] at h
        cases h
      | some rest =>
        rw [hw, hws] at h
        cases h
        intro u hu
        rcases List.mem_cons.mp hu with rfl | hu
        · exact tokenOf_known w u hw
        · exact ih rest hws u hu

theorem tokens_known (request : Option CStr) (toks : List Token)
    (h : tokens request = some toks) : ∀ t ∈ toks, t.cap ∈ capabList := by
  cases request with
  | none =>
    cases h
    simp
  | some text =>
    simp only [tokens] at h
    split at h
    · cases h
    · exact mapM_known _ toks h

theorem sendCaplist_tokens (me name : CStr) (toks : List Token) (s : Sets)
    (hme : me.length ≤ HOSTLEN) (hname : name.length ≤ HOSTLEN)
    (htoks : ∀ t ∈ toks, t.cap ∈ capabList) (hset : s.set = 0#32) (hrem : s.rem = 0#32) :
    ∃ caps : List Capability, caps.Nodup ∧ (∀ cap, cap ∈ caps ↔ ∃ t ∈ toks, t.cap = cap) ∧
      sendCaplist me name (some (toks.foldl Sets.apply s).set) (some (toks.foldl Sets.apply s).rem)
          "ACK".toList =
        [capHeader me name "ACK".toList ++ ':' :: joined (ackText toks) ' ' caps] := by
  have hempty : ∀ cap, has 0#32 cap = false := by
    intro cap
    simp [has]
  refine ⟨capabList.filter (shown (some (toks.foldl Sets.apply s).set)
    (some (toks.foldl Sets.apply s).rem)), capabList_nodup.filter _, ?_, ?_⟩
  · intro cap
    rw [List.mem_filter, ← last_isSome_iff Token.cap Token.neg]
    constructor
    · rintro ⟨hcap, hshown⟩
      simp only [shown, isIn, has_set toks htoks s cap hcap, has_rem toks htoks s cap hcap,
        hset, hrem, hempty] at hshown
      unfold lastMention at hshown
      cases hlast : last Token.cap Token.neg cap toks with
      | none => simp [hlast] at hshown
      | some neg => rfl
    · intro hlast
      obtain ⟨t, ht, rfl⟩ := (last_isSome_iff _ _ _ _).mp hlast
      have hcap := htoks t ht
      refine ⟨hcap, ?_⟩
      obtain ⟨neg, hneg⟩ := Option.isSome_iff_exists.mp hlast
      simp only [shown, isIn, has_set toks htoks s t.cap hcap, has_rem toks htoks s t.cap hcap]
      unfold lastMention
      rw [hneg]
      cases neg <;> simp
  · rw [sendCaplist_eq me name _ _ _ hme hname (by decide)]
    rw [joined_congr _ _ (ackText toks)]
    intro cap hcap
    have hmem := (List.mem_filter.mp hcap).1
    obtain ⟨-, hproto, hsticky⟩ := capabList_flags cap hmem
    simp only [capText, modifiers, isIn, has_rem toks htoks s cap hmem, hrem, hempty, hproto,
      hsticky]
    unfold ackText
    cases lastMention toks cap with
    | none => simp
    | some neg => cases neg <;> simp

/-- A request is granted in all its words, or refused as a whole. -/
theorem capReq_all_or_nothing (fuel : ℕ) (me : CStr) (request : Option CStr) (c : Client)
    (hfuel : (request.getD []).length < fuel) (hnul : '\x00' ∉ request.getD [])
    (hme : me.length ≤ HOSTLEN) (hname : c.name.length ≤ HOSTLEN) :
    ∃ r, capReq fuel me request c = some r ∧
      ((∃ toks, tokens request = some toks ∧ Granted me c toks r) ∨
        (tokens request = none ∧ Refused me c (request.getD []) r)) := by
  have hclient : ∀ b : Bool, (if b then { c with needCap := true } else c).name = c.name ∧
      (if b then { c with needCap := true } else c).capClient = c.capClient ∧
      (if b then { c with needCap := true } else c).capActive = c.capActive := by
    intro b
    cases b <;> exact ⟨rfl, rfl, rfl⟩
  obtain ⟨hsame, hcs, has⟩ := hclient c.unknown
  unfold capReq
  generalize (if c.unknown then { c with needCap := true } else c) = c' at hsame hcs has
  dsimp only
  rw [reqLoop_tokens fuel request _ hfuel hnul]
  cases htokens : tokens request with
  | none =>
    refine ⟨_, rfl, Or.inr ⟨rfl, ⟨hcs, has, ?_⟩⟩⟩
    rw [hsame]
  | some toks =>
    have hknown := tokens_known request toks htokens
    refine ⟨_, rfl, Or.inl ⟨toks, rfl, ⟨?_, ?_, ?_⟩⟩⟩
    · have happ := applied_cs toks hknown ⟨0#32, 0#32, c'.capClient, c'.capActive⟩
      rw [← hcs]
      exact happ
    · have happ := applied_as toks hknown ⟨0#32, 0#32, c'.capClient, c'.capActive⟩
      rw [← has]
      exact happ
    · rw [hsame]
      exact sendCaplist_tokens me c.name toks _ hme hname hknown rfl rfl

end Request

def bob : Client where
  name := "bob".toList
  unknown := true
  needCap := false
  capClient := 0x2#32
  capActive := 0x2#32

theorem capReq_bob :
    ∃ r, capReq 30 "irc".toList (some " multi-prefix -Away-Notify ".toList) bob = some r ∧
      ((∃ toks, tokens (some " multi-prefix -Away-Notify ".toList) = some toks ∧
          Granted "irc".toList bob toks r) ∨
        (tokens (some " multi-prefix -Away-Notify ".toList) = none ∧
          Refused "irc".toList bob " multi-prefix -Away-Notify ".toList r)) :=
  capReq_all_or_nothing 30 "irc".toList (some " multi-prefix -Away-Notify ".toList) bob
    (by decide) (by decide) (by decide) (by decide)

example : (capReq 30 "irc".toList (some " multi-prefix -Away-Notify ".toList) bob).map Reply.sent =
    some [":irc CAP bob ACK :-away-notify multi-prefix".toList] := by
  decide +kernel

/-- A refused request of five hundred bytes does not come back whole. -/
theorem capReq_long_refused :
    tokens (some (List.replicate 500 'x')) = none ∧
      ∃ r, capReq 501 "irc".toList (some (List.replicate 500 'x')) bob = some r ∧
        ∀ line ∈ r.sent, ¬ List.replicate 500 'x' <:+: line := by
  have htokens : (tokens (some (List.replicate 500 'x'))).isNone = true := by
    decide +kernel
  have hsent : (capReq 501 "irc".toList (some (List.replicate 500 'x')) bob).map
      (fun r => r.sent.map (List.count 'x')) = some [492] := by
    decide +kernel
  obtain ⟨r, hr, hcount⟩ := Option.map_eq_some_iff.mp hsent
  refine ⟨Option.isNone_iff_eq_none.mp htokens, r, hr, ?_⟩
  intro line hline hinfix
  have hmem : line.count 'x' ∈ r.sent.map (List.count 'x') := List.mem_map_of_mem hline
  rw [hcount, List.mem_singleton] at hmem
  have hle := hinfix.sublist.count_le 'x'
  rw [List.count_replicate_self, hmem] at hle
  omega

end IrcdHybrid.CapRequest
