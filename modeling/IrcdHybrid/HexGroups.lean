import IrcdHybrid.DottedQuad
import Mathlib.Data.List.GetD

/-!
IPv6 addresses as text: groups of hexadecimal digits with colons between them. The scan steps
over the groups and keeps their values in eight places; where an empty group stands between
two colons it notes the place. Behind a prefix length it uses the place behind the last group,
and with eight groups there is none.
-/

namespace IrcdHybrid.HexGroups

open CString Numeral Netmask

/-- Groups with colons between them, and what comes behind. -/
def spelled (f : CStr) : List CStr → CStr → CStr
  | [], s => f ++ s
  | g :: fs, s => f ++ ':' :: spelled g fs s

/-- At most four digits. -/
def Field (f : CStr) : Prop := f.length ≤ 4 ∧ ∀ c ∈ f, isXDigit c = true

def hexFrom (v : ℕ) (f : CStr) : ℕ := f.foldl (fun v c => v * 16 + digitParse c) v

def hexValue (f : CStr) : ℕ := hexFrom 0 f

/-- The places of `d` that the scan uses, and the line behind it. -/
def scanPlaces : CStr → Option Char → V6Scan → List ℕ
  | [], _, s => [s.dp]
  | c :: p, prev, s =>
    if isXDigit c then
      if s.nyble = 0 then []
      else
        let word := s.d s.dp ||| (digitParse c <<< (4 * (s.nyble - 1)))
        s.dp :: scanPlaces p (some c)
          { s with d := Function.update s.d s.dp word, nyble := s.nyble - 1 }
    else if c = ':' then
      if prev = some ':' then
        if s.finsert.isSome then [] else scanPlaces p (some c) { s with finsert := some s.dp }
      else if 8 ≤ s.dp + 1 then [s.dp]
      else s.dp :: scanPlaces p (some c) { s with d := s.shift, nyble := 4, dp := s.dp + 1 }
    else if c = '*' then
      if s.finsert.isSome ∨ p ≠ [] ∨ s.dp = 0 ∨ prev ≠ some ':' then []
      else scanPlaces p (some c) { s with bits := s.dp * 16 }
    else if c = '/' then
      let (value, after) := strtoul p
      let bits := toInt value
      if bits < 0 ∨ after ≠ [] then [s.dp]
      else if bits > (s.dp + 1) * 4 ∧ ¬ (s.finsert.isSome ∧ bits ≤ 128) then [s.dp]
      else [s.dp, s.dp + 1]
    else []

/-- The places of `d` that are copied when the gap is filled. -/
def fillPlaces (finsert : Option ℕ) : ℕ → ℕ → ℤ → List ℕ
  | 0, _, _ => []
  | count + 1, nyble, deficit =>
    if some nyble = finsert ∧ deficit ≠ 0 then fillPlaces finsert count nyble (deficit - 1)
    else nyble :: fillPlaces finsert count (nyble + 1) deficit

/-- The places of `dc`: filled, cut, cleared and read. -/
def cutPlaces (bits : ℕ) : List ℕ :=
  let first := bits / 16 + if bits % 16 ≠ 0 then 1 else 0
  List.range 8 ++ (if bits < 128 ∧ bits % 16 ≠ 0 then [bits / 16] else []) ++
    List.range' first (8 - first) ++ List.range 8

def start : V6Scan := ⟨fun _ => 0, 0, 4, none, 128⟩

/-- What `parse_netmask` uses of the two arrays of eight for an IPv6 text. -/
def places (text : CStr) : List ℕ :=
  if '.' ∈ text ∨ ':' ∉ text then []
  else scanPlaces text none start ++
    match scanV6 text none start with
    | none => []
    | some s =>
      let bits := if s.finsert = none ∧ s.bits = 0 then s.dp * 16 else s.bits
      let deficit : ℤ := bits / 16 + (if bits % 16 ≠ 0 then 1 else 0) - s.dp
      fillPlaces s.finsert 8 0 deficit ++ cutPlaces bits

def InRange (ps : List ℕ) : Prop := ∀ i ∈ ps, i < 8

theorem inRange_cons (i : ℕ) (ps : List ℕ) : InRange (i :: ps) ↔ i < 8 ∧ InRange ps := by
  simp [InRange]

theorem fillPlaces_lt (finsert : Option ℕ) (count nyble : ℕ) (deficit : ℤ) :
    ∀ i ∈ fillPlaces finsert count nyble deficit, i < nyble + count := by
  induction count generalizing nyble deficit with
  | zero => exact fun i hi => absurd hi List.not_mem_nil
  | succ count ih =>
    intro i hi
    unfold fillPlaces at hi
    split at hi
    · have hlt := ih nyble (deficit - 1) i hi
      omega
    · rcases List.mem_cons.mp hi with rfl | hi
      · omega
      · have hlt := ih (nyble + 1) deficit i hi
        omega

theorem cutPlaces_inRange (bits : ℕ) : InRange (cutPlaces bits) := by
  intro i hi
  unfold cutPlaces at hi
  simp only [List.mem_append, List.mem_range, List.mem_range'_1] at hi
  rcases hi with ((hi | hi) | hi) | hi
  · exact hi
  · split at hi
    · next h =>
      rw [List.mem_singleton] at hi
      omega
    · exact absurd hi List.not_mem_nil
  · omega
  · exact hi

/-- Only the scan and the line behind it can be out of range. -/
theorem places_inRange (text : CStr) :
    InRange (places text) ↔ '.' ∈ text ∨ ':' ∉ text ∨ InRange (scanPlaces text none start) := by
  unfold places
  by_cases h : '.' ∈ text ∨ ':' ∉ text
  · rw [if_pos h]
    refine iff_of_true (fun i hi => absurd hi List.not_mem_nil) ?_
    exact h.imp_right Or.inl
  · rw [if_neg h]
    push Not at h
    constructor
    · exact fun hall => Or.inr (Or.inr fun i hi => hall i (List.mem_append_left _ hi))
    · rintro (hdot | hcolon | hscan)
      · exact absurd hdot h.1
      · exact absurd h.2 hcolon
      · intro i hi
        rcases List.mem_append.mp hi with hi | hi
        · exact hscan i hi
        · split at hi
          · exact absurd hi List.not_mem_nil
          · rcases List.mem_append.mp hi with hi | hi
            · have hlt := fillPlaces_lt _ _ _ _ i hi
              omega
            · exact cutPlaces_inRange _ i hi

/-- The state behind some groups, with a part of the next one read. -/
def stateAt (ws : List ℕ) (gap : Option ℕ) (v nyble bits : ℕ) : V6Scan :=
  ⟨fun i => if i = ws.length then v <<< (4 * nyble) else ws.getD i 0, ws.length, nyble, gap, bits⟩

theorem start_eq : start = stateAt [] none 0 4 128 := by
  unfold start stateAt
  simp

theorem digitParse_lt (c : Char) (hc : isXDigit c = true) : digitParse c < 16 := by
  unfold isXDigit at hc
  unfold digitParse
  simp only [Bool.or_eq_true, Bool.and_eq_true, decide_eq_true_eq, isDigit, char_le_iff,
    Char.reduceToNat] at hc ⊢
  split_ifs <;> omega

theorem word_or (v digit n : ℕ) (hd : digit < 16) :
    v <<< (4 * (n + 1)) ||| digit <<< (4 * n) = (v * 16 + digit) <<< (4 * n) := by
  have hv : v <<< (4 * (n + 1)) = (v <<< 4) <<< (4 * n) := by
    rw [← Nat.shiftLeft_add, Nat.mul_add, Nat.add_comm]
  rw [hv, ← Nat.shiftLeft_or_distrib, ← Nat.shiftLeft_add_eq_or_of_lt hd, Nat.shiftLeft_eq v 4]

theorem stateAt_digit (ws : List ℕ) (gap : Option ℕ) (v n bits digit : ℕ) (hd : digit < 16) :
    { stateAt ws gap v (n + 1) bits with
      d := Function.update (stateAt ws gap v (n + 1) bits).d ws.length
        ((stateAt ws gap v (n + 1) bits).d ws.length ||| digit <<< (4 * n))
      nyble := n } = stateAt ws gap (v * 16 + digit) n bits := by
  show (⟨_, _, _, _, _⟩ : V6Scan) = ⟨_, _, _, _, _⟩
  rw [V6Scan.mk.injEq]
  refine ⟨funext fun i => ?_, rfl, rfl, rfl, rfl⟩
  unfold stateAt
  by_cases hi : i = ws.length
  · subst hi
    dsimp only
    rw [Function.update_self, if_pos rfl, if_pos rfl, word_or v digit n hd]
  · dsimp only
    rw [Function.update_of_ne hi, if_neg hi, if_neg hi]

theorem stateAt_shift (ws : List ℕ) (gap : Option ℕ) (v n bits : ℕ) :
    (stateAt ws gap v n bits).shift = fun i => (ws ++ [v]).getD i 0 := by
  unfold V6Scan.shift stateAt
  funext i
  by_cases hi : i = ws.length
  · subst hi
    simp
  · dsimp only
    rw [Function.update_of_ne hi, if_neg hi]
    by_cases hlt : i < ws.length
    · rw [List.getD_append _ _ _ _ hlt]
    · rw [List.getD_eq_default _ _ (by omega), List.getD_eq_default]
      rw [List.length_append, List.length_singleton]
      omega

theorem stateAt_colon (ws : List ℕ) (gap : Option ℕ) (v n bits : ℕ) :
    { stateAt ws gap v n bits with
      d := (stateAt ws gap v n bits).shift, nyble := 4, dp := ws.length + 1 } =
      stateAt (ws ++ [v]) gap 0 4 bits := by
  rw [stateAt_shift]
  show (⟨_, _, _, _, _⟩ : V6Scan) = ⟨_, _, _, _, _⟩
  rw [V6Scan.mk.injEq]
  refine ⟨funext fun i => ?_, by simp, rfl, rfl, rfl⟩
  by_cases hi : i = (ws ++ [v]).length
  · subst hi
    simp
  · rw [if_neg hi]

/-- The scan of one text goes on as the scan of another, and uses no place out of range before. -/
structure Leads (p : CStr) (prev : Option Char) (s : V6Scan) (p' : CStr) (prev' : Option Char)
    (s' : V6Scan) : Prop where
  scan : scanV6 p prev s = scanV6 p' prev' s'
  places : InRange (scanPlaces p prev s) ↔ InRange (scanPlaces p' prev' s')

theorem Leads.refl (p : CStr) (prev : Option Char) (s : V6Scan) : Leads p prev s p prev s :=
  ⟨rfl, Iff.rfl⟩

theorem Leads.trans {p p' p'' : CStr} {prev prev' prev'' : Option Char} {s s' s'' : V6Scan}
    (h : Leads p prev s p' prev' s') (h' : Leads p' prev' s' p'' prev'' s'') :
    Leads p prev s p'' prev'' s'' :=
  ⟨h.scan.trans h'.scan, h.places.trans h'.places⟩

section Steps

variable (ws : List ℕ) (gap : Option ℕ) (v n bits : ℕ) (p : CStr) (prev : Option Char)

theorem leads_digit (c : Char) (hc : isXDigit c = true) (hws : ws.length < 8) :
    Leads (c :: p) prev (stateAt ws gap v (n + 1) bits) p (some c)
      (stateAt ws gap (v * 16 + digitParse c) n bits) := by
  have hstate := stateAt_digit ws gap v n bits (digitParse c) (digitParse_lt c hc)
  have hnyble : ¬ (stateAt ws gap v (n + 1) bits).nyble = 0 := Nat.succ_ne_zero n
  constructor
  · rw [scanV6, if_pos hc, if_neg hnyble, ← hstate]
    rfl
  · rw [scanPlaces, if_pos hc, if_neg hnyble, ← hstate]
    exact (inRange_cons _ _).trans (and_iff_right hws)

theorem not_xDigit_colon : isXDigit ':' = false := by decide

theorem not_xDigit_slash : isXDigit '/' = false := by decide

theorem leads_colon (hprev : prev ≠ some ':') (hws : ws.length + 1 < 8) :
    Leads (':' :: p) prev (stateAt ws gap v n bits) p (some ':')
      (stateAt (ws ++ [v]) gap 0 4 bits) := by
  have hstate := stateAt_colon ws gap v n bits
  have hlt : ¬ 8 ≤ (stateAt ws gap v n bits).dp + 1 := by
    show ¬ 8 ≤ ws.length + 1
    omega
  constructor
  · rw [scanV6, if_neg (by rw [not_xDigit_colon]; exact Bool.false_ne_true), if_pos rfl,
      if_neg hprev, if_neg hlt, ← hstate]
    rfl
  · rw [scanPlaces, if_neg (by rw [not_xDigit_colon]; exact Bool.false_ne_true), if_pos rfl,
      if_neg hprev, if_neg hlt, ← hstate]
    exact (inRange_cons _ _).trans (and_iff_right (show ws.length < 8 by omega))

theorem leads_gap :
    Leads (':' :: p) (some ':') (stateAt ws none v n bits) p (some ':')
      (stateAt ws (some ws.length) v n bits) := by
  constructor
  · rw [scanV6, if_neg (by rw [not_xDigit_colon]; exact Bool.false_ne_true), if_pos rfl,
      if_pos rfl]
    rfl
  · rw [scanPlaces, if_neg (by rw [not_xDigit_colon]; exact Bool.false_ne_true), if_pos rfl,
      if_pos rfl]
    rfl

end Steps

theorem hexFrom_cons (v : ℕ) (c : Char) (f : CStr) :
    hexFrom v (c :: f) = hexFrom (v * 16 + digitParse c) f := rfl

theorem leads_digits (ws : List ℕ) (gap : Option ℕ) (v n bits : ℕ) (f p : CStr)
    (prev : Option Char) (hf : ∀ c ∈ f, isXDigit c = true) (hlen : f.length ≤ n)
    (hws : ws.length < 8) :
    Leads (f ++ p) prev (stateAt ws gap v n bits) p (f.getLast?.or prev)
      (stateAt ws gap (hexFrom v f) (n - f.length) bits) := by
  induction f generalizing v n prev with
  | nil => exact Leads.refl _ _ _
  | cons c f ih =>
    obtain ⟨m, rfl⟩ : ∃ m, n = m + 1 := ⟨n - 1, by simp only [List.length_cons] at hlen; omega⟩
    rw [List.length_cons] at hlen
    have hstep := leads_digit ws gap v m bits (f ++ p) prev c (hf c (List.mem_cons_self ..)) hws
    have hrest := ih (v * 16 + digitParse c) m (some c)
      (fun d hd => hf d (List.mem_cons_of_mem _ hd)) (by omega)
    have hlast : (c :: f).getLast?.or prev = f.getLast?.or (some c) := by
      cases f with
      | nil => rfl
      | cons d f =>
        rw [List.getLast?_cons_cons, List.getLast?_cons]
        rfl
    rw [hlast, hexFrom_cons, List.length_cons, Nat.add_sub_add_right]
    exact hstep.trans hrest

theorem getLast?_ne_colon (f : CStr) (prev : Option Char) (hf : ∀ c ∈ f, isXDigit c = true)
    (hprev : f = [] → prev ≠ some ':') : f.getLast?.or prev ≠ some ':' := by
  cases hlast : f.getLast? with
  | none => exact hprev (List.getLast?_eq_none_iff.mp hlast)
  | some c =>
    intro hc
    have hmem := hf c (List.mem_of_getLast? hlast)
    rw [Option.some.inj hc] at hmem
    exact absurd hmem (by decide)

/-- The number of times a colon stands behind a colon; `behind` is whether the first group does. -/
def doubles (behind : Bool) (f : CStr) : List CStr → ℕ
  | [] => 0
  | g :: fs => (if behind = true ∧ f = [] then 1 else 0) + doubles true g fs

/-- The values of the groups in front of the last, and the place of the gap. -/
def slots (behind : Bool) (ws : List ℕ) (gap : Option ℕ) (f : CStr) :
    List CStr → List ℕ × Option ℕ
  | [] => (ws, gap)
  | g :: fs =>
    if behind = true ∧ f = [] then slots true ws (some ws.length) g fs
    else slots true (ws ++ [hexValue f]) gap g fs

def lastField (f : CStr) : List CStr → CStr
  | [] => f
  | g :: fs => lastField g fs

theorem doubles_le (behind : Bool) (f : CStr) (fs : List CStr) :
    doubles behind f fs ≤ fs.length := by
  induction fs generalizing behind f with
  | nil => exact Nat.le_refl 0
  | cons g fs ih =>
    have hrest := ih true g
    unfold doubles
    rw [List.length_cons]
    split <;> omega

theorem slots_length (behind : Bool) (ws : List ℕ) (gap : Option ℕ) (f : CStr) (fs : List CStr) :
    (slots behind ws gap f fs).1.length + doubles behind f fs = ws.length + fs.length := by
  induction fs generalizing behind ws gap f with
  | nil => rfl
  | cons g fs ih =>
    unfold slots doubles
    rw [List.length_cons]
    split
    · have hrest := ih true ws (some ws.length) g
      omega
    · have hrest := ih true (ws ++ [hexValue f]) gap g
      rw [List.length_append, List.length_singleton] at hrest
      omega

theorem slots_gap (behind : Bool) (ws : List ℕ) (gap : Option ℕ) (f : CStr) (fs : List CStr) :
    (slots behind ws gap f fs).2.isSome = (gap.isSome || decide (0 < doubles behind f fs)) := by
  induction fs generalizing behind ws gap f with
  | nil => simp [slots, doubles]
  | cons g fs ih =>
    unfold slots doubles
    split
    · rw [ih, Option.isSome_some, Bool.true_or, eq_comm, Bool.or_eq_true]
      exact Or.inr (decide_eq_true (by omega))
    · rw [ih, Nat.zero_add]

/-- The scan reads groups with at most one gap, as long as there are places for them. -/
theorem leads_spelled (ws : List ℕ) (gap : Option ℕ) (bits : ℕ) (f : CStr) (fs : List CStr)
    (s : CStr) (prev : Option Char) (behind : Bool) (hbehind : prev = some ':' ↔ behind = true)
    (hf : ∀ g ∈ f :: fs, Field g)
    (hgap : doubles behind f fs + (if gap.isSome then 1 else 0) ≤ 1)
    (hws : (slots behind ws gap f fs).1.length < 8) :
    ∃ prev', Leads (spelled f fs s) prev (stateAt ws gap 0 4 bits) s prev'
      (stateAt (slots behind ws gap f fs).1 (slots behind ws gap f fs).2
        (hexValue (lastField f fs)) (4 - (lastField f fs).length) bits) := by
  induction fs generalizing ws gap f prev behind with
  | nil =>
    obtain ⟨hlen, hdigits⟩ := hf f (List.mem_singleton_self f)
    exact ⟨_, leads_digits ws gap 0 4 bits f s prev hdigits hlen hws⟩
  | cons g fs ih =>
    obtain ⟨hlen, hdigits⟩ := hf f (List.mem_cons_self ..)
    have hrest : ∀ g' ∈ g :: fs, Field g' := fun g' hg' => hf g' (List.mem_cons_of_mem _ hg')
    have hlength := slots_length behind ws gap f (g :: fs)
    have hdouble := doubles_le true g fs
    unfold slots at hws ⊢
    unfold doubles at hgap hlength
    rw [List.length_cons] at hlength
    have hprev' : some ':' = some ':' ↔ true = true := ⟨fun _ => rfl, fun _ => rfl⟩
    show ∃ prev', Leads (f ++ ':' :: spelled g fs s) prev _ s prev' _
    by_cases hdup : behind = true ∧ f = []
    · rw [if_pos hdup] at hws hgap ⊢
      obtain ⟨hbeh, rfl⟩ := hdup
      obtain rfl := hbehind.mpr hbeh
      have hnone : gap = none := by
        cases gap with
        | none => rfl
        | some i => simp at hgap
      subst hnone
      obtain ⟨prev', hleads⟩ := ih ws (some ws.length) g (some ':') true hprev' hrest
        (by simp at hgap ⊢; omega) hws
      exact ⟨prev', (leads_gap ws 0 4 bits (spelled g fs s)).trans hleads⟩
    · rw [if_neg hdup] at hws hgap ⊢
      have hlt : ws.length + 1 < 8 := by
        have hrestlen := slots_length true (ws ++ [hexValue f]) gap g fs
        rw [List.length_append, List.length_singleton] at hrestlen
        omega
      have hprev : f.getLast?.or prev ≠ some ':' := by
        apply getLast?_ne_colon f prev hdigits
        intro hnil hcolon
        exact hdup ⟨hbehind.mp hcolon, hnil⟩
      have hdigit := leads_digits ws gap 0 4 bits f (':' :: spelled g fs s) prev hdigits hlen
        (by omega)
      have hcolon := leads_colon ws gap (hexFrom 0 f) (4 - f.length) bits (spelled g fs s) _ hprev
        hlt
      obtain ⟨prev', hleads⟩ := ih (ws ++ [hexValue f]) gap g (some ':') true hprev' hrest
        (by omega) hws
      exact ⟨prev', (hdigit.trans hcolon).trans hleads⟩

/-- The number behind a slash is read to its end, and fits four bits for each group, or the
address if there is a gap. -/
def PrefixRead (k : ℕ) (gapped : Bool) (p : CStr) : Prop :=
  (strtoul p).2 = [] ∧ 0 ≤ toInt (strtoul p).1 ∧
    (toInt (strtoul p).1 ≤ k * 4 ∨ (gapped = true ∧ toInt (strtoul p).1 ≤ 128))

theorem scan_end (ws : List ℕ) (gap : Option ℕ) (v n bits : ℕ) (prev : Option Char) :
    scanV6 [] prev (stateAt ws gap v n bits) =
      some ⟨fun i => (ws ++ [v]).getD i 0, ws.length + 1, n, gap, bits⟩ := by
  rw [scanV6, stateAt_shift]
  rfl

theorem scan_slash (ws : List ℕ) (gap : Option ℕ) (v n bits : ℕ) (p : CStr) (prev : Option Char)
    (hp : PrefixRead (ws.length + 1) gap.isSome p) :
    scanV6 ('/' :: p) prev (stateAt ws gap v n bits) =
      some ⟨fun i => (ws ++ [v]).getD i 0, ws.length + 1, n, gap, (toInt (strtoul p).1).toNat⟩ := by
  obtain ⟨hall, hlow, hhigh⟩ := hp
  rw [scanV6, if_neg (by rw [not_xDigit_slash]; exact Bool.false_ne_true), if_neg (by decide),
    if_neg (by decide), if_pos rfl, stateAt_shift]
  dsimp only
  rw [if_neg (by rw [hall]; simp; omega), if_neg]
  · rfl
  · show ¬ (toInt (strtoul p).1 > ((ws.length + 1 : ℕ) : ℤ) * 4 ∧
      ¬ (gap.isSome = true ∧ toInt (strtoul p).1 ≤ 128))
    rintro ⟨hmore, hnot⟩
    rcases hhigh with hle | hgap
    · push_cast at hmore hle
      omega
    · exact hnot hgap

theorem scan_slash_none (ws : List ℕ) (gap : Option ℕ) (v n bits : ℕ) (p : CStr)
    (prev : Option Char) (hp : ¬ PrefixRead (ws.length + 1) gap.isSome p) :
    scanV6 ('/' :: p) prev (stateAt ws gap v n bits) = none := by
  rw [scanV6, if_neg (by rw [not_xDigit_slash]; exact Bool.false_ne_true), if_neg (by decide),
    if_neg (by decide), if_pos rfl]
  dsimp only
  by_cases hbad : toInt (strtoul p).1 < 0 ∨ (strtoul p).2 ≠ []
  · rw [if_pos hbad]
  · rw [if_neg hbad, if_pos]
    obtain ⟨hlow, hall⟩ := not_or.mp hbad
    show toInt (strtoul p).1 > ((ws.length + 1 : ℕ) : ℤ) * 4 ∧
      ¬ (gap.isSome = true ∧ toInt (strtoul p).1 ≤ 128)
    by_contra hnot
    apply hp
    refine ⟨not_not.mp hall, Int.not_lt.mp hlow, ?_⟩
    by_cases hle : toInt (strtoul p).1 ≤ ((ws.length + 1 : ℕ) : ℤ) * 4
    · exact Or.inl hle
    · right
      by_contra hgap
      exact hnot ⟨by omega, hgap⟩

/-- Behind eight groups the number is read, and then there is no place for the next. -/
theorem slash_inRange (ws : List ℕ) (gap : Option ℕ) (v n bits : ℕ) (p : CStr)
    (prev : Option Char) (hws : ws.length < 8) :
    InRange (scanPlaces ('/' :: p) prev (stateAt ws gap v n bits)) ↔
      ¬ (ws.length = 7 ∧ PrefixRead 8 gap.isSome p) := by
  rw [scanPlaces, if_neg (by rw [not_xDigit_slash]; exact Bool.false_ne_true),
    if_neg (by decide), if_neg (by decide), if_pos rfl]
  dsimp only
  have hone : InRange [(stateAt ws gap v n bits).dp] :=
    (inRange_cons _ _).mpr ⟨hws, fun i hi => absurd hi List.not_mem_nil⟩
  have hdp : (((stateAt ws gap v n bits).dp : ℕ) : ℤ) = ws.length := rfl
  have hgap : (stateAt ws gap v n bits).finsert = gap := rfl
  by_cases hbad : toInt (strtoul p).1 < 0 ∨ (strtoul p).2 ≠ []
  · rw [if_pos hbad]
    refine iff_of_true hone ?_
    rintro ⟨-, hall, hlow, -⟩
    rcases hbad with hneg | hmore
    · omega
    · exact hmore hall
  · rw [if_neg hbad]
    by_cases hlarge : toInt (strtoul p).1 > (((stateAt ws gap v n bits).dp + 1 : ℕ) : ℤ) * 4 ∧
        ¬ ((stateAt ws gap v n bits).finsert.isSome = true ∧ toInt (strtoul p).1 ≤ 128)
    · rw [if_pos (by push_cast at hlarge ⊢; exact hlarge)]
      refine iff_of_true hone ?_
      rintro ⟨hseven, -, -, hhigh⟩
      rw [hgap] at hlarge
      rcases hhigh with hle | hboth
      · push_cast at hlarge hle
        omega
      · exact hlarge.2 hboth
    · rw [if_neg (by push_cast at hlarge ⊢; exact hlarge)]
      obtain ⟨hlow, hall⟩ := not_or.mp hbad
      rw [inRange_cons, inRange_cons]
      show ws.length < 8 ∧ ws.length + 1 < 8 ∧ InRange [] ↔ _
      constructor
      · rintro ⟨-, hlt, -⟩ ⟨hseven, -⟩
        omega
      · intro hnot
        refine ⟨hws, ?_, fun i hi => absurd hi List.not_mem_nil⟩
        by_contra hge
        have hseven : ws.length = 7 := by omega
        refine hnot ⟨hseven, not_not.mp hall, Int.not_lt.mp hlow, ?_⟩
        by_contra hno
        push Not at hno
        apply hlarge
        rw [hgap]
        refine ⟨?_, fun hboth => ?_⟩
        · push_cast at hno ⊢
          omega
        · have hmore := hno.2 hboth.1
          omega

/-- A scan that uses a place out of range reads eight groups, a slash and a number. -/
theorem overrun_of_unsafe (p : CStr) (prev : Option Char) (ws : List ℕ) (gap : Option ℕ)
    (v n bits : ℕ) (hws : ws.length < 8) (hn : n ≤ 4)
    (h : ¬ InRange (scanPlaces p prev (stateAt ws gap v n bits))) :
    ∃ f fs q, p = spelled f fs ('/' :: q) ∧ f.length ≤ n ∧ (∀ c ∈ f, isXDigit c = true) ∧
      (∀ g ∈ fs, Field g) ∧
      doubles (decide (prev = some ':')) f fs + (if gap.isSome then 1 else 0) ≤ 1 ∧
      ws.length + fs.length = 7 + doubles (decide (prev = some ':')) f fs ∧
      PrefixRead 8 (gap.isSome || decide (0 < doubles (decide (prev = some ':')) f fs)) q := by
  induction p generalizing prev ws gap v n bits with
  | nil =>
    refine absurd ((inRange_cons _ _).mpr ⟨?_, fun i hi => absurd hi List.not_mem_nil⟩) h
    exact hws
  | cons c p ih =>
    by_cases hdigit : isXDigit c = true
    · cases n with
      | zero =>
        rw [scanPlaces, if_pos hdigit, if_pos (show (stateAt ws gap v 0 bits).nyble = 0 from rfl)]
          at h
        exact absurd (fun i hi => absurd hi List.not_mem_nil) h
      | succ n =>
        rw [(leads_digit ws gap v n bits p prev c hdigit hws).places] at h
        obtain ⟨f, fs, q, rfl, hlen, hf, hfs, hgap, hcount, hread⟩ :=
          ih (some c) ws gap _ n bits hws (by omega) h
        have hc : decide (some c = some ':') = false := by
          rw [decide_eq_false_iff_not]
          intro heq
          rw [Option.some.inj heq] at hdigit
          exact absurd hdigit (by decide)
        have hsame : doubles (decide (prev = some ':')) (c :: f) fs =
            doubles (decide (some c = some ':')) f fs := by
          rw [hc]
          cases fs with
          | nil => rfl
          | cons g fs => simp [doubles]
        refine ⟨c :: f, fs, q, ?_, by rw [List.length_cons]; omega, ?_, hfs, ?_, ?_, ?_⟩
        · cases fs <;> rfl
        · intro d hd
          rcases List.mem_cons.mp hd with rfl | hd
          · exact hdigit
          · exact hf d hd
        · rwa [hsame]
        · rwa [hsame]
        · rwa [hsame]
    · by_cases hcolon : c = ':'
      · subst hcolon
        have hnext : decide (some ':' = some ':') = true := by decide
        by_cases hprev : prev = some ':'
        · subst hprev
          cases gap with
          | some i =>
            rw [scanPlaces, if_neg hdigit, if_pos rfl, if_pos rfl,
              if_pos (show (stateAt ws (some i) v n bits).finsert.isSome = true from rfl)] at h
            exact absurd (fun i hi => absurd hi List.not_mem_nil) h
          | none =>
            rw [(leads_gap ws v n bits p).places] at h
            obtain ⟨f, fs, q, rfl, hlen, hf, hfs, hgap, hcount, hread⟩ :=
              ih (some ':') ws (some ws.length) v n bits hws hn h
            rw [hnext] at hgap hcount hread
            have hone : doubles true [] (f :: fs) = 1 + doubles true f fs := by
              simp [doubles]
            refine ⟨[], f :: fs, q, rfl, Nat.zero_le _, fun d hd => absurd hd List.not_mem_nil,
              ?_, ?_, ?_, ?_⟩
            · intro g hg
              rcases List.mem_cons.mp hg with rfl | hg
              · exact ⟨by omega, hf⟩
              · exact hfs g hg
            · rw [hnext, hone]
              simp at hgap ⊢
              omega
            · rw [hnext, hone, List.length_cons]
              omega
            · rw [hnext, hone]
              have hpos : 0 < 1 + doubles true f fs := by omega
              rw [decide_eq_true hpos, Bool.or_true]
              simpa using hread
        · by_cases hlt : ws.length + 1 < 8
          · rw [(leads_colon ws gap v n bits p prev hprev hlt).places] at h
            obtain ⟨f, fs, q, rfl, hlen, hf, hfs, hgap, hcount, hread⟩ :=
              ih (some ':') (ws ++ [v]) gap 0 4 bits
                (by rw [List.length_append, List.length_singleton]; exact hlt) (by omega) h
            rw [hnext] at hgap hcount hread
            have hfalse : decide (prev = some ':') = false := decide_eq_false hprev
            have hsame : doubles false [] (f :: fs) = doubles true f fs := by simp [doubles]
            refine ⟨[], f :: fs, q, rfl, Nat.zero_le _, fun d hd => absurd hd List.not_mem_nil,
              ?_, ?_, ?_, ?_⟩
            · intro g hg
              rcases List.mem_cons.mp hg with rfl | hg
              · exact ⟨hlen, hf⟩
              · exact hfs g hg
            · rwa [hfalse, hsame]
            · rw [hfalse, hsame, List.length_cons]
              rw [List.length_append, List.length_singleton] at hcount
              omega
            · rwa [hfalse, hsame]
          · rw [scanPlaces, if_neg hdigit, if_pos rfl, if_neg hprev,
              if_pos (show 8 ≤ (stateAt ws gap v n bits).dp + 1 from by
                show 8 ≤ ws.length + 1
                omega)] at h
            refine absurd ((inRange_cons _ _).mpr ⟨hws, fun i hi => absurd hi List.not_mem_nil⟩) h
      · by_cases hstar : c = '*'
        · subst hstar
          rw [scanPlaces, if_neg hdigit, if_neg hcolon, if_pos rfl] at h
          split at h
          · exact absurd (fun i hi => absurd hi List.not_mem_nil) h
          · next hnot =>
            push Not at hnot
            rw [hnot.2.1] at h
            refine absurd ((inRange_cons _ _).mpr ⟨hws, fun i hi => absurd hi List.not_mem_nil⟩) h
        · by_cases hslash : c = '/'
          · subst hslash
            rw [slash_inRange ws gap v n bits p prev hws, not_not] at h
            refine ⟨[], [], p, rfl, Nat.zero_le _, fun d hd => absurd hd List.not_mem_nil,
              fun g hg => absurd hg List.not_mem_nil, ?_, ?_, ?_⟩
            · show 0 + (if gap.isSome = true then 1 else 0) ≤ 1
              split <;> omega
            · show ws.length + 0 = 7 + 0
              omega
            · rw [show (gap.isSome || decide (0 < doubles (decide (prev = some ':')) [] [])) =
                gap.isSome from by simp [doubles]]
              exact h.2
          · rw [scanPlaces, if_neg hdigit, if_neg hcolon, if_neg hstar, if_neg hslash] at h
            exact absurd (fun i hi => absurd hi List.not_mem_nil) h

/-- Eight groups, where the colon behind a colon makes none, a slash and a number that fits. -/
def Overruns (t : CStr) : Prop :=
  ∃ f fs p, t = spelled f fs ('/' :: p) ∧ (∀ g ∈ f :: fs, Field g) ∧ doubles false f fs ≤ 1 ∧
    fs.length = 7 + doubles false f fs ∧ PrefixRead 8 (decide (0 < doubles false f fs)) p

theorem scan_inRange_iff (t : CStr) : InRange (scanPlaces t none start) ↔ ¬ Overruns t := by
  rw [start_eq]
  constructor
  · rintro hin ⟨f, fs, p, rfl, hf, hdouble, hlen, hread⟩
    have hlength := slots_length false [] none f fs
    obtain ⟨prev', hleads⟩ := leads_spelled [] none 128 f fs ('/' :: p) none false
      ⟨fun h => absurd h (by simp), fun h => absurd h (by simp)⟩ hf hdouble
      (by rw [List.length_nil] at hlength; omega)
    rw [hleads.places, slash_inRange _ _ _ _ _ _ _ (by rw [List.length_nil] at hlength; omega)]
      at hin
    refine hin ⟨by rw [List.length_nil] at hlength; omega, ?_⟩
    rw [slots_gap]
    exact hread
  · intro hnot
    by_contra hunsafe
    obtain ⟨f, fs, q, rfl, hlen, hf, hfs, hgap, hcount, hread⟩ :=
      overrun_of_unsafe t none [] none 0 4 128 (by decide) (Nat.le_refl _) hunsafe
    refine hnot ⟨f, fs, q, rfl, ?_, hgap, ?_, hread⟩
    · intro g hg
      rcases List.mem_cons.mp hg with rfl | hg
      · exact ⟨hlen, hf⟩
      · exact hfs g hg
    · have hzero : ([] : List ℕ).length = 0 := rfl
      have hdec : decide ((none : Option Char) = some ':') = false := rfl
      rw [hdec] at hcount
      omega

end IrcdHybrid.HexGroups
