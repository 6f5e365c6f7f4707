import IrcdHybrid.Netmask

/-!
Domain names as text and as they are sent: every label behind its length, and an empty one at the
end. Bytes that a text cannot show are written with a backslash.
-/

namespace IrcdHybrid.DnsNames

open CString Numeral
open Netmask (isXDigit digitParse)

def NS_MAXCDNAME : ℕ := 255

/-- The two bits of `NS_CMPRSFLGS`. -/
def labelType (n : ℕ) : ℕ := n / 64 % 4

def DNS_LABELTYPE_BITSTRING : ℕ := 65

/-- Number of bits of a bit string, from its first byte. -/
def bitLength (b : ℕ) : ℕ := if b = 0 then 256 else b

/-- The bytes of a label after its first one `l`; `next` is what stands behind that. -/
def labellen (l next : ℕ) : Option ℕ :=
  if labelType l = 3 then none
  else if labelType l = 1 then
    if l = DNS_LABELTYPE_BITSTRING then some ((bitLength next + 7) / 8 + 1) else none
  else some l

def special (c : ℕ) : Bool :=
  c = 34 || c = 46 || c = 59 || c = 92 || c = 40 || c = 41 || c = 64 || c = 36

def printable (c : ℕ) : Bool := decide (32 < c) && decide (c < 127)

/-- `digits[n]` -/
def digitOf (n : ℕ) : Char := Char.ofNat (48 + n)

def hexOf (n : ℕ) : Char := Char.ofNat (if n < 10 then 48 + n else 87 + n)

/-- `%x`, for at most three digits. -/
def hexText (n : ℕ) : CStr :=
  if n < 16 then [hexOf n]
  else if n < 256 then [hexOf (n / 16), hexOf (n % 16)]
  else [hexOf (n / 256), hexOf (n / 16 % 16), hexOf (n % 16)]

/-- `%02x` -/
def hexText2 (n : ℕ) : CStr := if n < 16 then ['0', hexOf n] else hexText n

/-- The bits of the last byte that count. The byte is a `char`, so where its first bit is set there
are more ones before it. -/
def lastBits (tc b : ℕ) : ℕ := (if 128 ≤ tc then 65280 + tc else tc) &&& (255 <<< (8 - b))

/-- The digits of a bit string of `b` bits. -/
def bitDigits : ℕ → List ℕ → CStr
  | b, tc :: cp =>
    if 7 < b then hexText2 tc ++ bitDigits (b - 8) cp
    else if 4 < b then hexText2 (lastBits tc b)
    else if 0 < b then hexText ((tc / 16) % 16 &&& (15 <<< (4 - b)))
    else []
  | _, [] => []

/-- `irc_decode_bitstring`, with `room` left. -/
def decodeBitstring (room : ℕ) : List ℕ → Option CStr
  | [] => none
  | b :: cp =>
    let blen := bitLength b
    let plen := (blen + 3) / 4 + 6 + (if 99 < blen then 3 else if 9 < blen then 2 else 1)
    if room ≤ plen then none
    else some (['\\', '[', 'x'] ++ bitDigits blen cp ++ ['/'] ++ decimal blen ++ [']'])

/-- One character of a label. -/
def showByte (c : ℕ) : CStr :=
  if special c then ['\\', Char.ofNat c]
  else if !printable c then ['\\', digitOf (c / 100), digitOf (c % 100 / 10), digitOf (c % 10)]
  else [Char.ofNat c]

/-- Where `irc_ns_name_ntop` stands: before a label, before `k + 1` more characters of one, or before
`k + 1` bytes that are written already. -/
inductive NtopAt where
  | label
  | text (k : ℕ)
  | skip (k : ℕ)

/-- The text of what is left of the name, after `pos` characters. -/
def ntopGo (dstsiz : ℕ) : List ℕ → NtopAt → ℕ → Option CStr
  | [], _, _ => none
  | c :: cp, .text k, pos =>
    if dstsiz < pos + (showByte c).length then none
    else
      (ntopGo dstsiz cp (if k = 0 then .label else .text (k - 1)) (pos + (showByte c).length)).map
        fun t => showByte c ++ t
  | _ :: cp, .skip k, pos => ntopGo dstsiz cp (if k = 0 then .label else .skip (k - 1)) pos
  | n :: cp, .label, pos =>
    if n = 0 then
      if pos = 0 then if dstsiz ≤ 1 then none else some ['.']
      else if dstsiz ≤ pos then none else some []
    else if labelType n = 3 then none
    else
      let dot : CStr := if pos = 0 then [] else ['.']
      if pos ≠ 0 ∧ dstsiz ≤ pos then none
      else
        match labellen n cp.headI with
        | none => none
        | some l =>
          if dstsiz ≤ pos + dot.length + l then none
          else if labelType n = 1 then
            match decodeBitstring (dstsiz - (pos + dot.length)) cp with
            | none => none
            | some t =>
              (ntopGo dstsiz cp (.skip (l - 1)) (pos + dot.length + t.length)).map
                fun t' => dot ++ t ++ t'
          else (ntopGo dstsiz cp (.text (l - 1)) (pos + dot.length)).map fun t => dot ++ t

/-- `irc_ns_name_ntop` -/
def nsNameNtop (src : List ℕ) (dstsiz : ℕ) : Option CStr := ntopGo dstsiz src .label 0

/-- The variables of `irc_encode_bitsring`; `beg` is the text at `beg_blen`, and `value` matters only
as far as a byte goes. -/
structure BitScan where
  tp : List ℕ
  afterslash : Bool
  beg : Option CStr
  value : ℕ
  count : ℕ
  tbcount : ℕ

/-- The loop up to the `]`, with `room` bytes left at `tp`. Of a length that does not fit, what is
left as an `int`. -/
def bitScan (room : ℕ) : CStr → BitScan → Option (ℤ × BitScan)
  | [], _ => none
  | c :: cp, b =>
    if room ≤ b.tp.length then none
    else if c = ']' then
      let done (blen : ℤ) : Option (ℤ × BitScan) :=
        some (blen, if b.count = 0 then b else { b with tp := b.tp ++ [b.value * 16 % 256] })
      if b.afterslash then
        match b.beg with
        | none => none
        | some beg =>
          let ds := beg.takeWhile isDigit
          if (beg.dropWhile isDigit).head? = some ']' then
            done (toInt (min (digitsValue ds) (2 ^ 63 - 1)))
          else none
      else done 0
    else if c = '/' then bitScan room cp { b with afterslash := true }
    else if b.afterslash then
      if !isDigit c then none
      else
        match b.beg with
        | some _ => bitScan room cp b
        | none => if c = '0' then none else bitScan room cp { b with beg := some (c :: cp) }
    else if !isXDigit c then none
    else
      let value := (b.value * 16 + digitParse c) % 256
      if 256 < b.tbcount + 4 then none
      else if b.count + 4 = 8 then
        bitScan room cp
          { b with tp := b.tp ++ [value], value := value, count := 0, tbcount := b.tbcount + 4 }
      else bitScan room cp { b with value := value, count := b.count + 4, tbcount := b.tbcount + 4 }

/-- `irc_encode_bitsring`, on what stands behind the `[`, with `room` bytes left: the first byte and
the bits. -/
def encodeBitstring (room : ℕ) : CStr → Option (List ℕ)
  | 'x' :: cp =>
    if !cp.head?.any isXDigit then none
    else
      match bitScan (room - 1) cp ⟨[], false, none, 0, 0, 0⟩ with
      | none => none
      | some (blen, b) =>
        if room ≤ 1 + b.tp.length then none
        else if 0 < blen then
          let traillen := b.tbcount - blen.toNat
          if (blen.toNat + 3) / 4 * 4 ≠ b.tbcount then none
          else if b.value % 2 ^ traillen ≠ 0 then none
          else some ((if blen = 256 then 0 else blen.toNat) :: b.tp)
        else some ((if b.tbcount = 256 then 0 else b.tbcount) :: b.tp)
  | _ => none

/-- What the next character is to `irc_ns_name_pton`: any, one behind a backslash, the second or the
third digit of a number, one of `k + 1` of a bit string that is written already, or the one behind a bit
string. -/
inductive PtonAt where
  | any
  | escaped
  | second (n : ℕ)
  | third (n : ℕ)
  | skip (k : ℕ)
  | behind

/-- The bytes before `label`, and those behind it. -/
structure PtonOut where
  dst : List ℕ
  label : List ℕ

def PtonOut.bp (o : PtonOut) : ℕ := o.dst.length + 1 + o.label.length

/-- The label gets its length, and the name its end if that was not the empty label. -/
def PtonOut.finish (dstsiz : ℕ) (o : PtonOut) (qualified : Bool) : Option (List ℕ × Bool) :=
  if labelType o.label.length ≠ 0 then none
  else if dstsiz ≤ o.dst.length then none
  else if o.label ≠ [] ∧ dstsiz ≤ o.bp then none
  else
    let dst := o.dst ++ o.label.length :: o.label ++ (if o.label = [] then [] else [0])
    if NS_MAXCDNAME < dst.length then none else some (dst, qualified)

def ptonGo (dstsiz : ℕ) : CStr → PtonAt → PtonOut → Option (List ℕ × Bool)
  | [], .second _, _ => none
  | [], .third _, _ => none
  | [], _, o => o.finish dstsiz false
  | c :: src, .second n, o =>
    if isDigit c then ptonGo dstsiz src (.third (n * 10 + digitParse c)) o else none
  | c :: src, .third n, o =>
    if !isDigit c then none
    else if 255 < n * 10 + digitParse c then none
    else if dstsiz ≤ o.bp then none
    else ptonGo dstsiz src .any ⟨o.dst, o.label ++ [n * 10 + digitParse c]⟩
  | _ :: src, .skip k, o => ptonGo dstsiz src (if k = 0 then .behind else .skip (k - 1)) o
  | c :: src, .behind, o => if c = '.' then ptonGo dstsiz src .any o else none
  | c :: src, .escaped, o =>
    if c = '[' then
      if ']' ∉ src then none
      else
        match encodeBitstring (dstsiz - o.bp) src with
        | none => none
        | some bits =>
          ptonGo dstsiz src (.skip (src.idxOf ']'))
            ⟨o.dst ++ DNS_LABELTYPE_BITSTRING :: o.label ++ bits, []⟩
    else if isDigit c then ptonGo dstsiz src (.second (digitParse c)) o
    else if dstsiz ≤ o.bp then none
    else ptonGo dstsiz src .any ⟨o.dst, o.label ++ [c.toNat]⟩
  | c :: src, .any, o =>
    if c = '\\' then ptonGo dstsiz src .escaped o
    else if c = '.' then
      if src = [] then o.finish dstsiz true
      else if labelType o.label.length ≠ 0 then none
      else if dstsiz ≤ o.dst.length then none
      else if o.label = [] ∨ src.head? = some '.' then none
      else ptonGo dstsiz src .any ⟨o.dst ++ o.label.length :: o.label, []⟩
    else if dstsiz ≤ o.bp then none
    else ptonGo dstsiz src .any ⟨o.dst, o.label ++ [c.toNat]⟩

/-- `irc_ns_name_pton`: the name as it is sent, and whether the text ended with a dot. -/
def nsNamePton (src : CStr) (dstsiz : ℕ) : Option (List ℕ × Bool) := ptonGo dstsiz src .any ⟨[], []⟩

theorem ofNat_byte (c : ℕ) (h : c < 256) : (Char.ofNat c).toNat = c :=
  toNat_ofNat_small c (by omega)

theorem special_iff (c : ℕ) : special c = true ↔
    c = 34 ∨ c = 46 ∨ c = 59 ∨ c = 92 ∨ c = 40 ∨ c = 41 ∨ c = 64 ∨ c = 36 := by
  simp [special, or_assoc]

theorem printable_iff (c : ℕ) : printable c = true ↔ 32 < c ∧ c < 127 := by
  simp [printable]

/-- Visible, and no blank. -/
def Shown (t : CStr) : Prop := ∀ c ∈ t, 32 < c.toNat ∧ c.toNat < 127

theorem shown_of_all (t : CStr) (h : t.all (fun c => 32 < c.toNat && c.toNat < 127) = true) : Shown t := by
  intro c hc
  simpa using List.all_eq_true.mp h c hc

theorem shown_append (t t' : CStr) : Shown (t ++ t') ↔ Shown t ∧ Shown t' := List.forall_mem_append

theorem shown_hexOf : ∀ n : Fin 16, 32 < (hexOf n).toNat ∧ (hexOf n).toNat < 127 := by decide

theorem shown_digitOf : ∀ n : Fin 10, 32 < (digitOf n).toNat ∧ (digitOf n).toNat < 127 := by decide

theorem shown_showByte (c : ℕ) (hc : c < 256) : Shown (showByte c) := by
  have hback : 32 < '\\'.toNat ∧ '\\'.toNat < 127 := by decide
  intro d hd
  unfold showByte at hd
  split at hd
  · next hspecial =>
    have hcases := (special_iff c).mp hspecial
    rcases List.mem_cons.mp hd with rfl | hd
    · exact hback
    · rw [List.mem_singleton.mp hd, ofNat_byte c hc]
      omega
  split at hd
  · simp only [List.mem_cons, List.not_mem_nil, or_false] at hd
    rcases hd with rfl | rfl | rfl | rfl
    · exact hback
    · exact shown_digitOf ⟨c / 100, by omega⟩
    · exact shown_digitOf ⟨c % 100 / 10, by omega⟩
    · exact shown_digitOf ⟨c % 10, by omega⟩
  · next hprint =>
    have hrange := (printable_iff c).mp (by simpa using hprint)
    rw [List.mem_singleton.mp hd, ofNat_byte c hc]
    exact hrange

theorem shown_hexText (n : ℕ) (hn : n < 4096) : Shown (hexText n) := by
  intro d hd
  unfold hexText at hd
  split at hd
  · next h =>
    rw [List.mem_singleton.mp hd]
    exact shown_hexOf ⟨n, h⟩
  split at hd
  · simp only [List.mem_cons, List.not_mem_nil, or_false] at hd
    rcases hd with rfl | rfl
    · exact shown_hexOf ⟨n / 16, by omega⟩
    · exact shown_hexOf ⟨n % 16, by omega⟩
  · simp only [List.mem_cons, List.not_mem_nil, or_false] at hd
    rcases hd with rfl | rfl | rfl
    · exact shown_hexOf ⟨n / 256, by omega⟩
    · exact shown_hexOf ⟨n / 16 % 16, by omega⟩
    · exact shown_hexOf ⟨n % 16, by omega⟩

theorem shown_hexText2 (n : ℕ) (hn : n < 4096) : Shown (hexText2 n) := by
  unfold hexText2
  split
  · next h =>
    intro d hd
    simp only [List.mem_cons, List.not_mem_nil, or_false] at hd
    rcases hd with rfl | rfl
    · decide
    · exact shown_hexOf ⟨n, h⟩
  · exact shown_hexText n hn

theorem lastBits_lt (tc b : ℕ) (hb : 4 < b) (hb' : b ≤ 7) : lastBits tc b < 4096 := by
  have hmask : 255 <<< (8 - b) < 4096 := by
    have hcases : b = 5 ∨ b = 6 ∨ b = 7 := by omega
    rcases hcases with rfl | rfl | rfl <;> decide
  exact lt_of_le_of_lt Nat.and_le_right hmask

theorem shown_bitDigits (cp : List ℕ) (hcp : ∀ b ∈ cp, b < 256) (b : ℕ) : Shown (bitDigits b cp) := by
  induction cp generalizing b with
  | nil => simp [bitDigits, Shown]
  | cons tc cp ih =>
    have htc := hcp tc (by simp)
    unfold bitDigits
    split
    · exact (shown_append _ _).mpr
        ⟨shown_hexText2 tc (by omega), ih (fun k hk => hcp k (by simp [hk])) _⟩
    split
    · exact shown_hexText2 _ (lastBits_lt tc b (by omega) (by omega))
    split
    · refine shown_hexText _ (lt_of_le_of_lt Nat.and_le_left ?_)
      omega
    · simp [Shown]

theorem shown_decimal (n : ℕ) : Shown (decimal n) := by
  intro d hd
  have hdigit := isDigit_decimal n d hd
  unfold isDigit at hdigit
  rw [Bool.and_eq_true, decide_eq_true_iff, decide_eq_true_iff] at hdigit
  have hlow : 48 ≤ d.toNat := hdigit.1
  have hhigh : d.toNat ≤ 57 := hdigit.2
  omega

theorem shown_decodeBitstring (room : ℕ) (cp : List ℕ) (hcp : ∀ b ∈ cp, b < 256) (t : CStr)
    (h : decodeBitstring room cp = some t) : Shown t := by
  cases cp with
  | nil => simp [decodeBitstring] at h
  | cons b cp =>
    simp only [decodeBitstring, Option.ite_none_left_eq_some] at h
    rw [← Option.some.inj h.2]
    have hframe : Shown ['\\', '[', 'x'] ∧ Shown ['/'] ∧ Shown [']'] :=
      ⟨shown_of_all _ rfl, shown_of_all _ rfl, shown_of_all _ rfl⟩
    simp only [shown_append]
    exact ⟨⟨⟨⟨hframe.1, shown_bitDigits cp (fun k hk => hcp k (by simp [hk])) _⟩, hframe.2.1⟩,
      shown_decimal _⟩, hframe.2.2⟩

/-- Whatever a name server sends, its text has no blanks and nothing that cannot be seen. -/
theorem shown_ntop (dstsiz : ℕ) (src : List ℕ) (hsrc : ∀ b ∈ src, b < 256) (at' : NtopAt) (pos : ℕ)
    (t : CStr) (h : ntopGo dstsiz src at' pos = some t) : Shown t := by
  have hdot : Shown ['.'] := shown_of_all _ rfl
  have hnil : Shown [] := by simp [Shown]
  induction src generalizing at' pos t with
  | nil => simp [ntopGo] at h
  | cons n cp ih =>
    have hcp : ∀ b ∈ cp, b < 256 := fun b hb => hsrc b (by simp [hb])
    have hrest : ∀ at'' pos' u t', Shown u → (ntopGo dstsiz cp at'' pos').map (fun t' => u ++ t') = some t' →
        Shown t' := by
      intro at'' pos' u t' hu ht'
      obtain ⟨v, hv, rfl⟩ := Option.map_eq_some_iff.mp ht'
      exact (shown_append _ _).mpr ⟨hu, ih hcp _ _ _ hv⟩
    cases at' with
    | text k =>
      simp only [ntopGo, Option.ite_none_left_eq_some] at h
      exact hrest _ _ _ _ (shown_showByte n (hsrc n (by simp))) h.2
    | skip k => exact ih hcp _ _ _ h
    | label =>
      simp only [ntopGo] at h
      split at h
      · split at h
        · rw [Option.ite_none_left_eq_some] at h
          rw [← Option.some.inj h.2]
          exact hdot
        · rw [Option.ite_none_left_eq_some] at h
          rw [← Option.some.inj h.2]
          exact hnil
      have hfirst : Shown (if pos = 0 then [] else ['.']) := by
        split
        · exact hnil
        · exact hdot
      generalize (if pos = 0 then ([] : CStr) else ['.']) = dot at h hfirst
      rw [Option.ite_none_left_eq_some, Option.ite_none_left_eq_some] at h
      split at h
      · simp at h
      rw [Option.ite_none_left_eq_some] at h
      have h := h.2.2.2
      split at h
      · split at h
        · simp at h
        · next u hu =>
          exact hrest _ _ _ _ ((shown_append _ _).mpr ⟨hfirst, shown_decodeBitstring _ cp hcp u hu⟩) h
      · exact hrest _ _ _ _ hfirst h

section Reading

variable {ls : List (List ℕ)} {o : PtonOut}

end Reading

end IrcdHybrid.DnsNames
