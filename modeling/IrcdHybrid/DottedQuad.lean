import IrcdHybrid.Netmask

/-!
IPv4 masks as text: numbers with dots between them, and a star or a prefix length
behind. The texts that are read as such are described by their parts. What such a mask
matches is right, but for a prefix length of zero, which reads as none at all, and for
numbers that are missing or do not fit eight bits.
-/

namespace IrcdHybrid.DottedQuad

open CString Numeral Netmask

/-- Numbers with dots between them, and what comes behind. -/
def spelled (o : CStr) : List CStr → CStr → CStr
  | [], s => o ++ s
  | q :: os, s => o ++ '.' :: spelled q os s

def Digits (o : CStr) : Prop := ∀ c ∈ o, isDigit c = true

/-- The letter in front of what comes behind the numbers. -/
def prevAt (o : CStr) : List CStr → Option Char → Option Char
  | [], prev => o.getLast?.or prev
  | q :: os, _ => prevAt q os (some '.')

/-- The places behind the dots. -/
def pointers : List CStr → CStr → List CStr
  | [], _ => []
  | q :: os, s => spelled q os s :: pointers os s

/-- What may stand behind `k` numbers, and the prefix length it gives. -/
inductive Ends (prev : Option Char) (k : ℕ) : CStr → ℕ → Prop where
  | nothing : Ends prev k [] 0
  | star (h : prev = some '.') : Ends prev k ['*'] ((k - 1) * 8)
  | slash (p : CStr) (v : ℕ) (hp : strtoul p = (v, [])) (hlow : 0 ≤ toInt v)
    (hhigh : toInt v ≤ k * 8) : Ends prev k ('/' :: p) (toInt v).toNat

theorem scanV4_digits (o rest : CStr) (prev : Option Char) (digits : List CStr) (ho : Digits o) :
    scanV4 (o ++ rest) prev digits = scanV4 rest (o.getLast?.or prev) digits := by
  induction o generalizing prev with
  | nil => rfl
  | cons c o ih =>
    have hc : isDigit c = true := ho c (List.mem_cons_self ..)
    rw [List.cons_append, scanV4, if_pos hc, ih (some c) (fun d hd => ho d (List.mem_cons_of_mem _ hd))]
    congr 1
    cases o with
    | nil => rfl
    | cons d o =>
      rw [List.getLast?_cons_cons]
      cases hlast : (d :: o).getLast? with
      | none => exact absurd hlast (by simp)
      | some x => rfl

/-- The scan steps over the numbers and notes the places behind the dots. -/
theorem scanV4_spelled (o : CStr) (os : List CStr) (s : CStr) (prev : Option Char) (digits : List CStr)
    (ho : ∀ q ∈ o :: os, Digits q) (hlen : digits.length + os.length ≤ 4) :
    scanV4 (spelled o os s) prev digits = scanV4 s (prevAt o os prev) (digits ++ pointers os s) := by
  induction os generalizing o prev digits with
  | nil =>
    unfold spelled prevAt pointers
    rw [scanV4_digits o s prev digits (ho o (List.mem_cons_self ..)), List.append_nil]
  | cons q os ih =>
    simp only [List.length_cons] at hlen
    have hdot : isDigit '.' = false := by decide
    unfold spelled prevAt pointers
    rw [scanV4_digits o _ prev digits (ho o (List.mem_cons_self ..)), scanV4, hdot,
      if_neg (by simp), if_pos rfl, if_neg (by omega),
      ih q (some '.') (digits ++ [spelled q os s]) (fun r hr => ho r (List.mem_cons_of_mem _ hr))
        (by simp only [List.length_append, List.length_singleton]; omega), List.append_assoc]
    rfl

theorem scanV4_ends (prev : Option Char) (digits : List CStr) (s : CStr) (bits : ℕ)
    (h : Ends prev digits.length s bits) : scanV4 s prev digits = some (digits, bits) := by
  cases h with
  | nothing => rfl
  | star h =>
    have hstar : isDigit '*' = false := by decide
    rw [scanV4, hstar, if_neg (by simp), if_neg (by decide), if_pos rfl, if_neg (by simp [h])]
  | slash p v hp hlow hhigh =>
    have hslash : isDigit '/' = false := by decide
    rw [scanV4, hslash, if_neg (by simp), if_neg (by decide), if_neg (by decide), if_pos rfl, hp]
    dsimp only
    rw [if_neg (by simp; omega), if_neg (by omega)]

/-- Whatever the scan accepts is made of numbers and dots, and of what may come behind. -/
theorem scanV4_some (text : CStr) (prev : Option Char) (digits found : List CStr) (bits : ℕ)
    (hdigits : digits.length ≤ 4) (h : scanV4 text prev digits = some (found, bits)) :
    ∃ o os s, text = spelled o os s ∧ (∀ q ∈ o :: os, Digits q) ∧ digits.length + os.length ≤ 4 ∧
      Ends (prevAt o os prev) (digits.length + os.length) s bits := by
  have hempty : Digits [] := by simp [Digits]
  induction text generalizing prev digits with
  | nil =>
    obtain ⟨rfl, rfl⟩ := Prod.mk.inj (Option.some.inj h)
    exact ⟨[], [], [], rfl, by simpa using hempty, by simpa using hdigits, .nothing⟩
  | cons c p ih =>
    unfold scanV4 at h
    split_ifs at h with h1 h2 h3 h4 h5 h6
    · obtain ⟨o, os, s, rfl, hall, hlen, hends⟩ := ih _ _ hdigits h
      refine ⟨c :: o, os, s, ?_, ?_, hlen, ?_⟩
      · cases os <;> rfl
      · intro q hq
        rcases List.mem_cons.mp hq with rfl | hq
        · intro d hd
          rcases List.mem_cons.mp hd with rfl | hd
          · exact h1
          · exact hall o (List.mem_cons_self ..) d hd
        · exact hall q (List.mem_cons_of_mem _ hq)
      · have hprev : prevAt (c :: o) os prev = prevAt o os (some c) := by
          cases os with
          | nil =>
            unfold prevAt
            cases o with
            | nil => rfl
            | cons d o =>
              rw [List.getLast?_cons_cons]
              cases hlast : (d :: o).getLast? with
              | none => exact absurd hlast (by simp)
              | some x => rfl
          | cons q os => rfl
        rw [hprev]
        exact hends
    · obtain ⟨o, os, s, rfl, hall, hlen, hends⟩ := ih _ _
        (by simp only [List.length_append, List.length_singleton]; omega) h
      simp only [List.length_append, List.length_singleton] at hlen hends
      refine ⟨[], o :: os, s, by rw [h2]; rfl, ?_, by simp only [List.length_cons]; omega, ?_⟩
      · intro q hq
        rcases List.mem_cons.mp hq with rfl | hq
        · exact hempty
        · exact hall q hq
      · have hlen' : digits.length + (o :: os).length = digits.length + 1 + os.length := by
          simp only [List.length_cons]
          omega
        rw [hlen']
        rw [h2] at hends
        exact hends
    · rw [not_or, not_not, not_not] at h5
      obtain ⟨rfl, rfl⟩ := Prod.mk.inj (Option.some.inj h)
      obtain ⟨rfl, rfl⟩ := h5
      exact ⟨[], [], ['*'], by rw [h4]; rfl, by simpa using hempty, by simpa using hdigits, .star rfl⟩
    · dsimp only at h
      split_ifs at h with h7 h8
      rw [not_or, not_not] at h7
      obtain ⟨-, rfl⟩ := Prod.mk.inj (Option.some.inj h)
      refine ⟨[], [], '/' :: p, by rw [h6]; rfl, by simpa using hempty, by simpa using hdigits, ?_⟩
      exact .slash p (strtoul p).1 (Prod.ext rfl h7.2) (by omega) (by
        simp only [List.length_nil, Nat.add_zero]
        omega)

theorem strtoul_digits (o rest : CStr) (hne : o ≠ []) (ho : Digits o)
    (hrest : ∀ c r, rest = c :: r → isDigit c = false) (hv : digitsValue o < 2 ^ 64) :
    strtoul (o ++ rest) = (digitsValue o, rest) := by
  obtain ⟨c, o', rfl⟩ := List.exists_cons_of_ne_nil hne
  have hc : isDigit c = true := ho c (List.mem_cons_self ..)
  have hsign : afterSign ((c :: o') ++ rest) = (false, (c :: o') ++ rest) := by
    unfold afterSign
    have hdrop : (c :: o' ++ rest).dropWhile isSpace = c :: o' ++ rest := by
      rw [List.cons_append, List.dropWhile_cons, isSpace_of_isDigit c hc]
      rfl
    rw [hdrop]
    split
    · next h =>
      rw [(List.cons.inj h).1] at hc
      exact absurd hc (by decide)
    · next h =>
      rw [(List.cons.inj h).1] at hc
      exact absurd hc (by decide)
    · rfl
  have htake : ((c :: o') ++ rest).takeWhile isDigit = c :: o' ∧
      ((c :: o') ++ rest).dropWhile isDigit = rest := by
    rw [List.takeWhile_append_of_pos ho, List.dropWhile_append_of_pos ho]
    cases rest with
    | nil => exact ⟨List.append_nil _, rfl⟩
    | cons d r =>
      rw [List.takeWhile_cons, List.dropWhile_cons, hrest d r rfl]
      exact ⟨List.append_nil _, rfl⟩
  unfold strtoul
  rw [hsign]
  dsimp only
  rw [htake.1, htake.2, if_neg (by simp), if_neg (by omega), if_neg (by simp)]

def Plain (s : CStr) : Prop := ∀ c r, s = c :: r → isDigit c = false

theorem ends_plain (prev : Option Char) (k : ℕ) (s : CStr) (bits : ℕ) (h : Ends prev k s bits) :
    Plain s := by
  rintro c r rfl
  cases h with
  | star => decide
  | slash => decide

theorem strtoul_pointers (o : CStr) (os : List CStr) (s : CStr) (ho : ∀ q ∈ o :: os, Digits q)
    (hs : Plain s) (i : ℕ) (q : CStr) (hi : (o :: os)[i]? = some q) (hne : q ≠ [])
    (hv : digitsValue q < 2 ^ 64) :
    (strtoul ((spelled o os s :: pointers os s).getD i ['0'])).1 = digitsValue q := by
  induction os generalizing o i with
  | nil =>
    cases i with
    | succ i => simp at hi
    | zero =>
      obtain rfl := Option.some.inj hi
      rw [List.getD_cons_zero, spelled, strtoul_digits o s hne (ho o (List.mem_cons_self ..)) hs hv]
  | cons r os ih =>
    cases i with
    | zero =>
      obtain rfl := Option.some.inj hi
      have hdot : ∀ c rest, '.' :: spelled r os s = c :: rest → isDigit c = false := by
        intro c rest heq
        rw [← (List.cons.inj heq).1]
        decide
      rw [List.getD_cons_zero, spelled, strtoul_digits o _ hne (ho o (List.mem_cons_self ..)) hdot hv]
    | succ i =>
      rw [List.getD_cons_succ]
      exact ih r (fun x hx => ho x (List.mem_cons_of_mem _ hx)) i hi

/-- The address that numbers stand for; what is missing is zero. -/
def quad (os : List CStr) : BitVec 32 :=
  let byte := fun i => BitVec.ofNat 8 ((os.map digitsValue).getD i 0)
  byte 0 ++ byte 1 ++ byte 2 ++ byte 3

theorem leading_getLsbD (n j : ℕ) (hn : n ≤ 32) (hj : j < 32) :
    (leading 32 n).getLsbD j = decide (32 - n ≤ j) := by
  have hall : ∀ n : Fin 33, ∀ j : Fin 32, (leading 32 n).getLsbD j = decide (32 - n.val ≤ j.val) := by
    decide +kernel
  exact hall ⟨n, by omega⟩ ⟨j, hj⟩

/-- A mask of the leading bits matches the addresses with these bits. -/
theorem matchIpv4_iff (x addr : BitVec 32) (n : ℕ) (hn : n ≤ 32) :
    matchIpv4 x (addr &&& leading 32 n) n = true ↔ ∀ i < n, x.getMsbD i = addr.getMsbD i := by
  unfold matchIpv4
  rw [beq_iff_eq]
  constructor
  · intro heq i hi
    have hbit := congrArg (fun v => v.getMsbD i) heq
    have hlead : (leading 32 n).getMsbD i = true := by
      rw [BitVec.getMsbD_eq_getLsbD, leading_getLsbD n _ hn (by omega)]
      simp
      omega
    simpa [BitVec.getMsbD_and, hlead] using hbit
  · intro hall
    refine BitVec.eq_of_getMsbD_eq fun i hi => ?_
    rw [BitVec.getMsbD_and, BitVec.getMsbD_and]
    by_cases hin : i < n
    · rw [hall i hin]
    · have hlead : (leading 32 n).getMsbD i = false := by
        rw [BitVec.getMsbD_eq_getLsbD, leading_getLsbD n _ hn (by omega)]
        simp
        omega
      rw [hlead, Bool.and_false, Bool.and_false]

theorem leading_bytes (n : ℕ) (hn : n ≤ 32) :
    leading 32 n = usedByte (fun _ => 0xff#8) n 0 ++ usedByte (fun _ => 0xff#8) n 1 ++
      usedByte (fun _ => 0xff#8) n 2 ++ usedByte (fun _ => 0xff#8) n 3 := by
  have hall : ∀ n : Fin 33, leading 32 n = usedByte (fun _ => 0xff#8) n 0 ++
      usedByte (fun _ => 0xff#8) n 1 ++ usedByte (fun _ => 0xff#8) n 2 ++
      usedByte (fun _ => 0xff#8) n 3 := by decide +kernel
  exact hall ⟨n, by omega⟩

theorem usedByte_and (b : ℕ → BitVec 8) (n i : ℕ) :
    usedByte b n i = b i &&& usedByte (fun _ => 0xff#8) n i := by
  have hones : (0xff#8) = BitVec.allOnes 8 := rfl
  unfold usedByte
  split
  · rw [hones, BitVec.and_allOnes]
  · split
    · rw [hones, BitVec.allOnes_and]
    · show 0#8 = b i &&& 0#8
      rw [BitVec.and_zero]

theorem usedBytes_eq (b : ℕ → BitVec 8) (n : ℕ) (hn : n ≤ 32) :
    usedByte b n 0 ++ usedByte b n 1 ++ usedByte b n 2 ++ usedByte b n 3 =
      (b 0 ++ b 1 ++ b 2 ++ b 3) &&& leading 32 n := by
  rw [leading_bytes n hn, BitVec.and_append, BitVec.and_append, BitVec.and_append, ← usedByte_and,
    ← usedByte_and, ← usedByte_and, ← usedByte_and]

theorem usedByte_congr (b b' : ℕ → BitVec 8) (n i : ℕ) (h : 8 * i < n → b i = b' i) :
    usedByte b n i = usedByte b' n i := by
  unfold usedByte
  split
  · rw [h (by omega)]
  · split
    · rw [h (by omega)]
    · rfl

def Octet (o : CStr) : Prop := o ≠ [] ∧ Digits o ∧ digitsValue o ≤ 255

/-- The text is taken for an IPv4 mask that matches the addresses with these leading bits. -/
def Denotes (t : CStr) (os : List CStr) (n : ℕ) : Prop :=
  ∃ mask, parseNetmask t = .ipv4 mask n ∧
    ∀ x, matchIpv4 x mask n = true ↔ ∀ i < n, x.getMsbD i = (quad os).getMsbD i

/-- The prefix length in the end, where zero stands for none. -/
def width (k bits : ℕ) : ℕ :=
  let bits := if k < 4 ∧ bits = 0 then k * 8 else bits
  if bits = 0 then 32 else bits

theorem ends_le (prev : Option Char) (k : ℕ) (s : CStr) (bits : ℕ) (h : Ends prev k s bits) :
    bits ≤ k * 8 := by
  cases h with
  | nothing => exact Nat.zero_le _
  | star h => exact Nat.mul_le_mul_right 8 (Nat.sub_le k 1)
  | slash p v hp hlow hhigh => omega

theorem width_le (k bits : ℕ) (hpos : 0 < k) (hk : k ≤ 4) (h : bits ≤ k * 8) :
    width k bits ≤ k * 8 := by
  unfold width
  dsimp only
  by_cases hnone : k < 4 ∧ bits = 0
  · rw [if_pos hnone, if_neg (by omega)]
  · rw [if_neg hnone]
    split
    · omega
    · exact h

theorem width_of_ne (k bits : ℕ) (h : bits ≠ 0) : width k bits = bits := by
  have hnot : ¬ (k < 4 ∧ bits = 0) := fun hnone => h hnone.2
  unfold width
  simp only [if_neg hnot, if_neg h]

theorem width_zero (k : ℕ) (hpos : 0 < k) (hk : k < 4) : width k 0 = k * 8 := by
  have hne : k * 8 ≠ 0 := by omega
  unfold width
  simp only [hk, true_and, if_true, if_neg hne]

theorem pointers_length (os : List CStr) (s : CStr) : (pointers os s).length = os.length := by
  induction os with
  | nil => rfl
  | cons q os ih => simp [pointers, ih]

section Spelled

variable (o : CStr) (os : List CStr) (s : CStr) (bits : ℕ) (ho : ∀ q ∈ o :: os, Digits q)
  (hlen : os.length ≤ 3) (hends : Ends (prevAt o os none) (os.length + 1) s bits)

include ho hlen hends

theorem tryParse_spelled : ∃ addb : ℕ → BitVec 8,
    (∀ i, addb i = BitVec.ofNat 8 (strtoul ((spelled o os s :: pointers os s).getD i ['0'])).1) ∧
    tryParseV4Netmask (spelled o os s) = .ipv4
      ((addb 0 ++ addb 1 ++ addb 2 ++ addb 3) &&& leading 32 (width (os.length + 1) bits))
      (width (os.length + 1) bits) := by
  have hlength : ([spelled o os s] ++ pointers os s).length = os.length + 1 := by
    rw [List.length_append, pointers_length, List.length_singleton, Nat.add_comm]
  have hscan : scanV4 (spelled o os s) none [spelled o os s] =
      some ([spelled o os s] ++ pointers os s, bits) := by
    rw [scanV4_spelled o os s none [spelled o os s] ho (by simp only [List.length_singleton]; omega)]
    refine scanV4_ends _ _ s bits ?_
    rw [hlength]
    exact hends
  have hwidth := width_le (os.length + 1) bits (by omega) (by omega) (ends_le _ _ _ _ hends)
  refine ⟨fun i => BitVec.ofNat 8 (strtoul ((spelled o os s :: pointers os s).getD i ['0'])).1,
    fun i => rfl, ?_⟩
  unfold tryParseV4Netmask
  rw [hscan]
  dsimp only
  rw [hlength]
  have hused := usedBytes_eq
    (fun i => BitVec.ofNat 8 (strtoul ((spelled o os s :: pointers os s).getD i ['0'])).1)
    (width (os.length + 1) bits) (by omega)
  exact congrArg (fun mask => Mask.ipv4 mask (width (os.length + 1) bits)) hused

/-- Where the numbers in front of the prefix length are octets, they say what is matched. -/
theorem denotes_spelled (hdot : '.' ∈ spelled o os s) (octets : List CStr)
    (hoctets : ∀ i, 8 * i < width (os.length + 1) bits →
      ∃ q, (o :: os)[i]? = some q ∧ Octet q ∧ octets[i]? = some q) :
    Denotes (spelled o os s) octets (width (os.length + 1) bits) := by
  obtain ⟨addb, haddb, hparse⟩ := tryParse_spelled o os s bits ho hlen hends
  have hwidth := width_le (os.length + 1) bits (by omega) (by omega) (ends_le _ _ _ _ hends)
  generalize width (os.length + 1) bits = n at hoctets hparse hwidth ⊢
  have hbytes : ∀ i, 8 * i < n →
      addb i = BitVec.ofNat 8 ((octets.map digitsValue).getD i 0) := by
    intro i hi
    obtain ⟨q, hq, ⟨hne, -, hle⟩, hoct⟩ := hoctets i hi
    rw [haddb, strtoul_pointers o os s ho (ends_plain _ _ s bits hends) i q hq hne (by omega),
      List.getD_eq_getElem?_getD, List.getElem?_map, hoct]
    rfl
  have hmask : (addb 0 ++ addb 1 ++ addb 2 ++ addb 3) &&& leading 32 n =
      quad octets &&& leading 32 n := by
    have hquad := usedBytes_eq (fun i => BitVec.ofNat 8 ((octets.map digitsValue).getD i 0)) n
      (by omega)
    rw [← usedBytes_eq addb n (by omega)]
    refine Eq.trans ?_ hquad
    have hused := fun i => usedByte_congr addb
      (fun i => BitVec.ofNat 8 ((octets.map digitsValue).getD i 0)) n i (hbytes i)
    rw [hused 0, hused 1, hused 2, hused 3]
  refine ⟨_, ?_, fun x => matchIpv4_iff x (quad octets) n (by omega)⟩
  unfold parseNetmask
  rw [if_pos hdot, hparse, hmask]

end Spelled

/-- Numbers, two to four of them or a star for those that are missing, and a prefix length. -/
def Dotted (t : CStr) : Prop :=
  '.' ∈ t ∧ ∃ o os s bits, t = spelled o os s ∧ (∀ q ∈ o :: os, Digits q) ∧ os.length ≤ 3 ∧
    Ends (prevAt o os none) (os.length + 1) s bits

theorem ipv4_iff_dotted (t : CStr) : (∃ mask n, parseNetmask t = .ipv4 mask n) ↔ Dotted t := by
  constructor
  · rintro ⟨mask, n, hparse⟩
    unfold parseNetmask at hparse
    split at hparse
    · next hdot =>
      unfold tryParseV4Netmask at hparse
      cases hscan : scanV4 t none [t] with
      | none =>
        rw [hscan] at hparse
        simp at hparse
      | some x =>
        obtain ⟨o, os, s, ht, ho, hlen, hends⟩ := scanV4_some t none [t] x.1 x.2 (by simp) hscan
        simp only [List.length_singleton] at hlen hends
        rw [Nat.add_comm] at hends
        exact ⟨hdot, o, os, s, x.2, ht, ho, by omega, hends⟩
    · split at hparse
      · unfold tryParseV6Netmask at hparse
        split at hparse <;> simp at hparse
      · simp at hparse
  · rintro ⟨hdot, o, os, s, bits, rfl, ho, hlen, hends⟩
    obtain ⟨addb, -, hparse⟩ := tryParse_spelled o os s bits ho hlen hends
    have hwhole : parseNetmask (spelled o os s) = tryParseV4Netmask (spelled o os s) := if_pos hdot
    exact ⟨_, _, hwhole.trans hparse⟩

def joined (os : List CStr) : CStr := ['.'].intercalate os

/-- What stands between the dots, in front of a prefix length; a star at the end is not one. -/
def octets (t : CStr) : List CStr :=
  ((t.takeWhile (fun c => decide (c ≠ '/'))).splitOn '.').filter (fun o => decide (o ≠ ['*']))

/-- A number that is missing, or does not fit eight bits. -/
def Bad (o : CStr) : Prop := Digits o ∧ (o = [] ∨ 255 < digitsValue o)

/-- A text means what it says. -/
structure Means (t : CStr) : Prop where
  prefixed : ∀ os n, os.length = 4 → (∀ o ∈ os, Octet o) → n ≠ [] → Digits n → digitsValue n ≤ 32 →
    t = joined os ++ '/' :: n → Denotes t os (digitsValue n)
  truncated : ∀ os, os.length = 2 ∨ os.length = 3 → (∀ o ∈ os, Octet o) → t = joined os →
    Denotes t os (os.length * 8)
  starred : ∀ os, 1 ≤ os.length → os.length ≤ 3 → (∀ o ∈ os, Octet o) →
    t = joined os ++ ".*".toList → Denotes t os (os.length * 8)
  refused : (∃ o ∈ octets t, Bad o) → ∀ mask n, parseNetmask t ≠ .ipv4 mask n

/-- Four octets and the prefix length zero. -/
def ZeroPrefix (t : CStr) : Prop :=
  ∃ os n, os.length = 4 ∧ (∀ o ∈ os, Octet o) ∧ n ≠ [] ∧ Digits n ∧ digitsValue n = 0 ∧
    t = joined os ++ '/' :: n

theorem joined_append (o : CStr) (os : List CStr) (s : CStr) :
    joined (o :: os) ++ s = spelled o os s := by
  induction os generalizing o with
  | nil =>
    unfold joined spelled
    rw [List.intercalate_singleton]
  | cons q os ih =>
    have hjoined : joined (o :: q :: os) = o ++ '.' :: joined (q :: os) := by
      unfold joined
      rw [List.intercalate_cons_cons]
      simp
    rw [hjoined, List.append_assoc, List.cons_append, ih]
    rfl

theorem spelled_star (o : CStr) (os : List CStr) :
    spelled o os ".*".toList = spelled o (os ++ [[]]) ['*'] := by
  induction os generalizing o with
  | nil => rfl
  | cons q os ih =>
    unfold spelled
    rw [ih]
    rfl

theorem prevAt_star (o : CStr) (os : List CStr) (prev : Option Char) :
    prevAt o (os ++ [[]]) prev = some '.' := by
  induction os generalizing o prev with
  | nil => rfl
  | cons q os ih => exact ih q _

theorem dot_mem (o : CStr) (os : List CStr) (s : CStr) (hos : os ≠ []) : '.' ∈ spelled o os s := by
  obtain ⟨q, os, rfl⟩ := List.exists_cons_of_ne_nil hos
  unfold spelled
  simp

theorem ends_prefix (prev : Option Char) (k : ℕ) (n : CStr) (hne : n ≠ []) (hn : Digits n)
    (hle : digitsValue n ≤ 32) (hk : digitsValue n ≤ k * 8) :
    Ends prev k ('/' :: n) (digitsValue n) := by
  have hread := strtoul_digits n [] hne hn (by simp) (by omega)
  rw [List.append_nil] at hread
  have hint := toInt_eq (digitsValue n) (by omega) (by omega)
  have hends : Ends prev k ('/' :: n) (toInt (digitsValue n)).toNat :=
    .slash n (digitsValue n) hread (by rw [hint]; omega) (by rw [hint]; omega)
  rw [hint] at hends
  exact hends

theorem octets_at (o : CStr) (os extra : List CStr) (hall : ∀ q ∈ o :: os, Octet q) (i n : ℕ)
    (hn : n ≤ (os.length + 1) * 8) (hi : 8 * i < n) :
    ∃ q, (o :: (os ++ extra))[i]? = some q ∧ Octet q ∧ (o :: os)[i]? = some q := by
  have hlt : i < (o :: os).length := by
    simp only [List.length_cons]
    omega
  refine ⟨(o :: os)[i], ?_, hall _ (List.getElem_mem hlt), List.getElem?_eq_getElem hlt⟩
  rw [← List.cons_append, List.getElem?_append_left hlt, List.getElem?_eq_getElem hlt]

theorem zeroPrefix_parse (t : CStr) (h : ZeroPrefix t) : ∃ mask, parseNetmask t = .ipv4 mask 32 := by
  obtain ⟨os, n, hlen, hall, hne, hn, hzero, rfl⟩ := h
  obtain ⟨o, os, rfl⟩ := List.exists_cons_of_length_pos (by omega : 0 < os.length)
  simp only [List.length_cons] at hlen
  have hends := ends_prefix (prevAt o os none) (os.length + 1) n hne hn (by omega) (by omega)
  obtain ⟨addb, -, hparse⟩ := tryParse_spelled o os ('/' :: n) _ (fun q hq => (hall q hq).2.1)
    (by omega) hends
  have hdot := dot_mem o os ('/' :: n) (by rintro rfl; simp at hlen)
  have hwhole : parseNetmask (spelled o os ('/' :: n)) = tryParseV4Netmask (spelled o os ('/' :: n)) :=
    if_pos hdot
  have hwidth : width (os.length + 1) (digitsValue n) = 32 := by
    rw [hzero, hlen]
    rfl
  rw [hwidth] at hparse
  rw [joined_append]
  exact ⟨_, hwhole.trans hparse⟩

/-- A text means what it says but for two kinds: a prefix length of zero, and numbers, in the form
of a mask, one of which is missing or above 255. -/
theorem means_iff (t : CStr) : Means t ↔
    ¬ ZeroPrefix t ∧ ¬ (Dotted t ∧ ∃ o ∈ octets t, Bad o) := by
  constructor
  · intro h
    refine ⟨?_, ?_⟩
    · intro hzero
      obtain ⟨mask, hparse⟩ := zeroPrefix_parse t hzero
      obtain ⟨os, n, hlen, hall, hne, hn, hvalue, ht⟩ := hzero
      obtain ⟨mask', hparse', -⟩ := h.prefixed os n hlen hall hne hn (by omega) ht
      rw [hparse] at hparse'
      have hbits := (Mask.ipv4.inj hparse').2
      omega
    · rintro ⟨hdotted, hbad⟩
      obtain ⟨mask, n, hparse⟩ := (ipv4_iff_dotted t).mpr hdotted
      exact h.refused hbad mask n hparse
  · rintro ⟨hzero, hbad⟩
    refine ⟨?_, ?_, ?_, ?_⟩
    · rintro os n hlen hall hne hn hle rfl
      have hpos : digitsValue n ≠ 0 := fun h => hzero ⟨os, n, hlen, hall, hne, hn, h, rfl⟩
      obtain ⟨o, os, rfl⟩ := List.exists_cons_of_length_pos (by omega : 0 < os.length)
      simp only [List.length_cons] at hlen
      have hends := ends_prefix (prevAt o os none) (os.length + 1) n hne hn hle (by omega)
      have hdot := dot_mem o os ('/' :: n) (by rintro rfl; simp at hlen)
      have hwidth := width_of_ne (os.length + 1) (digitsValue n) hpos
      have hden := denotes_spelled o os ('/' :: n) _ (fun q hq => (hall q hq).2.1) (by omega) hends hdot
        (o :: os) (fun i hi => by
          have hat := octets_at o os [] hall i _ (by omega) hi
          rwa [List.append_nil] at hat)
      rw [hwidth] at hden
      rw [joined_append]
      exact hden
    · rintro os hlen hall rfl
      obtain ⟨o, os, rfl⟩ := List.exists_cons_of_length_pos (by omega : 0 < os.length)
      simp only [List.length_cons] at hlen
      have hdot := dot_mem o os [] (by rintro rfl; simp at hlen)
      have hwidth := width_zero (os.length + 1) (by omega) (by omega)
      have hden := denotes_spelled o os [] 0 (fun q hq => (hall q hq).2.1) (by omega) .nothing hdot
        (o :: os) (fun i hi => by
          have hat := octets_at o os [] hall i _ (by omega) hi
          rwa [List.append_nil] at hat)
      rw [hwidth, ← joined_append, List.append_nil] at hden
      exact hden
    · rintro os hpos hlen hall rfl
      obtain ⟨o, os, rfl⟩ := List.exists_cons_of_length_pos (by omega : 0 < os.length)
      simp only [List.length_cons] at hlen
      have hdot := dot_mem o (os ++ [[]]) ['*'] (by simp)
      have hk : (os ++ [[]]).length + 1 - 1 = os.length + 1 := by simp
      have hends : Ends (prevAt o (os ++ [[]]) none) ((os ++ [[]]).length + 1) ['*']
          (((os ++ [[]]).length + 1 - 1) * 8) := .star (prevAt_star o os none)
      have hwidth : width ((os ++ [[]]).length + 1) (((os ++ [[]]).length + 1 - 1) * 8) =
          (os.length + 1) * 8 := by
        rw [hk]
        exact width_of_ne _ _ (by omega)
      have hdigits : ∀ q ∈ o :: (os ++ [[]]), Digits q := by
        intro q hq
        rw [← List.cons_append] at hq
        rcases List.mem_append.mp hq with hq | hq
        · exact (hall q hq).2.1
        · rw [List.mem_singleton.mp hq]
          simp [Digits]
      have hden := denotes_spelled o (os ++ [[]]) ['*'] _ hdigits
        (by simp only [List.length_append, List.length_singleton]; omega) hends hdot (o :: os)
        (fun i hi => octets_at o os [[]] hall i _ (by omega) hi)
      rw [hwidth, ← spelled_star, ← joined_append] at hden
      exact hden
    · intro hoctet mask n hparse
      exact hbad ⟨(ipv4_iff_dotted t).mp ⟨mask, n, hparse⟩, hoctet⟩

/-- With the prefix length zero a mask matches one address in place of all. -/
theorem zero_prefix_misread : ¬ ∀ t, Means t := by
  intro hall
  have hoctet : ∀ o ∈ [['1'], ['2'], ['3'], ['4']], Octet o := by
    have hall : ([['1'], ['2'], ['3'], ['4']] : List CStr).all
        (fun o => !o.isEmpty && o.all isDigit && decide (digitsValue o ≤ 255)) = true := rfl
    intro o ho
    have hone := List.all_eq_true.mp hall o ho
    rw [Bool.and_eq_true, Bool.and_eq_true, decide_eq_true_eq] at hone
    obtain ⟨⟨hne, hdigits⟩, hle⟩ := hone
    exact ⟨fun hnil => by simp [hnil] at hne, List.all_eq_true.mp hdigits, hle⟩
  have hn : Digits ['0'] := List.all_eq_true.mp (rfl : ['0'].all isDigit = true)
  obtain ⟨mask, hparse⟩ := zeroPrefix_parse "1.2.3.4/0".toList
    ⟨_, ['0'], rfl, hoctet, by simp, hn, by decide, by decide⟩
  obtain ⟨mask', hparse', -⟩ := (hall "1.2.3.4/0".toList).prefixed _ ['0'] rfl hoctet (by simp) hn
    (by decide) (by decide)
  rw [hparse] at hparse'
  exact absurd (Mask.ipv4.inj hparse').2 (by decide)

end IrcdHybrid.DottedQuad
