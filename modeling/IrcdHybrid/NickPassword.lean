import IrcdHybrid.CString
import Mathlib.Data.Nat.Bitwise

/-!
The passwords of nicks. A password is the checksum of the nick and the address, written
with the letters from A to P; the older kind starts with two letters for the value that
is mixed into the checksum, the newer kind uses a challenge for it. Of the newer kind
only the last two letters are looked at.
-/

namespace IrcdHybrid.NickPassword

open CString

/-- A letter as a digit. -/
def alphaDigit (c : Char) : Option ℕ :=
  let c := c.toUpper.toNat
  if c < 'A'.toNat then none
  else if c - 'A'.toNat > 15 then none
  else some (c - 'A'.toNat)

/-- `parseAlphaHex`, with `none` for -1. -/
def parseAlphaHex (buf : CStr) (digits : ℕ) : Option ℕ :=
  (List.range digits).foldlM
    (fun r i => (alphaDigit (buf.getD i '\x00')).map fun c => (r <<< 4) + c) 0

def alphaLetter (digValue : ℕ) : Char := Char.ofNat ('A'.toNat + digValue)

/-- `printAlphaHex`. -/
def printAlphaHex (value digits : ℕ) : CStr :=
  (List.range digits).map (fun i => alphaLetter ((value >>> ((digits - i - 1) * 4)) % 16))

/-- A `char` as an `unsigned`: letters are signed. -/
def charValue (c : Char) : BitVec 32 := (BitVec.ofNat 8 c.toNat).signExtend 32

def mixBit (r : BitVec 32) : BitVec 32 :=
  if r &&& 0x80000000#32 ≠ 0 then (r <<< 1) ^^^ 0xa67f3443#32 else (r <<< 1) ^^^ 0x378624e5#32

def mixChar (randomVal r c : BitVec 32) : BitVec 32 :=
  mixBit^[8] (r ^^^ (c <<< 24) ^^^ randomVal) + c

/-- `computeNickPasswordCheckSum`; twelve letters of the buffer are read. -/
def computeNickPasswordCheckSum (nick : CStr) (usrIp randomVal : BitVec 32) : CStr :=
  let chars := (List.range 12).map (fun i => charValue (nick.getD i '\x00'))
  let r := (fun r => chars.foldl (mixChar randomVal) r)^[10] usrIp
  printAlphaHex (r &&& 0xffff#32).toNat 4

/-- `verifyNickPasswordEvo1`. -/
def verifyNickPasswordEvo1 (nick : CStr) (usrIp : BitVec 32) : Option CStr → Bool
  | none => false
  | some password =>
    let l := password.length
    if l ≠ 6 then false
    else
      match parseAlphaHex password 2 with
      | none => false
      | some randomVal =>
        if randomVal > 0xff then false
        else
          let check := computeNickPasswordCheckSum nick usrIp (BitVec.ofNat 32 randomVal)
          (List.range' 2 (l - 2)).all fun i =>
            (password.getD i '\x00').toUpper == (check.getD (i - 2) '\x00').toUpper

/-- `verifyNickPasswordEvo2`. -/
def verifyNickPasswordEvo2 (nick : CStr) (usrIp : BitVec 32) (password : Option CStr)
    (challenge : BitVec 32) : Bool :=
  match password with
  | none => false
  | some password =>
    let l := password.length
    if l ≠ 4 then false
    else
      let check := computeNickPasswordCheckSum nick usrIp challenge
      (List.range' 2 (l - 2)).all fun i =>
        (password.getD i '\x00').toUpper == (check.getD i '\x00').toUpper

/-- A string without the case of its letters. -/
def upper (s : CStr) : CStr := s.map Char.toUpper

theorem alphaDigit_letter : ∀ d < 16, alphaDigit (alphaLetter d) = some d ∧
    (alphaLetter d).toUpper = alphaLetter d := by
  decide

theorem alphaDigit_eq_some (c : Char) (d : ℕ) :
    alphaDigit c = some d ↔ d < 16 ∧ c.toUpper = alphaLetter d := by
  have hdigit : alphaDigit c = some d ↔ d < 16 ∧ c.toUpper.toNat = 'A'.toNat + d := by
    unfold alphaDigit
    have hA : 'A'.toNat = 65 := rfl
    rw [hA]
    dsimp only
    split
    · simp only [reduceCtorEq, false_iff]
      omega
    · split
      · simp only [reduceCtorEq, false_iff]
        omega
      · rw [Option.some.injEq]
        omega
  rw [hdigit]
  refine and_congr_right fun hd => ?_
  have hnat : (alphaLetter d).toNat = 'A'.toNat + d :=
    toNat_ofNat_small _ (by rw [show 'A'.toNat = 65 from rfl]; omega)
  rw [← hnat]
  exact Char.toNat_inj

theorem parseAlphaHex_succ (buf : CStr) (n : ℕ) : parseAlphaHex buf (n + 1) =
    (parseAlphaHex buf n).bind fun r =>
      (alphaDigit (buf.getD n '\x00')).map fun c => 16 * r + c := by
  unfold parseAlphaHex
  rw [List.range_succ, List.foldlM_append]
  refine congrArg _ (funext fun r => ?_)
  rw [List.foldlM_cons]
  have hshift : r <<< 4 = 16 * r := by
    rw [Nat.shiftLeft_eq, Nat.mul_comm]
  rw [hshift]
  cases alphaDigit (buf.getD n '\x00') <;> rfl

theorem printAlphaHex_succ (value n : ℕ) :
    printAlphaHex value (n + 1) = printAlphaHex (value / 16) n ++ [alphaLetter (value % 16)] := by
  unfold printAlphaHex
  rw [List.range_succ, List.map_append, List.map_singleton]
  congr 1
  · refine List.map_congr_left fun i hi => ?_
    have hlt := List.mem_range.mp hi
    have hshift : (n + 1 - i - 1) * 4 = 4 + (n - i - 1) * 4 := by omega
    rw [hshift, Nat.shiftRight_add, Nat.shiftRight_eq_div_pow value 4]
  · rw [show (n + 1 - n - 1) * 4 = 0 by omega, Nat.shiftRight_zero]

@[simp] theorem printAlphaHex_length (value n : ℕ) : (printAlphaHex value n).length = n := by
  unfold printAlphaHex
  rw [List.length_map, List.length_range]

theorem upper_printAlphaHex (value n : ℕ) : upper (printAlphaHex value n) = printAlphaHex value n := by
  unfold upper printAlphaHex
  rw [List.map_map]
  refine List.map_congr_left fun i _ => ?_
  exact (alphaDigit_letter _ (Nat.mod_lt _ (by omega))).2

theorem upper_take_succ (buf : CStr) (n : ℕ) (hn : n < buf.length) :
    upper (buf.take (n + 1)) = upper (buf.take n) ++ [(buf.getD n '\x00').toUpper] := by
  have hget : buf.getD n '\x00' = buf[n] := List.getD_eq_getElem buf '\x00' hn
  unfold upper
  rw [List.take_succ_eq_append_getElem hn, List.map_append, List.map_singleton, hget]

/-- A value is read where it has been printed, in letters of either case. -/
theorem parseAlphaHex_eq_some (buf : CStr) (n : ℕ) (hn : n ≤ buf.length) (r : ℕ) :
    parseAlphaHex buf n = some r ↔ r < 16 ^ n ∧ upper (buf.take n) = printAlphaHex r n := by
  induction n generalizing r with
  | zero =>
    have hzero : parseAlphaHex buf 0 = some 0 := rfl
    rw [hzero, Option.some.injEq, pow_zero, Nat.lt_one_iff]
    exact ⟨fun h => ⟨h.symm, rfl⟩, fun h => h.1.symm⟩
  | succ n ih =>
    rw [parseAlphaHex_succ, upper_take_succ buf n (by omega), printAlphaHex_succ,
      Option.bind_eq_some_iff]
    constructor
    · rintro ⟨q, hq, hmap⟩
      obtain ⟨d, hd, rfl⟩ := Option.map_eq_some_iff.mp hmap
      obtain ⟨hlt, hprinted⟩ := (ih (by omega) q).mp hq
      obtain ⟨hd, hletter⟩ := (alphaDigit_eq_some _ d).mp hd
      have hdiv : (16 * q + d) / 16 = q := by omega
      have hmod : (16 * q + d) % 16 = d := by omega
      rw [hdiv, hmod, hprinted, hletter, pow_succ]
      exact ⟨by omega, rfl⟩
    · rintro ⟨hlt, hprinted⟩
      obtain ⟨hfront, hlast⟩ := List.append_inj' hprinted rfl
      rw [pow_succ] at hlt
      refine ⟨r / 16, (ih (by omega) _).mpr ⟨by omega, hfront⟩, ?_⟩
      rw [(alphaDigit_eq_some _ (r % 16)).mpr
        ⟨Nat.mod_lt _ (by omega), (List.cons.inj hlast).1⟩, Option.map_some]
      congr 1
      omega

/-- Letter by letter, from `k` on. -/
theorem compare_iff (xs ys : CStr) (k n : ℕ) (hx : xs.length = k + n) (hy : ys.length = n) :
    ((List.range' k n).all fun i =>
        (xs.getD i '\x00').toUpper == (ys.getD (i - k) '\x00').toUpper) = true ↔
      upper (xs.drop k) = upper ys := by
  rw [List.all_eq_true]
  constructor
  · intro hall
    refine List.ext_getElem (by simp [upper, hx, hy]) fun i hi _ => ?_
    have hin : i < n := by
      simp [upper, hx] at hi
      omega
    have hsame := hall (k + i) (List.mem_range'_1.mpr ⟨by omega, by omega⟩)
    rw [beq_iff_eq, Nat.add_sub_cancel_left, List.getD_eq_getElem xs _ (by omega),
      List.getD_eq_getElem ys _ (by omega)] at hsame
    simpa [upper] using hsame
  · intro hsame i hi
    obtain ⟨hk, hn⟩ := List.mem_range'_1.mp hi
    have hget := congrArg (fun l => l[i - k]?) hsame
    rw [beq_iff_eq, List.getD_eq_getElem xs _ (by omega), List.getD_eq_getElem ys _ (by omega)]
    simp only [upper, List.getElem?_map, List.getElem?_drop] at hget
    rw [Nat.add_sub_cancel' hk, List.getElem?_eq_getElem (by omega),
      List.getElem?_eq_getElem (by omega)] at hget
    simpa using hget

variable (nick : CStr) (usrIp challenge : BitVec 32) (password : CStr)

theorem checkSum_length : (computeNickPasswordCheckSum nick usrIp challenge).length = 4 :=
  printAlphaHex_length _ 4

theorem upper_checkSum : upper (computeNickPasswordCheckSum nick usrIp challenge) =
    computeNickPasswordCheckSum nick usrIp challenge := upper_printAlphaHex _ 4

/-- Of the older kind the last four letters are compared with the checksum, with the value that the
first two are digits of. -/
theorem verifyNickPasswordEvo1_parsed (hlen : password.length = 6) :
    verifyNickPasswordEvo1 nick usrIp (some password) = true ↔
      ∃ r, parseAlphaHex password 2 = some r ∧
        upper (password.drop 2) = computeNickPasswordCheckSum nick usrIp (BitVec.ofNat 32 r) := by
  unfold verifyNickPasswordEvo1
  dsimp only
  rw [if_neg (not_not.mpr hlen), hlen]
  cases hp : parseAlphaHex password 2 with
  | none => simp
  | some randomVal =>
    have hlt := ((parseAlphaHex_eq_some password 2 (by omega) randomVal).mp hp).1
    dsimp only
    rw [if_neg (by omega), compare_iff password _ 2 4 (by omega) (checkSum_length _ _ _),
      upper_checkSum]
    simp

/-- The older kind is right if its first two letters print a value and the rest is the checksum
with that value. -/
theorem verifyNickPasswordEvo1_iff : verifyNickPasswordEvo1 nick usrIp (some password) = true ↔
    ∃ r ≤ 255, upper password =
      printAlphaHex r 2 ++ computeNickPasswordCheckSum nick usrIp (BitVec.ofNat 32 r) := by
  have hsplit : upper password = upper (password.take 2) ++ upper (password.drop 2) := by
    unfold upper
    rw [← List.map_append, List.take_append_drop]
  by_cases hlen : password.length = 6
  · rw [verifyNickPasswordEvo1_parsed nick usrIp password hlen]
    have hparse := parseAlphaHex_eq_some password 2 (by omega)
    constructor
    · rintro ⟨r, hp, hrest⟩
      obtain ⟨hlt, hfront⟩ := (hparse r).mp hp
      exact ⟨r, by omega, by rw [hsplit, hfront, hrest]⟩
    · rintro ⟨r, hr, heq⟩
      rw [hsplit] at heq
      obtain ⟨hfront, hrest⟩ := List.append_inj heq (by simp [upper, hlen])
      exact ⟨r, (hparse r).mpr ⟨by omega, hfront⟩, hrest⟩
  · unfold verifyNickPasswordEvo1
    dsimp only
    rw [if_pos hlen]
    simp only [Bool.false_eq_true, false_iff]
    rintro ⟨r, -, heq⟩
    have hlength := congrArg List.length heq
    rw [List.length_append, printAlphaHex_length, checkSum_length] at hlength
    exact hlen (by simpa [upper] using hlength)

/-- Of the newer kind the length and the last two letters count. -/
theorem verifyNickPasswordEvo2_iff :
    verifyNickPasswordEvo2 nick usrIp (some password) challenge = true ↔
      password.length = 4 ∧ upper (password.drop 2) =
        (computeNickPasswordCheckSum nick usrIp challenge).drop 2 := by
  have hlength := checkSum_length nick usrIp challenge
  have hupper : upper ((computeNickPasswordCheckSum nick usrIp challenge).drop 2) =
      (computeNickPasswordCheckSum nick usrIp challenge).drop 2 := by
    have hall := upper_checkSum nick usrIp challenge
    unfold upper at hall ⊢
    rw [List.map_drop, hall]
  unfold verifyNickPasswordEvo2
  dsimp only
  by_cases hlen : password.length = 4
  · rw [if_neg (not_not.mpr hlen), hlen, ← hupper, ← compare_iff password
      ((computeNickPasswordCheckSum nick usrIp challenge).drop 2) 2 2 hlen (by simp [hlength])]
    have hsame : ∀ i ∈ List.range' 2 2,
        ((computeNickPasswordCheckSum nick usrIp challenge).drop 2).getD (i - 2) '\x00' =
          (computeNickPasswordCheckSum nick usrIp challenge).getD i '\x00' := by
      intro i hi
      obtain ⟨hge, -⟩ := List.mem_range'_1.mp hi
      rw [List.getD_eq_getElem?_getD, List.getElem?_drop, Nat.add_sub_cancel' hge,
        ← List.getD_eq_getElem?_getD]
    simp only [true_and, List.all_eq_true]
    refine forall₂_congr fun i hi => ?_
    rw [hsame i hi]
  · rw [if_pos hlen]
    simp [hlen]

/-- The verdicts are those on the right passwords. -/
def Exact : Prop :=
  (verifyNickPasswordEvo1 nick usrIp (some password) = true ↔ ∃ r ≤ 255, upper password =
      printAlphaHex r 2 ++ computeNickPasswordCheckSum nick usrIp (BitVec.ofNat 32 r)) ∧
    (verifyNickPasswordEvo2 nick usrIp (some password) challenge = true ↔
      upper password = computeNickPasswordCheckSum nick usrIp challenge)

/-- They are, unless the last two of four letters are right and the first two are not. -/
theorem exact_iff : Exact nick usrIp challenge password ↔
    ¬ (password.length = 4 ∧
      upper (password.drop 2) = (computeNickPasswordCheckSum nick usrIp challenge).drop 2 ∧
      upper (password.take 2) ≠ (computeNickPasswordCheckSum nick usrIp challenge).take 2) := by
  unfold Exact
  rw [and_iff_right (verifyNickPasswordEvo1_iff nick usrIp password), verifyNickPasswordEvo2_iff]
  have hlength := checkSum_length nick usrIp challenge
  generalize computeNickPasswordCheckSum nick usrIp challenge = check at hlength ⊢
  have hwhole : upper password = check ↔ password.length = 4 ∧
      upper (password.drop 2) = check.drop 2 ∧ upper (password.take 2) = check.take 2 := by
    unfold upper
    rw [List.map_drop, List.map_take]
    constructor
    · intro heq
      refine ⟨?_, by rw [heq], by rw [heq]⟩
      rw [← hlength, ← heq, List.length_map]
    · rintro ⟨-, hback, hfront⟩
      rw [← List.take_append_drop 2 (password.map Char.toUpper), hfront, hback, List.take_append_drop]
  rw [hwhole]
  tauto

theorem iterate_eight {α : Type} (f : α → α) (x : α) :
    f^[8] x = f (f (f (f (f (f (f (f x))))))) := rfl

theorem iterate_ten {α : Type} (f : α → α) (x : α) :
    f^[10] x = f (f (f (f (f (f (f (f (f (f x))))))))) := rfl

theorem checkSum_foo :
    computeNickPasswordCheckSum "foo".toList 0x7f000001#32 1#32 = "NHMF".toList := by
  have hr : (fun r => ((List.range 12).map fun i => charValue ("foo".toList.getD i '\x00')).foldl
      (mixChar 1#32) r)^[10] 0x7f000001#32 = 0x0ddfd7c5#32 := by
    have hchars : (List.range 12).map (fun i => charValue ("foo".toList.getD i '\x00')) =
      [0x66#32, 0x6f#32, 0x6f#32, 0#32, 0#32, 0#32, 0#32, 0#32, 0#32, 0#32, 0#32, 0#32] := by
      decide
    rw [hchars, iterate_ten]
    simp [mixChar, mixBit, iterate_eight]
  unfold computeNickPasswordCheckSum
  dsimp only
  rw [hr]
  decide

/-- The right password is NHMF, and AAMF is accepted too. -/
theorem wrong_password_accepted : ¬ ∀ nick usrIp challenge password,
    Exact nick usrIp challenge password := by
  intro hall
  have hexact := (hall "foo".toList 0x7f000001#32 1#32 "AAMF".toList).2
  rw [verifyNickPasswordEvo2_iff, checkSum_foo] at hexact
  exact absurd (hexact.mp (by decide)) (by decide)

end IrcdHybrid.NickPassword
