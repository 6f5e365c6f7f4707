import IrcdHybrid.Netmask
import Mathlib.Data.List.GetD

/-!
The bits of an IPv6 mask. An address is made of words, its gap filled with zeros, and the words
behind the prefix are cleared; one bit right behind it is kept, which does no harm where the
prefix ends with a byte. The gap is filled up to the words that the prefix length counts, and
what is found differs from what is meant when it counts fewer than eight.
-/

namespace IrcdHybrid.WordBits

open CString Netmask

def bitAt (x : In6Addr) (i : ℕ) : Bool := (byteAt x (i / 8)).getMsbD (i % 8)

def wordBit (ws : List ℕ) (i : ℕ) : Bool := (ws.getD (i / 16) 0).testBit (15 - i % 16)

/-- An address of words, as they are sent. -/
def wordsAddr (word : ℕ → BitVec 16) : In6Addr := fun i =>
  if i.val % 2 = 0 then (word (i.val / 2)).extractLsb' 8 8
  else (word (i.val / 2)).extractLsb' 0 8

theorem high_getMsbD (w : BitVec 16) (b : ℕ) (hb : b < 8) :
    (w.extractLsb' 8 8).getMsbD b = w.getMsbD b := by
  have hplace : 16 - (8 + 8 - b) = b := by omega
  rw [BitVec.getMsbD_extractLsb', hplace, decide_eq_true hb, decide_eq_true (by omega),
    Bool.true_and, Bool.true_and]

theorem low_getMsbD (w : BitVec 16) (b : ℕ) (hb : b < 8) :
    (w.extractLsb' 0 8).getMsbD b = w.getMsbD (b + 8) := by
  have hplace : 16 - (0 + 8 - b) = b + 8 := by omega
  rw [BitVec.getMsbD_extractLsb', hplace, decide_eq_true hb, decide_eq_true (by omega),
    Bool.true_and, Bool.true_and]

theorem bitAt_wordsAddr (word : ℕ → BitVec 16) (i : ℕ) (hi : i < 128) :
    bitAt (wordsAddr word) i = (word (i / 16)).getMsbD (i % 16) := by
  have hbyte : i / 8 / 2 = i / 16 := by omega
  have hpos : i % 8 < 8 := Nat.mod_lt _ (by decide)
  unfold bitAt byteAt wordsAddr
  rw [dif_pos (by omega : i / 8 < 16)]
  dsimp only
  rw [hbyte]
  by_cases heven : i / 8 % 2 = 0
  · have hplace : i % 16 = i % 8 := by omega
    rw [if_pos heven, high_getMsbD _ _ hpos, hplace]
  · have hplace : i % 16 = i % 8 + 8 := by omega
    rw [if_neg heven, low_getMsbD _ _ hpos, hplace]

theorem leading_getMsbD (m b : ℕ) (hm : m ≤ 8) (hb : b < 8) :
    (leading 8 m).getMsbD b = decide (b < m) := by
  have hall : ∀ m : Fin 9, ∀ b : Fin 8, (leading 8 m).getMsbD b = decide (b.val < m.val) := by
    decide +kernel
  exact hall ⟨m, by omega⟩ ⟨b, hb⟩

theorem bitAt_byte (x : In6Addr) (k b : ℕ) (hb : b < 8) :
    bitAt x (8 * k + b) = (byteAt x k).getMsbD b := by
  have hdiv : (8 * k + b) / 8 = k := by omega
  have hmod : (8 * k + b) % 8 = b := by omega
  unfold bitAt
  rw [hdiv, hmod]

theorem byteAt_eq_iff (x mask : In6Addr) (k : ℕ) :
    byteAt x k = byteAt mask k ↔ ∀ b < 8, bitAt x (8 * k + b) = bitAt mask (8 * k + b) := by
  constructor
  · intro heq b hb
    rw [bitAt_byte x k b hb, bitAt_byte mask k b hb, heq]
  · intro hbits
    refine BitVec.eq_of_getMsbD_eq fun b hb => ?_
    rw [← bitAt_byte x k b hb, ← bitAt_byte mask k b hb, hbits b hb]

theorem byteAt_part_iff (x mask : In6Addr) (k m : ℕ) (hm : m ≤ 8) :
    byteAt x k &&& leading 8 m = byteAt mask k ↔
      (∀ b < m, bitAt x (8 * k + b) = bitAt mask (8 * k + b)) ∧
        ∀ b < 8, m ≤ b → bitAt mask (8 * k + b) = false := by
  constructor
  · intro heq
    refine ⟨fun b hb => ?_, fun b hb hmb => ?_⟩
    · rw [bitAt_byte mask k b (by omega), ← heq, BitVec.getMsbD_and,
        leading_getMsbD m b hm (by omega), decide_eq_true hb, Bool.and_true,
        bitAt_byte x k b (by omega)]
    · rw [bitAt_byte mask k b hb, ← heq, BitVec.getMsbD_and, leading_getMsbD m b hm hb,
        decide_eq_false (by omega), Bool.and_false]
  · rintro ⟨hsame, hclear⟩
    refine BitVec.eq_of_getMsbD_eq fun b hb => ?_
    rw [BitVec.getMsbD_and, leading_getMsbD m b hm hb, ← bitAt_byte x k b hb,
      ← bitAt_byte mask k b hb]
    by_cases hlt : b < m
    · rw [decide_eq_true hlt, Bool.and_true, hsame b hlt]
    · rw [decide_eq_false hlt, Bool.and_false, hclear b hb (by omega)]

/-- What `match_ipv6` says of the bits. -/
theorem matchIpv6_iff (x mask : In6Addr) (n : ℕ) : matchIpv6 x mask n = true ↔
    (∀ i < n, bitAt x i = bitAt mask i) ∧
      ∀ i, n ≤ i → i < 8 * ((n + 7) / 8) → bitAt mask i = false := by
  have hwhole : (∀ k ∈ List.range (n / 8), (byteAt x k == byteAt mask k) = true) ↔
      ∀ i < 8 * (n / 8), bitAt x i = bitAt mask i := by
    constructor
    · intro hall i hi
      have hbyte := beq_iff_eq.mp (hall (i / 8) (List.mem_range.mpr (by omega)))
      have hbit := (byteAt_eq_iff x mask (i / 8)).mp hbyte (i % 8) (Nat.mod_lt _ (by decide))
      rwa [Nat.div_add_mod] at hbit
    · intro hbits k hk
      have hlt := List.mem_range.mp hk
      exact beq_iff_eq.mpr ((byteAt_eq_iff x mask k).mpr fun b hb => hbits _ (by omega))
  unfold matchIpv6
  rw [Bool.and_eq_true, List.all_eq_true, hwhole, Bool.or_eq_true, beq_iff_eq, beq_iff_eq]
  by_cases hm : n % 8 = 0
  · have hn : 8 * (n / 8) = n := by omega
    rw [hn]
    exact and_congr_right fun _ => iff_of_true (Or.inl hm) fun i hlow hhigh => by omega
  · rw [or_iff_right hm, byteAt_part_iff x mask (n / 8) (n % 8) (by omega)]
    constructor
    · rintro ⟨hfull, hpart, hclear⟩
      refine ⟨fun i hi => ?_, fun i hlow hhigh => ?_⟩
      · by_cases hlt : i < 8 * (n / 8)
        · exact hfull i hlt
        · have hbit := hpart (i - 8 * (n / 8)) (by omega)
          rwa [Nat.add_sub_cancel' (by omega)] at hbit
      · have hbit := hclear (i - 8 * (n / 8)) (by omega) (by omega)
        rwa [Nat.add_sub_cancel' (by omega)] at hbit
    · rintro ⟨hsame, hclear⟩
      exact ⟨fun i hi => hsame i (by omega), fun b hb => hsame _ (by omega),
        fun b hb hle => hclear _ (by omega) (by omega)⟩

/-- No bit stands right behind the prefix, but where it ends with a byte. -/
def Clear (ws : List ℕ) (n : ℕ) : Prop := n % 8 = 0 ∨ wordBit ws n = false

/-- The text is taken for an IPv6 mask that matches the addresses with these leading bits. -/
def Denotes (t : CStr) (ws : List ℕ) (n : ℕ) : Prop :=
  ∃ mask, parseNetmask t = .ipv6 mask n ∧
    ∀ x, matchIpv6 x mask n = true ↔ ∀ i < n, bitAt x i = wordBit ws i

theorem kept_getMsbD (m b : ℕ) (hm : m < 16) (hb : b < 16) :
    (~~~(((1 : BitVec 16) <<< (15 - m)) - 1)).getMsbD b = decide (b ≤ m) := by
  have hall : ∀ m b : Fin 16,
      (~~~(((1 : BitVec 16) <<< (15 - m.val)) - 1)).getMsbD b = decide (b.val ≤ m.val) := by
    decide +kernel
  exact hall ⟨m, hm⟩ ⟨b, hb⟩

/-- One bit more than the prefix is kept, but where it ends with a word. -/
theorem usedWord_getMsbD (dc : List (BitVec 16)) (n k b : ℕ) (hb : b < 16) :
    (usedWord dc n k).getMsbD b =
      ((dc.getD k 0).getMsbD b && decide (16 * k + b < n ∨ 16 * k + b = n ∧ n % 16 ≠ 0)) := by
  unfold usedWord
  by_cases hlt : k < n / 16
  · rw [if_pos hlt, decide_eq_true (Or.inl (by omega)), Bool.and_true]
  · rw [if_neg hlt]
    by_cases hpart : k = n / 16 ∧ n % 16 ≠ 0
    · rw [if_pos hpart, BitVec.getMsbD_and, kept_getMsbD _ _ (Nat.mod_lt _ (by decide)) hb]
      congr 1
      exact decide_eq_decide.mpr (by omega)
    · rw [if_neg hpart, decide_eq_false (by omega), Bool.and_false]
      exact BitVec.getMsbD_zero

/-- The words as the code keeps them. -/
def shorts (ws : List ℕ) : List (BitVec 16) := ws.map (BitVec.ofNat 16)

theorem shorts_append (as bs : List ℕ) : shorts (as ++ bs) = shorts as ++ shorts bs :=
  List.map_append

theorem shorts_getMsbD (ws : List ℕ) (k b : ℕ) (hb : b < 16) :
    ((shorts ws).getD k 0).getMsbD b = (ws.getD k 0).testBit (15 - b) := by
  have hword : (shorts ws).getD k (BitVec.ofNat 16 0) = BitVec.ofNat 16 (ws.getD k 0) :=
    List.getD_map ws 0 (BitVec.ofNat 16)
  show ((shorts ws).getD k (BitVec.ofNat 16 0)).getMsbD b = _
  rw [hword, BitVec.getMsbD_eq_getLsbD, decide_eq_true hb, Bool.true_and, BitVec.getLsbD_ofNat,
    decide_eq_true (by omega), Bool.true_and]

/-- The address that `parse_netmask` makes of the words and the number of bits. -/
def maskAddr (ws : List ℕ) (n : ℕ) : In6Addr := wordsAddr (usedWord (shorts ws) n)

theorem bitAt_maskAddr (ws : List ℕ) (n i : ℕ) (hi : i < 128) :
    bitAt (maskAddr ws n) i = (wordBit ws i && decide (i < n ∨ i = n ∧ n % 16 ≠ 0)) := by
  have hplace : 16 * (i / 16) + i % 16 = i := Nat.div_add_mod i 16
  have hpos : i % 16 < 16 := Nat.mod_lt _ (by decide)
  unfold maskAddr
  rw [bitAt_wordsAddr _ i hi, usedWord_getMsbD _ n _ _ hpos, hplace, shorts_getMsbD _ _ _ hpos]
  rfl

theorem matchIpv6_maskAddr (x : In6Addr) (ws : List ℕ) (n : ℕ) (hn : n ≤ 128) :
    matchIpv6 x (maskAddr ws n) n = true ↔
      (∀ i < n, bitAt x i = wordBit ws i) ∧ Clear ws n := by
  rw [matchIpv6_iff]
  refine and_congr (forall₂_congr fun i hi => ?_) ?_
  · rw [bitAt_maskAddr ws n i (by omega), decide_eq_true (Or.inl hi), Bool.and_true]
  · constructor
    · intro hclear
      by_cases hbyte : n % 8 = 0
      · exact Or.inl hbyte
      · have hbit := hclear n (Nat.le_refl n) (by omega)
        rw [bitAt_maskAddr ws n n (by omega), decide_eq_true (Or.inr ⟨rfl, by omega⟩),
          Bool.and_true] at hbit
        exact Or.inr hbit
    · intro hclear i hlow hhigh
      rw [bitAt_maskAddr ws n i (by omega)]
      by_cases hend : i = n
      · subst hend
        rcases hclear with hbyte | hbit
        · omega
        · rw [hbit, Bool.false_and]
      · rw [decide_eq_false (by omega), Bool.and_false]

theorem denotes_iff (t : CStr) (ws found : List ℕ) (n : ℕ) (hn : n ≤ 128)
    (hparse : parseNetmask t = .ipv6 (maskAddr found n) n) :
    Denotes t ws n ↔ (∀ i < n, wordBit found i = wordBit ws i) ∧ Clear found n := by
  constructor
  · rintro ⟨mask, hmask, hmeans⟩
    rw [hparse] at hmask
    obtain ⟨rfl, -⟩ := Mask.ipv6.inj hmask
    -- the address itself is matched
    have hself : ∀ i < n, bitAt (wordsAddr fun k => (shorts ws).getD k 0) i = wordBit ws i := by
      intro i hi
      rw [bitAt_wordsAddr _ i (by omega), shorts_getMsbD _ _ _ (Nat.mod_lt _ (by decide))]
      rfl
    obtain ⟨hbits, hclear⟩ := (matchIpv6_maskAddr _ found n hn).mp ((hmeans _).mpr hself)
    exact ⟨fun i hi => (hbits i hi).symm.trans (hself i hi), hclear⟩
  · rintro ⟨hbits, hclear⟩
    refine ⟨_, hparse, fun x => (matchIpv6_maskAddr x found n hn).trans ?_⟩
    rw [and_iff_left hclear]
    exact forall₂_congr fun i hi => by rw [hbits i hi]

theorem fillV6_copy (d : ℕ → ℕ) (finsert : Option ℕ) (count nyble : ℕ) (deficit : ℤ)
    (h : deficit = 0 ∨ ∀ p, finsert = some p → p < nyble) :
    fillV6 d finsert count nyble deficit = shorts ((List.range' nyble count).map d) := by
  induction count generalizing nyble with
  | zero => rfl
  | succ count ih =>
    have hnot : ¬ (some nyble = finsert ∧ deficit ≠ 0) := by
      rintro ⟨hgap, hne⟩
      rcases h with hzero | hbehind
      · exact hne hzero
      · exact absurd (hbehind nyble hgap.symm) (Nat.lt_irrefl nyble)
    rw [fillV6, if_neg hnot, ih (nyble + 1) (h.imp_right fun hb p hp => by
      have hlt := hb p hp
      omega), List.range'_succ]
    rfl

theorem fillV6_front (d : ℕ → ℕ) (p front count nyble : ℕ) (deficit : ℤ)
    (h : nyble + front = p) :
    fillV6 d (some p) (front + count) nyble deficit =
      shorts ((List.range' nyble front).map d) ++ fillV6 d (some p) count p deficit := by
  induction front generalizing nyble with
  | zero =>
    obtain rfl : nyble = p := h
    rw [Nat.zero_add]
    rfl
  | succ front ih =>
    have hnot : ¬ (some nyble = some p ∧ deficit ≠ 0) := by
      rintro ⟨hgap, -⟩
      have heq := Option.some.inj hgap
      omega
    rw [Nat.succ_add, fillV6, if_neg hnot, ih (nyble + 1) (by omega), List.range'_succ]
    rfl

/-- With more words than the prefix length counts, the rest is zero. -/
theorem fillV6_excess (d : ℕ → ℕ) (p count : ℕ) (deficit : ℤ) (h : deficit < 0) :
    fillV6 d (some p) count p deficit = shorts (List.replicate count 0) := by
  induction count generalizing deficit with
  | zero => rfl
  | succ count ih =>
    rw [fillV6, if_pos ⟨rfl, by omega⟩, ih (deficit - 1) (by omega)]
    rfl

/-- The words that are missing are zero, and the others come behind. -/
theorem fillV6_gap (d : ℕ → ℕ) (p missing count : ℕ) :
    fillV6 d (some p) (missing + count) p missing =
      shorts (List.replicate missing 0 ++ (List.range' p count).map d) := by
  induction missing with
  | zero =>
    rw [Nat.zero_add, fillV6_copy d (some p) count p _ (Or.inl Nat.cast_zero)]
    rfl
  | succ missing ih =>
    have hone : ((missing + 1 : ℕ) : ℤ) - 1 = missing := by omega
    rw [Nat.succ_add, fillV6, if_pos ⟨rfl, by omega⟩, hone, ih]
    rfl

theorem map_getD_append (as bs : List ℕ) (count : ℕ) (h : bs.length ≤ count) :
    (List.range' as.length count).map (fun i => (as ++ bs).getD i 0) =
      bs ++ List.replicate (count - bs.length) 0 := by
  apply List.ext_getElem
  · rw [List.length_map, List.length_range', List.length_append, List.length_replicate]
    omega
  · intro i hi hi'
    rw [List.getElem_map, List.getElem_range', Nat.one_mul,
      List.getD_append_right _ _ _ _ (by omega), Nat.add_sub_cancel_left]
    by_cases hlt : i < bs.length
    · rw [List.getElem_append_left hlt, List.getD_eq_getElem _ _ hlt]
    · rw [List.getElem_append_right (by omega), List.getElem_replicate,
        List.getD_eq_default _ _ (by omega)]

theorem fillV6_full (ws : List ℕ) (deficit : ℤ) (hlen : ws.length = 8) :
    fillV6 (fun i => ws.getD i 0) none 8 0 deficit = shorts ws := by
  have hcopy := map_getD_append [] ws 8 (by omega)
  rw [fillV6_copy _ none 8 0 deficit (Or.inr fun p hp => absurd hp (by simp))]
  rw [hlen, Nat.sub_self, List.replicate_zero, List.append_nil] at hcopy
  exact congrArg shorts hcopy

/-- What is read of words with a gap between them, when there should be `k`. -/
def filled (as bs : List ℕ) (k : ℕ) : List ℕ :=
  if k < as.length + bs.length then as ++ List.replicate (8 - as.length) 0
  else as ++ (List.replicate (k - (as.length + bs.length)) 0 ++ (bs ++ List.replicate (8 - k) 0))

theorem fillV6_filled (as bs : List ℕ) (k : ℕ) (hk : k ≤ 8) (hlen : as.length + bs.length ≤ 8) :
    fillV6 (fun i => (as ++ bs).getD i 0) (some as.length) 8 0
      ((k : ℤ) - (as.length + bs.length : ℕ)) = shorts (filled as bs k) := by
  have hcopied : (List.range' 0 as.length).map (fun i => (as ++ bs).getD i 0) = as := by
    apply List.ext_getElem
    · rw [List.length_map, List.length_range']
    · intro i hi hi'
      rw [List.getElem_map, List.getElem_range', Nat.one_mul, Nat.zero_add,
        List.getD_append _ _ _ _ hi', List.getD_eq_getElem _ _ hi']
  have hfront := fillV6_front (fun i => (as ++ bs).getD i 0) as.length as.length (8 - as.length) 0
    ((k : ℤ) - (as.length + bs.length : ℕ)) (Nat.zero_add _)
  rw [Nat.add_sub_cancel' (by omega), hcopied] at hfront
  rw [hfront]
  unfold filled
  by_cases hlt : k < as.length + bs.length
  · rw [if_pos hlt, fillV6_excess _ _ _ _ (by omega), shorts_append]
  · have hmissing : (k : ℤ) - (as.length + bs.length : ℕ) =
        (k - (as.length + bs.length) : ℕ) := by omega
    have hcount : 8 - as.length =
        (k - (as.length + bs.length)) + (bs.length + (8 - k)) := by omega
    rw [if_neg hlt, hmissing, hcount, fillV6_gap, map_getD_append as bs _ (by omega),
      Nat.add_sub_cancel_left, ← shorts_append]

theorem wordBit_append (as bs : List ℕ) (i : ℕ) : wordBit (as ++ bs) i =
    if i < 16 * as.length then wordBit as i else wordBit bs (i - 16 * as.length) := by
  unfold wordBit
  by_cases hi : i < 16 * as.length
  · rw [if_pos hi, List.getD_append _ _ _ _ (by omega)]
  · have hdiv : (i - 16 * as.length) / 16 = i / 16 - as.length := by omega
    have hmod : (i - 16 * as.length) % 16 = i % 16 := by omega
    rw [if_neg hi, List.getD_append_right _ _ _ _ (by omega), hdiv, hmod]

theorem wordBit_zeros (m i : ℕ) : wordBit (List.replicate m 0) i = false := by
  have hzero : (List.replicate m 0).getD (i / 16) 0 = 0 := by
    rw [List.getD_eq_getElem?_getD, List.getElem?_replicate]
    split <;> rfl
  unfold wordBit
  rw [hzero, Nat.zero_testBit]

/-- A line of bits that agrees with itself moved along zeros has no bit set. -/
theorem moved_zero (bit : ℕ → Bool) (distance n : ℕ) (hpos : 0 < distance)
    (h : ∀ i < n, bit i = if i < distance then false else bit (i - distance)) :
    ∀ i < n, bit i = false := by
  intro i
  induction i using Nat.strong_induction_on with
  | _ i ih =>
    intro hi
    rw [h i hi]
    split
    · rfl
    · exact ih (i - distance) (by omega) (by omega)

section Filled

variable (as bs : List ℕ) (n : ℕ) (hlen : as.length + bs.length ≤ 8)

/-- The words of an address with a gap. -/
def meant (as bs : List ℕ) : List ℕ :=
  as ++ (List.replicate (8 - (as.length + bs.length)) 0 ++ bs)

theorem meant_bit (i : ℕ) : wordBit (meant as bs) i =
    if i < 16 * as.length then wordBit as i
    else if i < 16 * (as.length + (8 - (as.length + bs.length))) then false
    else wordBit bs (i - 16 * (as.length + (8 - (as.length + bs.length)))) := by
  unfold meant
  rw [wordBit_append, wordBit_append, wordBit_zeros, List.length_replicate]
  split
  · rfl
  · split
    · rw [if_pos (by omega)]
    · rw [if_neg (by omega)]
      congr 1
      omega

/-- With fewer words counted than read, those behind the gap are lost. -/
theorem filled_few (hk : (n + 15) / 16 < as.length + bs.length) :
    (∀ i < n, wordBit (filled as bs ((n + 15) / 16)) i = wordBit (meant as bs) i) ∧
        Clear (filled as bs ((n + 15) / 16)) n ↔
      (∀ i, 16 * as.length ≤ i → i < n → wordBit (meant as bs) i = false) ∧
        (n ≤ 16 * as.length → Clear (meant as bs) n) := by
  have hfound : ∀ i, wordBit (filled as bs ((n + 15) / 16)) i =
      if i < 16 * as.length then wordBit as i else false := by
    intro i
    unfold filled
    rw [if_pos hk, wordBit_append, wordBit_zeros]
  have hfront : ∀ i < 16 * as.length,
      wordBit (filled as bs ((n + 15) / 16)) i = wordBit (meant as bs) i := by
    intro i hi
    rw [hfound, meant_bit, if_pos hi, if_pos hi]
  have hbehind : ∀ i, 16 * as.length ≤ i →
      wordBit (filled as bs ((n + 15) / 16)) i = false := by
    intro i hi
    rw [hfound, if_neg (by omega)]
  constructor
  · rintro ⟨hbits, hclear⟩
    refine ⟨fun i hlow hi => (hbits i hi).symm.trans (hbehind i hlow), fun hn => ?_⟩
    by_cases hbyte : n % 8 = 0
    · exact Or.inl hbyte
    · exact Or.inr ((hfront n (by omega)).symm.trans (hclear.resolve_left hbyte))
  · rintro ⟨hzero, hclear⟩
    refine ⟨fun i hi => ?_, ?_⟩
    · by_cases hlow : i < 16 * as.length
      · exact hfront i hlow
      · exact (hbehind i (by omega)).trans (hzero i (by omega) hi).symm
    · by_cases hbyte : n % 8 = 0
      · exact Or.inl hbyte
      · by_cases hn : n ≤ 16 * as.length
        · exact Or.inr ((hfront n (by omega)).trans ((hclear hn).resolve_left hbyte))
        · exact Or.inr (hbehind n (by omega))

include hlen

/-- With fewer than eight words counted, those behind the gap are put where the prefix ends. -/
theorem filled_some (hbs : 0 < bs.length) (hlow : as.length + bs.length ≤ (n + 15) / 16)
    (hhigh : (n + 15) / 16 < 8) :
    (∀ i < n, wordBit (filled as bs ((n + 15) / 16)) i = wordBit (meant as bs) i) ∧
        Clear (filled as bs ((n + 15) / 16)) n ↔
      ∀ i < 16 * bs.length + n - 16 * ((n + 15) / 16) + (if n % 8 = 0 then 0 else 1),
        wordBit bs i = false := by
  obtain ⟨k, hkn⟩ : ∃ k, (n + 15) / 16 = k := ⟨_, rfl⟩
  rw [hkn] at hlow hhigh ⊢
  have hfound : ∀ i < 16 * k, wordBit (filled as bs k) i =
      if i < 16 * as.length then wordBit as i
      else if i < 16 * (k - bs.length) then false
      else wordBit bs (i - 16 * (k - bs.length)) := by
    intro i hi
    unfold filled
    rw [if_neg (by omega), wordBit_append, wordBit_append, wordBit_append, wordBit_zeros,
      wordBit_zeros, List.length_replicate]
    split
    · rfl
    · by_cases hgap : i < 16 * (k - bs.length)
      · rw [if_pos (by omega), if_pos hgap]
      · rw [if_neg (by omega), if_neg hgap, if_pos (by omega)]
        congr 1
        omega
  -- a bit behind the gap, where it is put and where it should be
  have hplaced : ∀ i < 16 * bs.length, wordBit (filled as bs k) (i + 16 * (k - bs.length)) =
      wordBit bs i := by
    intro i hi
    rw [hfound _ (by omega), if_neg (by omega), if_neg (by omega), Nat.add_sub_cancel]
  have hmoved : ∀ i, wordBit (meant as bs) (i + 16 * (k - bs.length)) =
      if i < 16 * (8 - k) then false else wordBit bs (i - 16 * (8 - k)) := by
    intro i
    rw [meant_bit, if_neg (by omega)]
    by_cases hgap : i < 16 * (8 - k)
    · rw [if_pos (by omega), if_pos hgap]
    · rw [if_neg (by omega), if_neg hgap]
      congr 1
      omega
  have hend : n = 16 * bs.length + n - 16 * k + 16 * (k - bs.length) := by omega
  constructor
  · rintro ⟨hbits, hclear⟩
    have hzero := moved_zero (wordBit bs) (16 * (8 - k)) (16 * bs.length + n - 16 * k) (by omega)
      fun i hi => by
        rw [← hmoved i, ← hplaced i (by omega)]
        exact hbits _ (by omega)
    intro i hi
    by_cases hlt : i < 16 * bs.length + n - 16 * k
    · exact hzero i hlt
    · by_cases hbyte : n % 8 = 0
      · rw [if_pos hbyte] at hi
        omega
      · rw [if_neg hbyte] at hi
        have hlast : i = 16 * bs.length + n - 16 * k := by omega
        rw [hlast, ← hplaced _ (by omega), ← hend]
        exact hclear.resolve_left hbyte
  · intro hzero
    refine ⟨fun i hi => ?_, ?_⟩
    · by_cases hfront : i < 16 * (k - bs.length)
      · rw [hfound i (by omega), meant_bit, if_pos hfront]
        split
        · rfl
        · rw [if_pos (by omega)]
      · obtain ⟨j, rfl⟩ : ∃ j, i = j + 16 * (k - bs.length) :=
          ⟨i - 16 * (k - bs.length), by omega⟩
        rw [hplaced j (by omega), hmoved j, hzero j (by omega)]
        split
        · rfl
        · exact (hzero _ (by omega)).symm
    · by_cases hbyte : n % 8 = 0
      · exact Or.inl hbyte
      · rw [if_neg hbyte] at hzero
        refine Or.inr ?_
        rw [hend, hplaced _ (by omega)]
        exact hzero _ (by omega)

omit hlen in
/-- With eight words counted the gap is filled as it should be. -/
theorem filled_all (hk : (n + 15) / 16 = 8) (hlen : as.length + bs.length ≤ 8) :
    filled as bs ((n + 15) / 16) = meant as bs := by
  unfold filled meant
  rw [hk, if_neg (by omega), Nat.sub_self, List.replicate_zero, List.append_nil]

end Filled

end IrcdHybrid.WordBits
