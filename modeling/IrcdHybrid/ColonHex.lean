import IrcdHybrid.HexGroups
import IrcdHybrid.WordBits

/-!
IPv6 masks as text: eight groups of hexadecimal digits, or fewer with a gap, and a prefix
length behind. Without a prefix length every form means what it says. With one, eight groups
are not read at all, and where there is a gap the prefix length has to fit the groups.
-/

namespace IrcdHybrid.ColonHex

open CString Numeral Netmask HexGroups WordBits

/-- One to four digits. -/
def Group (g : CStr) : Prop := Field g ∧ g ≠ []

def joined (gs : List CStr) : CStr := [':'].intercalate gs

/-- A textual form: eight groups, or a gap for one of them or more. -/
inductive Form where
  | full (gs : List CStr) (hgs : ∀ g ∈ gs, Group g) (hlen : gs.length = 8)
  | gapped (pre post : List CStr) (hpre : ∀ g ∈ pre, Group g) (hpost : ∀ g ∈ post, Group g)
    (hlen : pre.length + post.length ≤ 7)

def Form.text : Form → CStr
  | .full gs _ _ => joined gs
  | .gapped pre post _ _ _ => joined pre ++ ':' :: ':' :: joined post

/-- The words of the address. -/
def Form.words : Form → List ℕ
  | .full gs _ _ => gs.map hexValue
  | .gapped pre post _ _ _ => pre.map hexValue ++
      (List.replicate (8 - (pre.length + post.length)) 0 ++ post.map hexValue)

/-- The groups at one side of a gap; with none there the scan reads an empty one. -/
def side (gs : List CStr) : List CStr := if gs = [] then [[]] else gs

theorem joined_side (gs : List CStr) : joined (side gs) = joined gs := by
  unfold side
  split
  · next h =>
    subst h
    rfl
  · rfl

theorem side_ne (gs : List CStr) : side gs ≠ [] := by
  unfold side
  split
  · exact List.cons_ne_nil _ _
  · assumption

theorem side_length (gs : List CStr) : (side gs).length = max gs.length 1 := by
  unfold side
  split
  · next h =>
    subst h
    rfl
  · next h =>
    have hpos := List.length_pos_of_ne_nil h
    omega

theorem side_field (gs : List CStr) (h : ∀ g ∈ gs, Group g) : ∀ g ∈ side gs, Field g := by
  intro g hg
  unfold side at hg
  split at hg
  · rw [List.mem_singleton.mp hg]
    exact ⟨Nat.zero_le _, fun c hc => absurd hc List.not_mem_nil⟩
  · exact (h g hg).1

theorem side_tail (gs : List CStr) (h : ∀ g ∈ gs, Group g) (f : CStr) (fs : List CStr)
    (hside : side gs = f :: fs) : ∀ g ∈ fs, g ≠ [] := by
  intro g hg
  unfold side at hside
  split at hside
  · rw [(List.cons.inj hside).2.symm] at hg
    exact absurd hg List.not_mem_nil
  · subst hside
    exact (h g (List.mem_cons_of_mem _ hg)).2

/-- A side is empty or its groups are not, so no colon follows a colon inside it. -/
theorem side_head (gs : List CStr) (h : ∀ g ∈ gs, Group g) (f : CStr) (fs : List CStr)
    (hside : side gs = f :: fs) : fs = [] ∨ f ≠ [] := by
  unfold side at hside
  split at hside
  · exact Or.inl (List.cons.inj hside).2.symm
  · subst hside
    exact Or.inr (h f (List.mem_cons_self ..)).2

theorem joined_append (f : CStr) (fs : List CStr) (s : CStr) :
    joined (f :: fs) ++ s = spelled f fs s := by
  induction fs generalizing f with
  | nil =>
    unfold joined spelled
    rw [List.intercalate_singleton]
  | cons g fs ih =>
    have hjoined : joined (f :: g :: fs) = f ++ ':' :: joined (g :: fs) := by
      unfold joined
      rw [List.intercalate_cons_cons]
      simp
    rw [hjoined, List.append_assoc, List.cons_append, ih]
    rfl

theorem spelled_append (f g : CStr) (fs gs : List CStr) (s : CStr) :
    spelled f (fs ++ g :: gs) s = spelled f fs (':' :: spelled g gs s) := by
  induction fs generalizing f with
  | nil => rfl
  | cons q fs ih =>
    show f ++ ':' :: spelled q (fs ++ g :: gs) s = f ++ ':' :: spelled q fs (':' :: spelled g gs s)
    rw [ih]

theorem doubles_groups (behind : Bool) (f : CStr) (fs : List CStr)
    (hf : behind = true → fs ≠ [] → f ≠ []) (hfs : ∀ g ∈ fs.dropLast, g ≠ []) :
    doubles behind f fs = 0 := by
  induction fs generalizing behind f with
  | nil => rfl
  | cons g fs ih =>
    have hnot : ¬ (behind = true ∧ f = []) := fun h => hf h.1 (List.cons_ne_nil _ _) h.2
    unfold doubles
    rw [if_neg hnot, Nat.zero_add]
    cases fs with
    | nil => rfl
    | cons q fs =>
      rw [List.dropLast_cons_cons] at hfs
      exact ih true g (fun _ _ => hfs g (List.mem_cons_self ..))
        fun g' hg' => hfs g' (List.mem_cons_of_mem _ hg')

theorem slots_groups (behind : Bool) (ws : List ℕ) (gap : Option ℕ) (f : CStr) (fs : List CStr)
    (h : doubles behind f fs = 0) : slots behind ws gap f fs =
      (ws ++ ((f :: fs).dropLast).map hexValue, gap) := by
  induction fs generalizing behind ws f with
  | nil =>
    show (ws, gap) = (ws ++ [], gap)
    rw [List.append_nil]
  | cons g fs ih =>
    unfold doubles at h
    have hnot : ¬ (behind = true ∧ f = []) := by
      intro hdup
      rw [if_pos hdup] at h
      omega
    unfold slots
    rw [if_neg hnot, ih true _ g (by omega), List.append_assoc]
    rfl

theorem doubles_append (behind : Bool) (f g : CStr) (fs gs : List CStr) :
    doubles behind f (fs ++ g :: gs) = doubles behind f (fs ++ [g]) + doubles true g gs := by
  induction fs generalizing behind f with
  | nil => rfl
  | cons q fs ih =>
    show _ + doubles true q (fs ++ g :: gs) = _ + doubles true q (fs ++ [g]) + doubles true g gs
    rw [ih, Nat.add_assoc]

theorem slots_append (behind : Bool) (ws : List ℕ) (gap : Option ℕ) (f g : CStr)
    (fs gs : List CStr) (h : doubles behind f (fs ++ [g]) = 0) :
    slots behind ws gap f (fs ++ g :: gs) =
      slots true (ws ++ (f :: fs).map hexValue) gap g gs := by
  induction fs generalizing behind ws f with
  | nil =>
    have hnot : ¬ (behind = true ∧ f = []) := by
      intro hdup
      simp [doubles, hdup] at h
    show slots behind ws gap f (g :: gs) = _
    rw [slots, if_neg hnot]
    rfl
  | cons q fs ih =>
    have hnot : ¬ (behind = true ∧ f = []) := by
      intro hdup
      simp [doubles, hdup] at h
    have hrest : doubles true q (fs ++ [g]) = 0 := by
      simp [doubles] at h
      exact h.2
    show slots behind ws gap f (q :: (fs ++ g :: gs)) = _
    rw [slots, if_neg hnot, ih true _ q hrest, List.append_assoc]
    rfl

theorem lastField_append (f g : CStr) (fs gs : List CStr) :
    lastField f (fs ++ g :: gs) = lastField g gs := by
  induction fs generalizing f with
  | nil => rfl
  | cons q fs ih => exact ih q

theorem dropLast_lastField (f : CStr) (fs : List CStr) :
    ((f :: fs).dropLast).map hexValue ++ [hexValue (lastField f fs)] = (f :: fs).map hexValue := by
  induction fs generalizing f with
  | nil => rfl
  | cons g fs ih =>
    rw [List.dropLast_cons_cons, List.map_cons, List.cons_append]
    show hexValue f :: (((g :: fs).dropLast).map hexValue ++ [hexValue (lastField g fs)]) = _
    rw [ih]
    rfl

/-- The words that the scan reads of a form. -/
def Form.read : Form → List ℕ
  | .full gs _ _ => gs.map hexValue
  | .gapped pre post _ _ _ => (side pre).map hexValue ++ (side post).map hexValue

/-- The place of the gap. -/
def Form.gap : Form → Option ℕ
  | .full _ _ _ => none
  | .gapped pre _ _ _ _ => some (side pre).length

theorem Form.read_length (F : Form) : F.read.length ≤ 8 := by
  cases F with
  | full gs hgs hlen =>
    show (gs.map hexValue).length ≤ 8
    rw [List.length_map, hlen]
  | gapped pre post hpre hpost hlen =>
    show ((side pre).map hexValue ++ (side post).map hexValue).length ≤ 8
    rw [List.length_append, List.length_map, List.length_map, side_length, side_length]
    omega

/-- The groups of a form. -/
structure Spells (F : Form) (f : CStr) (fs : List CStr) : Prop where
  text : ∀ s, F.text ++ s = spelled f fs s
  colon : fs ≠ []
  fields : ∀ g ∈ f :: fs, Field g
  doubles : doubles false f fs ≤ 1
  words : (slots false [] none f fs).1 ++ [hexValue (lastField f fs)] = F.read
  gap : (slots false [] none f fs).2 = F.gap

theorem spells_full (gs : List CStr) (hgs : ∀ g ∈ gs, Group g) (hlen : gs.length = 8) :
    ∃ f fs, Spells (.full gs hgs hlen) f fs := by
  obtain ⟨f, fs, rfl⟩ := List.exists_cons_of_length_pos (by omega : 0 < gs.length)
  have hnone : doubles false f fs = 0 :=
    doubles_groups false f fs (fun h => absurd h (by decide)) fun g hg =>
      (hgs g (List.mem_cons_of_mem _ (List.dropLast_subset _ hg))).2
  have hslots := slots_groups false [] none f fs hnone
  have hcolon : fs ≠ [] := by
    rintro rfl
    simp at hlen
  refine ⟨f, fs, fun s => joined_append f fs s, hcolon, fun g hg => (hgs g hg).1, by omega, ?_, ?_⟩
  · rw [hslots, List.nil_append, dropLast_lastField]
    rfl
  · rw [hslots]
    rfl

theorem spells_gapped (pre post : List CStr) (hpre : ∀ g ∈ pre, Group g)
    (hpost : ∀ g ∈ post, Group g) (hlen : pre.length + post.length ≤ 7) :
    ∃ f fs, Spells (.gapped pre post hpre hpost hlen) f fs := by
  obtain ⟨f, fs, hf⟩ := List.exists_cons_of_ne_nil (side_ne pre)
  obtain ⟨q, qs, hq⟩ := List.exists_cons_of_ne_nil (side_ne post)
  have hfront : doubles false f (fs ++ [[]]) = 0 := by
    apply doubles_groups false f _ (fun h => absurd h (by decide))
    rw [List.dropLast_concat]
    exact side_tail pre hpre f fs hf
  have hbehind : doubles true q qs = 0 := by
    apply doubles_groups true q qs
    · exact fun _ hne => (side_head post hpost q qs hq).resolve_left hne
    · exact fun g hg => side_tail post hpost q qs hq g (List.dropLast_subset _ hg)
  have hslots : slots false [] none f (fs ++ [] :: q :: qs) =
      ((f :: fs).map hexValue ++ ((q :: qs).dropLast).map hexValue,
        some ((f :: fs).map hexValue).length) := by
    rw [slots_append false [] none f [] fs (q :: qs) hfront, slots, if_pos ⟨rfl, rfl⟩,
      slots_groups true _ _ q qs hbehind, List.nil_append]
  refine ⟨f, fs ++ [] :: q :: qs, ?_, by simp, ?_, ?_, ?_, ?_⟩
  · intro s
    have hfr := joined_side pre
    have hbe := joined_side post
    rw [hf] at hfr
    rw [hq] at hbe
    show (joined pre ++ ':' :: ':' :: joined post) ++ s = _
    rw [← hfr, ← hbe, List.append_assoc, List.cons_append, List.cons_append, joined_append,
      joined_append, spelled_append]
    rfl
  · intro g hg
    rw [← List.cons_append] at hg
    rcases List.mem_append.mp hg with hg | hg
    · exact side_field pre hpre g (by rw [hf]; exact hg)
    · rcases List.mem_cons.mp hg with rfl | hg
      · exact ⟨Nat.zero_le _, fun c hc => absurd hc List.not_mem_nil⟩
      · exact side_field post hpost g (by rw [hq]; exact hg)
  · rw [doubles_append, hfront]
    show 0 + (_ + doubles true q qs) ≤ 1
    rw [hbehind]
    simp
  · rw [hslots, lastField_append, ← hf, ← hq, Form.read, List.append_assoc]
    congr 1
    rw [hq]
    exact dropLast_lastField q qs
  · rw [hslots]
    show some ((f :: fs).map hexValue).length = some (side pre).length
    rw [List.length_map, hf]

theorem spells (F : Form) : ∃ f fs, Spells F f fs := by
  cases F with
  | full gs hgs hlen => exact spells_full gs hgs hlen
  | gapped pre post hpre hpost hlen => exact spells_gapped pre post hpre hpost hlen

theorem scan_form (F : Form) (s : CStr) : ∃ ws v n prev,
    ws ++ [v] = F.read ∧ scanV6 (F.text ++ s) none start = scanV6 s prev (stateAt ws F.gap v n 128) := by
  obtain ⟨f, fs, h⟩ := spells F
  have hlen := congrArg List.length h.words
  have hle := F.read_length
  rw [List.length_append, List.length_singleton] at hlen
  obtain ⟨prev, hleads⟩ := leads_spelled [] none 128 f fs s none false
    ⟨fun h => absurd h (by simp), fun h => absurd h (by simp)⟩ h.fields h.doubles (by omega)
  refine ⟨_, _, 4 - (lastField f fs).length, prev, h.words, ?_⟩
  rw [h.text, start_eq, hleads.scan, h.gap]

/-- What is read of the words when a prefix length counts them. -/
def Form.found (F : Form) (n : ℕ) : List ℕ :=
  match F with
  | .full gs _ _ => gs.map hexValue
  | .gapped pre post _ _ _ => filled ((side pre).map hexValue) ((side post).map hexValue) ((n + 15) / 16)

theorem form_mask (F : Form) (t : CStr) (n nyble : ℕ) (hn : n ≤ 128) (hfull : F.gap = none → n ≠ 0)
    (hscan : scanV6 t none start =
      some ⟨fun i => F.read.getD i 0, F.read.length, nyble, F.gap, n⟩) :
    tryParseV6Netmask t = .ipv6 (maskAddr (F.found n) n) n := by
  have hbits : ¬ (F.gap = none ∧ n = 0) := fun h => hfull h.1 h.2
  have hcount : (n : ℤ) / 16 + (if n % 16 ≠ 0 then 1 else 0) = ((n + 15) / 16 : ℕ) := by
    split <;> omega
  unfold tryParseV6Netmask
  have hscan' := hscan
  unfold start at hscan'
  rw [hscan']
  dsimp only
  rw [if_neg hbits, hcount]
  have hwords : fillV6 (fun i => F.read.getD i 0) F.gap 8 0
      (((n + 15) / 16 : ℕ) - (F.read.length : ℤ)) = shorts (F.found n) := by
    cases F with
    | full gs hgs hlen => exact fillV6_full (gs.map hexValue) _ (by rw [List.length_map, hlen])
    | gapped pre post hpre hpost hlen =>
      have hle := Form.read_length (.gapped pre post hpre hpost hlen)
      show fillV6 (fun i => ((side pre).map hexValue ++ (side post).map hexValue).getD i 0)
        (some (side pre).length) 8 0 (((n + 15) / 16 : ℕ) -
          (((side pre).map hexValue ++ (side post).map hexValue).length : ℤ)) = _
      change ((side pre).map hexValue ++ (side post).map hexValue).length ≤ 8 at hle
      rw [List.length_append] at hle
      have hfilled := fillV6_filled ((side pre).map hexValue) ((side post).map hexValue)
        ((n + 15) / 16) (by omega) hle
      rw [List.length_map] at hfilled
      rw [List.length_append, List.length_map]
      exact hfilled
  rw [hwords]
  rfl

theorem prefixRead_digits (k : ℕ) (gapped : Bool) (p : CStr) (hp : DottedQuad.Digits p)
    (hne : p ≠ []) (hle : digitsValue p ≤ 128) :
    toInt (strtoul p).1 = digitsValue p ∧
      (PrefixRead k gapped p ↔ digitsValue p ≤ k * 4 ∨ gapped = true) := by
  have hread := DottedQuad.strtoul_digits p [] hne hp (by simp) (by omega)
  rw [List.append_nil] at hread
  have hint := toInt_eq (digitsValue p) (by omega) (by omega)
  unfold PrefixRead
  rw [hread]
  dsimp only
  rw [hint]
  refine ⟨rfl, ?_⟩
  constructor
  · rintro ⟨-, -, hfits | ⟨hgap, -⟩⟩
    · exact Or.inl (by omega)
    · exact Or.inr hgap
  · rintro (hfits | hgap)
    · exact ⟨rfl, by omega, Or.inl (by omega)⟩
    · exact ⟨rfl, by omega, Or.inr ⟨hgap, by omega⟩⟩

theorem words_gapped (pre post : List CStr) (hpre : ∀ g ∈ pre, Group g)
    (hpost : ∀ g ∈ post, Group g) (hlen : pre.length + post.length ≤ 7) :
    Form.words (.gapped pre post hpre hpost hlen) = (side pre).map hexValue ++
      (List.replicate (8 - ((side pre).length + (side post).length)) 0 ++
        (side post).map hexValue) := by
  have hfirst : pre.map hexValue ++ List.replicate (8 - (pre.length + post.length)) 0 =
      (side pre).map hexValue ++ List.replicate (8 - ((side pre).length + post.length)) 0 := by
    unfold side
    split
    · next h =>
      subst h
      have hcount : 8 - (([] : List CStr).length + post.length) = (8 - (1 + post.length)) + 1 := by
        rw [List.length_nil] at hlen ⊢
        omega
      rw [hcount, List.replicate_succ]
      rfl
    · rfl
  have hlast : List.replicate (8 - ((side pre).length + post.length)) 0 ++ post.map hexValue =
      List.replicate (8 - ((side pre).length + (side post).length)) 0 ++
        (side post).map hexValue := by
    by_cases h : post = []
    · subst h
      have hone : (side ([] : List CStr)).length = 1 := rfl
      have hside := side_length pre
      have hcount : 8 - ((side pre).length + ([] : List CStr).length) =
          (8 - ((side pre).length + (side ([] : List CStr)).length)) + 1 := by
        rw [List.length_nil] at hlen ⊢
        omega
      rw [hcount, List.replicate_succ', List.append_assoc]
      rfl
    · have hside : side post = post := if_neg h
      rw [hside]
  show pre.map hexValue ++ (List.replicate (8 - (pre.length + post.length)) 0 ++
    post.map hexValue) = _
  rw [← List.append_assoc, hfirst, List.append_assoc, hlast]

/-- The condition under which a form means what it says with a prefix length. A gap is filled up
to the words that the prefix length counts: where there are fewer of them than groups, no bit of
the address may stand behind the groups in front; where there are fewer than eight, no bit of the
groups behind the gap may stand where these are put. -/
def Form.Fits (F : Form) (n : ℕ) : Prop :=
  match F with
  | .full _ _ _ => False
  | .gapped pre post _ _ _ =>
    if (n + 15) / 16 < max pre.length 1 + max post.length 1 then
      (∀ i, 16 * max pre.length 1 ≤ i → i < n → wordBit F.words i = false) ∧
        (n ≤ 16 * max pre.length 1 → Clear F.words n)
    else if (n + 15) / 16 < 8 then
      ∀ i < 16 * max post.length 1 + n - 16 * ((n + 15) / 16) + (if n % 8 = 0 then 0 else 1),
        wordBit (post.map hexValue) i = false
    else Clear F.words n

theorem wordBit_side (gs : List CStr) (i : ℕ) :
    wordBit ((side gs).map hexValue) i = wordBit (gs.map hexValue) i := by
  unfold side
  split
  · next h =>
    subst h
    exact (wordBit_zeros 1 i).trans (wordBit_zeros 0 i).symm
  · rfl

theorem fits_iff (pre post : List CStr) (hpre : ∀ g ∈ pre, Group g) (hpost : ∀ g ∈ post, Group g)
    (hlen : pre.length + post.length ≤ 7) (n : ℕ) (hn : n ≤ 128) :
    ((∀ i < n, wordBit (Form.found (.gapped pre post hpre hpost hlen) n) i =
        wordBit (Form.words (.gapped pre post hpre hpost hlen)) i) ∧
      Clear (Form.found (.gapped pre post hpre hpost hlen) n) n) ↔
    Form.Fits (.gapped pre post hpre hpost hlen) n := by
  have has : ((side pre).map hexValue).length = max pre.length 1 := by
    rw [List.length_map, side_length]
  have hbs : ((side post).map hexValue).length = max post.length 1 := by
    rw [List.length_map, side_length]
  have hwords : Form.words (.gapped pre post hpre hpost hlen) =
      meant ((side pre).map hexValue) ((side post).map hexValue) := by
    rw [words_gapped, meant, List.length_map, List.length_map]
  unfold Form.Fits
  dsimp only
  rw [hwords]
  show (∀ i < n, wordBit (filled _ _ ((n + 15) / 16)) i = _) ∧ Clear (filled _ _ _) n ↔ _
  by_cases hfew : (n + 15) / 16 < max pre.length 1 + max post.length 1
  · rw [if_pos hfew, filled_few _ _ n (by rw [has, hbs]; exact hfew), has]
  · rw [if_neg hfew]
    by_cases hsome : (n + 15) / 16 < 8
    · rw [if_pos hsome, filled_some _ _ n (by omega) (by omega) (by omega) hsome, hbs]
      exact forall₂_congr fun i _ => by rw [wordBit_side]
    · rw [if_neg hsome, filled_all _ _ n (by omega) (by omega)]
      exact and_iff_right fun i _ => rfl

theorem spelled_mem (f : CStr) (fs : List CStr) (s : CStr) (hf : ∀ g ∈ f :: fs, Field g) (c : Char)
    (hc : c ∈ spelled f fs s) : isXDigit c = true ∨ c = ':' ∨ c ∈ s := by
  induction fs generalizing f with
  | nil =>
    rcases List.mem_append.mp hc with hc | hc
    · exact Or.inl ((hf f (List.mem_cons_self ..)).2 c hc)
    · exact Or.inr (Or.inr hc)
  | cons g fs ih =>
    rcases List.mem_append.mp hc with hc | hc
    · exact Or.inl ((hf f (List.mem_cons_self ..)).2 c hc)
    · rcases List.mem_cons.mp hc with hc | hc
      · exact Or.inr (Or.inl hc)
      · exact ih g (fun q hq => hf q (List.mem_cons_of_mem _ hq)) hc

theorem colon_mem (f : CStr) (fs : List CStr) (s : CStr) (hfs : fs ≠ []) :
    ':' ∈ spelled f fs s := by
  obtain ⟨g, fs, rfl⟩ := List.exists_cons_of_ne_nil hfs
  exact List.mem_append_right _ (List.mem_cons_self ..)

theorem form_dot (F : Form) (s : CStr) (hs : '.' ∉ s) : '.' ∉ F.text ++ s := by
  obtain ⟨f, fs, h⟩ := spells F
  intro hdot
  rw [h.text] at hdot
  rcases spelled_mem f fs s h.fields '.' hdot with hx | hx | hx
  · exact absurd hx (by decide)
  · exact absurd hx (by decide)
  · exact hs hx

theorem parse_form (F : Form) (s : CStr) (hs : '.' ∉ s) :
    parseNetmask (F.text ++ s) = tryParseV6Netmask (F.text ++ s) := by
  obtain ⟨f, fs, h⟩ := spells F
  have hcolon : ':' ∈ F.text ++ s := by
    rw [h.text]
    exact colon_mem f fs s h.colon
  unfold parseNetmask
  rw [if_neg (form_dot F s hs), if_pos hcolon]

theorem number_dot (p : CStr) (hp : DottedQuad.Digits p) : '.' ∉ '/' :: p := by
  intro hdot
  rcases List.mem_cons.mp hdot with hx | hx
  · exact absurd hx (by decide)
  · exact absurd (hp '.' hx) (by decide)

/-- Without a prefix length every form means what it says. -/
theorem whole_denotes (F : Form) : Denotes F.text F.words 128 := by
  obtain ⟨ws, v, nyble, prev, hread, hscan⟩ := scan_form F []
  have hparse := parse_form F [] List.not_mem_nil
  rw [List.append_nil] at hscan hparse
  have hfound : F.found 128 = F.words := by
    cases F with
    | full gs hgs hlen => rfl
    | gapped pre post hpre hpost hlen =>
      have hlength := Form.read_length (.gapped pre post hpre hpost hlen)
      rw [Form.read, List.length_append] at hlength
      show filled _ _ ((128 + 15) / 16) = _
      rw [filled_all _ _ 128 (by decide) hlength, words_gapped, meant, List.length_map,
        List.length_map]
  have hmask : tryParseV6Netmask F.text = .ipv6 (maskAddr F.words 128) 128 := by
    rw [← hfound]
    refine form_mask F F.text 128 nyble (Nat.le_refl _) (fun _ => by decide) ?_
    rw [hscan, scan_end, hread, ← hread, List.length_append, List.length_singleton]
  rw [denotes_iff F.text F.words F.words 128 (Nat.le_refl _) (hparse.trans hmask)]
  exact ⟨fun i _ => rfl, Or.inl rfl⟩

/-- A number behind a slash, as a prefix length. -/
structure Prefix (p : CStr) : Prop where
  digits : DottedQuad.Digits p
  nonempty : p ≠ []
  le : digitsValue p ≤ 128

/-- With a gap the prefix length is read, and the mask is right when the form fits it. -/
theorem prefixed_iff (pre post : List CStr) (hpre : ∀ g ∈ pre, Group g)
    (hpost : ∀ g ∈ post, Group g) (hlen : pre.length + post.length ≤ 7) (p : CStr)
    (hp : Prefix p) :
    Denotes (Form.text (.gapped pre post hpre hpost hlen) ++ '/' :: p)
        (Form.words (.gapped pre post hpre hpost hlen)) (digitsValue p) ↔
      Form.Fits (.gapped pre post hpre hpost hlen) (digitsValue p) := by
  rw [← fits_iff pre post hpre hpost hlen (digitsValue p) hp.le]
  generalize hF : Form.gapped pre post hpre hpost hlen = F
  have hgap : F.gap.isSome = true := by
    rw [← hF]
    rfl
  obtain ⟨ws, v, nyble, prev, hread, hscan⟩ := scan_form F ('/' :: p)
  obtain ⟨hvalue, hfits⟩ := prefixRead_digits (ws.length + 1) F.gap.isSome p hp.digits hp.nonempty
    hp.le
  have hmask : tryParseV6Netmask (F.text ++ '/' :: p) =
      .ipv6 (maskAddr (F.found (digitsValue p)) (digitsValue p)) (digitsValue p) := by
    refine form_mask F _ _ nyble hp.le (fun hnone => ?_) ?_
    · rw [hnone] at hgap
      exact absurd hgap (by decide)
    · rw [hscan, scan_slash ws F.gap v nyble 128 p prev (hfits.mpr (Or.inr hgap)), hvalue, ← hread,
        List.length_append, List.length_singleton]
      rfl
  exact denotes_iff _ _ _ _ hp.le ((parse_form F _ (number_dot p hp.digits)).trans hmask)

/-- A form of eight groups that is read with its prefix length has no place behind them. -/
theorem form_overruns (F : Form) (p : CStr) (hlen : F.read.length = 8)
    (hp : PrefixRead 8 F.gap.isSome p) : Overruns (F.text ++ '/' :: p) := by
  obtain ⟨f, fs, h⟩ := spells F
  have hwords := congrArg List.length h.words
  have hlength := slots_length false [] none f fs
  have hgap := slots_gap false [] none f fs
  rw [List.length_append, List.length_singleton, hlen] at hwords
  rw [List.length_nil] at hlength
  rw [h.gap, Option.isSome_none, Bool.false_or] at hgap
  rw [hgap] at hp
  exact ⟨f, fs, p, h.text _, h.fields, h.doubles, by omega, hp⟩

/-- Eight groups are never read with a prefix length: either it is too large, or there is no place
behind them. -/
theorem full_prefixed (gs : List CStr) (hgs : ∀ g ∈ gs, Group g) (hlen : gs.length = 8) (p : CStr)
    (hp : Prefix p) (hin : ¬ Overruns (Form.text (.full gs hgs hlen) ++ '/' :: p)) :
    parseNetmask (Form.text (.full gs hgs hlen) ++ '/' :: p) = .host := by
  have hread : (Form.read (.full gs hgs hlen)).length = 8 := by
    show (gs.map hexValue).length = 8
    rw [List.length_map, hlen]
  obtain ⟨ws, v, nyble, prev, hws, hscan⟩ := scan_form (.full gs hgs hlen) ('/' :: p)
  have hcount := congrArg List.length hws
  rw [hread, List.length_append, List.length_singleton] at hcount
  have hnot : ¬ PrefixRead (ws.length + 1) (Form.gap (.full gs hgs hlen)).isSome p := by
    rw [hcount]
    exact fun hp => hin (form_overruns _ p hread hp)
  rw [parse_form _ _ (number_dot p hp.digits)]
  unfold tryParseV6Netmask
  unfold start at hscan
  rw [hscan, scan_slash_none ws _ v nyble 128 p prev hnot]

/-- A text means what it says. -/
structure Means (t : CStr) : Prop where
  whole : ∀ F : Form, t = F.text → Denotes t F.words 128
  prefixed : ∀ (F : Form) (p : CStr), Prefix p → t = F.text ++ '/' :: p →
    Denotes t F.words (digitsValue p)
  inRange : InRange (places t)

/-- No place behind eight groups is used, and an address in front of a prefix length has a gap
and fits it. -/
structure Fitting (t : CStr) : Prop where
  places : '.' ∉ t → ¬ Overruns t
  forms : ∀ (F : Form) (p : CStr), Prefix p → t = F.text ++ '/' :: p → F.Fits (digitsValue p)

theorem overruns_colon (t : CStr) (h : Overruns t) : ':' ∈ t := by
  obtain ⟨f, fs, p, rfl, -, -, hlen, -⟩ := h
  refine colon_mem f fs _ ?_
  rintro rfl
  rw [List.length_nil] at hlen
  omega

/-- A text means what it says exactly when it is fitting. -/
theorem means_iff_fitting (t : CStr) : Means t ↔ Fitting t := by
  constructor
  · intro h
    have hplaces : '.' ∉ t → ¬ Overruns t := by
      intro hdot hover
      rcases (places_inRange t).mp h.inRange with hx | hx | hx
      · exact hdot hx
      · exact hx (overruns_colon t hover)
      · exact (scan_inRange_iff t).mp hx hover
    refine ⟨hplaces, ?_⟩
    rintro F p hp rfl
    have hmeans := h.prefixed F p hp rfl
    cases F with
    | full gs hgs hlen =>
      obtain ⟨mask, hparse, -⟩ := hmeans
      have hin := hplaces (form_dot _ _ (number_dot p hp.digits))
      rw [full_prefixed gs hgs hlen p hp hin] at hparse
      exact absurd hparse (by simp)
    | gapped pre post hpre hpost hlen =>
      exact (prefixed_iff pre post hpre hpost hlen p hp).mp hmeans
  · intro h
    refine ⟨?_, ?_, ?_⟩
    · rintro F rfl
      exact whole_denotes F
    · rintro F p hp rfl
      have hfits := h.forms F p hp rfl
      cases F with
      | full gs hgs hlen => exact absurd hfits id
      | gapped pre post hpre hpost hlen =>
        exact (prefixed_iff pre post hpre hpost hlen p hp).mpr hfits
    · rw [places_inRange]
      by_cases hdot : '.' ∈ t
      · exact Or.inl hdot
      · exact Or.inr (Or.inr ((scan_inRange_iff t).mpr (h.places hdot)))

/-- Eight groups in front of a prefix length are taken for a host mask. -/
theorem full_prefix_refused : ¬ ∀ t, Means t := by
  intro hall
  have hgroup : ∀ g ∈ (List.replicate 8 ['1'] : List CStr), Group g := by
    intro g hg
    rw [List.eq_of_mem_replicate hg]
    exact ⟨⟨by decide, List.all_eq_true.mp (rfl : ['1'].all isXDigit = true)⟩, by simp⟩
  have hp : Prefix ['6', '4'] :=
    ⟨List.all_eq_true.mp (rfl : ['6', '4'].all isDigit = true), by simp, by decide⟩
  obtain ⟨mask, hparse, -⟩ := (hall "1:1:1:1:1:1:1:1/64".toList).prefixed
    (.full (List.replicate 8 ['1']) hgroup rfl) ['6', '4'] hp rfl
  have hhost : parseNetmask "1:1:1:1:1:1:1:1/64".toList = .host := rfl
  rw [hhost] at hparse
  exact absurd hparse (by simp)

end IrcdHybrid.ColonHex
