import IrcdHybrid.CString
import Mathlib.Data.List.TakeWhile

/-!
Masks of the form nick!user@host. `add_id` and `del_id` cut the text at the
first blank, split it into the three fields with "*" for what is missing, and
print it again as nick!user@host. Splitting the printed text gives the same
triple, so a mask survives being sent to another server.
-/

namespace IrcdHybrid.BanMask

open CString

def NICKLEN : ℕ := 12
def USERLEN : ℕ := 40
def HOSTLEN : ℕ := 63

/-- The fields of `struct Ban` that identify it. -/
structure Nuh where
  name : CStr
  user : CStr
  host : CStr
  deriving DecidableEq, Repr

def isSpace (c : Char) : Bool := c = ' ' || ('\t' ≤ c && c ≤ '\r')

/-- `strchr`: the text before the first such letter, and the text behind it. -/
def strchr (c : Char) : CStr → Option (CStr × CStr)
  | [] => none
  | d :: s =>
    if d = c then some ([], s)
    else (strchr c s).map (fun (before, after) => (d :: before, after))

/-- `check_string`. -/
def checkString (s : CStr) : CStr :=
  let str := s.takeWhile (fun c => !isSpace c)
  if str = [] then ['*'] else str

/-- A field of `split_nuh`: "*" unless there is text for it. -/
def field (s : CStr) (len : ℕ) : CStr := if s = [] then ['*'] else strlcpy s (len + 1)

def splitNuh (nuhmask : CStr) : Nuh :=
  match strchr '!' nuhmask with
  | some (nick, p) =>
    match strchr '@' p with
    | some (user, q) => ⟨field nick NICKLEN, field user USERLEN, field q HOSTLEN⟩
    | none => ⟨field nick NICKLEN, field p USERLEN, ['*']⟩
  | none =>
    match strchr '@' nuhmask with
    | some (user, p) => ⟨['*'], field user USERLEN, field p HOSTLEN⟩
    | none =>
      if '.' ∈ nuhmask ∨ ':' ∈ nuhmask then ⟨['*'], ['*'], strlcpy nuhmask (HOSTLEN + 1)⟩
      else ⟨strlcpy nuhmask (NICKLEN + 1), ['*'], ['*']⟩

/-- The mask that `add_id` and `del_id` read in the text. -/
def maskOf (banid : CStr) : Nuh := splitNuh (checkString banid)

/-- `"%s!%s@%s"`. -/
def nuhText (n : Nuh) : CStr := n.name ++ '!' :: (n.user ++ '@' :: n.host)

/-- The inner loop of `collapse`: stars move behind question marks and merge. -/
def collapseStars : CStr → Bool → CStr
  | [], star => if star then ['*'] else []
  | '*' :: m, _ => collapseStars m true
  | '\\' :: d :: m, star =>
    if d = '*' ∨ d = '?' then
      (if star then ['*'] else []) ++ '\\' :: d :: collapseStars m false
    else (if star then ['*'] else []) ++ '\\' :: collapseStars (d :: m) false
  | c :: m, star =>
    if c = '?' then c :: collapseStars m star
    else (if star then ['*'] else []) ++ c :: collapseStars m false

def collapse : CStr → CStr
  | [] => []
  | '*' :: c :: m =>
    if c = '*' ∨ c = '?' then collapseStars ('*' :: c :: m) false else '*' :: collapse (c :: m)
  | '\\' :: d :: m =>
    if d = '*' ∨ d = '?' then '\\' :: d :: collapse m else '\\' :: collapse (d :: m)
  | c :: m => c :: collapse m

/-- The comparison of masks in `add_id` and `del_id`. -/
def sameMask (a b : Nuh) : Bool :=
  irccmp a.name b.name == 0 && irccmp a.user b.user == 0 && irccmp a.host b.host == 0

/-- What every stored mask satisfies. The first letter matters where masks are
read back from a line: a colon there has another meaning. -/
structure Valid (n : Nuh) : Prop where
  name_ne : n.name ≠ []
  user_ne : n.user ≠ []
  host_ne : n.host ≠ []
  name_bang : '!' ∉ n.name
  user_at : '@' ∉ n.user
  name_len : n.name.length ≤ NICKLEN
  user_len : n.user.length ≤ USERLEN
  host_len : n.host.length ≤ HOSTLEN
  no_space : ∀ c ∈ nuhText n, isSpace c = false
  no_colon : n.name.head? ≠ some ':'

theorem sameMask_self (a : Nuh) : sameMask a a = true := by simp [sameMask]

theorem sameMask_comm (a b : Nuh) : sameMask a b = sameMask b a := by
  rw [Bool.eq_iff_iff]
  simp only [sameMask, Bool.and_eq_true, beq_iff_eq]
  rw [irccmp_comm_zero a.name, irccmp_comm_zero a.user, irccmp_comm_zero a.host]

theorem sameMask_trans (a b c : Nuh) (hab : sameMask a b = true) (hbc : sameMask b c = true) :
    sameMask a c = true := by
  simp only [sameMask, Bool.and_eq_true, beq_iff_eq] at *
  obtain ⟨⟨h1, h2⟩, h3⟩ := hab
  obtain ⟨⟨h4, h5⟩, h6⟩ := hbc
  exact ⟨⟨irccmp_trans_zero _ _ _ h1 h4, irccmp_trans_zero _ _ _ h2 h5⟩,
    irccmp_trans_zero _ _ _ h3 h6⟩

theorem strchr_append (c : Char) (s t : CStr) (h : c ∉ s) :
    strchr c (s ++ c :: t) = some (s, t) := by
  induction s with
  | nil => simp [strchr]
  | cons d s ih =>
    simp only [List.mem_cons, not_or] at h
    have hd : d ≠ c := Ne.symm h.1
    simp [strchr, hd, ih h.2]

theorem strchr_some (c : Char) (s before after : CStr) (h : strchr c s = some (before, after)) :
    s = before ++ c :: after ∧ c ∉ before := by
  induction s generalizing before with
  | nil => simp [strchr] at h
  | cons d s ih =>
    unfold strchr at h
    split at h
    · next hd =>
      obtain ⟨rfl, rfl⟩ := Prod.mk.inj (Option.some.inj h)
      exact ⟨by rw [hd]; rfl, by simp⟩
    · next hd =>
      obtain ⟨⟨b, a⟩, hb, heq⟩ := Option.map_eq_some_iff.mp h
      obtain ⟨rfl, rfl⟩ := Prod.mk.inj heq
      obtain ⟨rfl, hc⟩ := ih b hb
      refine ⟨rfl, ?_⟩
      simp only [List.mem_cons, not_or]
      exact ⟨Ne.symm hd, hc⟩

theorem strchr_none (c : Char) (s : CStr) (h : strchr c s = none) : c ∉ s := by
  induction s with
  | nil => simp
  | cons d s ih =>
    unfold strchr at h
    split at h
    · simp at h
    · next hd =>
      simp only [List.mem_cons, not_or]
      exact ⟨Ne.symm hd, ih (Option.map_eq_none_iff.mp h)⟩

theorem checkString_of_no_space (s : CStr) (hne : s ≠ []) (h : ∀ c ∈ s, isSpace c = false) :
    checkString s = s := by
  have htake : s.takeWhile (fun c => !isSpace c) = s := by
    rw [List.takeWhile_eq_self_iff]
    intro c hc
    simp [h c hc]
  simp only [checkString, htake, if_neg hne]

theorem field_of_le (s : CStr) (len : ℕ) (hne : s ≠ []) (hlen : s.length ≤ len) :
    field s len = s := by
  rw [field, if_neg hne, strlcpy_of_le s len hlen]

/-- A field as it is stored. -/
structure Piece (s : CStr) (len : ℕ) : Prop where
  ne_nil : s ≠ []
  len_le : s.length ≤ len
  no_space : ∀ c ∈ s, isSpace c = false

theorem piece_star (len : ℕ) (hlen : 0 < len) : Piece ['*'] len :=
  ⟨by simp, hlen, List.forall_mem_singleton.mpr (by decide)⟩

theorem piece_strlcpy (s : CStr) (len : ℕ) (hlen : 0 < len) (hne : s ≠ [])
    (h : ∀ c ∈ s, isSpace c = false) : Piece (strlcpy s (len + 1)) len := by
  refine ⟨?_, ?_, fun c hc => h c (List.mem_of_mem_take hc)⟩
  · intro htake
    rcases List.take_eq_nil_iff.mp htake with h0 | h0
    · omega
    · exact hne h0
  · exact List.length_take_le len s

theorem piece_field (s : CStr) (len : ℕ) (hlen : 0 < len) (h : ∀ c ∈ s, isSpace c = false) :
    Piece (field s len) len := by
  unfold field
  split_ifs with hs
  · exact piece_star len hlen
  · exact piece_strlcpy s len hlen hs h

theorem not_mem_field (s : CStr) (len : ℕ) (c : Char) (hc : c ≠ '*') (h : c ∉ s) :
    c ∉ field s len := by
  unfold field
  split_ifs
  · simpa using hc
  · exact fun hmem => h (List.mem_of_mem_take hmem)

theorem head_strlcpy (s : CStr) (len : ℕ) (h : s.head? ≠ some ':') :
    (strlcpy s (len + 1)).head? ≠ some ':' := by
  cases s with
  | nil => simp [strlcpy]
  | cons c s => cases len <;> simp_all [strlcpy]

theorem head_field (s : CStr) (len : ℕ) (h : s.head? ≠ some ':') :
    (field s len).head? ≠ some ':' := by
  unfold field
  split_ifs
  · simp
  · exact head_strlcpy s len h

/-- The texts that the three fields are taken from. -/
def parts (nuhmask : CStr) : Nuh :=
  match strchr '!' nuhmask with
  | some (nick, p) =>
    match strchr '@' p with
    | some (user, q) => ⟨nick, user, q⟩
    | none => ⟨nick, p, []⟩
  | none =>
    match strchr '@' nuhmask with
    | some (user, p) => ⟨[], user, p⟩
    | none => if '.' ∈ nuhmask ∨ ':' ∈ nuhmask then ⟨[], [], nuhmask⟩ else ⟨nuhmask, [], []⟩

theorem splitNuh_parts (s : CStr) (hne : s ≠ []) :
    splitNuh s = ⟨field (parts s).name NICKLEN, field (parts s).user USERLEN,
      field (parts s).host HOSTLEN⟩ := by
  have hfield : ∀ len, field s len = strlcpy s (len + 1) := fun len => if_neg hne
  unfold splitNuh parts
  rcases strchr '!' s with _ | ⟨nick, p⟩
  · rcases strchr '@' s with _ | ⟨user, q⟩
    · dsimp only
      split_ifs
      · rw [hfield]
        rfl
      · rw [hfield]
        rfl
    · rfl
  · dsimp only
    rcases strchr '@' p with _ | ⟨user, q⟩
    · rfl
    · rfl

/-- The texts are pieces of the mask, in front of the delimiters. -/
theorem parts_subset (s : CStr) (c : Char)
    (h : c ∈ (parts s).name ∨ c ∈ (parts s).user ∨ c ∈ (parts s).host) : c ∈ s := by
  unfold parts at h
  rcases hbang : strchr '!' s with _ | ⟨nick, p⟩
  · rw [hbang] at h
    rcases hat : strchr '@' s with _ | ⟨user, q⟩
    · rw [hat] at h
      dsimp only at h
      split_ifs at h <;> simpa using h
    · rw [hat] at h
      obtain ⟨rfl, _⟩ := strchr_some '@' s user q hat
      rw [List.mem_append, List.mem_cons]
      rcases h with h | h | h
      · cases h
      · exact .inl h
      · exact .inr (.inr h)
  · rw [hbang] at h
    obtain ⟨rfl, _⟩ := strchr_some '!' s nick p hbang
    dsimp only at h
    rw [List.mem_append, List.mem_cons]
    rcases hat : strchr '@' p with _ | ⟨user, q⟩
    · rw [hat] at h
      rcases h with h | h | h
      · exact .inl h
      · exact .inr (.inr h)
      · cases h
    · rw [hat] at h
      obtain ⟨rfl, _⟩ := strchr_some '@' p user q hat
      rcases h with h | h | h
      · exact .inl h
      · exact .inr (.inr (List.mem_append_left _ h))
      · exact .inr (.inr (List.mem_append_right _ (List.mem_cons_of_mem _ h)))

theorem parts_bang (s : CStr) : '!' ∉ (parts s).name := by
  unfold parts
  rcases hbang : strchr '!' s with _ | ⟨nick, p⟩
  · rcases strchr '@' s with _ | ⟨user, q⟩
    · dsimp only
      split_ifs
      · exact List.not_mem_nil
      · exact strchr_none '!' s hbang
    · exact List.not_mem_nil
  · dsimp only
    rcases strchr '@' p with _ | ⟨user, q⟩
    · exact (strchr_some '!' s nick p hbang).2
    · exact (strchr_some '!' s nick p hbang).2

theorem parts_at (s : CStr) : '@' ∉ (parts s).user := by
  unfold parts
  rcases strchr '!' s with _ | ⟨nick, p⟩
  · rcases hat : strchr '@' s with _ | ⟨user, q⟩
    · dsimp only
      split_ifs
      · exact List.not_mem_nil
      · exact List.not_mem_nil
    · exact (strchr_some '@' s user q hat).2
  · dsimp only
    rcases hat : strchr '@' p with _ | ⟨user, q⟩
    · exact strchr_none '@' p hat
    · exact (strchr_some '@' p user q hat).2

theorem parts_head (s : CStr) (hcolon : s.head? ≠ some ':') :
    (parts s).name.head? ≠ some ':' := by
  unfold parts
  rcases hbang : strchr '!' s with _ | ⟨nick, p⟩
  · rcases strchr '@' s with _ | ⟨user, q⟩
    · dsimp only
      split_ifs
      · simp
      · exact hcolon
    · simp
  · obtain ⟨rfl, _⟩ := strchr_some '!' s nick p hbang
    have hhead : nick.head? ≠ some ':' := by
      cases nick with
      | nil => simp
      | cons c nick => simpa using hcolon
    dsimp only
    rcases strchr '@' p with _ | ⟨user, q⟩
    · exact hhead
    · exact hhead

/-- What `split_nuh` makes of a text without blanks. -/
structure Parted (n : Nuh) : Prop where
  name : Piece n.name NICKLEN
  user : Piece n.user USERLEN
  host : Piece n.host HOSTLEN
  name_bang : '!' ∉ n.name
  user_at : '@' ∉ n.user

theorem Parted.no_space {n : Nuh} (h : Parted n) : ∀ c ∈ nuhText n, isSpace c = false := by
  intro c hc
  simp only [nuhText, List.mem_append, List.mem_cons] at hc
  rcases hc with hc | rfl | hc | rfl | hc
  · exact h.name.no_space c hc
  · rfl
  · exact h.user.no_space c hc
  · rfl
  · exact h.host.no_space c hc

theorem Parted.valid {n : Nuh} (h : Parted n) (hcolon : n.name.head? ≠ some ':') : Valid n :=
  ⟨h.name.ne_nil, h.user.ne_nil, h.host.ne_nil, h.name_bang, h.user_at, h.name.len_le,
    h.user.len_le, h.host.len_le, h.no_space, hcolon⟩

theorem splitNuh_parted (s : CStr) (hne : s ≠ []) (hspace : ∀ c ∈ s, isSpace c = false) :
    Parted (splitNuh s) := by
  have hsub := fun c h => hspace c (parts_subset s c h)
  rw [splitNuh_parts s hne]
  exact ⟨piece_field _ NICKLEN (by decide) fun c hc => hsub c (.inl hc),
    piece_field _ USERLEN (by decide) fun c hc => hsub c (.inr (.inl hc)),
    piece_field _ HOSTLEN (by decide) fun c hc => hsub c (.inr (.inr hc)),
    not_mem_field _ NICKLEN '!' (by decide) (parts_bang s),
    not_mem_field _ USERLEN '@' (by decide) (parts_at s)⟩

theorem splitNuh_valid (s : CStr) (hne : s ≠ []) (hspace : ∀ c ∈ s, isSpace c = false)
    (hcolon : s.head? ≠ some ':') : Valid (splitNuh s) := by
  apply (splitNuh_parted s hne hspace).valid
  rw [splitNuh_parts s hne]
  exact head_field _ NICKLEN (parts_head s hcolon)

theorem checkString_ne_nil (s : CStr) : checkString s ≠ [] := by
  unfold checkString
  dsimp only
  split
  · simp
  · next hcut => exact hcut

theorem checkString_no_space (s : CStr) : ∀ c ∈ checkString s, isSpace c = false := by
  unfold checkString
  dsimp only
  split
  · exact List.forall_mem_singleton.mpr (by decide)
  · intro c hc
    simpa using List.mem_takeWhile_imp hc

theorem maskOf_text {n : Nuh} (h : Parted n) : maskOf (nuhText n) = n := by
  have hne : nuhText n ≠ [] := by simp [nuhText]
  unfold maskOf
  rw [checkString_of_no_space _ hne h.no_space]
  unfold nuhText splitNuh
  rw [strchr_append '!' n.name _ h.name_bang]
  dsimp only
  rw [strchr_append '@' n.user _ h.user_at]
  dsimp only
  rw [field_of_le _ _ h.name.ne_nil h.name.len_le, field_of_le _ _ h.user.ne_nil h.user.len_le,
    field_of_le _ _ h.host.ne_nil h.host.len_le]

theorem Valid.parted {n : Nuh} (h : Valid n) : Parted n := by
  have hspace := h.no_space
  simp only [nuhText, List.mem_append, List.mem_cons] at hspace
  exact ⟨⟨h.name_ne, h.name_len, fun c hc => hspace c (.inl hc)⟩,
    ⟨h.user_ne, h.user_len, fun c hc => hspace c (.inr (.inr (.inl hc)))⟩,
    ⟨h.host_ne, h.host_len, fun c hc => hspace c (.inr (.inr (.inr (.inr hc))))⟩,
    h.name_bang, h.user_at⟩

theorem maskOf_nuhText (n : Nuh) (h : Valid n) : maskOf (nuhText n) = n := maskOf_text h.parted

example : maskOf "evil@host.net".toList = ⟨['*'], "evil".toList, "host.net".toList⟩ := by decide

theorem maskOf_parted (banid : CStr) : Parted (maskOf banid) :=
  splitNuh_parted _ (checkString_ne_nil banid) (checkString_no_space banid)

/-- Every mask the two functions read is valid, unless its text starts with a colon. -/
theorem maskOf_valid (banid : CStr) (h : banid.head? ≠ some ':') : Valid (maskOf banid) := by
  apply splitNuh_valid _ (checkString_ne_nil banid) (checkString_no_space banid)
  unfold checkString
  dsimp only
  split
  · simp
  · rw [List.head?_takeWhile]
    intro hhead
    exact h (Option.eq_some_of_filter_eq_some hhead)

theorem nuhText_length (n : Nuh) :
    (nuhText n).length = n.name.length + n.user.length + n.host.length + 2 := by
  simp only [nuhText, List.length_append, List.length_cons]
  omega

theorem nuhText_length_le (n : Nuh) (h : Valid n) : (nuhText n).length ≤ 117 := by
  have h1 := h.name_len
  have h2 := h.user_len
  have h3 := h.host_len
  rw [nuhText_length]
  simp only [NICKLEN, USERLEN, HOSTLEN] at h1 h2 h3
  omega

/-- A star that is carried along comes out before the next letter other than '?'. -/
theorem collapseStars_head (m : CStr) :
    (collapseStars m true).head? = some '*' ∨ (collapseStars m true).head? = some '?' := by
  induction m with
  | nil => exact Or.inl rfl
  | cons c m ih =>
    unfold collapseStars
    split
    · exact Or.inl rfl
    · next heq =>
      obtain ⟨rfl, rfl⟩ := List.cons.inj heq
      exact ih
    · split <;> exact Or.inl rfl
    · next hquestion =>
      split
      · next heq => exact Or.inr (by rw [heq]; rfl)
      · exact Or.inl rfl

theorem collapse_head (m : CStr) (h : m.head? ≠ some ':') : (collapse m).head? ≠ some ':' := by
  unfold collapse
  split
  · simp
  · next c m =>
    split
    · intro hcolon
      rw [collapseStars] at hcolon
      rcases collapseStars_head (c :: m) with hhead | hhead
      · rw [hhead] at hcolon
        exact absurd hcolon (by decide)
      · rw [hhead] at hcolon
        exact absurd hcolon (by decide)
    · simp
  · split <;> simp
  · simpa using h

end IrcdHybrid.BanMask
