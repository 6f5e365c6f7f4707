import IrcdHybrid.DnsNames

/-!
Names in messages of name servers, where the end of a name may be a pointer to another one. What is
taken out of a message is what the labels and pointers spell, and nothing behind the message counts.
-/

namespace IrcdHybrid.DnsMessages

open CString DnsNames

/-- A buffer, of which `len` bytes are the message. -/
structure Packet where
  len : ℕ
  at' : ℕ → ℕ
  byte : ∀ i, at' i < 256

def Packet.bytes (p : Packet) (off l : ℕ) : List ℕ := (List.range l).map fun i => p.at' (off + i)

/-- The loop of `irc_ns_name_unpack`; `len` is what was read before the first pointer, and `checked`
all that was looked at. -/
def unpackGo (p : Packet) (dstsiz src srcp : ℕ) (dst : List ℕ) (len : Option ℕ) (checked : ℕ) :
    Option (List ℕ × ℕ) :=
  let n := p.at' srcp
  if n = 0 then some (dst ++ [0], len.getD (srcp + 1 - src))
  else if labelType n = 0 ∨ labelType n = 1 then
    match labellen n (p.at' (srcp + 1)) with
    | none => none
    | some l =>
      if dstsiz ≤ dst.length + l + 1 ∨ p.len ≤ srcp + 1 + l then none
      else unpackGo p dstsiz src (srcp + 1 + l) (dst ++ n :: p.bytes (srcp + 1) l) len (checked + l + 1)
  else if labelType n = 3 then
    if p.len ≤ srcp + 1 then none
    else
      let target := n % 64 * 256 + p.at' (srcp + 1)
      if p.len ≤ target then none
      else if p.len ≤ checked + 2 then none
      else unpackGo p dstsiz src target dst (some (len.getD (srcp + 2 - src))) (checked + 2)
  else none
termination_by (dstsiz - dst.length) + (p.len - checked)
decreasing_by
  · rename_i hfits
    simp only [not_or, not_le] at hfits
    simp only [List.length_append, List.length_cons, Packet.bytes, List.length_map, List.length_range]
    omega
  · omega

/-- `irc_ns_name_unpack`: the name, and the bytes of it that stand at `src`. -/
def nsNameUnpack (p : Packet) (src dstsiz : ℕ) : Option (List ℕ × ℕ) :=
  if p.len ≤ src then none else unpackGo p dstsiz src src [] none 0

/-- `irc_dn_expand`: the text, without the dot of the root, and the bytes that stand at `src`. -/
def dnExpand (p : Packet) (src dstsiz : ℕ) : Option (CStr × ℕ) :=
  match nsNameUnpack p src NS_MAXCDNAME with
  | none => none
  | some (w, n) =>
    (nsNameNtop w dstsiz).map fun t => (if t.head? = some '.' then [] else t, n)

/-- The loop of `irc_ns_name_skip`. -/
def skipGo (p : Packet) (cp : ℕ) : Option ℕ :=
  if p.len ≤ cp then if p.len < cp then none else some cp
  else
    let n := p.at' cp
    if n = 0 then some (cp + 1)
    else if labelType n = 0 then skipGo p (cp + 1 + n)
    else if labelType n = 1 then
      match labellen n (p.at' (cp + 1)) with
      | none => none
      | some l => skipGo p (cp + 1 + l)
    else if labelType n = 3 then if p.len < cp + 2 then none else some (cp + 2)
    else none
termination_by p.len - cp

/-- `irc_dn_skipname` -/
def dnSkipname (p : Packet) (src : ℕ) : Option ℕ := (skipGo p src).map fun cp => cp - src

theorem bytes_length (p : Packet) (off l : ℕ) : (p.bytes off l).length = l := by
  simp [Packet.bytes]

/-- What labels and pointers spell from a byte of the message on, with the bytes that are looked at
up to the last pointer. -/
inductive Spells (p : Packet) : ℕ → List ℕ → ℕ → Prop
  | root (off : ℕ) (hin : off < p.len) (h : p.at' off = 0) : Spells p off [0] 0
  | label (off l : ℕ) (w : List ℕ) (k : ℕ) (hne : p.at' off ≠ 0)
      (htype : labelType (p.at' off) = 0 ∨ labelType (p.at' off) = 1)
      (hl : labellen (p.at' off) (p.at' (off + 1)) = some l) (hin : off + 1 + l < p.len)
      (hrest : Spells p (off + 1 + l) w k) :
      Spells p off (p.at' off :: p.bytes (off + 1) l ++ w) (if k = 0 then 0 else k + l + 1)
  | pointer (off : ℕ) (w : List ℕ) (k : ℕ) (htype : labelType (p.at' off) = 3)
      (hin : off + 1 < p.len) (htarget : p.at' off % 64 * 256 + p.at' (off + 1) < p.len)
      (hrest : Spells p (p.at' off % 64 * 256 + p.at' (off + 1)) w k) : Spells p off w (k + 2)

theorem unpackGo_spells (p : Packet) (dstsiz src srcp : ℕ) (dst : List ℕ) (len : Option ℕ)
    (checked : ℕ) (hin : srcp < p.len) (hdst : dst.length < dstsiz) (w : List ℕ) (n : ℕ)
    (h : unpackGo p dstsiz src srcp dst len checked = some (w, n)) :
    ∃ w' k, Spells p srcp w' k ∧ w = dst ++ w' ∧ w.length ≤ dstsiz ∧
      (k = 0 ∨ checked + k < p.len) := by
  fun_induction unpackGo p dstsiz src srcp dst len checked with
  | case1 srcp dst len checked n' hn =>
    obtain ⟨rfl, -⟩ := Prod.mk.inj (Option.some.inj h)
    refine ⟨[0], 0, .root srcp hin hn, rfl, ?_, Or.inl rfl⟩
    simp only [List.length_append, List.length_singleton]
    omega
  | case2 => simp at h
  | case3 => simp at h
  | case4 srcp dst len checked n' hn htype l hl hfits ih =>
    simp only [not_or, not_le] at hfits
    have hlen : (dst ++ n' :: p.bytes (srcp + 1) l).length = dst.length + l + 1 := by
      simp only [List.length_append, List.length_cons, bytes_length]
      omega
    obtain ⟨w', k, hspells, rfl, hsize, hloop⟩ := ih hfits.2 (by omega) h
    refine ⟨_, _, .label srcp l w' k hn htype hl hfits.2 hspells, by simp [n'], hsize, ?_⟩
    split
    · exact Or.inl rfl
    · exact Or.inr (by omega)
  | case5 => simp at h
  | case6 => simp at h
  | case7 => simp at h
  | case8 srcp dst len checked n' hn htype htype' hin' target htarget hchecked ih =>
    obtain ⟨w', k, hspells, rfl, hsize, hloop⟩ := ih (by omega) hdst h
    exact ⟨w', k + 2, .pointer srcp w' k htype' (by omega) (by omega) hspells, rfl, hsize,
      Or.inr (by omega)⟩
  | case9 => simp at h

theorem spells_length (p : Packet) (off : ℕ) (w : List ℕ) (k : ℕ) (h : Spells p off w k) :
    0 < w.length := by
  induction h with
  | root off hin h => simp
  | label off l w k hne htype hl hin hrest ih => simp
  | pointer off w k htype hin htarget hrest ih => exact ih

theorem unpackGo_of_spells (p : Packet) (dstsiz src off : ℕ) (w : List ℕ) (k : ℕ) (h : Spells p off w k)
    (dst : List ℕ) (len : Option ℕ) (checked : ℕ) (hsize : dst.length + w.length ≤ dstsiz)
    (hloop : k = 0 ∨ checked + k < p.len) :
    ∃ n, unpackGo p dstsiz src off dst len checked = some (dst ++ w, n) := by
  induction h generalizing dst len checked with
  | root off hin h =>
    unfold unpackGo
    rw [if_pos h]
    exact ⟨_, rfl⟩
  | label off l w k hne htype hl hin hrest ih =>
    have hpos := spells_length p _ w k hrest
    simp only [List.length_append, List.length_cons, bytes_length] at hsize
    have hnext : (dst ++ p.at' off :: p.bytes (off + 1) l).length + w.length ≤ dstsiz := by
      simp only [List.length_append, List.length_cons, bytes_length]
      omega
    have hloop' : k = 0 ∨ checked + l + 1 + k < p.len := by
      split at hloop <;> omega
    obtain ⟨n, hn⟩ := ih _ len (checked + l + 1) hnext hloop'
    refine ⟨n, ?_⟩
    unfold unpackGo
    rw [if_neg hne, if_pos htype, hl]
    simp only
    rw [if_neg (by omega), hn]
    simp
  | pointer off w k htype hin htarget hrest ih =>
    have hne : p.at' off ≠ 0 := by
      intro hzero
      rw [hzero] at htype
      simp [labelType] at htype
    have hloop : checked + (k + 2) < p.len := hloop.resolve_left (by omega)
    obtain ⟨n, hn⟩ := ih dst (some (len.getD (off + 2 - src))) (checked + 2) hsize (Or.inr (by omega))
    refine ⟨n, ?_⟩
    unfold unpackGo
    rw [if_neg hne, if_neg (by omega), if_pos htype, if_neg (by omega)]
    simp only
    rw [if_neg (by omega), if_neg (by omega), hn]

/-- A name is taken out of a message when it fits, and the way to the last pointer is shorter than
the message; and it is what the labels and pointers spell. -/
theorem nsNameUnpack_iff (p : Packet) (src dstsiz : ℕ) (hsize : 0 < dstsiz) (w : List ℕ) :
    (∃ n, nsNameUnpack p src dstsiz = some (w, n)) ↔
      ∃ k, Spells p src w k ∧ w.length ≤ dstsiz ∧ (k = 0 ∨ k < p.len) := by
  unfold nsNameUnpack
  constructor
  · rintro ⟨n, hn⟩
    rw [Option.ite_none_left_eq_some] at hn
    obtain ⟨w', k, hspells, rfl, hfits, hloop⟩ := unpackGo_spells p dstsiz src src [] none 0 (by omega)
      hsize w n hn.2
    exact ⟨k, hspells, hfits, by omega⟩
  · rintro ⟨k, hspells, hfits, hloop⟩
    have hin : src < p.len := by
      cases hspells <;> omega
    obtain ⟨n, hn⟩ := unpackGo_of_spells p dstsiz src src w k hspells [] none 0 (by simpa using hfits)
      (by omega)
    exact ⟨n, by rw [if_neg (by omega), hn, List.nil_append]⟩

theorem unpackGo_last (p : Packet) (dstsiz src srcp : ℕ) (dst : List ℕ) (len : Option ℕ) (checked : ℕ)
    (hne : p.at' srcp ≠ 0) (hlast : p.len ≤ srcp + 1) :
    unpackGo p dstsiz src srcp dst len checked = none := by
  unfold unpackGo
  rw [if_neg hne]
  split
  · cases labellen (p.at' srcp) (p.at' (srcp + 1)) with
    | none => rfl
    | some l => exact if_pos (Or.inr (by omega))
  split
  · simp
  · rfl

theorem unpackGo_agree (p p' : Packet) (hlen : p'.len = p.len)
    (hat : ∀ i, i < p.len → p'.at' i = p.at' i) (dstsiz src srcp : ℕ) (dst : List ℕ) (len : Option ℕ)
    (checked : ℕ) (hin : srcp < p.len) :
    unpackGo p' dstsiz src srcp dst len checked = unpackGo p dstsiz src srcp dst len checked := by
  have hbytes : ∀ off l, off + l ≤ p.len → p'.bytes off l = p.bytes off l := by
    intro off l hl
    refine List.map_congr_left fun i hi => hat _ ?_
    have := List.mem_range.mp hi
    omega
  have hstuck : ∀ {srcp} dst len checked, srcp < p.len → p.at' srcp ≠ 0 → p.len ≤ srcp + 1 →
      unpackGo p' dstsiz src srcp dst len checked = none := by
    intro srcp dst len checked hin hn hlast
    exact unpackGo_last p' _ _ _ _ _ _ (by rwa [hat srcp hin]) (by omega)
  fun_induction unpackGo p dstsiz src srcp dst len checked with
  | case1 srcp dst len checked n hn =>
    unfold unpackGo
    rw [hat srcp hin, if_pos hn]
  | case2 srcp dst len checked n hn htype hl =>
    by_cases hlast : p.len ≤ srcp + 1
    · exact hstuck _ _ _ hin hn hlast
    · unfold unpackGo
      rw [hat srcp hin, hat (srcp + 1) (by omega), if_neg hn, if_pos htype, hl]
  | case3 srcp dst len checked n hn htype l hl hfits =>
    by_cases hlast : p.len ≤ srcp + 1
    · exact hstuck _ _ _ hin hn hlast
    · unfold unpackGo
      rw [hat srcp hin, hat (srcp + 1) (by omega), if_neg hn, if_pos htype, hl, hlen]
      exact if_pos hfits
  | case4 srcp dst len checked n hn htype l hl hfits ih =>
    simp only [not_or, not_le] at hfits
    rw [unpackGo]
    simp only
    rw [hat srcp hin, hat (srcp + 1) (by omega), if_neg hn, if_pos htype, hl]
    simp only
    rw [hlen, if_neg (by omega), hbytes (srcp + 1) l (by omega)]
    exact ih hfits.2
  | case5 srcp dst len checked n hn htype htype' hin' =>
    exact hstuck _ _ _ hin hn (by omega)
  | case6 srcp dst len checked n hn htype htype' hin' target htarget =>
    unfold unpackGo
    rw [hat srcp hin, hat (srcp + 1) (by omega), if_neg hn, if_neg htype, if_pos htype', hlen,
      if_neg hin']
    exact if_pos htarget
  | case7 srcp dst len checked n hn htype htype' hin' target htarget hchecked =>
    unfold unpackGo
    rw [hat srcp hin, hat (srcp + 1) (by omega), if_neg hn, if_neg htype, if_pos htype', hlen,
      if_neg hin']
    simp only
    rw [if_neg htarget, if_pos hchecked]
  | case8 srcp dst len checked n hn htype htype' hin' target htarget hchecked ih =>
    rw [unpackGo]
    simp only
    rw [hat srcp hin, hat (srcp + 1) (by omega), if_neg hn, if_neg htype, if_pos htype', hlen,
      if_neg hin']
    rw [if_neg htarget, if_neg hchecked]
    exact ih (by omega)
  | case9 srcp dst len checked n hn htype htype' =>
    unfold unpackGo
    rw [hat srcp hin, if_neg hn, if_neg htype, if_neg htype']

theorem nsNameUnpack_agree (p p' : Packet) (hlen : p'.len = p.len)
    (hat : ∀ i, i < p.len → p'.at' i = p.at' i) (src : ℕ) :
    nsNameUnpack p' src NS_MAXCDNAME = nsNameUnpack p src NS_MAXCDNAME := by
  unfold nsNameUnpack
  rw [hlen]
  split
  · rfl
  · exact unpackGo_agree p p' hlen hat _ _ _ _ _ _ (by omega)

theorem spells_bytes (p : Packet) (off : ℕ) (w : List ℕ) (k : ℕ) (h : Spells p off w k) :
    ∀ b ∈ w, b < 256 := by
  induction h with
  | root off hin h => simp
  | label off l w k hne htype hl hin hrest ih =>
    intro b hb
    rw [List.mem_append, List.mem_cons] at hb
    rcases hb with (rfl | hb) | hb
    · exact p.byte off
    · obtain ⟨i, -, rfl⟩ := List.mem_map.mp hb
      exact p.byte _
    · exact ih b hb
  | pointer off w k htype hin htarget hrest ih => exact ih

theorem unpackGo_len (p : Packet) (dstsiz src srcp : ℕ) (dst : List ℕ) (m checked : ℕ) (w : List ℕ)
    (n : ℕ) (h : unpackGo p dstsiz src srcp dst (some m) checked = some (w, n)) : n = m := by
  generalize hlen : some m = len at h
  fun_induction unpackGo p dstsiz src srcp dst len checked with
  | case1 srcp dst len checked n' hn =>
    subst hlen
    exact ((Prod.mk.inj (Option.some.inj h)).2).symm
  | case4 srcp dst len checked n' hn htype l hl hfits ih => exact ih hlen h
  | case8 srcp dst len checked n' hn htype htype' hin' target htarget hchecked ih =>
    subst hlen
    exact ih rfl h
  | _ => simp at h

theorem labellen_text (n next l : ℕ) (htype : labelType n = 0) (hl : labellen n next = some l) : l = n := by
  unfold labellen at hl
  rw [if_neg (by omega), if_neg (by omega)] at hl
  exact (Option.some.inj hl).symm

theorem unpackGo_skip (p : Packet) (dstsiz src srcp : ℕ) (dst : List ℕ) (checked : ℕ)
    (hsrc : src ≤ srcp) (hin : srcp < p.len) (w : List ℕ) (n : ℕ)
    (h : unpackGo p dstsiz src srcp dst none checked = some (w, n)) : skipGo p srcp = some (src + n) := by
  generalize hlen : none = len at h
  fun_induction unpackGo p dstsiz src srcp dst len checked with
  | case1 srcp dst len checked n' hn =>
    subst hlen
    have hn' : srcp + 1 - src = n := (Prod.mk.inj (Option.some.inj h)).2
    unfold skipGo
    rw [if_neg (by omega), if_pos hn]
    congr 1
    omega
  | case4 srcp dst len checked n' hn htype l hl hfits ih =>
    simp only [not_or, not_le] at hfits
    have hrest := ih (by omega) hfits.2 hlen h
    unfold skipGo
    rw [if_neg (by omega), if_neg hn]
    rcases htype with htype | htype
    · rw [if_pos htype]
      rwa [labellen_text _ _ _ htype hl] at hrest
    · rw [if_neg (by rw [htype]; simp), if_pos htype, hl]
      exact hrest
  | case8 srcp dst len checked n' hn htype htype' hin' target htarget hchecked ih =>
    subst hlen
    have hn' := unpackGo_len p dstsiz src _ dst _ _ w n h
    have hgetD : (none : Option ℕ).getD (srcp + 2 - src) = srcp + 2 - src := rfl
    rw [hgetD] at hn'
    unfold skipGo
    rw [if_neg (by omega), if_neg hn, if_neg (fun h0 => htype (Or.inl h0)),
      if_neg (fun h1 => htype (Or.inr h1)), if_pos htype', if_neg (by omega)]
    congr 1
    omega
  | case2 => simp at h
  | case3 => simp at h
  | case5 => simp at h
  | case6 => simp at h
  | case7 => simp at h
  | case9 => simp at h

theorem dnSkipname_of_unpack (p : Packet) (src : ℕ) (w : List ℕ) (n : ℕ)
    (h : nsNameUnpack p src NS_MAXCDNAME = some (w, n)) : dnSkipname p src = some n := by
  unfold nsNameUnpack at h
  rw [Option.ite_none_left_eq_some] at h
  unfold dnSkipname
  rw [unpackGo_skip p _ src src [] 0 le_rfl (by omega) w n h.2]
  simp

/-- The text that is made of a message can be seen, and does not start with a dot. -/
theorem shown_dnExpand (p : Packet) (src dstsiz : ℕ) (t : CStr) (n : ℕ)
    (h : dnExpand p src dstsiz = some (t, n)) : Shown t ∧ t.head? ≠ some '.' := by
  unfold dnExpand at h
  split at h
  · simp at h
  next w m hm =>
  obtain ⟨t', ht', heq⟩ := Option.map_eq_some_iff.mp h
  obtain ⟨k, hspells, -⟩ := (nsNameUnpack_iff p src _ (by decide) w).mp ⟨m, hm⟩
  have hshown := shown_ntop dstsiz w (spells_bytes p src w k hspells) .label 0 t' ht'
  rw [← (Prod.mk.inj heq).1]
  split
  · simp [Shown]
  · next hdot => exact ⟨hshown, hdot⟩

/-- What is taken out of a message: exactly a name that fits, with a way to its last pointer that is
shorter than the message. Who passes over it goes on at the same byte, and what lies behind the
message does not matter. -/
theorem nsNameUnpack_spec (p : Packet) (src : ℕ) (w : List ℕ) :
    ((∃ n, nsNameUnpack p src NS_MAXCDNAME = some (w, n)) ↔
        ∃ k, Spells p src w k ∧ w.length ≤ NS_MAXCDNAME ∧ (k = 0 ∨ k < p.len)) ∧
      (∀ n, nsNameUnpack p src NS_MAXCDNAME = some (w, n) → dnSkipname p src = some n) ∧
      ∀ p' : Packet, p'.len = p.len → (∀ i, i < p.len → p'.at' i = p.at' i) →
        nsNameUnpack p' src NS_MAXCDNAME = nsNameUnpack p src NS_MAXCDNAME :=
  ⟨nsNameUnpack_iff p src _ (by decide) w, fun n h => dnSkipname_of_unpack p src w n h,
    fun p' hlen hat => nsNameUnpack_agree p p' hlen hat src⟩

/-- The first loop of `irc_ns_name_pack`: `l` bytes are counted, and `k` are still to be passed. -/
def packGo : List ℕ → ℕ → ℕ → Option ℕ
  | [], _, _ => none
  | _ :: src, k + 1, l => packGo src k l
  | n :: src, 0, l =>
    match labellen n src.headI with
    | none => none
    | some l0 =>
      if NS_MAXCDNAME < l + l0 + 1 then none
      else if n = 0 then some (l + l0 + 1)
      else packGo src l0 (l + l0 + 1)

/-- `irc_ns_name_pack`, when no name was packed before. -/
def nsNamePack (src : List ℕ) (dstsiz : ℕ) : Option (List ℕ) :=
  match packGo src 0 0 with
  | none => none
  | some l => if dstsiz ≤ l then none else some (src.take l)

def put16 (n : ℕ) : List ℕ := [n / 256 % 256, n % 256]

def HFIXEDSZ : ℕ := 12
def QFIXEDSZ : ℕ := 4
def MAXPACKET : ℕ := 1024

/-- `irc_res_mkquery`; the two bytes of the identifier are set later. -/
def resMkquery (dname : CStr) (cls type : ℕ) : Option (List ℕ) :=
  match nsNamePton dname NS_MAXCDNAME with
  | none => none
  | some (tmp, _) =>
    (nsNamePack tmp (MAXPACKET - HFIXEDSZ - QFIXEDSZ)).map fun w =>
      [0, 0, 1, 0, 0, 1, 0, 0, 0, 0, 0, 0] ++ w ++ put16 type ++ put16 cls

def get16 (p : Packet) (off : ℕ) : ℕ := p.at' off * 256 + p.at' (off + 1)

def T_A : ℕ := 1
def T_CNAME : ℕ := 5
def T_PTR : ℕ := 12
def T_AAAA : ℕ := 28
def C_IN : ℕ := 1
def ANSWER_FIXED_SIZE : ℕ := 10
def HOSTBUF : ℕ := 355

/-- An address is taken as it stands in memory. -/
inductive Addr where
  | v4 (bytes : List ℕ)
  | v6 (bytes : List ℕ)
deriving DecidableEq

/-- What `proc_answer` puts into the request. -/
inductive Found where
  | addr (a : Addr)
  | name (hostbuf : CStr)

/-- The questions are passed over. -/
def skipQuestions (p : Packet) : ℕ → ℕ → ℕ
  | 0, current => current
  | qd + 1, current =>
    match dnSkipname p current with
    | none => current
    | some n => skipQuestions p qd (current + n + QFIXEDSZ)

/-- The answers, until one decides. -/
def readAnswers (p : Packet) (type : ℕ) : ℕ → ℕ → Option Found
  | 0, _ => none
  | an + 1, current =>
    if p.len ≤ current then none
    else
      match dnExpand p current HOSTBUF with
      | none => none
      | some (_, n) =>
        let current := current + n
        if p.len ≤ current + ANSWER_FIXED_SIZE then none
        else
          let rr := get16 p current
          let rdLength := get16 p (current + 8)
          let current := current + ANSWER_FIXED_SIZE
          if rr = T_A then
            if type ≠ T_A ∨ rdLength ≠ 4 then none else some (.addr (.v4 (p.bytes current 4)))
          else if rr = T_AAAA then
            if type ≠ T_AAAA ∨ rdLength ≠ 16 then none else some (.addr (.v6 (p.bytes current 16)))
          else if rr = T_PTR then
            if type ≠ T_PTR then none
            else (dnExpand p current HOSTBUF).map fun r => .name r.1
          else if rr = T_CNAME then readAnswers p type an (current + rdLength)
          else none

def qdcount (p : Packet) : ℕ := get16 p 4
def ancount (p : Packet) : ℕ := get16 p 6
def rcode (p : Packet) : ℕ := p.at' 3 % 16

/-- The identifier, in whatever order its bytes stand. -/
def idOf (p : Packet) : ℕ := p.at' 0 + 256 * p.at' 1

def procAnswer (type : ℕ) (p : Packet) : Option Found :=
  readAnswers p type (ancount p) (skipQuestions p (qdcount p) HFIXEDSZ)

end IrcdHybrid.DnsMessages
