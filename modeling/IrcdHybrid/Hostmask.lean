import IrcdHybrid.Netmask
import IrcdHybrid.BestScan
import IrcdHybrid.MatchTail

/-!
The access list. Entries are filed in a table of buckets under a hash of the
mask's leading bits, rounded down to whole groups, or of the text right of the
first dot past the last wildcard; a query probes the few buckets its address and
name hash to. `AccessList` is what the table stands for: one list, latest entry
first. A host mask is found where it should be as long as the text it is filed
under has no escape in it, because the hash reads the backslash as a letter.
-/

namespace IrcdHybrid.Hostmask

open CString Netmask BestScan Match

def atableSize : ℕ := 0x1000

abbrev Slot := Fin atableSize

/-- `v & (ATABLE_SIZE - 1)`. -/
def slot (v : BitVec 32) : Slot := ⟨v.toNat % atableSize, Nat.mod_lt _ (by decide)⟩

def hashIpv4 (addr : BitVec 32) (bits : ℕ) : Slot :=
  if bits ≠ 0 then
    let av := addr &&& leading 32 bits
    slot (av ^^^ (av >>> 12) ^^^ (av >>> 24))
  else slot 0

/-- The loop of `hash_ipv6` over the bytes not yet read. -/
def hashBytes : List (BitVec 8) → ℕ → BitVec 32 → BitVec 32
  | [], _, v => v
  | byte :: rest, bits, v =>
    if 8 ≤ bits then hashBytes rest (bits - 8) (v ^^^ byte.setWidth 32)
    else if bits ≠ 0 then v ^^^ (byte &&& leading 8 bits).setWidth 32
    else v

def bytes (addr : In6Addr) : List (BitVec 8) := (List.range 16).map (byteAt addr)

def hashIpv6 (addr : In6Addr) (bits : ℕ) : Slot := slot (hashBytes (bytes addr) bits 0)

def hashText (start : CStr) : Slot :=
  slot (start.foldl (fun h c => (h <<< 4) - (h + BitVec.ofNat 32 (toLower c).toNat)) 0)

/-- The backward scan of `get_mask_hash` over the unread text in reverse order;
`hp` is the text right of the last dot met, and no wildcard at all gives `none`. -/
def scanBack : CStr → CStr → CStr → Option CStr
  | [], _, _ => none
  | c :: rest, read, hp =>
    if isWild c then some hp else scanBack rest (c :: read) (if c = '.' then read else hp)

/-- The text that is hashed for a host mask. -/
def filedText (text : CStr) : CStr := (scanBack text.reverse [] []).getD text

def getMaskHash (text : CStr) : Slot := hashText (filedText text)

inductive MaskitemType where
  | client | server | kline | dline | exempt | cluster | xline | uline | gline | cresv | nresv
  | service | oper
  deriving DecidableEq, Repr

/-- What the lookup reads of a configuration item; `ptr` is its address. -/
structure MaskItem where
  ptr : ℕ
  host : CStr
  user : Option CStr
  passwd : Option CStr
  needPassword : Bool
  encrypted : Bool

structure AddressRec where
  type : MaskitemType
  mask : Mask
  conf : MaskItem
  precedence : ℕ
  mask_eq : mask = parseNetmask conf.host

def isHost : Mask → Bool
  | .host => true
  | _ => false

/-- The bucket a mask is filed in; only whole groups of bits are hashed. -/
def slotOf (host : CStr) : Slot :=
  match parseNetmask host with
  | .ipv4 addr bits => hashIpv4 addr (bits - bits % 8)
  | .ipv6 addr bits => hashIpv6 addr (bits - bits % 16)
  | .host => getMaskHash host

/-- `atable` and the static counter of `add_conf_by_address`. -/
structure Atable where
  bucket : Slot → List AddressRec
  precValue : ℕ

def Atable.empty : Atable := ⟨fun _ => [], 0xFFFFFFFF⟩

def addressRec (type : MaskitemType) (conf : MaskItem) (precValue : ℕ) : AddressRec :=
  ⟨type, parseNetmask conf.host, conf, precValue, rfl⟩

/-- `prec_value--` on an unsigned int. -/
def decr (precValue : ℕ) : ℕ := (precValue + (2 ^ 32 - 1)) % 2 ^ 32

def addConfByAddress (t : Atable) (type : MaskitemType) (conf : MaskItem) : Atable :=
  let hv := slotOf conf.host
  ⟨Function.update t.bucket hv (addressRec type conf t.precValue :: t.bucket hv),
    decr t.precValue⟩

def isConf (conf : MaskItem) (r : AddressRec) : Bool := r.conf.ptr == conf.ptr

def deleteOneAddressConf (t : Atable) (address : CStr) (conf : MaskItem) : Atable :=
  let hv := slotOf address
  ⟨Function.update t.bucket hv ((t.bucket hv).eraseP (isConf conf)), t.precValue⟩

/-- A socket address has room for both families; `fam` says which is meant. -/
structure SsAddr where
  sin : BitVec 32
  sin6 : In6Addr

inductive Family where
  | inet
  | inet6
  | other
  deriving DecidableEq, Repr

structure Query where
  name : Option CStr
  addr : Option SsAddr
  type : MaskitemType
  fam : Family
  username : Option CStr
  password : Option CStr

section Lookup

variable (crypt : CStr → CStr → Option CStr)

def matchConfPassword (password : Option CStr) (conf : MaskItem) : Bool :=
  match password, conf.passwd with
  | some (c :: pass), some (d :: stored) =>
    if conf.encrypted then crypt (c :: pass) (d :: stored) == some (d :: stored)
    else c :: pass == d :: stored
  | _, _ => false

def cmpfunc (doMatch : Bool) : CStr → CStr → ℕ := if doMatch then matchMask else irccmp

/-- The conditions every probe asks: type, user and password. -/
def condTest (q : Query) (doMatch : Bool) (r : AddressRec) : Bool :=
  decide (r.type = q.type) &&
  (match q.username, r.conf.user with
    | none, _ => true
    | some username, some user => cmpfunc doMatch user username == 0
    -- the code hands a null pointer to the comparison
    | some _, none => false) &&
  (r.conf.needPassword || r.conf.passwd.isNone || matchConfPassword crypt q.password r.conf)

def ipv6Test (q : Query) (doMatch : Bool) (addr : SsAddr) (r : AddressRec) : Bool :=
  condTest crypt q doMatch r &&
  match r.mask with
  | .ipv6 mask bits => matchIpv6 addr.sin6 mask bits
  | _ => false

def ipv4Test (q : Query) (doMatch : Bool) (addr : SsAddr) (r : AddressRec) : Bool :=
  condTest crypt q doMatch r &&
  match r.mask with
  | .ipv4 mask bits => matchIpv4 addr.sin mask bits
  | _ => false

def hostTest (q : Query) (doMatch : Bool) (name : CStr) (r : AddressRec) : Bool :=
  condTest crypt q doMatch r && isHost r.mask && cmpfunc doMatch r.conf.host name == 0

/-- `for (b = top; b >= 0; b -= step)`. -/
def downTo (top step : ℕ) : List ℕ := (List.range (top / step + 1)).map (fun k => top - step * k)

def ipv6Probes (addr : SsAddr) : List Slot := (downTo 128 16).map (hashIpv6 addr.sin6)

def ipv4Probes (addr : SsAddr) : List Slot := (downTo 32 8).map (hashIpv4 addr.sin)

/-- The suffixes of the name behind its dots, in order. -/
def afterDots : CStr → List CStr
  | [] => []
  | c :: p => if c = '.' then p :: afterDots p else afterDots p

def hostProbes (name : CStr) : List Slot := (name :: afterDots name).map hashText ++ [slot 0]

/-- Walk the buckets in order, keeping the best entry. -/
def probe (t : Atable) (accepts : AddressRec → Bool) (probes : List Slot)
    (s : Best AddressRec) : Best AddressRec :=
  scan accepts AddressRec.precedence s (probes.flatMap t.bucket)

def probeAddr (t : Atable) (q : Query) (doMatch : Bool) : Best AddressRec :=
  match q.addr, q.fam with
  | some addr, .inet6 => probe t (ipv6Test crypt q doMatch addr) (ipv6Probes addr) start
  | some addr, .inet => probe t (ipv4Test crypt q doMatch addr) (ipv4Probes addr) start
  | _, _ => start

def probeName (t : Atable) (q : Query) (doMatch : Bool) (s : Best AddressRec) :
    Best AddressRec :=
  match q.name with
  | some name => probe t (hostTest crypt q doMatch name) (hostProbes name) s
  | none => s

/-- The entry whose `conf` is returned. -/
def findConfByAddress (t : Atable) (q : Query) (doMatch : Bool) : Option AddressRec :=
  (probeName crypt t q doMatch (probeAddr crypt t q doMatch)).item

/-- The stored entries, the latest first. -/
structure AccessList where
  entries : List AddressRec
  precValue : ℕ

inductive Op where
  | add (type : MaskitemType) (conf : MaskItem)
  | delete (address : CStr) (conf : MaskItem)

def AccessList.apply (l : AccessList) : Op → AccessList
  | .add type conf => ⟨addressRec type conf l.precValue :: l.entries, decr l.precValue⟩
  | .delete address conf =>
    ⟨l.entries.eraseP (fun r => isConf conf r && slotOf r.conf.host == slotOf address),
      l.precValue⟩

def AccessList.run (ops : List Op) : AccessList := ops.foldl AccessList.apply ⟨[], 0xFFFFFFFF⟩

def Atable.apply (t : Atable) : Op → Atable
  | .add type conf => addConfByAddress t type conf
  | .delete address conf => deleteOneAddressConf t address conf

def Atable.run (ops : List Op) : Atable := ops.foldl Atable.apply Atable.empty

/-- The entry's own test accepts the query. -/
def accepts (q : Query) (doMatch : Bool) (r : AddressRec) : Bool :=
  condTest crypt q doMatch r &&
  match r.mask with
  | .ipv6 mask bits =>
    q.addr.any (fun addr => decide (q.fam = .inet6) && matchIpv6 addr.sin6 mask bits)
  | .ipv4 mask bits =>
    q.addr.any (fun addr => decide (q.fam = .inet) && matchIpv4 addr.sin mask bits)
  | .host => q.name.any (fun name => cmpfunc doMatch r.conf.host name == 0)

/-- No stored entry that accepts the query has a higher precedence. -/
def Highest (l : AccessList) (q : Query) (r : AddressRec) : Prop :=
  r ∈ l.entries ∧ accepts crypt q true r = true ∧
    ∀ r' ∈ l.entries, accepts crypt q true r' = true → r'.precedence ≤ r.precedence

/-- The result is what a scan of all stored entries gives. -/
def FindsBest (l : AccessList) (q : Query) (result : Option AddressRec) : Prop :=
  match result with
  | some r => Highest crypt l q r
  | none => ∀ r ∈ l.entries, accepts crypt q true r = false

end Lookup

theorem mem_downTo (top step bits : ℕ) (hstep : 0 < step) (hdvd : step ∣ top) (hb : bits ≤ top) :
    bits - bits % step ∈ downTo top step := by
  obtain ⟨k, rfl⟩ := hdvd
  have hdiv : bits / step ≤ k := by
    have := Nat.div_le_div_right (c := step) hb
    rwa [Nat.mul_div_cancel_left k hstep] at this
  refine List.mem_map.mpr ⟨k - bits / step, ?_, ?_⟩
  · rw [Nat.mul_div_cancel_left k hstep, List.mem_range]
    exact Nat.lt_succ_of_le (Nat.sub_le _ _)
  · show step * k - step * (k - bits / step) = bits - bits % step
    have hmod : step * (bits / step) + bits % step = bits := Nat.div_add_mod bits step
    have hle : step * (bits / step) ≤ step * k := Nat.mul_le_mul_left step hdiv
    rw [Nat.mul_sub]
    omega

theorem hashIpv4_eq (addr mask : BitVec 32) (bits : ℕ) (hb : bits ≤ 32)
    (h : matchIpv4 addr mask bits = true) :
    hashIpv4 mask (bits - bits % 8) = hashIpv4 addr (bits - bits % 8) := by
  unfold hashIpv4
  rw [matchIpv4_leading addr mask bits _ hb (Nat.sub_le _ _) h]

/-- A whole number of bytes is hashed from those bytes alone. -/
theorem hashBytes_congr (n : ℕ) (xs ys : List (BitVec 8)) (v : BitVec 32)
    (h : xs.take n = ys.take n) : hashBytes xs (8 * n) v = hashBytes ys (8 * n) v := by
  induction n generalizing xs ys v with
  | zero => cases xs <;> cases ys <;> simp [hashBytes]
  | succ n ih =>
    cases xs with
    | nil =>
      cases ys with
      | nil => rfl
      | cons y ys => simp at h
    | cons x xs =>
      cases ys with
      | nil => simp at h
      | cons y ys =>
        rw [List.take_succ_cons, List.take_succ_cons] at h
        obtain ⟨rfl, htail⟩ := List.cons.inj h
        have hge : 8 ≤ 8 * (n + 1) := by omega
        simp only [hashBytes, if_pos hge]
        exact ih xs ys _ htail

theorem hashIpv6_eq (addr mask : In6Addr) (bits : ℕ) (h : matchIpv6 addr mask bits = true) :
    hashIpv6 mask (bits - bits % 16) = hashIpv6 addr (bits - bits % 16) := by
  obtain ⟨n, hn⟩ : ∃ n, bits - bits % 16 = 8 * n := ⟨2 * (bits / 16), by omega⟩
  unfold hashIpv6
  rw [hn]
  apply congrArg slot
  apply hashBytes_congr
  unfold bytes
  rw [← List.map_take, ← List.map_take, List.take_range]
  apply List.map_congr_left
  intro i hi
  have hlt : i < bits / 8 := by
    have := List.mem_range.mp hi
    omega
  exact matchIpv6_byteAt addr mask bits i hlt h

theorem hashText_eq (s t : CStr) (h : SameFold s t) : hashText s = hashText t := by
  have hfold : ∀ text : CStr, hashText text = slot ((text.map toLower).foldl
      (fun h c => (h <<< 4) - (h + BitVec.ofNat 32 c.toNat)) 0) := by
    intro text
    rw [List.foldl_map]
    rfl
  rw [hfold, hfold, h]

/-- What `scanBack` has found right of the place it has reached. -/
def FirstDot (read hp : CStr) : Prop :=
  ('.' ∉ read ∧ hp = []) ∨ ∃ r, read = r ++ '.' :: hp ∧ '.' ∉ r

theorem firstDot_cons (c : Char) (read hp : CStr) (h : FirstDot read hp) :
    FirstDot (c :: read) (if c = '.' then read else hp) := by
  by_cases hc : c = '.'
  · rw [if_pos hc]
    exact Or.inr ⟨[], by rw [hc]; rfl, by simp⟩
  · rw [if_neg hc]
    rcases h with ⟨hread, rfl⟩ | ⟨r, rfl, hr⟩
    · exact Or.inl ⟨by simp [hread, Ne.symm hc], rfl⟩
    · exact Or.inr ⟨c :: r, rfl, by simp [hr, Ne.symm hc]⟩

/-- Either a wildcard is met, and the first dot behind the last one is known,
or the whole text is free of them. -/
theorem scanBack_spec (rev read hp : CStr) (hread : ∀ c ∈ read, isWild c = false)
    (hdot : FirstDot read hp) :
    (∃ pre last found, rev.reverse ++ read = pre ++ last ∧ (∀ c ∈ last, isWild c = false) ∧
      FirstDot last found ∧ scanBack rev read hp = some found) ∨
    ((∀ c ∈ rev.reverse ++ read, isWild c = false) ∧ scanBack rev read hp = none) := by
  induction rev generalizing read hp with
  | nil => exact Or.inr ⟨by simpa using hread, rfl⟩
  | cons c rest ih =>
    by_cases hc : isWild c = true
    · exact Or.inl ⟨rest.reverse ++ [c], read, hp, by simp, hread, hdot, by simp [scanBack, hc]⟩
    · have hc' : isWild c = false := by simpa using hc
      have hcons : ∀ d ∈ c :: read, isWild d = false := by
        intro d hd
        rcases List.mem_cons.mp hd with rfl | hd
        · exact hc'
        · exact hread d hd
      have hrest := ih (c :: read) _ hcons (firstDot_cons c read hp hdot)
      have hscan : scanBack (c :: rest) read hp =
          scanBack rest (c :: read) (if c = '.' then read else hp) := by
        simp [scanBack, hc']
      have htext : (c :: rest).reverse ++ read = rest.reverse ++ c :: read := by simp
      rw [hscan, htext]
      exact hrest

/-- The filed text is empty, or the mask without any wildcard, or it follows a
dot at the end of the mask with no wildcard in it. -/
theorem filedText_spec (text : CStr) :
    filedText text = [] ∨
    (filedText text = text ∧ ∀ c ∈ text, isWild c = false) ∨
    ∃ pre, text = pre ++ '.' :: filedText text ∧ ∀ c ∈ filedText text, isWild c = false := by
  have hspec := scanBack_spec text.reverse [] [] (by simp) (Or.inl ⟨by simp, rfl⟩)
  rw [List.reverse_reverse, List.append_nil] at hspec
  rcases hspec with ⟨pre, last, found, htext, hwild, hdot, hscan⟩ | ⟨hwild, hscan⟩
  · have hfiled : filedText text = found := by simp [filedText, hscan]
    rcases hdot with ⟨_, rfl⟩ | ⟨r, rfl, _⟩
    · exact Or.inl hfiled
    · refine Or.inr (Or.inr ⟨pre ++ r, ?_, ?_⟩)
      · rw [hfiled, htext]
        simp
      · intro c hc
        rw [hfiled] at hc
        exact hwild c (by simp [hc])
  · exact Or.inr (Or.inl ⟨by simp [filedText, hscan], hwild⟩)

theorem mem_afterDots (u t : CStr) : t ∈ afterDots (u ++ '.' :: t) := by
  induction u with
  | nil => simp [afterDots]
  | cons c u ih =>
    rw [List.cons_append, afterDots]
    split
    · exact List.mem_cons_of_mem _ ih
    · exact ih

theorem hashText_mem_hostProbes (name p : CStr) (h : p = name ∨ p ∈ afterDots name) :
    hashText p ∈ hostProbes name := by
  apply List.mem_append_left
  exact List.mem_map_of_mem (List.mem_cons.mpr h)

/-- A host mask whose filed text has no escape is looked for in its own bucket
by every name it accepts. -/
theorem getMaskHash_mem_hostProbes (host name : CStr) (hesc : '\\' ∉ filedText host)
    (h : matchMask host name = 0) : getMaskHash host ∈ hostProbes name := by
  unfold getMaskHash
  have hplain : ∀ c ∈ filedText host, isWild c = false → Plain c := by
    intro c hc hwild
    exact ⟨hwild, fun heq => hesc (heq ▸ hc)⟩
  rcases filedText_spec host with hnil | ⟨hself, hwild⟩ | ⟨pre, htext, hwild⟩
  · rw [hnil]
    exact List.mem_append_right _ (List.mem_singleton.mpr rfl)
  · have hsame : SameFold name host := by
      apply sameFold_of_matchMask host name _ h
      intro c hc
      exact hplain c (by rw [hself]; exact hc) (hwild c hc)
    rw [hself, ← hashText_eq _ _ hsame]
    exact hashText_mem_hostProbes name name (Or.inl rfl)
  · rw [htext] at h
    obtain ⟨u, t, hname, hsame⟩ := endsIn_of_matchMask ('.' :: filedText host) name (by simp)
      (by
        intro c hc
        rcases List.mem_cons.mp hc with rfl | hc
        · decide
        · exact hplain c hc (hwild c hc)) pre h
    -- the dot folds with nothing but itself
    cases t with
    | nil => simp [SameFold] at hsame
    | cons d t =>
      obtain ⟨hd, ht⟩ := List.cons.inj hsame
      obtain rfl := (toLower_eq_iff_of_unfolded '.' d (by decide)).mp hd
      rw [← hashText_eq _ _ ht]
      apply hashText_mem_hostProbes
      rw [hname]
      exact Or.inr (mem_afterDots u t)

structure Holds (t : Atable) (l : AccessList) : Prop where
  precValue_eq : t.precValue = l.precValue
  bucket_eq : ∀ hv, t.bucket hv = l.entries.filter (fun r => slotOf r.conf.host == hv)

theorem holds_empty : Holds Atable.empty ⟨[], 0xFFFFFFFF⟩ := ⟨rfl, fun _ => rfl⟩

theorem holds_add (t : Atable) (l : AccessList) (type : MaskitemType) (conf : MaskItem)
    (h : Holds t l) : Holds (t.apply (.add type conf)) (l.apply (.add type conf)) := by
  obtain ⟨hprec, hbucket⟩ := h
  refine ⟨congrArg decr hprec, ?_⟩
  intro hv
  show Function.update t.bucket (slotOf conf.host) _ hv =
    (addressRec type conf l.precValue :: l.entries).filter _
  by_cases hslot : slotOf conf.host = hv
  · subst hslot
    rw [Function.update_self, List.filter_cons_of_pos (by simp [addressRec]), hbucket, hprec]
  · rw [Function.update_of_ne (Ne.symm hslot), List.filter_cons_of_neg (by simpa [addressRec]),
      hbucket]

theorem holds_delete (t : Atable) (l : AccessList) (address : CStr) (conf : MaskItem)
    (h : Holds t l) : Holds (t.apply (.delete address conf)) (l.apply (.delete address conf)) := by
  obtain ⟨hprec, hbucket⟩ := h
  refine ⟨hprec, ?_⟩
  intro hv
  show Function.update t.bucket (slotOf address) _ hv = (l.entries.eraseP _).filter _
  by_cases hslot : slotOf address = hv
  · subst hslot
    rw [Function.update_self, hbucket, List.eraseP_filter]
  · rw [Function.update_of_ne (Ne.symm hslot), hbucket]
    -- the entry that goes, if any, is filed elsewhere
    rcases List.exists_or_eq_self_of_eraseP
      (fun r => isConf conf r && slotOf r.conf.host == slotOf address) l.entries with
      hsame | ⟨r, l₁, l₂, _, hr, hl, herase⟩
    · rw [hsame]
    · have hother : ¬ (slotOf r.conf.host == hv) = true := by
        simp only [Bool.and_eq_true, beq_iff_eq] at hr ⊢
        exact fun heq => hslot (hr.2.symm.trans heq)
      rw [herase, hl, List.filter_append, List.filter_append, List.filter_cons, if_neg hother]

theorem holds_apply (t : Atable) (l : AccessList) (op : Op) (h : Holds t l) :
    Holds (t.apply op) (l.apply op) := by
  cases op with
  | add type conf => exact holds_add t l type conf h
  | delete address conf => exact holds_delete t l address conf h

theorem holds_run (ops : List Op) : Holds (Atable.run ops) (AccessList.run ops) := by
  have hfold : ∀ t l, Holds t l → Holds (ops.foldl Atable.apply t)
      (ops.foldl AccessList.apply l) := by
    induction ops with
    | nil => exact fun _ _ h => h
    | cons op ops ih => exact fun t l h => ih _ _ (holds_apply t l op h)
  exact hfold _ _ holds_empty

theorem mem_flatMap_bucket (t : Atable) (l : AccessList) (h : Holds t l) (probes : List Slot)
    (r : AddressRec) :
    r ∈ probes.flatMap t.bucket ↔ r ∈ l.entries ∧ slotOf r.conf.host ∈ probes := by
  rw [List.mem_flatMap]
  constructor
  · intro ⟨hv, hmem, hr⟩
    rw [h.bucket_eq, List.mem_filter, beq_iff_eq] at hr
    exact ⟨hr.1, hr.2 ▸ hmem⟩
  · intro ⟨hr, hmem⟩
    refine ⟨_, hmem, ?_⟩
    rw [h.bucket_eq, List.mem_filter]
    exact ⟨hr, beq_iff_eq.mpr rfl⟩

section Candidates

variable (crypt : CStr → CStr → Option CStr)

def addrCandidates (t : Atable) (q : Query) : List AddressRec :=
  match q.addr, q.fam with
  | some addr, .inet6 =>
    ((ipv6Probes addr).flatMap t.bucket).filter (ipv6Test crypt q true addr)
  | some addr, .inet =>
    ((ipv4Probes addr).flatMap t.bucket).filter (ipv4Test crypt q true addr)
  | _, _ => []

def nameCandidates (t : Atable) (q : Query) : List AddressRec :=
  match q.name with
  | some name => ((hostProbes name).flatMap t.bucket).filter (hostTest crypt q true name)
  | none => []

def candidates (t : Atable) (q : Query) : List AddressRec :=
  addrCandidates crypt t q ++ nameCandidates crypt t q

theorem isBest_probeAddr (t : Atable) (q : Query) :
    IsBest AddressRec.precedence (addrCandidates crypt t q) (probeAddr crypt t q true) := by
  have hstart := isBest_start AddressRec.precedence
  unfold addrCandidates probeAddr
  split
  · exact isBest_scan _ _ [] _ _ hstart
  · exact isBest_scan _ _ [] _ _ hstart
  · exact hstart

theorem isBest_probeName (t : Atable) (q : Query) (seen : List AddressRec) (s : Best AddressRec)
    (h : IsBest AddressRec.precedence seen s) :
    IsBest AddressRec.precedence (seen ++ nameCandidates crypt t q)
      (probeName crypt t q true s) := by
  unfold nameCandidates probeName
  split
  · exact isBest_scan _ _ seen _ _ h
  · simpa using h

theorem isBest_find (t : Atable) (q : Query) :
    IsBest AddressRec.precedence (candidates crypt t q)
      (probeName crypt t q true (probeAddr crypt t q true)) :=
  isBest_probeName crypt t q _ _ (isBest_probeAddr crypt t q)

/-- The bucket of the entry is among those the lookup walks: an address mask, or
a filed text without escape, or a name that happens to hash there as well. -/
def Findable (q : Query) (r : AddressRec) : Prop :=
  isHost r.mask = false ∨ '\\' ∉ filedText r.conf.host ∨
    ∃ name, q.name = some name ∧ getMaskHash r.conf.host ∈ hostProbes name

theorem slotOf_eq (r : AddressRec) :
    slotOf r.conf.host = match r.mask with
      | .ipv4 addr bits => hashIpv4 addr (bits - bits % 8)
      | .ipv6 addr bits => hashIpv6 addr (bits - bits % 16)
      | .host => getMaskHash r.conf.host := by
  rw [r.mask_eq]
  rfl

theorem mask_bitsFit (r : AddressRec) : BitsFit r.mask := by
  rw [r.mask_eq]
  exact parseNetmask_bitsFit r.conf.host

theorem slotOf_mem_ipv4Probes (r : AddressRec) (addr : SsAddr) (mask : BitVec 32) (bits : ℕ)
    (hmask : r.mask = .ipv4 mask bits) (hmatch : matchIpv4 addr.sin mask bits = true) :
    slotOf r.conf.host ∈ ipv4Probes addr := by
  have hfit := mask_bitsFit r
  rw [slotOf_eq]
  rw [hmask] at hfit ⊢
  refine List.mem_map.mpr ⟨bits - bits % 8, mem_downTo 32 8 bits (by omega) ⟨4, rfl⟩ hfit, ?_⟩
  exact (hashIpv4_eq addr.sin mask bits hfit hmatch).symm

theorem slotOf_mem_ipv6Probes (r : AddressRec) (addr : SsAddr) (mask : In6Addr) (bits : ℕ)
    (hmask : r.mask = .ipv6 mask bits) (hmatch : matchIpv6 addr.sin6 mask bits = true) :
    slotOf r.conf.host ∈ ipv6Probes addr := by
  have hfit := mask_bitsFit r
  rw [slotOf_eq]
  rw [hmask] at hfit ⊢
  refine List.mem_map.mpr ⟨bits - bits % 16, mem_downTo 128 16 bits (by omega) ⟨8, rfl⟩ hfit, ?_⟩
  exact (hashIpv6_eq addr.sin6 mask bits hmatch).symm

theorem candidates_sound (t : Atable) (l : AccessList) (h : Holds t l) (q : Query)
    (r : AddressRec) (hr : r ∈ candidates crypt t q) :
    r ∈ l.entries ∧ accepts crypt q true r = true ∧ Findable q r := by
  rcases List.mem_append.mp hr with hr | hr
  · unfold addrCandidates at hr
    split at hr
    · next addr haddr hfam =>
      obtain ⟨hmem, htest⟩ := List.mem_filter.mp hr
      refine ⟨((mem_flatMap_bucket t l h _ r).mp hmem).1, ?_⟩
      unfold ipv6Test at htest
      unfold accepts Findable
      rw [haddr, hfam]
      cases hmask : r.mask <;> simp_all [isHost]
    · next addr haddr hfam =>
      obtain ⟨hmem, htest⟩ := List.mem_filter.mp hr
      refine ⟨((mem_flatMap_bucket t l h _ r).mp hmem).1, ?_⟩
      unfold ipv4Test at htest
      unfold accepts Findable
      rw [haddr, hfam]
      cases hmask : r.mask <;> simp_all [isHost]
    · simp at hr
  · unfold nameCandidates at hr
    split at hr
    · next name hname =>
      obtain ⟨hmem, htest⟩ := List.mem_filter.mp hr
      obtain ⟨hentry, hprobe⟩ := (mem_flatMap_bucket t l h _ r).mp hmem
      have hslot := slotOf_eq r
      refine ⟨hentry, ?_⟩
      unfold hostTest at htest
      unfold accepts Findable
      rw [hname]
      cases hmask : r.mask <;> simp_all [isHost]
    · simp at hr

theorem candidates_complete (t : Atable) (l : AccessList) (h : Holds t l) (q : Query)
    (r : AddressRec) (hr : r ∈ l.entries) (hacc : accepts crypt q true r = true)
    (hfind : Findable q r) : r ∈ candidates crypt t q := by
  have hslot := slotOf_eq r
  unfold accepts at hacc
  obtain ⟨hcond, hmatch⟩ := Bool.and_eq_true_iff.mp hacc
  cases hmask : r.mask with
  | host =>
    rw [hmask] at hmatch hslot
    obtain ⟨name, hname, hcmp⟩ := (Option.any_eq_true _ _).mp hmatch
    have hprobe : getMaskHash r.conf.host ∈ hostProbes name := by
      rcases hfind with hip | hesc | ⟨name', hname', hprobe⟩
      · simp [hmask, isHost] at hip
      · exact getMaskHash_mem_hostProbes r.conf.host name hesc (beq_iff_eq.mp hcmp)
      · rw [hname] at hname'
        rwa [Option.some.inj hname']
    refine List.mem_append_right _ ?_
    unfold nameCandidates
    rw [hname]
    refine List.mem_filter.mpr ⟨(mem_flatMap_bucket t l h _ r).mpr ⟨hr, hslot ▸ hprobe⟩, ?_⟩
    simp [hostTest, hcond, hmask, isHost, hcmp]
  | ipv4 mask bits =>
    rw [hmask] at hmatch
    obtain ⟨addr, haddr, hmatch⟩ := (Option.any_eq_true _ _).mp hmatch
    obtain ⟨hfam, hmatch⟩ := Bool.and_eq_true_iff.mp hmatch
    have hprobe := slotOf_mem_ipv4Probes r addr mask bits hmask hmatch
    refine List.mem_append_left _ ?_
    unfold addrCandidates
    rw [haddr, of_decide_eq_true hfam]
    refine List.mem_filter.mpr ⟨(mem_flatMap_bucket t l h _ r).mpr ⟨hr, hprobe⟩, ?_⟩
    simp [ipv4Test, hcond, hmask, hmatch]
  | ipv6 mask bits =>
    rw [hmask] at hmatch
    obtain ⟨addr, haddr, hmatch⟩ := (Option.any_eq_true _ _).mp hmatch
    obtain ⟨hfam, hmatch⟩ := Bool.and_eq_true_iff.mp hmatch
    have hprobe := slotOf_mem_ipv6Probes r addr mask bits hmask hmatch
    refine List.mem_append_left _ ?_
    unfold addrCandidates
    rw [haddr, of_decide_eq_true hfam]
    refine List.mem_filter.mpr ⟨(mem_flatMap_bucket t l h _ r).mpr ⟨hr, hprobe⟩, ?_⟩
    simp [ipv6Test, hcond, hmask, hmatch]

/-- The hashed lookup agrees with a scan of all stored entries exactly when
nothing accepts the query, or one of the best entries can be found: its
precedence has not run down to zero, and its bucket is probed. -/
theorem findConfByAddress_best_iff (ops : List Op) (q : Query) :
    FindsBest crypt (AccessList.run ops) q (findConfByAddress crypt (Atable.run ops) q true) ↔
      (∀ r ∈ (AccessList.run ops).entries, accepts crypt q true r = false) ∨
      ∃ r, Highest crypt (AccessList.run ops) q r ∧ r.precedence ≠ 0 ∧ Findable q r := by
  have hold := holds_run ops
  have hbest := isBest_find crypt (Atable.run ops) q
  have hsound := candidates_sound crypt (Atable.run ops) (AccessList.run ops) hold q
  have hcomplete := candidates_complete crypt (Atable.run ops) (AccessList.run ops) hold q
  unfold findConfByAddress
  constructor
  · intro hfinds
    cases hitem : (probeName crypt (Atable.run ops) q true
        (probeAddr crypt (Atable.run ops) q true)).item with
    | none =>
      rw [hitem] at hfinds
      exact Or.inl hfinds
    | some r =>
      rw [hitem] at hfinds
      have hrank := hbest.rank_item r hitem
      have hfind := (hsound r (hbest.item_mem r hitem)).2.2
      exact Or.inr ⟨r, hfinds, by omega, hfind⟩
  · intro hcond
    rcases hcond with hnone | ⟨r, ⟨hr, hacc, hmax⟩, hprec, hfind⟩
    · cases hitem : (probeName crypt (Atable.run ops) q true
          (probeAddr crypt (Atable.run ops) q true)).item with
      | none => exact hnone
      | some r =>
        obtain ⟨hr, hacc, _⟩ := hsound r (hbest.item_mem r hitem)
        rw [hnone r hr] at hacc
        exact absurd hacc (by simp)
    · obtain ⟨y, hy, hmem, hle⟩ := hbest.result _ _ _ r (hcomplete r hr hacc hfind) hprec
      obtain ⟨hentry, hyacc, _⟩ := hsound y hmem
      rw [hy]
      exact ⟨hentry, hyacc, fun r' hr' hacc' => (hmax r' hr' hacc').trans hle⟩

end Candidates

def escapedKline : MaskItem := ⟨1, "a\\bc.com".toList, some ['*'], none, false, false⟩

def escapedQuery : Query :=
  ⟨some "abc.com".toList, some ⟨0x0A000001, fun _ => 0⟩, .kline, .inet, some ['u'], none⟩

/-- The mask accepts the host, but is filed under a text with the backslash in it. -/
theorem findConfByAddress_misses_escape :
    ¬ FindsBest (fun _ _ => none) (AccessList.run [.add .kline escapedKline]) escapedQuery
      (findConfByAddress (fun _ _ => none) (Atable.run [.add .kline escapedKline])
        escapedQuery true) := by
  have hnone : findConfByAddress (fun _ _ => none) (Atable.run [.add .kline escapedKline])
      escapedQuery true = none := by
    apply Option.isNone_iff_eq_none.mp
    decide +kernel
  have haccept : accepts (fun _ _ => none) escapedQuery true
      (addressRec .kline escapedKline 0xFFFFFFFF) = true := by decide +kernel
  intro h
  rw [hnone] at h
  have hreject := h _ (List.mem_singleton.mpr rfl)
  rw [show accepts _ _ _ _ = true from haccept] at hreject
  exact absurd hreject (by simp)

end IrcdHybrid.Hostmask
