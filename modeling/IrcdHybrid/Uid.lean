import IrcdHybrid.CString
import IrcdHybrid.Cycle
import Mathlib.Data.List.GetD

/-!
The UIDs of this server: its SID and six letters or digits, which are counted up with the
digits behind the letters. The counter starts at the last of them, so the first UID that is
given is all 'A'. A UID in use is passed over.
-/

namespace IrcdHybrid.Uid

open CString IrcdHybrid.Cycle

def IRC_MAXSID : ℕ := 3

def IRC_MAXUID : ℕ := 6

def TOTALSIDUID : ℕ := IRC_MAXSID + IRC_MAXUID

def isAlNum (c : Char) : Bool :=
  isDigit c || decide ('A' ≤ c ∧ c ≤ '^') || decide ('a' ≤ c ∧ c ≤ '~')

def validSid (sid : CStr) : Bool :=
  match sid with
  | [a, b, c] => isDigit a && isAlNum b && isAlNum c
  | _ => false

/-- A proper SID, as the configuration only takes these. -/
abbrev Sid := {sid : CStr // validSid sid = true}

/-- `init_uid`. -/
def initUid (sid : Sid) : CStr := sid.val ++ "999999".toList

/-- `add_one_to_uid`. -/
def addOneToUid : ℕ → CStr → CStr
  | 0, newUid => newUid
  | i + 1, newUid =>
    if i + 1 < IRC_MAXSID then newUid
    else
      let c := newUid.getD (i + 1) '\x00'
      if c = 'Z' then newUid.set (i + 1) '0'
      else if c = '9' then addOneToUid i (newUid.set (i + 1) 'A')
      else newUid.set (i + 1) (Char.ofNat (c.toNat + 1))

/-- `uid_get`; what it returns is the counter itself. -/
def uidGet (newUid : CStr) : CStr := addOneToUid (TOTALSIDUID - 1) newUid

/-- `while (hash_find_id((id = uid_get())))`. -/
def findFreeUid (inUse : CStr → Bool) (fuel : ℕ) (newUid : CStr) : Option CStr :=
  search uidGet inUse fuel newUid

def isUidChar (c : Char) : Bool := isDigit c || ('A' ≤ c && c ≤ 'Z')

/-- The digits come behind the letters. -/
def rank (c : Char) : ℕ := if isDigit c then c.toNat - 48 + 26 else c.toNat - 65

def value (cs : CStr) : ℕ := cs.foldl (fun v c => v * 36 + rank c) 0

theorem sid_length (sid : Sid) : sid.val.length = IRC_MAXSID := by
  obtain ⟨s, hs⟩ := sid
  unfold validSid at hs
  split at hs
  · rfl
  · exact absurd hs Bool.false_ne_true

/-- What this server may give as a UID. -/
def IsUid (sid : Sid) (id : CStr) : Prop :=
  ∃ cs : CStr, id = sid.val ++ cs ∧ cs.length = IRC_MAXUID ∧ cs.all isUidChar = true

instance (sid : Sid) (id : CStr) : Decidable (IsUid sid id) :=
  decidable_of_iff (id.take IRC_MAXSID = sid.val ∧ (id.drop IRC_MAXSID).length = IRC_MAXUID ∧
    (id.drop IRC_MAXSID).all isUidChar = true) (by
      have hlen := sid_length sid
      constructor
      · rintro ⟨htake, hcount, hall⟩
        exact ⟨id.drop IRC_MAXSID, by rw [← htake, List.take_append_drop], hcount, hall⟩
      · rintro ⟨cs, rfl, hcount, hall⟩
        rw [← hlen, List.take_left, List.drop_left]
        exact ⟨rfl, hcount, hall⟩)

theorem isUidChar_iff (c : Char) : isUidChar c = true ↔
    (48 ≤ c.toNat ∧ c.toNat ≤ 57) ∨ (65 ≤ c.toNat ∧ c.toNat ≤ 90) := by
  unfold isUidChar isDigit
  simp only [Bool.or_eq_true, Bool.and_eq_true, decide_eq_true_eq, char_le_iff, Char.reduceToNat]

theorem rank_eq (c : Char) : rank c =
    if 48 ≤ c.toNat ∧ c.toNat ≤ 57 then c.toNat - 48 + 26 else c.toNat - 65 := by
  unfold rank isDigit
  simp only [Bool.and_eq_true, decide_eq_true_eq, char_le_iff, Char.reduceToNat]

theorem rank_lt (c : Char) (hc : isUidChar c = true) : rank c < 36 := by
  rw [isUidChar_iff] at hc
  rw [rank_eq]
  split <;> omega

theorem rank_inj (c d : Char) (hc : isUidChar c = true) (hd : isUidChar d = true)
    (h : rank c = rank d) : c = d := by
  rw [isUidChar_iff] at hc hd
  rw [rank_eq, rank_eq] at h
  apply char_eq_of_toNat
  split_ifs at h <;> omega

/-- A letter that is neither 'Z' nor '9' is followed by the next in rank. -/
theorem rank_succ (c : Char) (hc : isUidChar c = true) (hZ : c ≠ 'Z') (h9 : c ≠ '9') :
    isUidChar (Char.ofNat (c.toNat + 1)) = true ∧ rank (Char.ofNat (c.toNat + 1)) = rank c + 1 := by
  rw [isUidChar_iff] at hc ⊢
  have hZ' : c.toNat ≠ 90 := fun h => hZ (char_eq_of_toNat _ _ h)
  have h9' : c.toNat ≠ 57 := fun h => h9 (char_eq_of_toNat _ _ h)
  rw [rank_eq, rank_eq, toNat_ofNat_small _ (by omega)]
  refine ⟨by omega, ?_⟩
  split_ifs <;> omega

theorem value_concat (cs : CStr) (c : Char) : value (cs ++ [c]) = value cs * 36 + rank c := by
  unfold value
  rw [List.foldl_append]
  rfl

theorem value_lt (cs : CStr) (h : cs.all isUidChar = true) : value cs < 36 ^ cs.length := by
  induction cs using List.reverseRecOn with
  | nil => exact Nat.one_pos
  | append_singleton cs c ih =>
    rw [List.all_append, Bool.and_eq_true] at h
    have hc := rank_lt c (by simpa using h.2)
    have hcs := ih h.1
    rw [value_concat, List.length_append, List.length_singleton, Nat.pow_succ]
    omega

theorem value_inj (cs ds : CStr) (hcs : cs.all isUidChar = true) (hds : ds.all isUidChar = true)
    (hlen : cs.length = ds.length) (h : value cs = value ds) : cs = ds := by
  induction cs using List.reverseRecOn generalizing ds with
  | nil => exact (List.length_eq_zero_iff.mp hlen.symm).symm
  | append_singleton cs c ih =>
    rcases List.eq_nil_or_concat' ds with rfl | ⟨ds, d, rfl⟩
    · simp at hlen
    · rw [List.all_append, Bool.and_eq_true] at hcs hds
      have hc : isUidChar c = true := by simpa using hcs.2
      have hd : isUidChar d = true := by simpa using hds.2
      have hclt := rank_lt c hc
      have hdlt := rank_lt d hd
      rw [value_concat, value_concat] at h
      rw [List.length_append, List.length_append] at hlen
      rw [ih ds hcs.1 hds.1 (by simpa using hlen) (by omega), rank_inj c d hc hd (by omega)]

/-- The letters of one length are counted up, the last one first. -/
theorem addOneToUid_letters (sid cs back : CStr) (hsid : sid.length = IRC_MAXSID)
    (hcs : cs.all isUidChar = true) : ∃ ds : CStr, ds.length = cs.length ∧
      ds.all isUidChar = true ∧ value ds = (value cs + 1) % 36 ^ cs.length ∧
      addOneToUid (cs.length + 2) (sid ++ cs ++ back) = sid ++ ds ++ back := by
  induction cs using List.reverseRecOn generalizing back with
  | nil =>
    refine ⟨[], rfl, rfl, (Nat.mod_one _).symm, ?_⟩
    show addOneToUid (1 + 1) _ = _
    rw [addOneToUid, if_pos (by decide)]
  | append_singleton cs c ih =>
    rw [List.all_append, Bool.and_eq_true] at hcs
    have hc : isUidChar c = true := by simpa using hcs.2
    have hlt := value_lt cs hcs.1
    have hclt := rank_lt c hc
    have hlen : (cs ++ [c]).length = cs.length + 1 := by
      rw [List.length_append, List.length_singleton]
    have htext : sid ++ (cs ++ [c]) ++ back = (sid ++ cs) ++ c :: back := by simp
    have hplace : (sid ++ cs).length = cs.length + 1 + 1 + 1 := by
      rw [List.length_append, hsid, IRC_MAXSID]
      omega
    have hget : ((sid ++ cs) ++ c :: back).getD (cs.length + 1 + 1 + 1) '\x00' = c := by
      rw [← hplace, List.getD_append_right _ _ _ _ (Nat.le_refl _), Nat.sub_self]
      rfl
    have hset : ∀ d : Char, ((sid ++ cs) ++ c :: back).set (cs.length + 1 + 1 + 1) d =
        sid ++ (cs ++ [d]) ++ back := by
      intro d
      rw [← hplace, List.set_append_right _ _ (Nat.le_refl _), Nat.sub_self]
      simp
    have hall : ∀ ds : CStr, ∀ d : Char, ds.all isUidChar = true → isUidChar d = true →
        (ds ++ [d]).all isUidChar = true := by
      intro ds d hds hd
      rw [List.all_append, hds, List.all_cons, hd]
      rfl
    rw [hlen, htext, addOneToUid, if_neg (by rw [IRC_MAXSID]; omega), hget, Nat.pow_succ]
    dsimp only
    by_cases hZ : c = 'Z'
    · subst hZ
      refine ⟨cs ++ ['0'], by rw [List.length_append, List.length_singleton], ?_, ?_, ?_⟩
      · exact hall cs '0' hcs.1 (by decide)
      · have hZ : rank 'Z' = 25 := by decide
        have h0 : rank '0' = 26 := by decide
        rw [value_concat, value_concat, hZ, h0, Nat.mod_eq_of_lt (by omega)]
      · rw [if_pos rfl, hset]
    · by_cases h9 : c = '9'
      · subst h9
        obtain ⟨ds, hdslen, hds, hvalue, hstep⟩ := ih ('A' :: back) hcs.1
        refine ⟨ds ++ ['A'], by rw [List.length_append, List.length_singleton, hdslen], ?_, ?_, ?_⟩
        · exact hall ds 'A' hds (by decide)
        · have hfirst : rank 'A' = 0 := by decide
          have hlast : value cs * 36 + rank '9' + 1 = (value cs + 1) * 36 := by
            rw [show rank '9' = 35 from by decide]
            omega
          rw [value_concat, value_concat, hfirst, hvalue, hlast, Nat.mul_mod_mul_right]
          rfl
        · have hcarry : sid ++ (cs ++ ['A']) ++ back = sid ++ cs ++ 'A' :: back := by simp
          rw [if_neg (by decide), if_pos rfl, hset, hcarry, hstep]
          simp
      · obtain ⟨hnext, hrank⟩ := rank_succ c hc hZ h9
        have hnextlt := rank_lt _ hnext
        refine ⟨cs ++ [Char.ofNat (c.toNat + 1)], by
          rw [List.length_append, List.length_singleton], ?_, ?_, ?_⟩
        · exact hall cs _ hcs.1 hnext
        · rw [value_concat, value_concat, hrank, Nat.mod_eq_of_lt (by omega)]
          rfl
        · rw [if_neg hZ, if_neg h9, hset]

def uidRank (id : CStr) : ℕ := value (id.drop IRC_MAXSID)

theorem uidRank_append (sid : Sid) (cs : CStr) : uidRank (sid.val ++ cs) = value cs := by
  unfold uidRank
  rw [← sid_length sid, List.drop_left]

theorem uidGet_letters (sid : Sid) (cs : CStr) (hlen : cs.length = IRC_MAXUID)
    (hcs : cs.all isUidChar = true) : ∃ ds : CStr, ds.length = IRC_MAXUID ∧
      ds.all isUidChar = true ∧ value ds = (value cs + 1) % 36 ^ IRC_MAXUID ∧
      uidGet (sid.val ++ cs) = sid.val ++ ds := by
  obtain ⟨ds, hdslen, hds, hvalue, hstep⟩ :=
    addOneToUid_letters sid.val cs [] (sid_length sid) hcs
  rw [List.append_nil, List.append_nil, hlen] at hstep
  rw [hlen] at hdslen hvalue
  exact ⟨ds, hdslen, hds, hvalue, hstep⟩

theorem uid_counts (sid : Sid) : Counts (IsUid sid) uidGet uidRank (36 ^ IRC_MAXUID) where
  closed := by
    rintro id ⟨cs, rfl, hlen, hcs⟩
    obtain ⟨ds, hdslen, hds, -, hstep⟩ := uidGet_letters sid cs hlen hcs
    exact ⟨ds, hstep, hdslen, hds⟩
  lt := by
    rintro id ⟨cs, rfl, hlen, hcs⟩
    rw [uidRank_append, ← hlen]
    exact value_lt cs hcs
  step := by
    rintro id ⟨cs, rfl, hlen, hcs⟩
    obtain ⟨ds, hdslen, hds, hvalue, hstep⟩ := uidGet_letters sid cs hlen hcs
    rw [hstep, uidRank_append, uidRank_append, hvalue]
  inj := by
    rintro id id' ⟨cs, rfl, hlen, hcs⟩ ⟨ds, rfl, hlen', hds⟩ h
    rw [uidRank_append, uidRank_append] at h
    rw [value_inj cs ds hcs hds (hlen.trans hlen'.symm) h]

theorem isUid_initUid (sid : Sid) : IsUid sid (initUid sid) :=
  ⟨"999999".toList, rfl, rfl, by decide⟩

/-- The UID of the call number `k`, from zero. -/
def uidOf (sid : Sid) (k : ℕ) : CStr := uidGet^[k + 1] (initUid sid)

theorem uidOf_eq (sid : Sid) (k : ℕ) : uidOf sid k = uidGet^[k] (uidGet (initUid sid)) := rfl

theorem isUid_uidOf (sid : Sid) (k : ℕ) : IsUid sid (uidOf sid k) :=
  (uid_counts sid).iterate_states _ (isUid_initUid sid) (k + 1)

/-- What is promised of the UIDs of a server. -/
structure NeverCollide (sid : Sid) : Prop where
  valid : ∀ k, IsUid sid (uidOf sid k)
  all : ∀ id, IsUid sid id → ∃ k < 36 ^ IRC_MAXUID, uidOf sid k = id
  distinct : ∀ i j, i < 36 ^ IRC_MAXUID → j < 36 ^ IRC_MAXUID → uidOf sid i = uidOf sid j → i = j
  returns : uidOf sid (36 ^ IRC_MAXUID) = uidOf sid 0
  /-- After any number of calls, and with any UIDs in use, the loop ends with a free one. -/
  free : ∀ (calls : ℕ) (inUse : Finset CStr),
    (inUse.filter (fun id => IsUid sid id)).card < 36 ^ IRC_MAXUID →
    ∃ id, IsUid sid id ∧ id ∉ inUse ∧ ∀ fuel, 36 ^ IRC_MAXUID ≤ fuel →
      findFreeUid (fun id => decide (id ∈ inUse)) fuel (uidGet^[calls] (initUid sid)) = some id

theorem never_collide (sid : Sid) : NeverCollide sid := by
  have hcounts := uid_counts sid
  have hinit := isUid_initUid sid
  have hfirst := hcounts.closed _ hinit
  refine ⟨isUid_uidOf sid, ?_, ?_, ?_, ?_⟩
  · intro id hid
    obtain ⟨k, hk, heq⟩ := hcounts.iterate_covers _ id hfirst hid
    exact ⟨k, hk, heq⟩
  · intro i j hi hj heq
    exact hcounts.iterate_inj _ hfirst i j hi hj heq
  · rw [uidOf_eq, uidOf_eq, hcounts.iterate_size _ hfirst]
    rfl
  · intro calls inUse hcard
    have hstate := hcounts.iterate_states _ hinit calls
    obtain ⟨k, -, hfree, hfound⟩ := hcounts.search_finds _ hstate
      (fun id => decide (id ∈ inUse)) (inUse.filter (fun id => IsUid sid id))
      (fun id hid htaken => Finset.mem_filter.mpr ⟨of_decide_eq_true htaken, hid⟩) hcard
    exact ⟨_, hcounts.iterate_states _ hstate (k + 1), of_decide_eq_false hfree, hfound⟩

example : uidGet "0ABAAAZ99".toList = "0ABAAA0AA".toList := by decide

end IrcdHybrid.Uid
