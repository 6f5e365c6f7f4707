import IrcdHybrid.Quorum
import IrcdHybrid.Unkline
import IrcdHybrid.BanMask

/-!
Votes on G-lines. A G-line is placed or taken back when three operators from three servers
have asked for it, each within the time allowed after the one before. The votes are kept in
records of fixed size, and a mask that does not fit is cut off when it is recorded but not when
it is compared; and the username of the second voter tells whether there has been one.
-/

namespace IrcdHybrid.GlineVote

open CString Hostmask Unkline Quorum BanMask

def REASONLEN : ℕ := 180

inductive Kind where
  | del
  | add
  deriving DecidableEq

/-- What a vote reads of the operator; the sizes are those of the client structure. A username
can be empty: that of `USER @x`, where the class asks for no tilde. -/
structure Oper where
  name : CStr
  username : CStr
  host : CStr
  server : CStr
  username_le : username.length ≤ USERLEN
  host_le : host.length ≤ HOSTLEN
  server_le : server.length ≤ HOSTLEN

/-- A call of `check_majority` at the time `time`. -/
structure Request where
  source : Oper
  user : CStr
  host : CStr
  reason : CStr
  type : Kind
  time : ℤ

structure Vote where
  operNick : CStr
  operUser : CStr
  operHost : CStr
  operServer : CStr
  reason : CStr
  timeRequest : ℤ

structure GlinePending where
  vote1 : Vote
  vote2 : Vote
  lastGlineTime : ℤ
  user : CStr
  host : CStr

/-- A vote that `MyCalloc` left blank. -/
def blank : Vote := ⟨[], [], [], [], [], 0⟩

def fillVote (r : Request) : Vote where
  operNick := strlcpy r.source.name (NICKLEN + 1)
  operUser := strlcpy r.source.username (USERLEN + 1)
  operHost := strlcpy r.source.host (HOSTLEN + 1)
  operServer := strlcpy r.source.server (HOSTLEN + 1)
  reason := strlcpy r.reason (REASONLEN + 1)
  timeRequest := r.time

/-- `add_new_majority`, the record it links in. -/
def addNewMajority (r : Request) : GlinePending where
  vote1 := fillVote r
  vote2 := blank
  lastGlineTime := r.time
  user := strlcpy r.user (USERLEN * 2 + 2)
  host := strlcpy r.host (HOSTLEN * 2 + 2)

structure State where
  pending : Kind → List GlinePending
  ops : List Op
  isConfDatabase : ℕ → Bool

def State.table (s : State) : Atable := Atable.run s.ops

section Check

variable (crypt : CStr → CStr → Option CStr) (glineRequestTime : ℕ)

/-- `expire_pending_glines`; the record that is let go is unlinked by the caller. -/
def cleanupGlines (now : ℤ) (pending : Kind → List GlinePending) : Kind → List GlinePending :=
  fun type => (pending type).filter
    (fun gp => !decide (gp.lastGlineTime + glineRequestTime ≤ now))

def findIsGlined (t : Atable) (host user : CStr) : Bool :=
  (findConfByAddress crypt t (request .gline host user) false).isSome

def hasVoted (v : Vote) (source : Oper) : Bool :=
  (irccmp v.operUser source.username == 0 && irccmp v.operHost source.host == 0) ||
    irccmp v.operServer source.server == 0

inductive Verdict where
  | alreadyVoted
  | recorded
  | placed

/-- The walk over the pending records: what is decided, and the records as they are then. -/
def walk (r : Request) : List GlinePending → Option (Verdict × List GlinePending)
  | [] => none
  | gp :: rest =>
    if irccmp gp.user r.user != 0 || irccmp gp.host r.host != 0 then
      (walk r rest).map (fun out => (out.1, gp :: out.2))
    else if hasVoted gp.vote1 r.source then some (.alreadyVoted, gp :: rest)
    else if gp.vote2.operUser ≠ [] then
      if hasVoted gp.vote2 r.source then some (.alreadyVoted, gp :: rest) else some (.placed, rest)
    else some (.recorded, { gp with vote2 := fillVote r, lastGlineTime := r.time } :: rest)

/-- The item of `set_local_gline`, at the address `ptr`. -/
def glineConf (r : Request) (ptr : ℕ) : MaskItem := ⟨ptr, r.host, some r.user, none, false, false⟩

def setLocalGline (r : Request) (ptr : ℕ) (s : State) : State :=
  { s with
    ops := s.ops ++ [.add .gline (glineConf r ptr)]
    isConfDatabase := Function.update s.isConfDatabase ptr true }

/-- `remove_gline_match`, as an operation on the table. -/
def removeGline (r : Request) (s : State) : State :=
  match findConfByAddress crypt s.table (request .gline r.host r.user) false with
  | some found =>
    if s.isConfDatabase found.conf.ptr then
      { s with ops := s.ops ++ [.delete r.host found.conf] }
    else s
  | none => s

def State.setPending (s : State) (type : Kind) (records : List GlinePending) : State :=
  { s with pending := Function.update s.pending type records }

def State.cleanup (s : State) (now : ℤ) : State :=
  { s with pending := cleanupGlines glineRequestTime now s.pending }

/-- The request does not get as far as the vote. -/
def stopped (r : Request) (s : State) : Bool :=
  decide (r.type = .add) && findIsGlined crypt s.table r.host r.user

def checkMajority (r : Request) (ptr : ℕ) (s : State) : State :=
  let s := s.cleanup glineRequestTime r.time
  if stopped crypt r s then s
  else
    match walk r (s.pending r.type) with
    | none => s.setPending r.type (addNewMajority r :: s.pending r.type)
    | some (.placed, records) =>
      let s := if r.type = .del then removeGline crypt r s else setLocalGline r ptr s
      (s.setPending r.type records).cleanup glineRequestTime r.time
    | some (_, records) => s.setPending r.type records

/-- What happens: a vote, the timer of `cleanup_glines`, or another change to the bans. -/
inductive Event where
  | request (r : Request) (ptr : ℕ)
  | cleanup (now : ℤ)
  | bans (ops : List Op) (isConfDatabase : ℕ → Bool)

def step (s : State) : Event → State
  | .request r ptr => checkMajority crypt glineRequestTime r ptr s
  | .cleanup now => s.cleanup glineRequestTime now
  | .bans ops isConfDatabase => { s with ops := s.ops ++ ops, isConfDatabase := isConfDatabase }

def start : State := ⟨fun _ => [], [], fun _ => false⟩

def run (events : List Event) : State := events.foldl (step crypt glineRequestTime) start

end Check

def sameMask (v w : Request) : Bool :=
  decide (v.type = w.type) && irccmp v.user w.user == 0 && irccmp v.host w.host == 0

/-- The same operator, or one from the same server. -/
def clash (v w : Request) : Bool :=
  (irccmp v.source.username w.source.username == 0 && irccmp v.source.host w.source.host == 0) ||
    irccmp v.source.server w.source.server == 0

/-- The mask fits into the record of a vote. -/
structure Fits (r : Request) : Prop where
  user : r.user.length ≤ USERLEN * 2 + 1
  host : r.host.length ≤ HOSTLEN * 2 + 1

def Event.requests : Event → List Request
  | .request r _ => [r]
  | _ => []

def Event.times : Event → List ℤ
  | .request r _ => [r.time]
  | .cleanup now => [now]
  | .bans _ _ => []

section Rounds

variable (crypt : CStr → CStr → Option CStr) (glineRequestTime : ℕ)

/-- The requests of a run that got as far as the vote, next to the state they led to. -/
structure Past where
  state : State
  heard : List Request

def Past.step (p : Past) (e : Event) : Past where
  state := GlineVote.step crypt glineRequestTime p.state e
  heard := p.heard ++ e.requests.filter (fun r => !stopped crypt r p.state)

def past (events : List Event) : Past :=
  events.foldl (Past.step crypt glineRequestTime) ⟨start, []⟩

/-- The votes that count for the mask of `r`, from those that were heard. -/
def countFor (heard : List Request) (r : Request) : List Request :=
  count Request.time clash glineRequestTime 2 (heard.filter (sameMask r))

def liveFor (heard : List Request) (r : Request) (now : ℤ) : List Request :=
  live Request.time glineRequestTime (countFor glineRequestTime heard r) now

/-- The votes that count when `r` is made. -/
def openRound (events : List Event) (r : Request) : List Request :=
  liveFor glineRequestTime (past crypt glineRequestTime events).heard r r.time

/-- No operator without a username casts the second vote of a round: its place would count as
free. -/
def SecondsNamed (events : List Event) : Prop :=
  ∀ before r ptr after, events = before ++ Event.request r ptr :: after →
    stopped crypt r (past crypt glineRequestTime before).state = false →
      ∀ v, openRound crypt glineRequestTime before r = [v] → clash v r = false →
        r.source.username ≠ []

end Rounds

theorem sameMask_iff (v w : Request) : sameMask v w = true ↔
    v.type = w.type ∧ irccmp v.user w.user = 0 ∧ irccmp v.host w.host = 0 := by
  unfold sameMask
  simp [and_assoc]

theorem sameMask_symm (v w : Request) (h : sameMask v w = true) : sameMask w v = true := by
  rw [sameMask_iff] at *
  exact ⟨h.1.symm, (irccmp_comm_zero _ _).mp h.2.1, (irccmp_comm_zero _ _).mp h.2.2⟩

theorem sameMask_trans (u v w : Request) (h : sameMask u v = true) (h' : sameMask v w = true) :
    sameMask u w = true := by
  rw [sameMask_iff] at *
  exact ⟨h.1.trans h'.1, irccmp_trans_zero _ _ _ h.2.1 h'.2.1, irccmp_trans_zero _ _ _ h.2.2 h'.2.2⟩

/-- The record is on the mask of the request. -/
def onRecord (r : Request) (gp : GlinePending) : Bool :=
  irccmp gp.user r.user == 0 && irccmp gp.host r.host == 0

def sameRecord (a b : GlinePending) : Bool := irccmp a.user b.user == 0 && irccmp a.host b.host == 0

theorem onRecord_iff (r : Request) (gp : GlinePending) :
    onRecord r gp = true ↔ irccmp gp.user r.user = 0 ∧ irccmp gp.host r.host = 0 := by
  unfold onRecord
  simp

theorem onRecord_congr (r r' : Request) (gp : GlinePending) (h : sameMask r r' = true) :
    onRecord r' gp = onRecord r gp := by
  rw [sameMask_iff] at h
  rw [Bool.eq_iff_iff, onRecord_iff, onRecord_iff]
  constructor
  · intro hr'
    exact ⟨irccmp_trans_zero _ _ _ hr'.1 ((irccmp_comm_zero _ _).mp h.2.1),
      irccmp_trans_zero _ _ _ hr'.2 ((irccmp_comm_zero _ _).mp h.2.2)⟩
  · intro hr
    exact ⟨irccmp_trans_zero _ _ _ hr.1 h.2.1, irccmp_trans_zero _ _ _ hr.2 h.2.2⟩

/-- A record is on the masks of two requests of one kind only if they are the same. -/
theorem sameMask_of_onRecord (r r' : Request) (gp : GlinePending) (htype : r.type = r'.type)
    (h : onRecord r gp = true) (h' : onRecord r' gp = true) : sameMask r r' = true := by
  rw [onRecord_iff] at h h'
  rw [sameMask_iff]
  exact ⟨htype, irccmp_trans_zero _ _ _ ((irccmp_comm_zero _ _).mp h.1) h'.1,
    irccmp_trans_zero _ _ _ ((irccmp_comm_zero _ _).mp h.2) h'.2⟩

theorem sameRecord_of_onRecord (r : Request) (a b : GlinePending) (ha : onRecord r a = true)
    (hb : onRecord r b = true) : sameRecord a b = true := by
  rw [onRecord_iff] at ha hb
  unfold sameRecord
  rw [Bool.and_eq_true, beq_iff_eq, beq_iff_eq]
  exact ⟨irccmp_trans_zero _ _ _ ha.1 ((irccmp_comm_zero _ _).mp hb.1),
    irccmp_trans_zero _ _ _ ha.2 ((irccmp_comm_zero _ _).mp hb.2)⟩

theorem hasVoted_fillVote (v w : Request) : hasVoted (fillVote v) w.source = clash v w := by
  unfold hasVoted fillVote clash
  dsimp only
  rw [strlcpy_of_le _ _ v.source.username_le, strlcpy_of_le _ _ v.source.host_le,
    strlcpy_of_le _ _ v.source.server_le]

theorem onRecord_addNewMajority (v r : Request) (h : Fits v) (htype : v.type = r.type) :
    onRecord r (addNewMajority v) = sameMask v r := by
  unfold onRecord addNewMajority sameMask
  dsimp only
  rw [strlcpy_of_le v.user _ h.user, strlcpy_of_le v.host _ h.host]
  simp [htype]

/-- The record with the votes of a round. -/
inductive Records : Option GlinePending → List Request → Prop where
  | none : Records none []
  | one (v : Request) : Records (some (addNewMajority v)) [v]
  | two (v w : Request) (hnamed : w.source.username ≠ []) :
    Records (some { addNewMajority v with vote2 := fillVote w, lastGlineTime := w.time }) [v, w]

def Apart (records : List GlinePending) : Prop :=
  records.Pairwise (fun a b => sameRecord a b = false)

theorem find?_filter (r : Request) (records : List GlinePending) (alive : GlinePending → Bool)
    (h : Apart records) : (records.filter alive).find? (onRecord r) =
      (records.find? (onRecord r)).filter alive := by
  induction records with
  | nil => rfl
  | cons gp rest ih =>
    obtain ⟨hgp, hrest⟩ := List.pairwise_cons.mp h
    have hih := ih hrest
    by_cases hon : onRecord r gp = true
    · rw [List.find?_cons_of_pos hon]
      by_cases halive : alive gp = true
      · rw [List.filter_cons_of_pos halive, List.find?_cons_of_pos hon]
        simp [Option.filter, halive]
      · rw [List.filter_cons_of_neg halive]
        have hnone : (rest.filter alive).find? (onRecord r) = none := by
          apply List.find?_eq_none.mpr
          intro x hx hxr
          have hsame := sameRecord_of_onRecord r gp x hon hxr
          rw [hgp x (List.mem_of_mem_filter hx)] at hsame
          exact absurd hsame (by simp)
        simp [Option.filter, hnone, halive]
    · rw [List.find?_cons_of_neg hon]
      by_cases halive : alive gp = true
      · rw [List.filter_cons_of_pos halive, List.find?_cons_of_neg hon, hih]
      · rw [List.filter_cons_of_neg halive, hih]

section Tally

variable (glineRequestTime : ℕ)

theorem Records.later (r : Request) (type : Kind) (pending : Kind → List GlinePending)
    (round : List Request) (now : ℤ) (happart : Apart (pending type))
    (h : Records ((pending type).find? (onRecord r)) round) :
    Records ((cleanupGlines glineRequestTime now pending type).find? (onRecord r))
      (live Request.time glineRequestTime round now) := by
  unfold cleanupGlines
  rw [find?_filter r _ _ happart]
  have hcase : ∀ gp v, gp.lastGlineTime = v.time → round.getLast? = some v →
      Records (some gp) round → Records ((some gp).filter (fun gp : GlinePending =>
        !decide (gp.lastGlineTime + glineRequestTime ≤ now)))
        (live Request.time glineRequestTime round now) := by
    intro gp v htime hlast hrec
    unfold live lapsed
    rw [hlast]
    by_cases hle : v.time + glineRequestTime ≤ now
    · simp only [Option.any_some, hle, decide_true, if_true, Option.filter, htime, Bool.not_true]
      exact Records.none
    · simpa [hle, Option.filter, htime] using hrec
  generalize hfound : (pending type).find? (onRecord r) = found at h
  cases h with
  | none =>
    rw [live_nil]
    exact Records.none
  | one v => exact hcase _ v rfl rfl (Records.one v)
  | two v w hnamed => exact hcase _ w rfl rfl (Records.two v w hnamed)

end Tally

/-- What the walk leaves of the records on a mask and of the others. -/
structure Walked (r : Request) (records records' : List GlinePending)
    (left : Option GlinePending) : Prop where
  found : records'.find? (onRecord r) = left
  others : ∀ r', (∀ gp, onRecord r gp = true → onRecord r' gp = false) →
    records'.find? (onRecord r') = records.find? (onRecord r')
  masks : ∀ y ∈ records', ∃ x ∈ records, y.user = x.user ∧ y.host = x.host
  apart : Apart records'

theorem walk_none (r : Request) (records : List GlinePending)
    (h : records.find? (onRecord r) = none) : walk r records = none := by
  induction records with
  | nil => rfl
  | cons gp rest ih =>
    by_cases hon : onRecord r gp = true
    · rw [List.find?_cons_of_pos hon] at h
      exact absurd h (by simp)
    · rw [List.find?_cons_of_neg hon] at h
      unfold walk
      rw [if_pos, ih h]
      · rfl
      · unfold onRecord at hon
        rw [Bool.and_eq_true, not_and_or, beq_iff_eq, beq_iff_eq] at hon
        simpa using hon

/-- What the walk decides at the record on the mask. -/
def verdict (r : Request) (gp : GlinePending) : Verdict × Option GlinePending :=
  if hasVoted gp.vote1 r.source then (.alreadyVoted, some gp)
  else if gp.vote2.operUser ≠ [] then
    if hasVoted gp.vote2 r.source then (.alreadyVoted, some gp) else (.placed, none)
  else (.recorded, some { gp with vote2 := fillVote r, lastGlineTime := r.time })

/-- The walk replaces or removes the record on the mask and leaves the others. -/
theorem walk_some (r : Request) (records : List GlinePending) (gp : GlinePending)
    (happart : Apart records) (h : records.find? (onRecord r) = some gp) :
    ∃ records', walk r records = some ((verdict r gp).1, records') ∧
      Walked r records records' (verdict r gp).2 := by
  induction records with
  | nil => exact absurd h (by simp)
  | cons x rest ih =>
    obtain ⟨hx, hrest⟩ := List.pairwise_cons.mp happart
    by_cases hon : onRecord r x = true
    · rw [List.find?_cons_of_pos hon] at h
      obtain rfl := Option.some.inj h
      have hguard : ¬ (irccmp x.user r.user != 0 || irccmp x.host r.host != 0) = true := by
        rw [onRecord_iff] at hon
        simp [hon.1, hon.2]
      have hrest_none : rest.find? (onRecord r) = none := by
        apply List.find?_eq_none.mpr
        intro y hy hyr
        have hsame := sameRecord_of_onRecord r x y hon hyr
        rw [hx y hy] at hsame
        exact absurd hsame (by simp)
      have hkept : Walked r (x :: rest) (x :: rest) (some x) :=
        ⟨List.find?_cons_of_pos hon, fun _ _ => rfl, fun y hy => ⟨y, hy, rfl, rfl⟩, happart⟩
      unfold walk verdict
      rw [if_neg hguard]
      split
      · exact ⟨_, rfl, hkept⟩
      · split
        · split
          · exact ⟨_, rfl, hkept⟩
          · refine ⟨_, rfl, hrest_none, fun r' hr' => ?_,
              fun y hy => ⟨y, List.mem_cons_of_mem x hy, rfl, rfl⟩, hrest⟩
            rw [List.find?_cons_of_neg (by simp [hr' x hon])]
        · refine ⟨_, rfl, List.find?_cons_of_pos hon, fun r' hr' => ?_, fun y hy => ?_,
            List.pairwise_cons.mpr ⟨hx, hrest⟩⟩
          rotate_left
          · rcases List.mem_cons.mp hy with hy | hy
            · exact ⟨x, List.mem_cons_self, by rw [hy], by rw [hy]⟩
            · exact ⟨y, List.mem_cons_of_mem x hy, rfl, rfl⟩
          have hr'x := hr' x hon
          have hnew : onRecord r' { x with vote2 := fillVote r, lastGlineTime := r.time } = false :=
            hr'x
          rw [List.find?_cons_of_neg (by simp [hnew]), List.find?_cons_of_neg (by simp [hr'x])]
    · rw [List.find?_cons_of_neg hon] at h
      obtain ⟨records', hwalk, hwalked⟩ := ih hrest h
      have hguard : (irccmp x.user r.user != 0 || irccmp x.host r.host != 0) = true := by
        unfold onRecord at hon
        rw [Bool.and_eq_true, not_and_or, beq_iff_eq, beq_iff_eq] at hon
        simpa using hon
      refine ⟨x :: records', ?_, ?_, fun r' hr' => ?_, fun y hy => ?_, ?_⟩
      · unfold walk
        rw [if_pos hguard, hwalk]
        rfl
      · rw [List.find?_cons_of_neg hon]
        exact hwalked.found
      · by_cases hon' : onRecord r' x = true
        · rw [List.find?_cons_of_pos hon', List.find?_cons_of_pos hon']
        · rw [List.find?_cons_of_neg hon', List.find?_cons_of_neg hon']
          exact hwalked.others r' hr'
      · rcases List.mem_cons.mp hy with hy | hy
        · exact ⟨x, List.mem_cons_self, by rw [hy], by rw [hy]⟩
        · obtain ⟨z, hz, hmask⟩ := hwalked.masks y hy
          exact ⟨z, List.mem_cons_of_mem x hz, hmask⟩
      · refine List.pairwise_cons.mpr ⟨fun y hy => ?_, hwalked.apart⟩
        obtain ⟨z, hz, huser, hhost⟩ := hwalked.masks y hy
        have hxz := hx z hz
        unfold sameRecord at hxz ⊢
        rwa [huser, hhost]

/-- The round after a vote is the one its record then stands for. -/
theorem verdict_records (glineRequestTime : ℕ) (r : Request) (gp : GlinePending)
    (round : List Request)
    (h : Records (some gp) (live Request.time glineRequestTime round r.time)) :
    ((∀ v, live Request.time glineRequestTime round r.time = [v] → clash v r = false →
        r.source.username ≠ []) →
      Records (verdict r gp).2 (castVote Request.time clash glineRequestTime 2 round r).1) ∧
      ((verdict r gp).1 = .placed ↔ (castVote Request.time clash glineRequestTime 2 round r).2 = true) := by
  unfold verdict castVote
  generalize live Request.time glineRequestTime round r.time = open' at h
  cases h with
  | one v =>
    have hone : hasVoted (addNewMajority v).vote1 r.source = clash v r := hasVoted_fillVote v r
    rw [hone]
    cases hclash : clash v r with
    | true => simpa [hclash] using Records.one v
    | false =>
      simpa [hclash, addNewMajority, blank] using Records.two v r
  | two v w hnamed =>
    have hone : hasVoted (addNewMajority v).vote1 r.source = clash v r := hasVoted_fillVote v r
    have htwo : hasVoted (fillVote w) r.source = clash w r := hasVoted_fillVote w r
    have hfull : (fillVote w).operUser ≠ [] := by
      show strlcpy w.source.username (USERLEN + 1) ≠ []
      rwa [strlcpy_of_le _ _ w.source.username_le]
    dsimp only
    rw [hone, htwo]
    cases hv : clash v r with
    | true => simpa [hv] using Records.two v w hnamed
    | false => cases hw : clash w r with
      | true => simpa [hv, hw, hfull] using Records.two v w hnamed
      | false => simpa [hv, hw, hfull] using Records.none

/-- The records after a request that gets as far as the vote. -/
def afterVote (r : Request) (records : List GlinePending) : List GlinePending :=
  match walk r records with
  | none => addNewMajority r :: records
  | some out => out.2

/-- What a vote makes of the records, which stand for the live part of the rounds `votes`. -/
structure Voted (glineRequestTime : ℕ) (r : Request) (records : List GlinePending)
    (votes : Request → List Request) : Prop where
  apart : Apart (afterVote r records)
  same : ∀ x, sameMask r x = true → (∀ v, live Request.time glineRequestTime (votes x) r.time = [v] →
    clash v r = false → r.source.username ≠ []) → Records ((afterVote r records).find? (onRecord x))
    (castVote Request.time clash glineRequestTime 2 (votes x) r).1
  others : ∀ x, x.type = r.type → sameMask r x = false →
    (afterVote r records).find? (onRecord x) = records.find? (onRecord x)
  placed : (∃ rest, walk r records = some (.placed, rest)) ↔
    (castVote Request.time clash glineRequestTime 2 (votes r) r).2 = true

theorem afterVote_voted (glineRequestTime : ℕ) (r : Request) (records : List GlinePending)
    (votes : Request → List Request) (hfits : Fits r) (happart : Apart records)
    (h : ∀ x, x.type = r.type → Records (records.find? (onRecord x))
      (live Request.time glineRequestTime (votes x) r.time)) :
    Voted glineRequestTime r records votes := by
  have hapart : ∀ x gp, x.type = r.type → sameMask r x = false → onRecord r gp = true →
      onRecord x gp = false := by
    intro x gp htype hsame hgp
    by_contra hx
    rw [Bool.not_eq_false] at hx
    rw [sameMask_of_onRecord r x gp htype.symm hgp hx] at hsame
    exact absurd hsame (by simp)
  have hon : ∀ x, sameMask r x = true → onRecord x = onRecord r :=
    fun x hx => funext fun gp => onRecord_congr r x gp hx
  have htypes : ∀ x, sameMask r x = true → x.type = r.type :=
    fun x hx => ((sameMask_iff r x).mp hx).1.symm
  cases hfind : records.find? (onRecord r) with
  | none =>
    have hwalk := walk_none r records hfind
    have hafter : afterVote r records = addNewMajority r :: records := by
      unfold afterVote
      rw [hwalk]
    have hself : onRecord r (addNewMajority r) = true := by
      rw [onRecord_addNewMajority r r hfits rfl, sameMask_iff]
      simp
    have hempty : ∀ x, sameMask r x = true →
        live Request.time glineRequestTime (votes x) r.time = [] := by
      intro x hx
      have hrec := h x (htypes x hx)
      rw [hon x hx, hfind] at hrec
      generalize live Request.time glineRequestTime (votes x) r.time = round at hrec
      cases hrec
      rfl
    refine ⟨?_, fun x hx _ => ?_, fun x htype hx => ?_, ?_⟩
    · rw [hafter]
      refine List.pairwise_cons.mpr ⟨fun gp hgp => ?_, happart⟩
      by_contra hsame
      rw [Bool.not_eq_false] at hsame
      have hgpr : onRecord r gp = true := by
        rw [onRecord_iff] at hself ⊢
        unfold sameRecord at hsame
        rw [Bool.and_eq_true, beq_iff_eq, beq_iff_eq] at hsame
        exact ⟨irccmp_trans_zero _ _ _ ((irccmp_comm_zero _ _).mp hsame.1) hself.1,
          irccmp_trans_zero _ _ _ ((irccmp_comm_zero _ _).mp hsame.2) hself.2⟩
      exact absurd hgpr (List.find?_eq_none.mp hfind gp hgp)
    · rw [hafter, hon x hx, List.find?_cons_of_pos hself]
      unfold castVote
      rw [hempty x hx]
      simpa using Records.one r
    · rw [hafter, List.find?_cons_of_neg (by simp [hapart x _ htype hx hself])]
    · constructor
      · rintro ⟨rest, hrest⟩
        rw [hwalk] at hrest
        exact absurd hrest (by simp)
      · intro hwins
        unfold castVote at hwins
        rw [hempty r ((sameMask_iff r r).mpr (by simp))] at hwins
        exact absurd hwins (by simp)
  | some gp =>
    obtain ⟨records', hwalk, hwalked⟩ := walk_some r records gp happart hfind
    have hafter : afterVote r records = records' := by
      unfold afterVote
      rw [hwalk]
    have hrec : ∀ x, sameMask r x = true → Records (some gp)
        (live Request.time glineRequestTime (votes x) r.time) := by
      intro x hx
      have hx' := h x (htypes x hx)
      rwa [hon x hx, hfind] at hx'
    refine ⟨?_, fun x hx hsecond => ?_, fun x htype hx => ?_, ?_⟩
    · rw [hafter]
      exact hwalked.apart
    · rw [hafter, hon x hx, hwalked.found]
      exact (verdict_records glineRequestTime r gp (votes x) (hrec x hx)).1 hsecond
    · rw [hafter]
      exact hwalked.others x fun gp hgp => hapart x gp htype hx hgp
    · rw [← (verdict_records glineRequestTime r gp (votes r)
        (hrec r ((sameMask_iff r r).mpr (by simp)))).2, hwalk]
      constructor
      · rintro ⟨rest, hrest⟩
        exact congrArg Prod.fst (Option.some.inj hrest)
      · intro hplaced
        exact ⟨records', by rw [hplaced]⟩

section Runs

variable (crypt : CStr → CStr → Option CStr) (glineRequestTime : ℕ)

theorem cleanupGlines_cleanupGlines (now later : ℤ) (h : now ≤ later)
    (pending : Kind → List GlinePending) :
    cleanupGlines glineRequestTime later (cleanupGlines glineRequestTime now pending) =
      cleanupGlines glineRequestTime later pending := by
  funext type
  unfold cleanupGlines
  rw [List.filter_filter]
  apply List.filter_congr
  intro gp _
  by_cases hgp : gp.lastGlineTime + glineRequestTime ≤ now
  · have hlater : gp.lastGlineTime + glineRequestTime ≤ later := by omega
    simp [hlater]
  · simp [hgp]

theorem removeGline_pending (r : Request) (s : State) :
    (removeGline crypt r s).pending = s.pending := by
  unfold removeGline
  split
  · split <;> rfl
  · rfl

/-- The records of all kinds after a request that gets as far as the vote. -/
def votedPending (r : Request) (pending : Kind → List GlinePending) : Kind → List GlinePending :=
  let cleaned := cleanupGlines glineRequestTime r.time pending
  Function.update cleaned r.type (afterVote r (cleaned r.type))

/-- Nothing that a vote does to the bans shows in the records. -/
theorem checkMajority_pending (r : Request) (ptr : ℕ) (s : State)
    (h : stopped crypt r s = false) :
    (checkMajority crypt glineRequestTime r ptr s).pending =
        votedPending glineRequestTime r s.pending ∨
      (checkMajority crypt glineRequestTime r ptr s).pending =
        cleanupGlines glineRequestTime r.time (votedPending glineRequestTime r s.pending) := by
  have hstopped : stopped crypt r (s.cleanup glineRequestTime r.time) = false := h
  have hcheck : checkMajority crypt glineRequestTime r ptr s =
      match walk r ((s.cleanup glineRequestTime r.time).pending r.type) with
      | none => (s.cleanup glineRequestTime r.time).setPending r.type
          (addNewMajority r :: (s.cleanup glineRequestTime r.time).pending r.type)
      | some (.placed, records) => ((if r.type = Kind.del then
          removeGline crypt r (s.cleanup glineRequestTime r.time)
          else setLocalGline r ptr (s.cleanup glineRequestTime r.time)).setPending r.type
            records).cleanup glineRequestTime r.time
      | some (_, records) => (s.cleanup glineRequestTime r.time).setPending r.type records := by
    unfold checkMajority
    dsimp only
    rw [if_neg (by simp [hstopped])]
  rw [hcheck]
  unfold votedPending afterVote
  show _ = Function.update (s.cleanup glineRequestTime r.time).pending r.type
    (match walk r ((s.cleanup glineRequestTime r.time).pending r.type) with
      | none => addNewMajority r :: (s.cleanup glineRequestTime r.time).pending r.type
      | some out => out.2) ∨ _ = cleanupGlines glineRequestTime r.time
        (Function.update (s.cleanup glineRequestTime r.time).pending r.type
        (match walk r ((s.cleanup glineRequestTime r.time).pending r.type) with
          | none => addNewMajority r :: (s.cleanup glineRequestTime r.time).pending r.type
          | some out => out.2))
  cases hwalk : walk r ((s.cleanup glineRequestTime r.time).pending r.type) with
  | none => exact Or.inl rfl
  | some out =>
    obtain ⟨verdict, records⟩ := out
    cases verdict with
    | alreadyVoted => exact Or.inl rfl
    | recorded => exact Or.inl rfl
    | placed =>
      right
      dsimp only
      unfold State.setPending
      split
      · show cleanupGlines glineRequestTime r.time (Function.update (removeGline crypt r
          (s.cleanup glineRequestTime r.time)).pending r.type records) = _
        rw [removeGline_pending]
      · rfl

theorem checkMajority_later (r : Request) (ptr : ℕ) (s : State)
    (h : stopped crypt r s = false) (later : ℤ) (hlater : r.time ≤ later) :
    cleanupGlines glineRequestTime later
        (checkMajority crypt glineRequestTime r ptr s).pending =
      cleanupGlines glineRequestTime later (votedPending glineRequestTime r s.pending) := by
  rcases checkMajority_pending crypt glineRequestTime r ptr s h with hp | hp
  · rw [hp]
  · rw [hp, cleanupGlines_cleanupGlines glineRequestTime r.time later hlater]

theorem votedPending_apart (r : Request) (pending : Kind → List GlinePending)
    (happart : ∀ type, Apart (pending type))
    (hafter : Apart (afterVote r (cleanupGlines glineRequestTime r.time pending r.type)))
    (type : Kind) : Apart (votedPending glineRequestTime r pending type) := by
  unfold votedPending
  by_cases htype : type = r.type
  · rw [htype, Function.update_self]
    exact hafter
  · rw [Function.update_of_ne htype]
    exact (happart type).sublist List.filter_sublist

theorem checkMajority_apart (r : Request) (ptr : ℕ) (s : State)
    (h : stopped crypt r s = false) (happart : ∀ type, Apart (s.pending type))
    (hafter : Apart (afterVote r (cleanupGlines glineRequestTime r.time s.pending r.type)))
    (type : Kind) : Apart ((checkMajority crypt glineRequestTime r ptr s).pending type) := by
  have hvoted := votedPending_apart glineRequestTime r s.pending happart hafter type
  rcases checkMajority_pending crypt glineRequestTime r ptr s h with hp | hp
  · rw [hp]
    exact hvoted
  · rw [hp]
    exact hvoted.sublist List.filter_sublist

/-- At the time `now` the records stand for the live parts of the rounds. -/
structure Tallied (p : Past) (now : ℤ) : Prop where
  apart : ∀ type, Apart (p.state.pending type)
  tally : ∀ r later, now ≤ later →
    Records ((cleanupGlines glineRequestTime later p.state.pending r.type).find? (onRecord r))
      (liveFor glineRequestTime p.heard r later)

theorem tallied_cleanup (p : Past) (now t : ℤ) (h : Tallied glineRequestTime p now)
    (ht : now ≤ t) :
    Tallied glineRequestTime ⟨p.state.cleanup glineRequestTime t, p.heard⟩ t := by
  refine ⟨fun type => (h.apart type).sublist List.filter_sublist, fun r later hlater => ?_⟩
  show Records ((cleanupGlines glineRequestTime later
    (cleanupGlines glineRequestTime t p.state.pending) r.type).find? (onRecord r)) _
  rw [cleanupGlines_cleanupGlines glineRequestTime t later hlater]
  exact h.tally r later (ht.trans hlater)

theorem countFor_append_same (heard : List Request) (r x : Request) (h : sameMask x r = true) :
    countFor glineRequestTime (heard ++ [r]) x =
      (castVote Request.time clash glineRequestTime 2 (countFor glineRequestTime heard x) r).1 := by
  unfold countFor
  rw [List.filter_append, List.filter_cons_of_pos h, List.filter_nil, count_append]

theorem countFor_append_other (heard : List Request) (r x : Request) (h : sameMask x r = false) :
    countFor glineRequestTime (heard ++ [r]) x = countFor glineRequestTime heard x := by
  unfold countFor
  rw [List.filter_append, List.filter_cons_of_neg (by simp [h]), List.filter_nil, List.append_nil]

theorem countFor_congr (heard : List Request) (r x : Request) (h : sameMask r x = true) :
    countFor glineRequestTime heard x = countFor glineRequestTime heard r := by
  have hsame : sameMask x = sameMask r := by
    funext y
    rw [Bool.eq_iff_iff]
    exact ⟨sameMask_trans r x y h, sameMask_trans x r y (sameMask_symm r x h)⟩
  unfold countFor
  rw [hsame]

/-- The records of the kind the request is of, when it comes to the vote. -/
theorem voted_of_tallied (p : Past) (now : ℤ) (r : Request) (hfits : Fits r)
    (h : Tallied glineRequestTime p now) (ht : now ≤ r.time) :
    Voted glineRequestTime r (cleanupGlines glineRequestTime r.time p.state.pending r.type)
      (countFor glineRequestTime p.heard) := by
  have hclean := tallied_cleanup glineRequestTime p now r.time h ht
  apply afterVote_voted glineRequestTime r _ _ hfits (hclean.apart r.type)
  intro x hx
  have hx' := h.tally x r.time ht
  rw [hx] at hx'
  exact hx'

theorem tallied_request (p : Past) (now : ℤ) (r : Request) (ptr : ℕ) (hfits : Fits r)
    (hsecond : stopped crypt r p.state = false → ∀ v, liveFor glineRequestTime p.heard r r.time = [v] →
      clash v r = false → r.source.username ≠ [])
    (h : Tallied glineRequestTime p now) (ht : now ≤ r.time) :
    Tallied glineRequestTime (p.step crypt glineRequestTime (.request r ptr)) r.time := by
  have hclean := tallied_cleanup glineRequestTime p now r.time h ht
  have hvoted := voted_of_tallied glineRequestTime p now r hfits h ht
  cases hstopped : stopped crypt r p.state with
  | true =>
    have hstep : p.step crypt glineRequestTime (.request r ptr) =
        ⟨p.state.cleanup glineRequestTime r.time, p.heard⟩ := by
      have hstopped' : stopped crypt r (p.state.cleanup glineRequestTime r.time) = true := hstopped
      unfold Past.step step checkMajority Event.requests
      simp [hstopped, hstopped']
    rw [hstep]
    exact hclean
  | false =>
    have hheard : (p.step crypt glineRequestTime (.request r ptr)).heard = p.heard ++ [r] := by
      unfold Past.step Event.requests
      simp [hstopped]
    refine ⟨checkMajority_apart crypt glineRequestTime r ptr p.state hstopped h.apart hvoted.apart,
      fun x later hlater => ?_⟩
    rw [hheard]
    show Records ((cleanupGlines glineRequestTime later (checkMajority crypt glineRequestTime r ptr
      p.state).pending x.type).find? (onRecord x)) _
    rw [checkMajority_later crypt glineRequestTime r ptr p.state hstopped later hlater]
    unfold liveFor
    have hapart := votedPending_apart glineRequestTime r p.state.pending h.apart hvoted.apart
    have hself : votedPending glineRequestTime r p.state.pending r.type =
        afterVote r (cleanupGlines glineRequestTime r.time p.state.pending r.type) :=
      Function.update_self _ _ _
    have hother : ∀ type, type ≠ r.type → votedPending glineRequestTime r p.state.pending type =
        cleanupGlines glineRequestTime r.time p.state.pending type :=
      fun type htype => Function.update_of_ne htype _ _
    by_cases hsame : sameMask r x = true
    · have htype : x.type = r.type := ((sameMask_iff r x).mp hsame).1.symm
      rw [countFor_append_same glineRequestTime p.heard r x (sameMask_symm r x hsame)]
      apply Records.later glineRequestTime x x.type _ _ _ (hapart x.type)
      rw [htype, hself]
      refine hvoted.same x hsame ?_
      rw [countFor_congr glineRequestTime p.heard r x hsame]
      exact hsecond hstopped
    · rw [Bool.not_eq_true] at hsame
      have hsame' : sameMask x r = false := by
        by_contra hx
        rw [Bool.not_eq_false] at hx
        rw [sameMask_symm x r hx] at hsame
        exact absurd hsame (by simp)
      rw [countFor_append_other glineRequestTime p.heard r x hsame',
        ← @live_live Request Request.time _ _ r.time later hlater]
      have hx := h.tally x r.time ht
      apply Records.later glineRequestTime x x.type _ _ _ (hapart x.type)
      by_cases htype : x.type = r.type
      · rw [htype, hself, hvoted.others x htype hsame, ← htype]
        exact hx
      · rw [hother x.type htype]
        exact hx

theorem past_tallied (events : List Event) (now : ℤ)
    (hfits : ∀ r ∈ events.flatMap Event.requests, Fits r)
    (hseconds : SecondsNamed crypt glineRequestTime events)
    (hordered : (events.flatMap Event.times ++ [now]).Pairwise (· ≤ ·)) :
    Tallied glineRequestTime (past crypt glineRequestTime events) now := by
  induction events using List.reverseRecOn generalizing now with
  | nil =>
    refine ⟨fun type => List.Pairwise.nil, fun r later _ => ?_⟩
    show Records none (live Request.time glineRequestTime [] later)
    rw [live_nil]
    exact Records.none
  | append_singleton events e ih =>
    have hpast : past crypt glineRequestTime (events ++ [e]) =
        (past crypt glineRequestTime events).step crypt glineRequestTime e := by
      unfold past
      rw [List.foldl_append]
      rfl
    have hbefore : ∀ r ∈ events.flatMap Event.requests, Fits r := by
      intro r hr
      apply hfits
      rw [List.flatMap_append]
      exact List.mem_append_left _ hr
    have hsecondsBefore : SecondsNamed crypt glineRequestTime events := fun before r ptr after hsplit =>
      hseconds before r ptr (after ++ [e]) (by rw [hsplit]; simp)
    have hlater : ∀ t, t ≤ now → Tallied glineRequestTime
        ((past crypt glineRequestTime events).step crypt glineRequestTime e) t →
        Tallied glineRequestTime
          ((past crypt glineRequestTime events).step crypt glineRequestTime e) now :=
      fun t ht htally => ⟨htally.apart, fun r later hr => htally.tally r later (ht.trans hr)⟩
    rw [hpast]
    rw [List.flatMap_append, List.append_assoc] at hordered
    cases e with
    | request r ptr =>
      have hr : (events.flatMap Event.times ++ [r.time]).Pairwise (· ≤ ·) := by
        refine hordered.sublist (List.Sublist.append (List.Sublist.refl _) ?_)
        simp [Event.times]
      have hnow : r.time ≤ now := by
        have htwo := (List.pairwise_append.mp hordered).2.1
        simpa [Event.times] using htwo
      apply hlater r.time hnow
      exact tallied_request crypt glineRequestTime _ r.time r ptr
        (hfits r (by simp [Event.requests])) (hseconds events r ptr [] rfl)
        (ih r.time hbefore hsecondsBefore hr) (Int.le_refl _)
    | cleanup t =>
      have hr : (events.flatMap Event.times ++ [t]).Pairwise (· ≤ ·) := by
        refine hordered.sublist (List.Sublist.append (List.Sublist.refl _) ?_)
        simp [Event.times]
      have hnow : t ≤ now := by
        have htwo := (List.pairwise_append.mp hordered).2.1
        simpa [Event.times] using htwo
      apply hlater t hnow
      have hstep : (past crypt glineRequestTime events).step crypt glineRequestTime (.cleanup t) =
          ⟨(past crypt glineRequestTime events).state.cleanup glineRequestTime t,
            (past crypt glineRequestTime events).heard⟩ := by
        simp [Past.step, step, Event.requests]
      rw [hstep]
      exact tallied_cleanup glineRequestTime _ t t (ih t hbefore hsecondsBefore hr) (Int.le_refl _)
    | bans ops isConfDatabase =>
      have hr : (events.flatMap Event.times ++ [now]).Pairwise (· ≤ ·) := by
        simpa [Event.times] using hordered
      have hold := ih now hbefore hsecondsBefore hr
      refine ⟨hold.apart, ?_⟩
      simpa [Past.step, step, Event.requests] using hold.tally

/-- Two votes count, and the request clashes with neither. -/
def Third (events : List Event) (r : Request) : Prop :=
  (openRound crypt glineRequestTime events r).length = 2 ∧
    ∀ v ∈ openRound crypt glineRequestTime events r, clash v r = false

/-- Two earlier votes that bear the request out. -/
structure BorneOut (votes : List Request) (r v w : Request) : Prop where
  earlier : [v, w].Sublist votes
  masks : sameMask v r = true ∧ sameMask w r = true
  apart : clash v w = false ∧ clash v r = false ∧ clash w r = false
  close : w.time < v.time + glineRequestTime ∧ r.time < w.time + glineRequestTime

/-- What a request does to the bans after the events: a G-line on its mask is placed or removed
by the third vote and by no other. -/
structure VotesRightly (events : List Event) (r : Request) (ptr : ℕ) (s s' : State) : Prop where
  justified : s'.ops ≠ s.ops →
    ∃ v w, BorneOut glineRequestTime (events.flatMap Event.requests) r v w
  placed : r.type = .add → findIsGlined crypt s.table r.host r.user = false →
    Third crypt glineRequestTime events r → s'.ops = s.ops ++ [.add .gline (glineConf r ptr)]
  removed : r.type = .del → Third crypt glineRequestTime events r →
    s'.table = (removeGlineMatch crypt s.isConfDatabase s.table r.user r.host).1 ∧
      RemovesNamed s.isConfDatabase .gline (AccessList.run s.ops) s.table r.host r.user
        (removeGlineMatch crypt s.isConfDatabase s.table r.user r.host)
  unmoved : s'.ops = s.ops ∨ (Third crypt glineRequestTime events r ∧
    (r.type = .add → s'.ops = s.ops ++ [.add .gline (glineConf r ptr)]))

theorem past_state (events : List Event) :
    (past crypt glineRequestTime events).state = run crypt glineRequestTime events := by
  induction events using List.reverseRecOn with
  | nil => rfl
  | append_singleton events e ih =>
    unfold past run at *
    rw [List.foldl_append, List.foldl_append]
    show GlineVote.step crypt glineRequestTime _ e = GlineVote.step crypt glineRequestTime _ e
    rw [ih]

theorem past_heard (events : List Event) :
    (past crypt glineRequestTime events).heard.Sublist (events.flatMap Event.requests) := by
  induction events using List.reverseRecOn with
  | nil => exact List.Sublist.refl _
  | append_singleton events e ih =>
    unfold past at *
    rw [List.foldl_append, List.flatMap_append]
    refine List.Sublist.append ih ?_
    rw [List.flatMap_cons, List.flatMap_nil, List.append_nil]
    exact List.filter_sublist

/-- The votes that count when a third is cast bear it out. -/
theorem third_borneOut (events : List Event) (r : Request)
    (h : Third crypt glineRequestTime events r) :
    ∃ v w, BorneOut glineRequestTime (events.flatMap Event.requests) r v w := by
  obtain ⟨hlen, hclash⟩ := h
  have hcounted : Counted Request.time clash glineRequestTime 2
      (countFor glineRequestTime (past crypt glineRequestTime events).heard r) := count_counted _
  have hsub : (countFor glineRequestTime (past crypt glineRequestTime events).heard r).Sublist
      ((past crypt glineRequestTime events).heard.filter (sameMask r)) := count_sublist _
  unfold openRound liveFor at hlen hclash
  generalize countFor glineRequestTime (past crypt glineRequestTime events).heard r = round
    at hlen hclash hcounted hsub
  have hlive : live Request.time glineRequestTime round r.time = round := by
    rcases @live_cases Request Request.time glineRequestTime round r.time with hl | hl
    · rw [hl] at hlen
      exact absurd hlen (by simp)
    · exact hl
  rw [hlive] at hlen hclash
  obtain ⟨v, w, rfl⟩ := List.length_eq_two.mp hlen
  have hmask : ∀ x ∈ [v, w], sameMask x r = true := by
    intro x hx
    exact sameMask_symm r x (List.mem_filter.mp (hsub.subset hx)).2
  refine ⟨v, w, (hsub.trans List.filter_sublist).trans (past_heard crypt glineRequestTime events),
    ⟨hmask v (by simp), hmask w (by simp)⟩, ⟨?_, hclash v (by simp), hclash w (by simp)⟩, ?_, ?_⟩
  · exact (List.pairwise_cons.mp hcounted.apart).1 w (by simp)
  · exact (List.isChain_cons_cons.mp hcounted.close).1
  · apply @lt_of_live Request Request.time glineRequestTime [v, w] r.time w
    · rw [hlive]
      simp
    · rfl

theorem third_iff (events : List Event) (r : Request) :
    Third crypt glineRequestTime events r ↔ (castVote Request.time clash glineRequestTime 2
      (countFor glineRequestTime (past crypt glineRequestTime events).heard r) r).2 = true := by
  constructor
  · rintro ⟨hlen, hclash⟩
    unfold openRound liveFor at hlen hclash
    unfold castVote
    dsimp only
    rw [if_neg, if_pos hlen]
    intro hany
    obtain ⟨v, hv, hvr⟩ := List.any_eq_true.mp hany
    rw [hclash v hv] at hvr
    exact absurd hvr (by simp)
  · exact carried _ r

/-- The bans change only where the walk says that the G-line is placed. -/
theorem checkMajority_ops (r : Request) (ptr : ℕ) (s : State) :
    let records := cleanupGlines glineRequestTime r.time s.pending r.type
    let s' := checkMajority crypt glineRequestTime r ptr s
    ((∃ rest, walk r records = some (.placed, rest)) ∧ stopped crypt r s = false →
      s'.ops = (if r.type = Kind.del then removeGline crypt r (s.cleanup glineRequestTime r.time)
        else setLocalGline r ptr (s.cleanup glineRequestTime r.time)).ops) ∧
    (¬ ((∃ rest, walk r records = some (.placed, rest)) ∧ stopped crypt r s = false) →
      s'.ops = s.ops) := by
  intro records s'
  have hclean : stopped crypt r (s.cleanup glineRequestTime r.time) = stopped crypt r s := rfl
  have hs' : s' = checkMajority crypt glineRequestTime r ptr s := rfl
  unfold checkMajority at hs'
  dsimp only at hs'
  cases hstopped : stopped crypt r s with
  | true =>
    rw [hclean, hstopped, if_pos rfl] at hs'
    refine ⟨fun h => absurd h.2 (by simp), fun _ => by rw [hs']; rfl⟩
  | false =>
    rw [hclean, hstopped, if_neg (by simp)] at hs'
    have hrecords : (s.cleanup glineRequestTime r.time).pending r.type = records := rfl
    rw [hrecords] at hs'
    cases hwalk : walk r records with
    | none =>
      rw [hwalk] at hs'
      refine ⟨fun h => absurd h.1 (by simp), fun _ => by rw [hs']; rfl⟩
    | some out =>
      obtain ⟨verdict, rest⟩ := out
      rw [hwalk] at hs'
      cases verdict with
      | alreadyVoted => exact ⟨fun h => absurd h.1 (by simp), fun _ => by rw [hs']; rfl⟩
      | recorded => exact ⟨fun h => absurd h.1 (by simp), fun _ => by rw [hs']; rfl⟩
      | placed => exact ⟨fun _ => by rw [hs']; rfl, fun h => absurd ⟨⟨rest, rfl⟩, rfl⟩ h⟩

theorem removeGline_table (r : Request) (s : State) : (removeGline crypt r s).table =
    (removeGlineMatch crypt s.isConfDatabase s.table r.user r.host).1 := by
  unfold removeGline removeGlineMatch removeMatch
  cases findConfByAddress crypt s.table (request .gline r.host r.user) false with
  | none => rfl
  | some found =>
    dsimp only
    by_cases hdb : s.isConfDatabase found.conf.ptr = true
    · rw [if_pos hdb, if_pos hdb]
      unfold State.table Atable.run
      rw [List.foldl_append]
      rfl
    · rw [if_neg hdb, if_neg hdb]

/-- On masks that fit their records, with second voters that have a username, and where the G-line
to be removed is the one that the lookup finds, G-lines are placed and removed by third votes and by
nothing else. -/
theorem gline_voting (events : List Event) (r : Request) (ptr : ℕ)
    (hfits : ∀ x ∈ (events ++ [Event.request r ptr]).flatMap Event.requests, Fits x)
    (hseconds : SecondsNamed crypt glineRequestTime events)
    (hordered : ((events ++ [Event.request r ptr]).flatMap Event.times).Pairwise (· ≤ ·))
    (hallocated : Allocated (run crypt glineRequestTime events).ops)
    (hnamed : let s := run crypt glineRequestTime events
      r.type = .del → ForemostNamed crypt s.isConfDatabase .gline (AccessList.run s.ops) s.table
        r.host r.user) :
    let s := run crypt glineRequestTime events
    VotesRightly crypt glineRequestTime events r ptr s
      (step crypt glineRequestTime s (.request r ptr)) := by
  intro s
  have htally : Tallied glineRequestTime (past crypt glineRequestTime events) r.time := by
    apply past_tallied
    · intro x hx
      apply hfits
      rw [List.flatMap_append]
      exact List.mem_append_left _ hx
    · exact hseconds
    · simpa [Event.times] using hordered
  have hr : Fits r := hfits r (by simp [Event.requests])
  have hvoted := voted_of_tallied glineRequestTime _ r.time r hr htally (Int.le_refl _)
  have hplaced : (∃ rest, walk r (cleanupGlines glineRequestTime r.time s.pending r.type) =
      some (.placed, rest)) ↔ Third crypt glineRequestTime events r := by
    rw [third_iff, ← hvoted.placed, past_state]
  obtain ⟨hchanged, hsame⟩ := checkMajority_ops crypt glineRequestTime r ptr s
  rw [hplaced] at hchanged hsame
  show VotesRightly crypt glineRequestTime events r ptr s
    (checkMajority crypt glineRequestTime r ptr s)
  have hadd : r.type = .add → Third crypt glineRequestTime events r ∧ stopped crypt r s = false →
      (checkMajority crypt glineRequestTime r ptr s).ops =
        s.ops ++ [.add .gline (glineConf r ptr)] := by
    intro htype h
    rw [hchanged h, if_neg (by rw [htype]; simp)]
    rfl
  refine ⟨fun hne => ?_, fun htype hforce hthird => hadd htype ⟨hthird, ?_⟩,
    fun htype hthird => ⟨?_, ?_⟩, ?_⟩
  · by_cases h : Third crypt glineRequestTime events r ∧ stopped crypt r s = false
    · exact third_borneOut crypt glineRequestTime events r h.1
    · exact absurd (hsame h) hne
  · simp [stopped, hforce]
  · have hstopped : stopped crypt r s = false := by simp [stopped, htype]
    have hops := hchanged ⟨hthird, hstopped⟩
    rw [if_pos htype] at hops
    unfold State.table at *
    rw [hops]
    exact removeGline_table crypt r (s.cleanup glineRequestTime r.time)
  · exact (unkline_iff crypt s.ops s.isConfDatabase r.host r.user hallocated).2.mpr (hnamed htype)
  · by_cases h : Third crypt glineRequestTime events r ∧ stopped crypt r s = false
    · exact Or.inr ⟨h.1, fun htype => hadd htype h⟩
    · exact Or.inl (hsame h)

end Runs

def sampleOper (name server : String) (hle : name.toList.length ≤ USERLEN)
    (hle' : server.toList.length ≤ HOSTLEN) : Oper where
  name := name.toList
  username := name.toList
  host := "oper.example.net".toList
  server := server.toList
  username_le := hle
  host_le := by decide
  server_le := hle'

def alice : Oper := sampleOper "alice" "hub.example.net" (by decide) (by decide)

def bob : Oper := sampleOper "bob" "east.example.net" (by decide) (by decide)

def carol : Oper := sampleOper "carol" "west.example.net" (by decide) (by decide)

def asks (source : Oper) (user : CStr) (time : ℤ) : Request :=
  ⟨source, user, "bad.example.com".toList, "spam".toList, .add, time⟩

def twoVotes (user : CStr) : List Event :=
  [.request (asks alice user 0) 1, .request (asks bob user 10) 2]

def shortUser : CStr := "joe".toList

/-- One more than fits. -/
def longUser : CStr := List.replicate 82 'x'

theorem voting_short :
    let s := run noCrypt 600 (twoVotes shortUser)
    VotesRightly noCrypt 600 (twoVotes shortUser) (asks carol shortUser 20) 3 s
      (step noCrypt 600 s (.request (asks carol shortUser 20) 3)) := by
  have hops : (run noCrypt 600 (twoVotes shortUser)).ops = [] := by decide +kernel
  apply gline_voting
  · intro x hx
    have huser : x.user = shortUser ∧ x.host = "bad.example.com".toList := by
      simp only [twoVotes, asks, List.flatMap_append, List.flatMap_cons, List.flatMap_nil,
        Event.requests, List.append_nil, List.mem_append, List.mem_cons, List.not_mem_nil,
        or_false] at hx
      rcases hx with (rfl | rfl) | rfl <;> exact ⟨rfl, rfl⟩
    exact ⟨by rw [huser.1]; decide, by rw [huser.2]; decide⟩
  · intro before r ptr after hsplit _ _ _ _
    have hmem : Event.request r ptr ∈ twoVotes shortUser := by
      rw [hsplit]
      simp
    simp only [twoVotes, List.mem_cons, List.not_mem_nil, or_false, Event.request.injEq] at hmem
    rcases hmem with ⟨rfl, rfl⟩ | ⟨rfl, rfl⟩ <;> decide
  · simp [twoVotes, asks, Event.times]
  · rw [hops]
    intro before type conf after heq
    exact absurd heq (by simp)
  · intro s htype
    exact absurd htype (by simp [asks])

/-- A third vote on a mask that does not fit finds no record of the first two. -/
theorem long_mask_never_placed :
    let s := run noCrypt 600 (twoVotes longUser)
    ¬ VotesRightly noCrypt 600 (twoVotes longUser) (asks carol longUser 20) 3 s
      (step noCrypt 600 s (.request (asks carol longUser 20) 3)) := by
  intro s h
  have hforce : findIsGlined noCrypt s.table "bad.example.com".toList longUser = false := by
    decide +kernel
  have hlen : (openRound noCrypt 600 (twoVotes longUser) (asks carol longUser 20)).length = 2 := by
    decide +kernel
  have hclash : (openRound noCrypt 600 (twoVotes longUser) (asks carol longUser 20)).all
      (fun v => !clash v (asks carol longUser 20)) = true := by
    decide +kernel
  have hafter : (step noCrypt 600 s (.request (asks carol longUser 20) 3)).ops.length = 0 := by
    decide +kernel
  have hplaced := h.placed rfl hforce ⟨hlen, fun v hv => by
    simpa using List.all_eq_true.mp hclash v hv⟩
  rw [hplaced] at hafter
  exact absurd hafter (by simp)

end IrcdHybrid.GlineVote
