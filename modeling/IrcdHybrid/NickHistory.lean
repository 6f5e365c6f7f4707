import IrcdHybrid.BanMask
import IrcdHybrid.Buffers
import IrcdHybrid.NickPassword

/-!
A connection before it is registered. The checksum of its password is taken over the
first twelve letters of the array its nick is in, so that letters of an earlier nick
count that are left behind a shorter one.
-/

namespace IrcdHybrid.NickHistory

open CString BanMask Buffers NickPassword

def PASSWDLEN : ℕ := 128

def isNickChar (c : Char) : Bool := c = '-' || isDigit c || decide ('A' ≤ c ∧ c ≤ '}')

def validNickname (nickname : CStr) (loc : Bool) : Bool :=
  match nickname with
  | [] => false
  | c :: _ =>
    if c = '-' ∨ (isDigit c ∧ loc) then false
    else nickname.all isNickChar && decide (nickname.length ≤ NICKLEN)

/-- What the password check says. -/
inductive Verdict where
  | accepted
  | rejected (comment : CStr)
  deriving DecidableEq

inductive Stage where
  | registering
  | exited
  | judged (verdict : Verdict)
  deriving DecidableEq

structure Connection where
  name : CharArray (HOSTLEN + 1)
  needNick : Bool
  needUser : Bool
  needCap : Bool
  password : Option CStr
  challengeValue : BitVec 32
  sockhost : CStr
  stage : Stage

/-- `make_client`, for a connection from an address. -/
def makeClient (sockhost : CStr) : Connection :=
  ⟨zeros _, true, true, false, none, 0, sockhost, .registering⟩

/-- What the rest of the server says about nicks when a NICK comes. -/
structure NickEnv where
  maxNickLength : ℕ
  resv : CStr → Bool
  used : CStr → Bool

/-- How the part of `register_local_user` in front of the password check ends: it waits for a
ping cookie, exits the connection for another reason, or goes on. -/
inductive Gate where
  | waits
  | exits
  | passes
  deriving DecidableEq

section Commands

variable (inetAddr : CStr → BitVec 32)

/-- The password check of `register_local_user`; `inetAddr` is `inet_addr` in host order. -/
def passwordCheck (c : Connection) : Verdict :=
  match c.password with
  | none => .rejected "Password required".toList
  | some password =>
    let passlen := password.length
    if passlen ≠ 4 ∧ passlen ≠ 6 then .rejected "Invalid password length".toList
    else
      let pwdOk :=
        if c.challengeValue = 0 then false
        else
          let address := inetAddr c.sockhost
          if passlen = 4 then
            verifyNickPasswordEvo2 c.name.bytes address (some password) c.challengeValue
          else verifyNickPasswordEvo1 c.name.bytes address (some password)
      if pwdOk then .accepted else .rejected "Incorrect password".toList

/-- `register_local_user`, when nothing is missing. -/
def registerLocalUser (gate : Gate) (c : Connection) : Connection :=
  if c.needNick || c.needUser || c.needCap then c
  else
    match gate with
    | .waits => c
    | .exits => { c with stage := .exited }
    | .passes => { c with stage := .judged (passwordCheck inetAddr c) }

/-- `set_initial_nick`. -/
def setInitialNick (gate : Gate) (c : Connection) (nick : CStr) : Connection :=
  registerLocalUser inetAddr gate { c with name := copy c.name nick, needNick := false }

/-- The nick that `mr_nick` takes from its argument. -/
def acceptedNick (env : NickEnv) : Option CStr → Option CStr
  | none => none
  | some parv =>
    if parv = [] then none
    else
      let nick := strlcpy parv (min (NICKLEN + 1) (env.maxNickLength + 1))
      if validNickname nick true && !env.resv nick && !env.used nick then some nick else none

/-- `mr_nick`. -/
def mrNick (env : NickEnv) (gate : Gate) (c : Connection) (parv : Option CStr) : Connection :=
  match acceptedNick env parv with
  | some nick => setInitialNick inetAddr gate c nick
  | none => c

/-- `mr_pass`. -/
def mrPass (c : Connection) : Option CStr → Connection
  | none => c
  | some parv => if parv = [] then c else { c with password := some (parv.take PASSWDLEN) }

inductive Event where
  | nick (env : NickEnv) (gate : Gate) (parv : Option CStr)
  | pass (parv : Option CStr)
  | user (gate : Gate)
  | usrip (challengeValue : BitVec 32)
  | capLs
  | capEnd (gate : Gate)
  | pong (gate : Gate)

def step (c : Connection) (e : Event) : Connection :=
  if c.stage ≠ .registering then c
  else
    match e with
    | .nick env gate parv => mrNick inetAddr env gate c parv
    | .pass parv => mrPass c parv
    | .user gate => registerLocalUser inetAddr gate { c with needUser := false }
    | .usrip challengeValue => { c with challengeValue := challengeValue }
    | .capLs => { c with needCap := true }
    | .capEnd gate => registerLocalUser inetAddr gate { c with needCap := false }
    | .pong gate => registerLocalUser inetAddr gate c

def run (events : List Event) (c : Connection) : Connection := events.foldl (step inetAddr) c

end Commands

theorem checkSum_take (nick : CStr) (usrIp randomVal : BitVec 32) :
    computeNickPasswordCheckSum nick usrIp randomVal =
      computeNickPasswordCheckSum (nick.take 12) usrIp randomVal := by
  have hchars : (List.range 12).map (fun i => charValue (nick.getD i '\x00')) =
      (List.range 12).map (fun i => charValue ((nick.take 12).getD i '\x00')) := by
    refine List.map_congr_left fun i hi => ?_
    rw [List.getD_eq_getElem?_getD, List.getD_eq_getElem?_getD,
      List.getElem?_take_of_lt (List.mem_range.mp hi)]
  unfold computeNickPasswordCheckSum
  rw [hchars]

/-- What of a password is compared with the checksum: the value that is mixed in, the letters, and
how many of the checksum stand before them. -/
def compared (password : Option CStr) (challengeValue : BitVec 32) :
    Option (BitVec 32 × CStr × ℕ) :=
  match password with
  | none => none
  | some password =>
    if challengeValue = 0 then none
    else if password.length = 4 then some (challengeValue, upper (password.drop 2), 2)
    else if password.length = 6 then
      (parseAlphaHex password 2).map fun r => (BitVec.ofNat 32 r, upper (password.drop 2), 0)
    else none

/-- The checksum over the letters of the array is the one the password asks for. -/
def Fits (bytes : CStr) (address : BitVec 32) (check : BitVec 32 × CStr × ℕ) : Prop :=
  (computeNickPasswordCheckSum bytes address check.1).drop check.2.2 = check.2.1

section Verdicts

variable (inetAddr : CStr → BitVec 32) (c c' : Connection)

theorem verdict_ite (right : Bool) (comment : CStr) :
    (if right then Verdict.accepted else .rejected comment) = .accepted ↔ right = true := by
  cases right <;> simp

theorem passwordCheck_accepted_iff : passwordCheck inetAddr c = .accepted ↔
    ∃ check, compared c.password c.challengeValue = some check ∧
      Fits c.name.bytes (inetAddr c.sockhost) check := by
  unfold passwordCheck compared Fits
  cases c.password with
  | none => simp
  | some password =>
    dsimp only
    by_cases hchallenge : c.challengeValue = 0
    · rw [if_pos hchallenge, if_pos hchallenge]
      split <;> simp
    · rw [if_neg hchallenge, if_neg hchallenge]
      by_cases hfour : password.length = 4
      · rw [if_neg (by omega), if_pos hfour, if_pos hfour, verdict_ite,
          verifyNickPasswordEvo2_iff, and_iff_right hfour]
        simp only [Option.some.injEq, exists_eq_left']
        exact eq_comm
      · by_cases hsix : password.length = 6
        · rw [if_neg (by omega), if_neg hfour, if_neg hfour, if_pos hsix, verdict_ite,
            verifyNickPasswordEvo1_parsed _ _ password hsix]
          simp only [Option.map_eq_some_iff]
          constructor
          · rintro ⟨r, hr, heq⟩
            exact ⟨_, ⟨r, hr, rfl⟩, heq.symm⟩
          · rintro ⟨_, ⟨r, hr, rfl⟩, heq⟩
            exact ⟨r, hr, heq.symm⟩
        · rw [if_pos ⟨hfour, hsix⟩, if_neg hfour, if_neg hsix]
          simp

/-- What is said of a password that is not accepted depends on nothing but the password. -/
theorem passwordCheck_rejected (hpassword : c.password = c'.password)
    (hc : passwordCheck inetAddr c ≠ .accepted) (hc' : passwordCheck inetAddr c' ≠ .accepted) :
    passwordCheck inetAddr c = passwordCheck inetAddr c' := by
  unfold passwordCheck at hc hc' ⊢
  rw [← hpassword] at hc' ⊢
  cases hp : c.password with
  | none => rfl
  | some password =>
    rw [hp] at hc hc'
    dsimp only at hc hc' ⊢
    split_ifs at hc hc' ⊢ <;> first | rfl | exact absurd rfl hc | exact absurd rfl hc'

theorem fits_of_leftover (address : BitVec 32) (check : BitVec 32 × CStr × ℕ)
    (hnick : str c.name = str c'.name) (hleft : leftover c.name 12 = leftover c'.name 12) :
    Fits c.name.bytes address check ↔ Fits c'.name.bytes address check := by
  unfold Fits
  rw [checkSum_take, take_eq _ _ 12 hnick hleft, ← checkSum_take]

theorem passwordCheck_evo2 (password : CStr) (hpassword : c.password = some password)
    (hlen : password.length = 4) (hchallenge : c.challengeValue ≠ 0) : passwordCheck inetAddr c =
      if verifyNickPasswordEvo2 c.name.bytes (inetAddr c.sockhost) (some password) c.challengeValue
      then .accepted else .rejected "Incorrect password".toList := by
  unfold passwordCheck
  rw [hpassword]
  dsimp only
  rw [if_neg (by omega), if_neg hchallenge, if_pos hlen]

theorem registerLocalUser_judged (gate : Gate) (v : Verdict) (hc : c.stage ≠ .judged v)
    (h : (registerLocalUser inetAddr gate c).stage = .judged v) :
    v = passwordCheck inetAddr (registerLocalUser inetAddr gate c) := by
  unfold registerLocalUser at h ⊢
  by_cases hneed : (c.needNick || c.needUser || c.needCap) = true
  · rw [if_pos hneed] at h
    exact absurd h hc
  · rw [if_neg hneed] at h ⊢
    cases gate with
    | waits => exact absurd h hc
    | exits => exact absurd h (by simp)
    | passes => exact (Stage.judged.inj h).symm

theorem step_judged (e : Event) (v : Verdict) (hc : c.stage = .judged v → v = passwordCheck inetAddr c)
    (h : (step inetAddr c e).stage = .judged v) :
    v = passwordCheck inetAddr (step inetAddr c e) := by
  unfold step at h ⊢
  by_cases hstage : c.stage = .registering
  · rw [if_neg (not_not.mpr hstage)] at h ⊢
    have hnot : c.stage ≠ .judged v := by
      rw [hstage]
      simp
    cases e with
    | nick env gate parv =>
      dsimp only at h ⊢
      unfold mrNick at h ⊢
      cases hnick : acceptedNick env parv with
      | none =>
        rw [hnick] at h
        exact absurd h hnot
      | some nick =>
        rw [hnick] at h
        exact registerLocalUser_judged inetAddr _ gate v hnot h
    | pass parv =>
      have hsame : (mrPass c parv).stage = c.stage := by
        unfold mrPass
        split
        · rfl
        · split <;> rfl
      exact absurd (hsame.symm.trans h) hnot
    | user gate => exact registerLocalUser_judged inetAddr _ gate v hnot h
    | usrip challengeValue => exact absurd h hnot
    | capLs => exact absurd h hnot
    | capEnd gate => exact registerLocalUser_judged inetAddr _ gate v hnot h
    | pong gate => exact registerLocalUser_judged inetAddr _ gate v hnot h
  · rw [if_pos hstage] at h ⊢
    exact hc h

theorem run_judged (events : List Event) (v : Verdict)
    (hc : c.stage = .judged v → v = passwordCheck inetAddr c)
    (h : (run inetAddr events c).stage = .judged v) :
    v = passwordCheck inetAddr (run inetAddr events c) := by
  induction events generalizing c with
  | nil => exact hc h
  | cons e events ih => exact ih (step inetAddr c e) (step_judged inetAddr c e v hc) h

end Verdicts

theorem isNickChar_ne_nul (nickname : CStr) (loc : Bool) (h : validNickname nickname loc = true) :
    nickname.length ≤ NICKLEN ∧ '\x00' ∉ nickname := by
  unfold validNickname at h
  split at h
  · simp at h
  · split at h
    · simp at h
    · rw [Bool.and_eq_true, decide_eq_true_iff, List.all_eq_true] at h
      refine ⟨h.2, fun hnul => ?_⟩
      exact absurd (h.1 _ hnul) (by decide)

/-- A run from an address to a verdict. -/
def Judged (inetAddr : CStr → BitVec 32) (sockhost : CStr) (c : Connection) (v : Verdict) : Prop :=
  (∃ events, run inetAddr events (makeClient sockhost) = c) ∧ c.stage = .judged v

theorem run_sockhost (inetAddr : CStr → BitVec 32) (events : List Event) (c : Connection) :
    (run inetAddr events c).sockhost = c.sockhost := by
  have hregister : ∀ gate (c : Connection), (registerLocalUser inetAddr gate c).sockhost = c.sockhost := by
    intro gate c
    unfold registerLocalUser
    split
    · rfl
    · cases gate <;> rfl
  have hstep : ∀ (c : Connection) (e : Event), (step inetAddr c e).sockhost = c.sockhost := by
    intro c e
    unfold step
    split
    · rfl
    · cases e with
      | nick env gate parv =>
        dsimp only
        unfold mrNick
        split
        · exact hregister gate _
        · rfl
      | pass parv =>
        dsimp only
        unfold mrPass
        split
        · rfl
        · split <;> rfl
      | user gate => exact hregister gate _
      | usrip challengeValue => rfl
      | capLs => rfl
      | capEnd gate => exact hregister gate _
      | pong gate => exact hregister gate _
  induction events generalizing c with
  | nil => rfl
  | cons e events ih => exact (ih _).trans (hstep c e)

def anyNick : NickEnv := ⟨12, fun _ => false, fun _ => false⟩

def localhost : CStr → BitVec 32 := fun _ => 0x7f000001#32

/-- What comes after the nicks; the password is right for foo. -/
def fooEvents : List Event := [.nick anyNick .passes (some "foo".toList), .usrip 1,
  .pass (some "NHMF".toList), .user .passes]

/-- A connection that is judged with the nick foo copied over what was in the array. -/
def fooConnection (b : CharArray (HOSTLEN + 1)) : Connection where
  name := copy b "foo".toList
  needNick := false
  needUser := false
  needCap := false
  password := some "NHMF".toList
  challengeValue := 1
  sockhost := []
  stage := .registering

theorem run_foo (b : CharArray (HOSTLEN + 1)) (needNick : Bool) :
    run localhost fooEvents { makeClient [] with name := b, needNick := needNick } =
      { fooConnection b with stage := .judged (passwordCheck localhost (fooConnection b)) } := by
  have hbefore : run localhost [.nick anyNick .passes (some "foo".toList), .usrip 1,
      .pass (some "NHMF".toList)] { makeClient [] with name := b, needNick := needNick } =
      { fooConnection b with needUser := true } := rfl
  have huser : step localhost { fooConnection b with needUser := true } (.user .passes) =
      registerLocalUser localhost .passes (fooConnection b) := by
    unfold step
    exact if_neg (not_not.mpr rfl)
  have hsplit : ∀ c, run localhost fooEvents c =
      step localhost (run localhost [.nick anyNick .passes (some "foo".toList), .usrip 1,
        .pass (some "NHMF".toList)] c) (.user .passes) := by
    intro c
    have hevents : fooEvents = [.nick anyNick .passes (some "foo".toList), .usrip 1,
      .pass (some "NHMF".toList)] ++ [.user .passes] := rfl
    unfold run
    rw [hevents, List.foldl_append]
    rfl
  rw [hsplit, hbefore, huser]
  unfold registerLocalUser
  exact if_neg (by simp [fooConnection])

theorem str_foo (b : CharArray (HOSTLEN + 1)) : str (fooConnection b).name = "foo".toList :=
  str_copy b _ (by decide) (by decide)

/-- The password is judged by the checksum of the letters in the array. -/
theorem passwordCheck_foo (b : CharArray (HOSTLEN + 1)) (check : CStr)
    (hcheck : computeNickPasswordCheckSum (fooConnection b).name.bytes 0x7f000001#32 1#32 = check) :
    passwordCheck localhost (fooConnection b) =
      if "MF".toList = check.drop 2 then .accepted else .rejected "Incorrect password".toList := by
  have hverify := verifyNickPasswordEvo2_iff (fooConnection b).name.bytes 0x7f000001#32 1#32
    "NHMF".toList
  rw [hcheck] at hverify
  have hdef := passwordCheck_evo2 localhost (fooConnection b) _ rfl rfl
    (by show (1#32 : BitVec 32) ≠ 0; decide)
  have haddress : localhost (fooConnection b).sockhost = 0x7f000001#32 := rfl
  have hchallenge : (fooConnection b).challengeValue = 1#32 := rfl
  rw [haddress, hchallenge] at hdef
  rw [hdef]
  by_cases hsame : "MF".toList = check.drop 2
  · rw [if_pos hsame, if_pos (hverify.mpr ⟨rfl, hsame⟩)]
  · rw [if_neg hsame, if_neg (fun h => hsame (hverify.mp h).2)]

theorem checkSum_zeros : computeNickPasswordCheckSum (fooConnection (zeros _)).name.bytes
    0x7f000001#32 1#32 = "NHMF".toList := by
  have hchars : (List.range 12).map (fun i =>
        charValue ((fooConnection (zeros _)).name.bytes.getD i '\x00')) =
      (List.range 12).map (fun i => charValue ("foo".toList.getD i '\x00')) := by decide
  rw [← checkSum_foo]
  unfold computeNickPasswordCheckSum
  rw [hchars]

theorem judged_fresh : Judged localhost [] (run localhost fooEvents (makeClient [])) .accepted := by
  refine ⟨⟨fooEvents, rfl⟩, ?_⟩
  have hrun := run_foo (zeros _) true
  have hcheck := passwordCheck_foo (zeros _) _ checkSum_zeros
  rw [if_pos (by decide)] at hcheck
  rw [hcheck] at hrun
  exact congrArg Connection.stage hrun

/-- A longer nick first. -/
def laterEvents : List Event := .nick anyNick .passes (some "fooba".toList) :: fooEvents

theorem checkSum_fooba :
    computeNickPasswordCheckSum (fooConnection (copy (zeros _) "fooba".toList)).name.bytes
      0x7f000001#32 1#32 = "GABD".toList := by
  have hr : (fun r => ((List.range 12).map fun i =>
        charValue ((fooConnection (copy (zeros _) "fooba".toList)).name.bytes.getD i '\x00')).foldl
      (mixChar 1#32) r)^[10] 0x7f000001#32 = 0x037d6013#32 := by
    have hchars : (List.range 12).map (fun i =>
        charValue ((fooConnection (copy (zeros _) "fooba".toList)).name.bytes.getD i '\x00')) =
      [0x66#32, 0x6f#32, 0x6f#32, 0#32, 0x61#32, 0#32, 0#32, 0#32, 0#32, 0#32, 0#32, 0#32] := by decide
    rw [hchars, iterate_ten]
    simp [mixChar, mixBit, iterate_eight]
  unfold computeNickPasswordCheckSum
  dsimp only
  rw [hr]
  decide

theorem judged_later : Judged localhost [] (run localhost laterEvents (makeClient []))
    (.rejected "Incorrect password".toList) := by
  refine ⟨⟨laterEvents, rfl⟩, ?_⟩
  have hrun := run_foo (copy (zeros _) "fooba".toList) false
  have hcheck := passwordCheck_foo (copy (zeros _) "fooba".toList) _ checkSum_fooba
  rw [if_neg (by decide)] at hcheck
  rw [hcheck] at hrun
  exact congrArg Connection.stage hrun

end IrcdHybrid.NickHistory
