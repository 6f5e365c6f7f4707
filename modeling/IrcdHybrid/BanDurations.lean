import IrcdHybrid.Numeral

/-!
How long a temporary ban lasts. An operator names minutes, and a server gets seconds: the number
that goes out with the ban is read by the same function, in the other unit. Nothing bounds the
digits before they are added up, so the sum is one modulo 2^64, and of what comes out an `int` is
kept.
-/

namespace IrcdHybrid.BanDurations

open CString Numeral

/-- `MAX_TDKLINE_TIME`, in minutes. -/
def maxTdklineTime : ℤ := 24 * 60 * 360

/-- What a 64-bit `time_t` keeps. -/
def toTime (v : ℤ) : ℤ := v.bmod (2 ^ 64)

/-- The loop of `valid_tkline`. -/
def addDigits : CStr → ℤ → Option ℤ
  | [], result => some result
  | c :: data, result =>
    if isDigit c then addDigits data (toTime (toTime (result * 10) + (c.toNat &&& 15 : ℕ)))
    else none

def validTkline (data : CStr) (minutes : Bool) : ℤ :=
  match addDigits data 0 with
  | none => 0
  | some result =>
    let result := if result = 0 then 1 else result
    let result := if minutes then result else result.tdiv 60
    let result := if maxTdklineTime < result then maxTdklineTime else result
    toTime (result * 60)

/-- How `parse_aline` begins: `tkline_time`, and the parameters behind it. The local
`found_tkline_time` is an `int`. -/
def parseTime (word : CStr) (parv : List CStr) : ℤ × List CStr :=
  let found := toInt (validTkline word true)
  if found ≠ 0 then (found, parv) else (0, word :: parv)

/-- A ban on its way: the parameters of `KLINE` and `DLINE`. -/
structure BanLine where
  targetServer : CStr
  tklineTime : CStr
  rest : List CStr

/-- What `mo_kline` and `mo_dline` send: `ON` a server, or to those of the cluster. -/
def propagate (targetServer : Option CStr) (cluster : List CStr) (tklineTime : ℤ)
    (rest : List CStr) : List BanLine :=
  match targetServer with
  | some name => [⟨name, decimal (tklineTime % 2 ^ 64).toNat, rest⟩]
  | none => cluster.map fun name => ⟨name, signedDecimal (toInt tklineTime), rest⟩

/-- What `ms_kline` and `ms_dline` pass on. -/
def passOn (line : BanLine) : BanLine := ⟨line.targetServer, line.tklineTime, line.rest⟩

/-- What they read. -/
def remoteTime (line : BanLine) : ℤ := validTkline line.tklineTime false

theorem isDigit_and (c : Char) (h : isDigit c = true) : c.toNat &&& 15 = c.toNat - '0'.toNat := by
  simp only [isDigit, Bool.and_eq_true, decide_eq_true_eq, char_le_iff, Char.reduceToNat] at h
  rw [show 15 = 2 ^ 4 - 1 from rfl, Nat.and_two_pow_sub_one_eq_mod]
  simp only [Char.reduceToNat]
  omega

theorem addDigits_value (ds : CStr) (v : ℕ) (h : ∀ c ∈ ds, isDigit c = true) :
    addDigits ds (toTime v) = some (toTime (Nat.ofDigitChars 10 ds v)) := by
  induction ds generalizing v with
  | nil => rw [Nat.ofDigitChars_nil]; rfl
  | cons c ds ih =>
    have hc := h c List.mem_cons_self
    have hnext : toTime (toTime (toTime v * 10) + (c.toNat &&& 15 : ℕ)) =
        toTime ((10 * v + (c.toNat - '0'.toNat) : ℕ)) := by
      rw [isDigit_and c hc]
      unfold toTime
      rw [Int.bmod_mul_bmod, Int.bmod_add_bmod]
      rw [Int.mul_comm, Int.natCast_add, Int.natCast_mul]
      rfl
    rw [addDigits, if_pos hc, hnext, ih _ (fun d hd => h d (List.mem_cons_of_mem c hd)),
      Nat.ofDigitChars_cons]

/-- What is kept of a sum of digits. -/
def minutesOf (n : ℕ) : ℤ := if toTime n = 0 then 1 else toTime n

def clamp (result : ℤ) : ℤ := if maxTdklineTime < result then maxTdklineTime else result

theorem validTkline_digits (ds : CStr) (minutes : Bool) (h : ∀ c ∈ ds, isDigit c = true) :
    validTkline ds minutes =
      toTime (clamp (if minutes then minutesOf (digitsValue ds)
        else (minutesOf (digitsValue ds)).tdiv 60) * 60) := by
  have hsum := addDigits_value ds 0 h
  unfold validTkline
  rw [show addDigits ds 0 = some (toTime (digitsValue ds)) from hsum]
  rfl

/-- The sums that do not wrap, those that wrap to what is clamped, and those that wrap below zero to
what sixty times is the longest duration again, as far as an `int` holds it. -/
def Fitting (n : ℕ) : Prop :=
  n < 2 ^ 63 ∨ (maxTdklineTime ≤ (n % 2 ^ 64 : ℕ) ∧ n % 2 ^ 64 < 2 ^ 63) ∨
    (2 ^ 63 ≤ n % 2 ^ 64 ∧ (n % 2 ^ 30 : ℕ) = maxTdklineTime)

theorem toTime_eq (v : ℤ) (hlow : -2 ^ 63 ≤ v) (hhigh : v < 2 ^ 63) : toTime v = v := by
  unfold toTime
  apply Int.bmod_eq_of_le <;> omega

theorem toTime_cast (n : ℕ) (h : n % 2 ^ 64 < 2 ^ 63) : toTime n = (n % 2 ^ 64 : ℕ) := by
  unfold toTime
  rw [Int.bmod_def]
  omega

theorem toTime_cast_neg (n : ℕ) (h : 2 ^ 63 ≤ n % 2 ^ 64) :
    toTime n = (n % 2 ^ 64 : ℕ) - 2 ^ 64 := by
  unfold toTime
  rw [Int.bmod_def]
  omega

theorem clamp_le (v : ℤ) : clamp v ≤ maxTdklineTime := by
  unfold clamp
  split <;> omega

theorem toInt_toTime (v : ℤ) : toInt (toTime v) = toInt v :=
  Int.bmod_bmod_of_dvd (by decide)

/-- The sums that are right, where the sum is not negative. -/
theorem minutes_pos (n : ℕ) (h : n % 2 ^ 64 < 2 ^ 63) :
    toInt (clamp (minutesOf n) * 60) = 60 * min (max (n : ℤ) 1) maxTdklineTime ↔ Fitting n := by
  have hsum := toTime_cast n h
  have hle := clamp_le (minutesOf n)
  have hpos : 1 ≤ clamp (minutesOf n) := by
    unfold clamp minutesOf maxTdklineTime
    omega
  have hint : toInt (clamp (minutesOf n) * 60) = clamp (minutesOf n) * 60 := by
    unfold maxTdklineTime at hle
    unfold toInt
    apply Int.bmod_eq_of_le <;> omega
  rw [hint]
  unfold Fitting clamp minutesOf maxTdklineTime
  omega

/-- Sixty is four times fifteen, and fifteen has no factor in common with 2^30. -/
theorem toInt_sixty (r : ℤ) :
    toInt ((r - 2 ^ 64) * 60) = 60 * maxTdklineTime ↔ r % 2 ^ 30 = maxTdklineTime := by
  unfold toInt maxTdklineTime
  rw [Int.bmod_def]
  omega

theorem minutes_neg (n : ℕ) (h : 2 ^ 63 ≤ n % 2 ^ 64) :
    toInt (clamp (minutesOf n) * 60) = 60 * min (max (n : ℤ) 1) maxTdklineTime ↔ Fitting n := by
  have hsum := toTime_cast_neg n h
  have hclamp : clamp (minutesOf n) = (n % 2 ^ 64 : ℕ) - 2 ^ 64 := by
    unfold clamp minutesOf maxTdklineTime
    omega
  have hlong : 60 * min (max (n : ℤ) 1) maxTdklineTime = 60 * maxTdklineTime := by
    unfold maxTdklineTime
    omega
  rw [hclamp, hlong, toInt_sixty]
  unfold Fitting
  omega

theorem minutes_iff (n : ℕ) :
    toInt (clamp (minutesOf n) * 60) = 60 * min (max (n : ℤ) 1) maxTdklineTime ↔ Fitting n := by
  by_cases h : n % 2 ^ 64 < 2 ^ 63
  · exact minutes_pos n h
  · exact minutes_neg n (by omega)

/-- What an operator's digits become, of which 0 is no duration. -/
theorem parseTime_digits (ds : CStr) (parv : List CStr) (h : ∀ c ∈ ds, isDigit c = true) :
    parseTime ds parv =
      if toInt (clamp (minutesOf (digitsValue ds)) * 60) ≠ 0 then
        (toInt (clamp (minutesOf (digitsValue ds)) * 60), parv)
      else (0, ds :: parv) := by
  unfold parseTime
  rw [validTkline_digits ds true h, if_pos rfl, toInt_toTime]

/-- The number in the line, of a duration that is whole minutes or none. -/
theorem propagate_time (targetServer : Option CStr) (cluster : List CStr) (m : ℕ)
    (rest : List CStr) (hm : (m : ℤ) ≤ maxTdklineTime) (line : BanLine)
    (hline : line ∈ propagate targetServer cluster (60 * (m : ℤ)) rest) :
    line.tklineTime = decimal (60 * m) := by
  unfold maxTdklineTime at hm
  cases targetServer with
  | some name =>
    have hunsigned : (60 * (m : ℤ) % 2 ^ 64).toNat = 60 * m := by
      rw [Int.emod_eq_of_lt (by omega) (by omega)]
      omega
    rw [List.mem_singleton.mp hline]
    dsimp only
    rw [hunsigned]
  | none =>
    obtain ⟨name, _, rfl⟩ := List.mem_map.mp hline
    have hint : toInt (60 * (m : ℤ)) = 60 * (m : ℤ) := by
      unfold toInt
      apply Int.bmod_eq_of_le <;> omega
    have habs : (60 * (m : ℤ)).natAbs = 60 * m := by omega
    dsimp only
    rw [hint]
    unfold signedDecimal
    rw [if_neg (by omega), habs]

theorem remote_decimal (m : ℕ) (hm : (m : ℤ) ≤ maxTdklineTime) :
    validTkline (decimal (60 * m)) false = 60 * (m : ℤ) := by
  have hvalue := validTkline_digits (decimal (60 * m)) false (fun c => isDigit_decimal (60 * m) c)
  rw [digitsValue_decimal] at hvalue
  unfold maxTdklineTime at hm
  have hminutes : (minutesOf (60 * m)).tdiv 60 = m := by
    unfold minutesOf
    rw [toTime_eq _ (by omega) (by omega)]
    split
    · rw [Int.tdiv_eq_ediv_of_nonneg (by omega)]
      omega
    · rw [Int.tdiv_eq_ediv_of_nonneg (by omega)]
      omega
  rw [hvalue, if_neg (by simp), hminutes]
  have hclamp : clamp (m : ℤ) = m := by
    unfold clamp maxTdklineTime
    omega
  rw [hclamp, toTime_eq _ (by omega) (by omega)]
  omega

theorem remoteTime_propagate (targetServer : Option CStr) (cluster : List CStr) (m : ℕ)
    (rest : List CStr) (hm : (m : ℤ) ≤ maxTdklineTime) (line : BanLine)
    (hline : line ∈ propagate targetServer cluster (60 * (m : ℤ)) rest) :
    remoteTime line = 60 * (m : ℤ) := by
  unfold remoteTime
  rw [propagate_time targetServer cluster m rest hm line hline]
  exact remote_decimal m hm

/-- What an operator's digits become, here and on the servers that the ban goes to. -/
structure Sane (ds : CStr) : Prop where
  duration : ∀ parv, parseTime ds parv = (60 * min (max (digitsValue ds : ℤ) 1) maxTdklineTime, parv)
  positive : ∀ parv, 0 < (parseTime ds parv).1
  agrees : ∀ parv targetServer cluster rest, ∀ line ∈
    propagate targetServer cluster (parseTime ds parv).1 rest,
    remoteTime line = (parseTime ds parv).1 ∧ remoteTime (passOn line) = (parseTime ds parv).1
  permanent : ∀ targetServer cluster rest, ∀ line ∈ propagate targetServer cluster 0 rest,
    remoteTime line = 0 ∧ remoteTime (passOn line) = 0

theorem sane_iff (ds : CStr) (h : ∀ c ∈ ds, isDigit c = true) :
    Sane ds ↔ Fitting (digitsValue ds) := by
  obtain ⟨m, hpos, hm, hmin⟩ : ∃ m : ℕ, 1 ≤ m ∧ (m : ℤ) ≤ maxTdklineTime ∧
      60 * min (max (digitsValue ds : ℤ) 1) maxTdklineTime = 60 * (m : ℤ) := by
    refine ⟨(min (max (digitsValue ds : ℤ) 1) maxTdklineTime).toNat, ?_⟩
    unfold maxTdklineTime
    omega
  rw [← minutes_iff]
  constructor
  · intro hsane
    have hduration := hsane.duration []
    rw [parseTime_digits ds [] h] at hduration
    split at hduration
    · rw [Prod.mk.injEq] at hduration
      exact hduration.1
    · rw [Prod.mk.injEq] at hduration
      omega
  · intro hfit
    have hduration : ∀ parv, parseTime ds parv =
        (60 * min (max (digitsValue ds : ℤ) 1) maxTdklineTime, parv) := by
      intro parv
      rw [parseTime_digits ds parv h, hfit, if_pos (by omega)]
    refine ⟨hduration, fun parv => ?_, ?_, ?_⟩
    · rw [hduration]
      dsimp only
      omega
    · intro parv targetServer cluster rest line hline
      rw [hduration, hmin] at hline ⊢
      have htime := remoteTime_propagate targetServer cluster m rest hm line hline
      exact ⟨htime, htime⟩
    · intro targetServer cluster rest line hline
      have htime := remoteTime_propagate targetServer cluster 0 rest (by decide) line hline
      exact ⟨htime, htime⟩

theorem sane_sixty : Sane "60".toList :=
  (sane_iff "60".toList (List.all_eq_true.mp rfl)).mpr (by unfold Fitting; decide +kernel)

/-- Twenty digits, and the ban is over in a minute. -/
theorem wrapped_minute :
    "18446744073709551616".toList.all isDigit = true ∧
      parseTime "18446744073709551616".toList [] = (60, []) ∧
      ¬ Sane "18446744073709551616".toList := by
  have hminute : parseTime "18446744073709551616".toList [] = (60, []) := by
    have hsum : toInt (validTkline "18446744073709551616".toList true) = 60 := by decide +kernel
    unfold parseTime
    rw [hsum]
    exact if_pos (by decide)
  refine ⟨rfl, hminute, ?_⟩
  intro h
  have hduration := h.duration []
  rw [hminute] at hduration
  exact absurd hduration (by decide +kernel)

end IrcdHybrid.BanDurations
