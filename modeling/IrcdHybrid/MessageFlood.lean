import IrcdHybrid.Amortized
import IrcdHybrid.CString
import IrcdHybrid.Numeral

/-!
The throttle on the messages to one local client or one channel. The counter of the target
goes down when a message comes, by the seconds since it last went down, and not within one
second of that; a target over the limit is noticed, and refuses until the counter is at zero.
Times are seconds since the epoch; what is kept in an `int` wraps like one.
-/

namespace IrcdHybrid.MessageFlood

open CString Numeral Amortized

inductive Kind
  | privmsg
  | notice
  deriving DecidableEq

/-- What is read of the sender: its flags, and its names for the notice to the operators. -/
structure Source where
  clientName : CStr
  servptrName : CStr
  oper : Bool
  service : Bool
  canFlood : Bool
  myClient : Bool

/-- What is kept with the client or the channel that the messages go to. -/
structure Target where
  name : CStr
  firstReceivedMessageTime : ℕ
  receivedNumberOfPrivmsgs : ℤ
  floodNoticed : Bool

inductive Notice
  | bots (text : CStr)
  | source (text : CStr)

/-- The return value, what is sent, and the target behind the call. -/
structure Outcome where
  underAttack : Bool
  notices : List Notice
  target : Target

/-- The counter goes down by the seconds that have passed. -/
def settle (currentTime : ℕ) (target : Target) : Target :=
  if target.firstReceivedMessageTime + 1 < currentTime then
    let delta := toInt ((currentTime : ℤ) - target.firstReceivedMessageTime)
    let received := toInt (target.receivedNumberOfPrivmsgs - delta)
    if received ≤ 0 then
      { target with
        receivedNumberOfPrivmsgs := 0
        firstReceivedMessageTime := currentTime
        floodNoticed := false }
    else
      { target with
        receivedNumberOfPrivmsgs := received
        firstReceivedMessageTime := currentTime }
  else target

def possibleFlooder (source : Source) (target : Target) : CStr :=
  "Possible Flooder ".toList ++ source.clientName ++ " on ".toList ++ source.servptrName ++
    " target: ".toList ++ target.name

def throttled (target : Target) : CStr :=
  ":*** Message to ".toList ++ target.name ++ " throttled due to flooding".toList

/-- The first refusal is told to the operators, and makes the counter higher. -/
def markFlood (source : Source) (target : Target) : List Notice × Target :=
  if target.floodNoticed then ([], target)
  else
    ([.bots (possibleFlooder source target)],
      { target with
        floodNoticed := true
        receivedNumberOfPrivmsgs := toInt (target.receivedNumberOfPrivmsgs + 2) })

/-- `flood_attack_channel`; a client's counter is the same. -/
def floodAttackChannel (floodcount : ℤ) (currentTime : ℕ) (pOrN : Kind)
    (source : Source) (chptr : Target) : Outcome :=
  if floodcount ≠ 0 ∧ source.canFlood = false then
    let chptr := settle currentTime chptr
    if floodcount ≤ chptr.receivedNumberOfPrivmsgs ∨ chptr.floodNoticed = true then
      let (told, chptr) := markFlood source chptr
      ⟨true, told ++ if source.myClient ∧ pOrN ≠ .notice then [.source (throttled chptr)] else [],
        chptr⟩
    else
      ⟨false, [],
        { chptr with
          receivedNumberOfPrivmsgs := toInt (chptr.receivedNumberOfPrivmsgs + 1) }⟩
  else ⟨false, [], chptr⟩

/-- `flood_attack_client`. -/
def floodAttackClient (floodcount : ℤ) (currentTime : ℕ) (pOrN : Kind)
    (source : Source) (targetP : Target) : Outcome :=
  if source.oper ∨ source.service then ⟨false, [], targetP⟩
  else floodAttackChannel floodcount currentTime pOrN source targetP

/-- Which of the two is asked. -/
inductive Side
  | client
  | channel

structure Message where
  time : ℕ
  pOrN : Kind
  source : Source

def floodAttack (side : Side) (floodcount : ℤ) (target : Target) (m : Message) : Outcome :=
  match side with
  | .client => floodAttackClient floodcount m.time m.pOrN m.source target
  | .channel => floodAttackChannel floodcount m.time m.pOrN m.source target

/-- Whose messages are never counted. -/
def exempt (side : Side) (source : Source) : Bool :=
  match side with
  | .client => source.oper || source.service || source.canFlood
  | .channel => source.canFlood

/-- A message comes in: is it accepted, and what becomes of the target. -/
def receive (side : Side) (floodcount : ℤ) (target : Target) (m : Message) : Bool × Target :=
  let outcome := floodAttack side floodcount target m
  (!outcome.underAttack, outcome.target)

/-- A client that has just come, or a channel just made. -/
def fresh (name : CStr) : Target := ⟨name, 0, 0, false⟩

/-- The messages of the senders that are not exempt. -/
def counted (side : Side) (m : Message) : Bool := !exempt side m.source

/-- How many messages of a run are accepted from `s` to `t`. -/
def accepted (side : Side) (floodcount : ℤ) (target : Target) (ms : List Message)
    (s t : ℕ) : ℕ :=
  granted (receive side floodcount)
    (fun m => counted side m && decide (s ≤ m.time) && decide (m.time ≤ t)) target ms

theorem receive_exempt (side : Side) (floodcount : ℤ) (target : Target) (m : Message)
    (h : counted side m = false) : receive side floodcount target m = (true, target) := by
  unfold counted exempt at h
  cases side with
  | channel =>
    simp only [Bool.not_eq_false'] at h
    simp [receive, floodAttack, floodAttackChannel, h]
  | client =>
    simp only [Bool.not_eq_false', Bool.or_eq_true] at h
    simp only [receive, floodAttack, floodAttackClient]
    rcases h with h | h
    · rw [if_pos h]
      rfl
    · simp [floodAttackChannel, h]

/-- What a counted message meets once the counter has gone down. -/
def offer (floodcount : ℤ) (source : Source) (target : Target) : Bool × Target :=
  if floodcount ≤ target.receivedNumberOfPrivmsgs ∨ target.floodNoticed = true then
    (false, (markFlood source target).2)
  else
    (true, { target with
      receivedNumberOfPrivmsgs := toInt (target.receivedNumberOfPrivmsgs + 1) })

theorem floodAttackChannel_offer (floodcount : ℤ) (now : ℕ) (pOrN : Kind) (source : Source)
    (target : Target) (hon : floodcount ≠ 0) (hcan : source.canFlood = false) :
    (!(floodAttackChannel floodcount now pOrN source target).underAttack,
      (floodAttackChannel floodcount now pOrN source target).target) =
      offer floodcount source (settle now target) := by
  unfold floodAttackChannel offer
  rw [if_pos ⟨hon, hcan⟩]
  by_cases hfull : floodcount ≤ (settle now target).receivedNumberOfPrivmsgs ∨
      (settle now target).floodNoticed = true
  · simp only [if_pos hfull, Bool.not_true]
  · simp only [if_neg hfull, Bool.not_false]

theorem receive_counted (side : Side) (floodcount : ℤ) (target : Target) (m : Message)
    (hon : floodcount ≠ 0) (h : counted side m = true) :
    receive side floodcount target m = offer floodcount m.source (settle m.time target) := by
  unfold counted exempt at h
  unfold receive floodAttack
  cases side with
  | channel =>
    exact floodAttackChannel_offer floodcount m.time m.pOrN m.source target hon (by simpa using h)
  | client =>
    simp only [Bool.not_eq_true', Bool.or_eq_false_iff] at h
    rw [← floodAttackChannel_offer floodcount m.time m.pOrN m.source target hon h.2]
    simp [floodAttackClient, h.1.1, h.1.2]

/-- What every target keeps: the counter is an `int`, negative only when the penalty has
overflowed, and then the target is noticed. -/
structure Sound (target : Target) : Prop where
  low : -2 ^ 31 ≤ target.receivedNumberOfPrivmsgs
  high : target.receivedNumberOfPrivmsgs < 2 ^ 31
  pos : target.floodNoticed = false → 0 ≤ target.receivedNumberOfPrivmsgs

/-- The messages up to the limit. A counter that has overflowed, or will with the penalty,
leaves all of them. -/
def room (floodcount : ℤ) (target : Target) : ℤ :=
  if (target.floodNoticed = true ∧ target.receivedNumberOfPrivmsgs < 0) ∨
      (target.floodNoticed = false ∧ 2 ^ 31 - 2 ≤ target.receivedNumberOfPrivmsgs) then
    floodcount
  else max (floodcount - target.receivedNumberOfPrivmsgs) 0

/-- What can be accepted up to the time `t`. -/
def credit (floodcount : ℤ) (t : ℕ) (target : Target) : ℤ :=
  room floodcount target + max ((t : ℤ) - target.firstReceivedMessageTime) 0

theorem room_nonneg (floodcount : ℤ) (target : Target) (h : 0 ≤ floodcount) :
    0 ≤ room floodcount target := by
  unfold room
  split
  · exact h
  · exact le_max_right _ _

theorem room_le (floodcount : ℤ) (target : Target) (h : 0 ≤ floodcount) (hsound : Sound target) :
    room floodcount target ≤ floodcount := by
  unfold room
  split
  · exact le_refl _
  · rename_i hneg
    cases hnoticed : target.floodNoticed with
    | true =>
      simp only [hnoticed, true_and] at hneg
      omega
    | false =>
      have := hsound.pos hnoticed
      omega

theorem settle_sound (now : ℕ) (target : Target) (h : Sound target) :
    Sound (settle now target) := by
  unfold settle
  by_cases hdue : target.firstReceivedMessageTime + 1 < now
  · rw [if_pos hdue]
    dsimp only
    split
    · exact ⟨by simp, by simp, fun _ => le_refl _⟩
    · rename_i hleft
      have hbounds := toInt_bounds (target.receivedNumberOfPrivmsgs -
        toInt ((now : ℤ) - target.firstReceivedMessageTime))
      exact ⟨hbounds.1, hbounds.2, fun _ => by dsimp only; omega⟩
  · rw [if_neg hdue]
    exact h

theorem settle_first (now : ℕ) (target : Target)
    (hdue : target.firstReceivedMessageTime + 1 < now) :
    (settle now target).firstReceivedMessageTime = now := by
  unfold settle
  rw [if_pos hdue]
  dsimp only
  split <;> rfl

/-- The counter does not go down by more than the time that has passed. -/
theorem settle_room (floodcount : ℤ) (now : ℕ) (target : Target)
    (hdue : target.firstReceivedMessageTime + 1 < now)
    (hgap : now < target.firstReceivedMessageTime + 2 ^ 31)
    (hpos : 1 ≤ floodcount) (h : Sound target) :
    room floodcount (settle now target) ≤
      room floodcount target + ((now : ℤ) - target.firstReceivedMessageTime) := by
  by_cases hover : (target.floodNoticed = true ∧ target.receivedNumberOfPrivmsgs < 0) ∨
      (target.floodNoticed = false ∧ 2 ^ 31 - 2 ≤ target.receivedNumberOfPrivmsgs)
  · have hnew := room_le floodcount (settle now target) (by omega) (settle_sound now target h)
    have hall : room floodcount target = floodcount := by
      unfold room
      rw [if_pos hover]
    omega
  have hcount : 0 ≤ target.receivedNumberOfPrivmsgs := by
    cases hnoticed : target.floodNoticed with
    | true =>
      simp only [hnoticed, true_and] at hover
      omega
    | false => exact h.pos hnoticed
  have hhigh := h.high
  have hdelta := toInt_eq ((now : ℤ) - target.firstReceivedMessageTime) (by omega) (by omega)
  have hsub := toInt_eq (target.receivedNumberOfPrivmsgs -
    ((now : ℤ) - target.firstReceivedMessageTime)) (by omega) (by omega)
  have hold : room floodcount target = max (floodcount - target.receivedNumberOfPrivmsgs) 0 := by
    unfold room
    rw [if_neg hover]
  rw [hold]
  unfold settle
  rw [if_pos hdue]
  dsimp only
  rw [hdelta, hsub]
  split
  · unfold room
    dsimp only
    rw [if_neg (by simp)]
    omega
  · have hstill : ¬ ((target.floodNoticed = true ∧ target.receivedNumberOfPrivmsgs -
          ((now : ℤ) - target.firstReceivedMessageTime) < 0) ∨
        (target.floodNoticed = false ∧ 2 ^ 31 - 2 ≤ target.receivedNumberOfPrivmsgs -
          ((now : ℤ) - target.firstReceivedMessageTime))) := by
      rintro (⟨_, hneg⟩ | ⟨hn, hbig⟩)
      · omega
      · exact hover (Or.inr ⟨hn, by omega⟩)
    unfold room
    dsimp only
    rw [if_neg hstill]
    omega

theorem settle_credit (floodcount : ℤ) (now t : ℕ) (target : Target) (hnow : now ≤ t)
    (hpos : 1 ≤ floodcount) (hfit : floodcount ≤ 2 ^ 31 - 3) (h : Sound target) :
    credit floodcount t (settle now target) ≤ credit floodcount t target := by
  by_cases hdue : target.firstReceivedMessageTime + 1 < now
  · have hnew := room_le floodcount (settle now target) (by omega) (settle_sound now target h)
    have hold := room_nonneg floodcount target (by omega)
    have hfirst := settle_first now target hdue
    unfold credit
    rw [hfirst]
    -- after 2^31 seconds any counter has run out, whatever the subtraction gives
    by_cases hgap : now < target.firstReceivedMessageTime + 2 ^ 31
    · have hroom := settle_room floodcount now target hdue hgap hpos h
      omega
    · omega
  · unfold settle
    rw [if_neg hdue]

/-- A message inside a window finds no more than the limit and the length of the window. -/
theorem settle_window (floodcount : ℤ) (now s t : ℕ) (target : Target) (hs : s ≤ now)
    (ht : now ≤ t) (hpos : 1 ≤ floodcount) (h : Sound target) :
    credit floodcount t (settle now target) ≤ floodcount + ((t : ℤ) - s) + 1 := by
  have hroom := room_le floodcount (settle now target) (by omega) (settle_sound now target h)
  have hfirst : (s : ℤ) ≤ (settle now target).firstReceivedMessageTime + 1 := by
    by_cases hdue : target.firstReceivedMessageTime + 1 < now
    · rw [settle_first now target hdue]
      omega
    · unfold settle
      rw [if_neg hdue]
      omega
  unfold credit
  omega

theorem offer_sound (floodcount : ℤ) (source : Source) (target : Target)
    (hfit : floodcount ≤ 2 ^ 31 - 3) (h : Sound target) :
    Sound (offer floodcount source target).2 := by
  have hlow := h.low
  unfold offer
  split
  · unfold markFlood
    split
    · exact h
    · have hbounds := toInt_bounds (target.receivedNumberOfPrivmsgs + 2)
      exact ⟨hbounds.1, hbounds.2, by simp⟩
  · rename_i hopen
    push Not at hopen
    have heq := toInt_eq (target.receivedNumberOfPrivmsgs + 1) (by omega) (by omega)
    dsimp only
    rw [heq]
    refine ⟨by dsimp only; omega, by dsimp only; omega, ?_⟩
    intro hnoticed
    have := h.pos hnoticed
    dsimp only
    omega

/-- An accepted message takes one from what can be accepted, a refused one adds nothing. -/
theorem offer_credit (floodcount : ℤ) (t : ℕ) (source : Source) (target : Target)
    (hpos : 1 ≤ floodcount) (hfit : floodcount ≤ 2 ^ 31 - 3) (h : Sound target) :
    credit floodcount t (offer floodcount source target).2 +
        (if (offer floodcount source target).1 then 1 else 0) ≤ credit floodcount t target := by
  have hlow := h.low
  have hhigh := h.high
  by_cases hfull : floodcount ≤ target.receivedNumberOfPrivmsgs ∨ target.floodNoticed = true
  · have heq : offer floodcount source target = (false, (markFlood source target).2) := if_pos hfull
    rw [heq]
    cases hnoticed : target.floodNoticed with
    | true => simp [markFlood, hnoticed]
    | false =>
      simp only [hnoticed, Bool.false_eq_true, or_false] at hfull
      simp only [markFlood, hnoticed, Bool.false_eq_true, if_false, add_zero]
      unfold credit room
      simp only [hnoticed, Bool.false_eq_true, false_and, true_and, or_false, false_or,
        Bool.true_eq_false]
      by_cases hbig : 2 ^ 31 - 2 ≤ target.receivedNumberOfPrivmsgs
      · rw [if_pos hbig]
        split <;> omega
      · have hadd := toInt_eq (target.receivedNumberOfPrivmsgs + 2) (by omega) (by omega)
        rw [if_neg hbig, hadd, if_neg (by omega)]
        omega
  · have heq : offer floodcount source target = (true, { target with
        receivedNumberOfPrivmsgs := toInt (target.receivedNumberOfPrivmsgs + 1) }) := if_neg hfull
    rw [heq]
    push Not at hfull
    have hnoticed : target.floodNoticed = false := by simpa using hfull.2
    have hadd := toInt_eq (target.receivedNumberOfPrivmsgs + 1) (by omega) (by omega)
    unfold credit room
    simp only [hnoticed, hadd, Bool.false_eq_true, false_and, true_and, false_or, if_true]
    rw [if_neg (by omega), if_neg (by omega)]
    omega

theorem receive_sound (side : Side) (floodcount : ℤ) (target : Target) (m : Message)
    (hpos : 1 ≤ floodcount) (hfit : floodcount ≤ 2 ^ 31 - 3) (h : Sound target) :
    Sound (receive side floodcount target m).2 := by
  cases hcounted : counted side m with
  | false =>
    rw [receive_exempt side floodcount target m hcounted]
    exact h
  | true =>
    rw [receive_counted side floodcount target m (by omega) hcounted]
    exact offer_sound floodcount m.source _ hfit (settle_sound m.time target h)

theorem receive_credit (side : Side) (floodcount : ℤ) (t : ℕ) (target : Target) (m : Message)
    (hm : m.time ≤ t) (hpos : 1 ≤ floodcount) (hfit : floodcount ≤ 2 ^ 31 - 3)
    (h : Sound target) :
    credit floodcount t (receive side floodcount target m).2 +
        (if counted side m && (receive side floodcount target m).1 then 1 else 0) ≤
      credit floodcount t target := by
  cases hcounted : counted side m with
  | false =>
    rw [receive_exempt side floodcount target m hcounted]
    simp
  | true =>
    rw [receive_counted side floodcount target m (by omega) hcounted, Bool.true_and]
    have hoffer := offer_credit floodcount t m.source (settle m.time target) hpos hfit
      (settle_sound m.time target h)
    exact le_trans hoffer (settle_credit floodcount m.time t target hm hpos hfit h)

theorem granted_window (side : Side) (floodcount : ℤ) (s t : ℕ) (target : Target)
    (ms : List Message) (hst : s ≤ t) (hms : ∀ m ∈ ms, s ≤ m.time ∧ m.time ≤ t)
    (hpos : 1 ≤ floodcount) (hfit : floodcount ≤ 2 ^ 31 - 3) (h : Sound target) :
    (granted (receive side floodcount) (counted side) target ms : ℤ) ≤
      floodcount + ((t : ℤ) - s) + 1 := by
  induction ms with
  | nil =>
    rw [granted, Nat.cast_zero]
    omega
  | cons m ms ih =>
    obtain ⟨hs, ht⟩ := hms m List.mem_cons_self
    have hrest : ∀ e ∈ ms, s ≤ e.time ∧ e.time ≤ t :=
      fun e he => hms e (List.mem_cons_of_mem m he)
    rw [granted]
    cases hcounted : counted side m with
    | false =>
      rw [receive_exempt side floodcount target m hcounted]
      simpa using ih hrest
    | true =>
      -- the first counted message of the window: from here on the credit only falls
      have hsound := settle_sound m.time target h
      have hwindow := settle_window floodcount m.time s t target hs ht hpos h
      have hoffer := offer_credit floodcount t m.source (settle m.time target) hpos hfit hsound
      rw [receive_counted side floodcount target m (by omega) hcounted, Bool.true_and]
      have htail := granted_le (receive side floodcount) (counted side) Sound
        (credit floodcount t) _ ms (offer_sound floodcount m.source _ hfit hsound)
        (fun b _ => by
          have hroom := room_nonneg floodcount b (by omega)
          unfold credit
          omega)
        (fun b e he hb => ⟨receive_sound side floodcount b e hpos hfit hb,
          receive_credit side floodcount t b e (hrest e he).2 hpos hfit hb⟩)
      rw [Nat.cast_add, Nat.cast_ite, Nat.cast_one, Nat.cast_zero]
      omega

theorem fresh_sound (name : CStr) : Sound (fresh name) :=
  ⟨by simp [fresh], by simp [fresh], fun _ => le_refl _⟩

theorem accepted_le (side : Side) (floodcount : ℤ) (name : CStr) (ms : List Message) (s t : ℕ)
    (hst : s ≤ t) (hclock : ms.Pairwise (fun a b => a.time ≤ b.time))
    (hpos : 1 ≤ floodcount) (hfit : floodcount ≤ 2 ^ 31 - 3) :
    (accepted side floodcount (fresh name) ms s t : ℤ) ≤ floodcount + ((t : ℤ) - s) + 1 := by
  apply granted_window_le Message.time (receive side floodcount) (counted side) Sound s t _ _ ms
    (fresh_sound name) hclock
  · intro b m hb
    exact receive_sound side floodcount b m hpos hfit hb
  · intro b mid hb hmid
    exact granted_window side floodcount s t b mid hst hmid hpos hfit hb

/-- Each message comes less than 2^31 seconds after the counter last went down, so that the
seconds since then fit an `int`. -/
def Fits (side : Side) (floodcount : ℤ) : Target → List Message → Prop
  | _, [] => True
  | target, m :: ms =>
    (counted side m = true → m.time < target.firstReceivedMessageTime + 2 ^ 31) ∧
      Fits side floodcount (receive side floodcount target m).2 ms

theorem fits_append (side : Side) (floodcount : ℤ) (target : Target) (ms ns : List Message) :
    Fits side floodcount target (ms ++ ns) ↔ Fits side floodcount target ms ∧
      Fits side floodcount (after (receive side floodcount) target ms) ns := by
  induction ms generalizing target with
  | nil => simp [Fits]
  | cons m ms ih => simp [Fits, ih, and_assoc]

/-- What holds while the seconds fit: the counter is at most the limit and the penalty, and it
is at rest, or last went down by the time `last`. -/
structure Steady (floodcount last : ℤ) (target : Target) : Prop where
  low : 0 ≤ target.receivedNumberOfPrivmsgs
  high : target.receivedNumberOfPrivmsgs ≤ floodcount + 2
  quiet : target.floodNoticed = false → target.receivedNumberOfPrivmsgs ≤ floodcount
  first : (target.firstReceivedMessageTime : ℤ) ≤ last ∨
    (target.firstReceivedMessageTime = 0 ∧ target.receivedNumberOfPrivmsgs = 0 ∧
      target.floodNoticed = false)

theorem settle_steady (floodcount last : ℤ) (now : ℕ) (target : Target) (hnow : (now : ℤ) ≤ last)
    (hgap : now < target.firstReceivedMessageTime + 2 ^ 31) (hpos : 1 ≤ floodcount)
    (hfit : floodcount ≤ 2 ^ 31 - 3) (h : Steady floodcount last target) :
    Steady floodcount last (settle now target) := by
  obtain ⟨hlow, hhigh, hquiet, hfirst⟩ := h
  by_cases hdue : target.firstReceivedMessageTime + 1 < now
  · have hdelta := toInt_eq ((now : ℤ) - target.firstReceivedMessageTime) (by omega) (by omega)
    have hsub := toInt_eq (target.receivedNumberOfPrivmsgs -
      ((now : ℤ) - target.firstReceivedMessageTime)) (by omega) (by omega)
    unfold settle
    rw [if_pos hdue]
    dsimp only
    rw [hdelta, hsub]
    split
    · exact ⟨le_refl _, by dsimp only; omega, fun _ => by dsimp only; omega, Or.inl hnow⟩
    · refine ⟨by dsimp only; omega, by dsimp only; omega, ?_, Or.inl hnow⟩
      intro hnoticed
      have := hquiet hnoticed
      dsimp only
      omega
  · unfold settle
    rw [if_neg hdue]
    exact ⟨hlow, hhigh, hquiet, hfirst⟩

theorem offer_steady (floodcount last : ℤ) (source : Source) (target : Target)
    (hlast : 0 ≤ last) (hfit : floodcount ≤ 2 ^ 31 - 3) (h : Steady floodcount last target) :
    Steady floodcount last (offer floodcount source target).2 := by
  obtain ⟨hlow, hhigh, hquiet, hfirst⟩ := h
  have hfirst' : (target.firstReceivedMessageTime : ℤ) ≤ last := by omega
  unfold offer
  split
  · unfold markFlood
    split
    · exact ⟨hlow, hhigh, hquiet, hfirst⟩
    · rename_i hnoticed
      have hlimit := hquiet (by simpa using hnoticed)
      have hadd := toInt_eq (target.receivedNumberOfPrivmsgs + 2) (by omega) (by omega)
      dsimp only
      rw [hadd]
      exact ⟨by dsimp only; omega, by dsimp only; omega, by simp, Or.inl hfirst'⟩
  · rename_i hopen
    push Not at hopen
    have hadd := toInt_eq (target.receivedNumberOfPrivmsgs + 1) (by omega) (by omega)
    dsimp only
    rw [hadd]
    exact ⟨by dsimp only; omega, by dsimp only; omega, fun _ => by dsimp only; omega,
      Or.inl hfirst'⟩

theorem after_steady (side : Side) (floodcount last : ℤ) (target : Target)
    (ms : List Message) (hms : ∀ m ∈ ms, counted side m = true → (m.time : ℤ) ≤ last)
    (hfits : Fits side floodcount target ms) (hpos : 1 ≤ floodcount)
    (hfit : floodcount ≤ 2 ^ 31 - 3) (h : Steady floodcount last target) :
    Steady floodcount last (after (receive side floodcount) target ms) := by
  induction ms generalizing target with
  | nil => exact h
  | cons m ms ih =>
    rw [after_cons]
    apply ih _ (fun e he => hms e (List.mem_cons_of_mem m he)) hfits.2
    cases hcounted : counted side m with
    | false =>
      rw [receive_exempt side floodcount target m hcounted]
      exact h
    | true =>
      rw [receive_counted side floodcount target m (by omega) hcounted]
      have hm := hms m List.mem_cons_self hcounted
      have hsettle := settle_steady floodcount last m.time target
        hm (hfits.1 hcounted) hpos hfit h
      exact offer_steady floodcount last m.source _ (by omega) hfit hsettle

/-- After a pause that outlasts the counter, the next message is accepted. -/
theorem receive_idle (side : Side) (floodcount last : ℤ) (target : Target) (m : Message)
    (hidle : last + (floodcount + 3) ≤ m.time)
    (hgap : counted side m = true → m.time < target.firstReceivedMessageTime + 2 ^ 31)
    (hpos : 1 ≤ floodcount) (hfit : floodcount ≤ 2 ^ 31 - 3)
    (h : Steady floodcount last target) :
    (receive side floodcount target m).1 = true := by
  cases hcounted : counted side m with
  | false => rw [receive_exempt side floodcount target m hcounted]
  | true =>
    obtain ⟨hlow, hhigh, hquiet, hfirst⟩ := h
    have hgap := hgap hcounted
    have hempty : (settle m.time target).receivedNumberOfPrivmsgs = 0 ∧
        (settle m.time target).floodNoticed = false := by
      by_cases hdue : target.firstReceivedMessageTime + 1 < m.time
      · have hdelta := toInt_eq ((m.time : ℤ) - target.firstReceivedMessageTime)
          (by omega) (by omega)
        have hsub := toInt_eq (target.receivedNumberOfPrivmsgs -
          ((m.time : ℤ) - target.firstReceivedMessageTime)) (by omega) (by omega)
        unfold settle
        rw [if_pos hdue]
        dsimp only
        rw [hdelta, hsub, if_pos (by omega)]
        exact ⟨rfl, rfl⟩
      · unfold settle
        rw [if_neg hdue]
        rcases hfirst with hfirst | ⟨_, hzero, hnoticed⟩
        · omega
        · exact ⟨hzero, hnoticed⟩
    rw [receive_counted side floodcount target m (by omega) hcounted]
    unfold offer
    rw [hempty.1, hempty.2, if_neg (by simp; omega)]

theorem fresh_steady (floodcount last : ℤ) (name : CStr) (hpos : 1 ≤ floodcount) :
    Steady floodcount last (fresh name) :=
  ⟨le_refl _, by simp only [fresh]; omega, fun _ => by simp only [fresh]; omega,
    Or.inr ⟨rfl, rfl, rfl⟩⟩

/-- The throttle bounds the rate, and lets go of a target left alone. -/
theorem throttle_bounds_rate (side : Side) (floodcount : ℤ) (name : CStr) (ms : List Message)
    (hpos : 1 ≤ floodcount) (hfit : floodcount ≤ 2 ^ 31 - 3)
    (hclock : ms.Pairwise (fun a b => a.time ≤ b.time)) :
    (∀ s t, s ≤ t → (accepted side floodcount (fresh name) ms s t : ℤ) ≤
      floodcount + ((t : ℤ) - s) + 1) ∧
    ∀ m, Fits side floodcount (fresh name) (ms ++ [m]) →
      (∀ e ∈ ms, counted side e = true → (e.time : ℤ) + (floodcount + 3) ≤ m.time) →
      (receive side floodcount (after (receive side floodcount) (fresh name) ms) m).1 = true := by
  constructor
  · intro s t hst
    exact accepted_le side floodcount name ms s t hst hclock hpos hfit
  · intro m hfits hquiet
    obtain ⟨hbefore, hlast⟩ := (fits_append side floodcount _ ms [m]).mp hfits
    have hsteady := after_steady side floodcount (m.time - (floodcount + 3)) (fresh name) ms
      (fun e he hcounted => by
        have := hquiet e he hcounted
        omega)
      hbefore hpos hfit (fresh_steady floodcount _ name hpos)
    exact receive_idle side floodcount _ _ m (by omega) hlast.1 hpos hfit hsteady

/-- A private message of a user without privileges. -/
def plain (time : ℕ) : Message := ⟨time, .privmsg, ⟨[], [], false, false, false, true⟩⟩

theorem throttle_bounds_two :
    (accepted .client 2 (fresh []) [plain 7, plain 7, plain 7] 7 7 : ℤ) ≤
        2 + (((7 : ℕ) : ℤ) - (7 : ℕ)) + 1 ∧
      (receive .client 2 (after (receive .client 2) (fresh []) [plain 7, plain 7, plain 7])
        (plain 12)).1 = true := by
  have hall := throttle_bounds_rate .client 2 [] [plain 7, plain 7, plain 7] (by decide)
    (by decide) (by simp)
  refine ⟨hall.1 7 7 (le_refl _), hall.2 (plain 12) ?_ ?_⟩
  · simp only [List.cons_append, List.nil_append, Fits, and_true]
    decide
  · intro e he _
    have heq : e = plain 7 := by simpa using he
    rw [heq]
    decide

/-- With a count of zero there is no throttle. -/
theorem throttle_off :
    ¬ ∀ (side : Side) (floodcount : ℤ) (name : CStr) (ms : List Message), 0 ≤ floodcount →
      ms.Pairwise (fun a b => a.time ≤ b.time) → (∀ m ∈ ms, counted side m = true) →
      ∀ s t, s ≤ t → (accepted side floodcount (fresh name) ms s t : ℤ) ≤
        floodcount + ((t : ℤ) - s) + 1 := by
  intro h
  have hbound := h .client 0 [] [plain 7, plain 7] (by decide) (by simp)
    (by intro m hm; rw [show m = plain 7 by simpa using hm]; rfl) 7 7 (le_refl _)
  exact absurd hbound (by decide)

end IrcdHybrid.MessageFlood
