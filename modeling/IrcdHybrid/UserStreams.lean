import IrcdHybrid.Flooding
import IrcdHybrid.UserNetwork

/-!
The lines about one user, as the rules of a record that the user's own server keeps. Who a prefix
stands for is decided by the identifier, or by the one user that may ever have the nick.
-/

namespace IrcdHybrid.UserStreams

open CString UserLines UserEcho UserNetwork TreeLinks Flooding Function
open NickHistory (validNickname)
open MemberLists (startsWithDigit)

/-- What a server has of a user. -/
inductive Presence where
  | absent
  | here (c : Client)
  | gone

def presence : Option Client → Presence
  | some c => .here c
  | none => .gone

variable {S : Type*}

/-- The prefix of a line with which a user does something. -/
def senderOf : Line S → Option CStr
  | .nick sender _ _ => some sender
  | .mode sender _ _ => some sender
  | .away sender _ => some sender
  | .rchg sender _ => some sender
  | .quit sender => some sender
  | _ => none

/-- Who a word stands for, when `owner` says whose nick a nick is. -/
def subject (owner : CStr → CStr) (word : CStr) : CStr :=
  if startsWithDigit word then word else owner (nameKey word)

/-- The lines that say or do something with a user. -/
def concerns (owner : CStr → CStr) (u : CStr) : Line S → Bool
  | .uid _ id _ _ _ _ => decide (id = u)
  | .killBy source target => decide (source = u) || decide (subject owner target = u)
  | .killFrom _ target => decide (subject owner target = u)
  | .nick sender _ _ => decide (subject owner sender = u)
  | .mode sender _ _ => decide (subject owner sender = u)
  | .away sender _ => decide (subject owner sender = u)
  | .rchg sender _ => decide (subject owner sender = u)
  | .quit sender => decide (subject owner sender = u)

theorem concerns_sender (owner : CStr → CStr) (u : CStr) (l : Line S) (sender : CStr)
    (h : senderOf l = some sender) : concerns owner u l = decide (subject owner sender = u) := by
  cases l <;> simp [senderOf] at h <;> rw [← h] <;> rfl

/-- What is said of a user may be said: nothing of it is cut, and the nick is the user's own. -/
structure Good (owner : CStr → CStr) (u : CStr) (c : Client) : Prop where
  fit : Fit c
  nick : owner (nameKey c.name) = u

/-- The line kills the user by its identifier. -/
inductive Kills (owner : CStr → CStr) (u : CStr) : Line S → Prop
  | user (source : CStr) (hsource : source ≠ u) (h : subject owner u = u) :
      Kills owner u (.killBy source u)
  | server (server : S) (h : subject owner u = u) : Kills owner u (.killFrom server u)

/-- A line that kills the user, by whatever word. -/
inductive Ends (owner : CStr → CStr) (u : CStr) : Line S → Prop
  | user (source target : CStr) (hsource : source ≠ u) (h : subject owner target = u) :
      Ends owner u (.killBy source target)
  | server (server : S) (target : CStr) (h : subject owner target = u) :
      Ends owner u (.killFrom server target)

variable (conf : Conf) (top : Topology S) (opers : CStr → Prop) (owner : CStr → CStr) (u : CStr)

/-- The line says on a server what it says on every other. -/
def Echoed (c : Client) (l : Line S) (c' : Option Client) : Prop :=
  ∀ found : CStr → Option CStr,
    (∀ nick ts, l = .nick u nick ts → found nick = none ∨ found nick = some u) →
      relay conf found u c l = some ⟨c', some l⟩

/-- What a line makes of a user. -/
inductive Seen : Presence → Line S → Presence → Prop
  | uid (c : Client) (hgood : Good owner u c) (hid : validUid u = true) (haway : c.away = []) :
      Seen .absent (introduction (top.home u) u c) (.here c)
  | said (c : Client) (l : Line S) (sender : CStr) (c' : Option Client) (hsender : senderOf l = some sender)
      (hword : sender = u ∨ sender = c.name) (hmark : serverPrefix sender = false)
      (hsubject : subject owner sender = u) (hecho : Echoed conf u c l c')
      (hgood : ∀ c'', c' = some c'' → Good owner u c'') : Seen (.here c) l (presence c')
  | late (l : Line S) (sender : CStr) (hsender : senderOf l = some sender)
      (hmark : serverPrefix sender = false) (hsubject : subject owner sender = u)
      (hmortal : ¬ opers u) : Seen .gone l .gone
  | killed (p : Presence) (l : Line S) (h : Kills owner u l) (hp : p ≠ .absent) (hmortal : ¬ opers u) :
      Seen p l .gone
  | kills (c : Client) (target : CStr) (hoper : opers u) :
      Seen (.here c) (.killBy u target) (.here c)

theorem presence_ne_absent (c : Option Client) : presence c ≠ .absent := by
  cases c <;> simp [presence]

/-- The rules for one user; who kills others is not killed. -/
def rules : Rules (Line S) Presence where
  absent := .absent
  gone := .gone
  seen := Seen conf top opers owner u
  kill := Kills owner u
  ends := Ends owner u
  mortal := ¬ opers u
  not_absent := by
    intro p l p' h
    cases h with
    | uid => simp
    | said => exact presence_ne_absent _
    | late => simp
    | killed => simp
    | kills => simp
  stays := by
    intro l p' h
    cases h with
    | late => rfl
    | killed => rfl
  late := by
    intro p l p' h hp hmortal
    cases h with
    | uid => exact absurd rfl hp
    | said c l sender c' hsender hword hmark hsubject hecho hgood =>
      exact .late l sender hsender hmark hsubject hmortal
    | late l sender hsender hmark hsubject _ => exact .late l sender hsender hmark hsubject hmortal
    | killed p l h _ _ => exact .killed _ l h (by simp) hmortal
    | kills c target hoper => exact absurd hoper hmortal
  killed := fun p l h hp hmortal => .killed p l h hp hmortal
  kill_ends := by
    intro l h
    cases h with
    | user source hsource hself => exact .user source u hsource hself
    | server server hself => exact .server server u hself
  distinct := by simp

end IrcdHybrid.UserStreams
