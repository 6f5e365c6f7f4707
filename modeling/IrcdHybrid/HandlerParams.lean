import IrcdHybrid.LineParser

/-!
What the handlers of the modules do with `parv`: which elements they read as strings, which they
first ask about, and how that depends on `parc`. Whatever else decides is left open.
-/

namespace IrcdHybrid.HandlerParams

open ArgumentUse LineParser

inductive Hunted
  | isMe
  | pass
  | noSuch
  deriving DecidableEq

/-- `hunt_server`, with a format that takes `count` elements; the one that names the server gets
its id first. -/
def huntServer (count server parc : ℕ) : Use Hunted := do
  if parc ≤ server then return .isMe
  if ← isEmpty server then return .isMe
  deref server
  if ← other then return .isMe
  if ← other then
    derefs (List.range' 1 count)
    return .pass
  return .noSuch

/-- `parse_aline`: the mask may be a user and a host, and there may be a time, a server or a
reason. -/
def parseAline (userHost time server reason : Bool) (parc : ℕ) : Use Unit := do
  let mut n := 1
  deref n
  if ← other then
    n := 2
    unless time do return
  if parc = n then return
  if userHost then deref n
  n := n + 1
  if n < parc then
    deref n
    if ← other then
      n := n + 1
      unless server do return
      if ← other then return
      if parc = n then return
      if ← isEmpty n then return
      n := n + 1
  if ← other then return
  if reason then
    if n < parc then
      unless ← isEmpty n do deref n

/-- The letters of `set_channel_mode` that take a parameter, as long as there is one. A key that
goes does not look at its own. -/
def modeParams (off parc : ℕ) : ℕ → ℕ → Use Unit
  | 0, _ => pure ()
  | fuel + 1, parn => do
    if parc ≤ parn then return
    if ← other then return
    if ← other then deref (off + parn)
    modeParams off parc fuel (parn + 1)

/-- `set_channel_mode` on the elements from `off` on, of which there are `parc`. -/
def setChannelMode (off parc : ℕ) : Use Unit := do
  deref off
  modeParams off parc parc 1

/-- A client may ask another server, when that is allowed and not too often. -/
def asks (count server parc : ℕ) : Use Bool := do
  if ← other then return false
  if ← other then return decide ((← huntServer count server parc) = .isMe)
  return true

/-- A server passes the question on. -/
def passes (count server parc : ℕ) : Use Bool := do
  return decide ((← huntServer count server parc) = .isMe)

/-- A text that may be missing. -/
def textAt (i : ℕ) : Use Unit := do
  unless ← isEmpty i do deref i

/-- A text, behind a check of something else. -/
def checkedText : Use Unit := do
  if ← other then return
  textAt 1

def operAline (userHost time server reason : Bool) (parc : ℕ) : Use Unit := do
  if ← other then return
  parseAline userHost time server reason parc

/-- What a server sends on takes exactly so many elements, and the last has to be a text. -/
def exactly (n parc : ℕ) : Use Unit := do
  if parc ≠ n then return
  if ← isEmpty (n - 1) then return
  derefs (List.range' 1 (n - 1))

def mUnregistered (_ : ℕ) : Use Unit := pure ()
def mRegistered (_ : ℕ) : Use Unit := pure ()
def mNotOper (_ : ℕ) : Use Unit := pure ()
def mIgnore (_ : ℕ) : Use Unit := pure ()
def moChallenge (_ : ℕ) : Use Unit := pure ()
def moClose (_ : ℕ) : Use Unit := pure ()
def msEob (_ : ℕ) : Use Unit := pure ()
def moHash (_ : ℕ) : Use Unit := pure ()
def mMap (_ : ℕ) : Use Unit := pure ()
def moMap (_ : ℕ) : Use Unit := pure ()
def moOper (_ : ℕ) : Use Unit := pure ()
def mrDumbProxy (_ : ℕ) : Use Unit := pure ()

section

variable (parc : ℕ)

def mAdmin : Use Unit := do let _ ← asks 1 1 parc
def msAdmin : Use Unit := do let _ ← passes 1 1 parc
def mInfo : Use Unit := do let _ ← asks 1 1 parc
def msInfo : Use Unit := do let _ ← passes 1 1 parc
def mMotd : Use Unit := do let _ ← asks 1 1 parc
def msMotd : Use Unit := do let _ ← passes 1 1 parc
def mTime : Use Unit := do let _ ← asks 1 1 parc
def msTime : Use Unit := do let _ ← passes 1 1 parc
def mVersion : Use Unit := do let _ ← asks 1 1 parc
def msVersion : Use Unit := do let _ ← passes 1 1 parc
def mLusers : Use Unit := do let _ ← asks 2 2 parc
def msLusers : Use Unit := do let _ ← passes 2 2 parc

def doStats : Use Unit := do
  deref 1
  if ← other then
    if 2 < parc then
      deref 2
      deref 1

def mStats : Use Unit := do
  if ← asks 2 2 parc then doStats parc

def msStats : Use Unit := do
  if ← passes 2 2 parc then doStats parc

def doWhowas : Use Unit := do
  if 2 < parc then textAt 2
  deref 1

def mWhowas : Use Unit := do
  if parc < 2 then return
  if ← isEmpty 1 then return
  if ← asks 3 3 parc then doWhowas parc

def msWhowas : Use Unit := do
  if parc < 2 then return
  if ← isEmpty 1 then return
  if ← passes 3 3 parc then doWhowas parc

def doLinks : Use Unit := do
  if ← other then textAt (if 2 < parc then 2 else 1)

def moLinks : Use Unit := do
  if 2 < parc then
    if ← other then
      if (← huntServer 2 1 parc) ≠ .isMe then return
  doLinks parc

def mLinks : Use Unit := do
  if ← other then return
  if ← other then moLinks parc else doLinks parc

/-- The format takes one element more than the check of `hunt_server` asks for. -/
def msLinks : Use Unit := do
  if (← huntServer 2 1 parc) ≠ .isMe then return
  mLinks parc

def mTrace : Use Unit := do
  if 1 < parc then deref 1

def doActualTrace : Use Unit := do
  if 1 < parc then deref 1
  let _ ← isNull 1

def moTrace : Use Unit := do
  if 2 < parc then
    if (← huntServer 2 2 parc) ≠ .isMe then return
  match ← huntServer 1 1 parc with
  | .pass => if 1 < parc then deref 1
  | .isMe => doActualTrace parc
  | .noSuch => return

def msTrace : Use Unit := do
  if (← huntServer 2 2 parc) ≠ .isMe then return
  if ← other then moTrace parc

def mWhois : Use Unit := do
  if parc < 2 then return
  if ← isEmpty 1 then return
  if 2 < parc then
    unless ← isEmpty 2 do
      if ← other then return
      -- the first parameter may have been set to the second here, and is so behind it
      if (← huntServer 2 1 parc) ≠ .isMe then return
      deref 2
      return
  deref 1

def moWhois : Use Unit := do
  if parc < 2 then return
  if ← isEmpty 1 then return
  if 2 < parc then
    unless ← isEmpty 2 do
      if (← huntServer 2 1 parc) ≠ .isMe then return
      deref 2
      return
  deref 1

def moConnect : Use Unit := do
  if ← isEmpty 1 then return
  if 3 < parc then
    if ← other then return
    if (← huntServer 3 3 parc) ≠ .isMe then return
  else if ← other then return
  deref 1
  if 2 < parc then textAt 2
  unless ← isNull 2 do deref 2

def msConnect : Use Unit := do
  if parc < 4 then return
  if ← isEmpty 3 then return
  if (← huntServer 3 3 parc) ≠ .isMe then return
  deref 1
  if 2 < parc then textAt 2

def moDline : Use Unit := operAline false true true true parc
def msDline : Use Unit := exactly 5 parc
def moKline : Use Unit := operAline true true true true parc
def msKline : Use Unit := exactly 6 parc
def moXline : Use Unit := operAline false true true true parc
def msXline : Use Unit := exactly 5 parc

def meXline : Use Unit := do
  if parc ≠ 5 then return
  if ← isEmpty 4 then return
  derefs [2, 4, 3]

def moResv : Use Unit := parseAline false true true true parc
def msResv : Use Unit := exactly 4 parc

def meResv : Use Unit := do
  if parc ≠ 5 then return
  if ← isEmpty 4 then return
  derefs [2, 1, 4]

def moGline : Use Unit := operAline true false false true parc

def msGline : Use Unit := do
  if ← other then return
  exactly 4 parc

def moGungline : Use Unit := operAline true false false true parc

end

/-- Nothing asks for the reason. -/
def meGungline (_ : ℕ) : Use Unit := do
  if ← other then derefs [1, 2, 3]

def moUndline (parc : ℕ) : Use Unit := do
  if ← other then return
  if parc < 2 then return
  if ← isEmpty 1 then return
  parseAline false false true false parc

def msUndline (parc : ℕ) : Use Unit := exactly 3 parc

def moUnkline (parc : ℕ) : Use Unit := do
  if ← other then return
  if ← isEmpty 1 then return
  parseAline true false true false parc

def msUnkline (parc : ℕ) : Use Unit := exactly 4 parc
def moUnresv (parc : ℕ) : Use Unit := parseAline false false true true parc
def msUnresv (parc : ℕ) : Use Unit := exactly 3 parc
def moUnxline (parc : ℕ) : Use Unit := operAline false false true false parc
def msUnxline (parc : ℕ) : Use Unit := exactly 3 parc

/-- `ms_svsjoin` and `ms_svspart`: the third parameter goes to a function that asks, or along
when it is there. -/
def svsChannel (parc : ℕ) : Use Unit := do
  if ← other then return
  if ← isEmpty 2 then return
  deref 1
  if ← other then
    deref 2
    textAt 3
    return
  if ← other then return
  if parc = 3 then deref 2 else derefs [2, 3]

def msSvsjoin (parc : ℕ) : Use Unit := svsChannel parc
def msSvspart (parc : ℕ) : Use Unit := svsChannel parc

def msSvskill (parc : ℕ) : Use Unit := do
  if ← other then return
  if ← isEmpty 1 then return
  if 3 < parc then
    unless ← isNull 3 do deref 3
    deref 2
  else if 2 < parc then
    unless ← isNull 2 do deref 2
  deref 1

def msSvsmode (parc : ℕ) : Use Unit := do
  if ← other then return
  deref 2
  if 4 < parc then deref 4
  deref 1
  if ← other then return
  deref 3

def msSvsnick (_ : ℕ) : Use Unit := do
  if ← other then return
  derefs [2, 1]
  if ← other then return
  derefs [2, 3]

def msSvstag (parc : ℕ) : Use Unit := do
  if ← other then return
  deref 1
  if ← other then return
  deref 2
  if ← other then return
  deref 3
  if ← other then return
  if parc < 6 then return
  if ← isEmpty 5 then return
  derefs [3, 4, 5]

def mAway (_ : ℕ) : Use Unit := do
  if ← isEmpty 1 then return
  if ← other then return
  deref 1

def msAway (_ : ℕ) : Use Unit := textAt 1
def moGlobops (_ : ℕ) : Use Unit := checkedText
def msGlobops (_ : ℕ) : Use Unit := textAt 1
def moLocops (_ : ℕ) : Use Unit := checkedText
def msLocops (parc : ℕ) : Use Unit := exactly 3 parc
def moWallops (_ : ℕ) : Use Unit := checkedText
def msWallops (_ : ℕ) : Use Unit := textAt 1
def moEtrace (_ : ℕ) : Use Unit := textAt 1
def mHelp (_ : ℕ) : Use Unit := checkedText
def moHelp (_ : ℕ) : Use Unit := textAt 1
def mList (_ : ℕ) : Use Unit := textAt 1
def moRehash (_ : ℕ) : Use Unit := checkedText
def moRestart (_ : ℕ) : Use Unit := checkedText
def moOpme (_ : ℕ) : Use Unit := textAt 1
def mKnock (_ : ℕ) : Use Unit := textAt 1
def mAccept (_ : ℕ) : Use Unit := textAt 1
def mChallenge (_ : ℕ) : Use Unit := textAt 1
def mIson (_ : ℕ) : Use Unit := deref 1
def mUserhost (_ : ℕ) : Use Unit := deref 1
def mrCapab (_ : ℕ) : Use Unit := deref 1

def msCertfp (_ : ℕ) : Use Unit := do
  if ← other then return
  deref 1

def mNames (parc : ℕ) : Use Unit := do
  if 1 < parc then textAt 1

/-- Without parameters the element is set to a default first. -/
def mWatch (parc : ℕ) : Use Unit := do
  unless parc < 2 do deref 1

def mCap (parc : ℕ) : Use Unit := do
  if ← isEmpty 1 then return
  deref 1
  if 2 < parc then deref 2

def moModule (_ : ℕ) : Use Unit := do
  if ← other then return
  if ← isEmpty 1 then return
  deref 1
  textAt 2

def mOper (_ : ℕ) : Use Unit := do
  if ← isEmpty 2 then return
  derefs [1, 2]

def mrPass (parc : ℕ) : Use Unit := do
  if ← isEmpty 1 then return
  deref 1
  if 4 < parc then derefs [3, 4]

def mPing (parc : ℕ) : Use Unit := do
  if parc < 2 then return
  if ← isEmpty 1 then return
  if ← other then
    unless ← isNull 2 do deref 2
    deref 1
    return
  if ← isEmpty 2 then
    unless ← isNull 2 do deref 2
    deref 1
    return
  deref 2
  if ← other then deref 1

def msPing (parc : ℕ) : Use Unit := do
  if parc < 2 then return
  if ← isEmpty 1 then return
  if ← isEmpty 2 then
    unless ← isNull 2 do deref 2
    return
  deref 2

def mrPong (parc : ℕ) : Use Unit := do
  if parc = 2 then textAt 1

def msPong (parc : ℕ) : Use Unit := do
  if parc < 2 then return
  if ← isEmpty 1 then return
  unless ← isEmpty 2 do derefs [2, 1]

def mInvite (parc : ℕ) : Use Unit := do
  if parc < 2 then return
  if parc < 3 then return
  if ← isEmpty 2 then return
  derefs [1, 2]

def msInvite (parc : ℕ) : Use Unit := do
  if parc < 3 then return
  if ← isEmpty 2 then return
  derefs [1, 2]
  if 3 < parc then deref 3

/-- A setting may want a text, a number, or both. -/
def moSet (parc : ℕ) : Use Unit := do
  if ← other then return
  if 1 < parc then
    deref 1
    if ← other then return
    let wantsChar ← other
    let wantsInt ← other
    if 2 < parc then
      if wantsInt then
        let n := if wantsChar then 3 else 2
        unless ← isNull n do deref n
      if wantsChar then deref 2

def msSvinfo (_ : ℕ) : Use Unit := do
  if ← other then return
  derefs [2, 1]
  if ← other then return
  deref 4

def msTburst (_ : ℕ) : Use Unit := derefs [1, 3, 2, 4, 5]

def mTopic (parc : ℕ) : Use Unit := do
  if ← isEmpty 1 then return
  deref 1
  if ← other then return
  if 2 < parc then deref 2

/-- Nothing asks for the topic. -/
def msTopic (_ : ℕ) : Use Unit := do
  if ← isEmpty 1 then return
  deref 1
  if ← other then return
  deref 2

def mrUser (_ : ℕ) : Use Unit := do
  if ← other then return
  if ← isEmpty 4 then return
  derefs [1, 4]

def mrWebirc (_ : ℕ) : Use Unit := do
  deref 3
  if ← other then return
  deref 1
  if ← other then return
  derefs [4, 3]

def mWho (parc : ℕ) : Use Unit := do
  if 2 < parc then deref 2
  textAt 1

/-- The handler of the command that parv[2] names, on the elements from there on. -/
def callSub (found : Option Sub) (parc : ℕ) : Use Unit :=
  match found with
  | none => pure ()
  | some (argsMin, f) => if argsMin ≤ parc - 2 then (f (parc - 2)).shift 2 else pure ()

/-- The loop is over all but the last. -/
def msEncap (found : Option Sub) (parc : ℕ) : Use Unit := do
  derefs (List.range' 1 (parc - 2))
  if parc = 3 then deref 2 else deref (parc - 1)
  deref 1
  if ← other then return
  deref 2
  callSub found parc

end IrcdHybrid.HandlerParams
