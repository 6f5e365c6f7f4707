import IrcdHybrid.HandlerParams

/-!
The handlers of the core modules, and the messages that the modules register, with their bounds
on the number of parameters.
-/

namespace IrcdHybrid.MessageTable

open CString ArgumentUse LineTokens LineParser HandlerParams
open Wire (MAXPARA)

def msBmask (_ : ℕ) : Use Unit := do
  deref 2
  if ← other then return
  derefs [1, 3]
  if ← other then return
  derefs [4, 3]

def moDie (_ : ℕ) : Use Unit := checkedText

def mrError (parc : ℕ) : Use Unit := do
  if 1 < parc then textAt 1

def msError (parc : ℕ) : Use Unit := do
  if 1 < parc then textAt 1

def mUsrip (_ : ℕ) : Use Unit := pure ()

def mRchg (parc : ℕ) : Use Unit := do
  if parc ≠ 2 then return
  unless ← isNull 1 do deref 1

def mRlst (_ : ℕ) : Use Unit := pure ()

def mBroadcast (_ : ℕ) : Use Unit := deref 1

/-- A server sends the mask and the nickname it was made for; nothing asks for them. -/
def mBan (parc : ℕ) : Use Unit := do
  deref 1
  if ← other then
    derefs [0, 1]
    return
  if 4 ≤ parc then deref 3
  if ← other then
    derefs [2, 4]
    return
  if ← other then
    deref 0
    return
  if ← other then deref 2

def mJoin (_ : ℕ) : Use Unit := do
  if ← isEmpty 1 then return
  deref 1
  textAt 2

def msJoin (parc : ℕ) : Use Unit := do
  if ← other then return
  if parc = 2 then
    deref 1
    if ← other then return
  if parc < 4 then return
  derefs [2, 1]

/-- `m_kick` and `ms_kick`. -/
def kick : Use Unit := do
  if ← isEmpty 2 then return
  deref 1
  if ← other then return
  deref 2
  if ← other then return
  textAt 3

def mKick (_ : ℕ) : Use Unit := kick
def msKick (_ : ℕ) : Use Unit := kick

def moKill (_ : ℕ) : Use Unit := do
  if ← isEmpty 1 then return
  textAt 2
  deref 1

def msKill (parc : ℕ) : Use Unit := do
  if parc < 3 then return
  if ← isEmpty 2 then return
  derefs [1, 2]

def mMessage (parc : ℕ) : Use Unit := do
  if parc < 2 then return
  if ← isEmpty 1 then return
  if parc < 3 then return
  if ← isEmpty 2 then return
  derefs [1, 2]

def mPrivmsg (parc : ℕ) : Use Unit := mMessage parc
def mNotice (parc : ℕ) : Use Unit := mMessage parc

def setUserMode (parc : ℕ) : Use Unit := do
  deref 1
  if ← other then return
  if parc < 3 then return
  deref 2

def mMode (parc : ℕ) : Use Unit := do
  if ← isEmpty 1 then return
  deref 1
  if ← other then
    setUserMode parc
    return
  if ← other then return
  if parc < 3 then return
  setChannelMode 2 (parc - 2)

def msTmode (parc : ℕ) : Use Unit := do
  deref 2
  if ← other then return
  deref 1
  if ← other then return
  setChannelMode 3 (parc - 3)

def mrNick (parc : ℕ) : Use Unit := do
  if parc < 2 then return
  if ← isEmpty 1 then return
  deref 1

def mNick (parc : ℕ) : Use Unit := do
  if parc < 2 then return
  if ← isEmpty 1 then return
  deref 1

def msNick (parc : ℕ) : Use Unit := do
  if parc ≠ 3 then return
  if ← isEmpty (parc - 1) then return
  if ← other then return
  derefs [1, 2]

def msUid (parc : ℕ) : Use Unit := do
  if parc < 10 then return
  derefs [1, 5, 6, 8]
  if ← other then return
  derefs [3, 7, 2]
  if parc = 11 then deref 9
  derefs [parc - 1, 4]

def mPart (_ : ℕ) : Use Unit := do
  if ← isEmpty 1 then return
  textAt 2
  deref 1

def mQuit (_ : ℕ) : Use Unit := textAt 1
def msQuit (_ : ℕ) : Use Unit := textAt 1

def mrServer (parc : ℕ) : Use Unit := do
  if ← isEmpty (parc - 1) then return
  deref 1
  if ← other then return
  derefs [parc - 1, 2]

def msSid (parc : ℕ) : Use Unit := do
  if ← other then return
  if ← isEmpty (parc - 1) then return
  derefs [1, 3]
  if ← other then return
  derefs [2, parc - 1]

/-- The keys and limits among the modes, up to the first that is the last parameter. -/
def sjoinModes (parc : ℕ) : ℕ → ℕ → Use (Option ℕ)
  | 0, args => pure (some args)
  | fuel + 1, args => do
    if ← other then return some args
    deref (4 + args)
    if parc < 5 + (args + 1) then return none
    sjoinModes parc fuel (args + 1)

def msSjoin (parc : ℕ) : Use Unit := do
  if ← other then return
  derefs [2, 1, 3]
  match ← sjoinModes parc parc 0 with
  | none => return
  | some args => deref (4 + args)

def moSquit (parc : ℕ) : Use Unit := do
  if parc < 2 then return
  if ← isEmpty 1 then return
  deref 1
  if ← other then return
  textAt 2

def msSquit (parc : ℕ) : Use Unit := do
  if parc < 2 then return
  if ← isEmpty 1 then return
  deref 1
  if ← other then return
  if 2 < parc then
    unless ← isNull (parc - 1) do deref (parc - 1)

/-- The first element is the `struct pseudo_cmd`. -/
def mPseudo (parc : ℕ) : Use Unit := do
  if parc < 3 then return
  if ← isEmpty (parc - 1) then return
  derefs [1, parc - 1]

/-- The second parameter is what is sent on. -/
def parseHandleNumeric (fromServer : Bool) (parc : ℕ) : Use Unit := do
  if parc < 2 ∨ fromServer = false then return
  deref 1
  if ← other then return
  deref 2

instance : Coe (ℕ → Use Unit) Handler := ⟨.plain⟩

/-- The handlers of a message, in the order of the table. -/
def handlers (unregistered client server encap oper dummy : Handler) : HandlerType → Handler
  | .unregistered => unregistered
  | .client => client
  | .server => server
  | .encap => encap
  | .oper => oper
  | .dummy => dummy

def msgtab (cmd : String) (argsMin argsMax : ℕ) (h : HandlerType → Handler) : Message :=
  ⟨cmd.toList, argsMin, argsMax, false, h⟩

def acceptMsgtab := msgtab "ACCEPT" 0 MAXPARA
  (handlers mUnregistered mAccept mIgnore mIgnore mAccept mIgnore)

def adminMsgtab := msgtab "ADMIN" 0 MAXPARA
  (handlers mUnregistered mAdmin msAdmin mIgnore msAdmin mIgnore)

def awayMsgtab := msgtab "AWAY" 0 MAXPARA
  (handlers mUnregistered mAway msAway mIgnore mAway mIgnore)

def capMsgtab := msgtab "CAP" 2 MAXPARA
  (handlers mCap mCap mIgnore mIgnore mCap mIgnore)

def capabMsgtab := msgtab "CAPAB" 2 MAXPARA
  (handlers mrCapab mIgnore mIgnore mIgnore mIgnore mIgnore)

def certfpMsgtab := msgtab "CERTFP" 2 MAXPARA
  (handlers mIgnore mIgnore msCertfp mIgnore mIgnore mIgnore)

def challengeMsgtab := msgtab "CHALLENGE" 2 MAXPARA
  (handlers mUnregistered mChallenge mIgnore mIgnore moChallenge mIgnore)

def closeMsgtab := msgtab "CLOSE" 0 MAXPARA
  (handlers mUnregistered mNotOper mIgnore mIgnore moClose mIgnore)

def connectMsgtab := msgtab "CONNECT" 2 MAXPARA
  (handlers mUnregistered mNotOper msConnect mIgnore moConnect mIgnore)

def dlineMsgtab := msgtab "DLINE" 2 MAXPARA
  (handlers mUnregistered mNotOper msDline mIgnore moDline mIgnore)

def encapMsgtab := msgtab "ENCAP" 3 MAXPARA
  (handlers mIgnore mIgnore (.encap msEncap) mIgnore mIgnore mIgnore)

def eobMsgtab := msgtab "EOB" 0 MAXPARA
  (handlers mUnregistered mIgnore msEob mIgnore mIgnore mIgnore)

def etraceMsgtab := msgtab "ETRACE" 0 MAXPARA
  (handlers mUnregistered mNotOper mIgnore mIgnore moEtrace mIgnore)

def glineMsgtab := msgtab "GLINE" 3 MAXPARA
  (handlers mUnregistered mNotOper msGline mIgnore moGline mIgnore)

def unglineMsgtab := msgtab "GUNGLINE" 3 MAXPARA
  (handlers mUnregistered mNotOper mIgnore meGungline moGungline mIgnore)

def globopsMsgtab := msgtab "GLOBOPS" 2 MAXPARA
  (handlers mUnregistered mNotOper msGlobops mIgnore moGlobops mIgnore)

def hashMsgtab := msgtab "HASH" 0 MAXPARA
  (handlers mUnregistered mNotOper mIgnore mIgnore moHash mIgnore)

def helpMsgtab := msgtab "HELP" 0 MAXPARA
  (handlers mUnregistered mHelp mIgnore mIgnore moHelp mIgnore)

def infoMsgtab := msgtab "INFO" 0 MAXPARA
  (handlers mUnregistered mInfo msInfo mIgnore msInfo mIgnore)

def inviteMsgtab := msgtab "INVITE" 1 MAXPARA
  (handlers mUnregistered mInvite msInvite mIgnore mInvite mIgnore)

def isonMsgtab := msgtab "ISON" 2 1
  (handlers mUnregistered mIson mIgnore mIgnore mIson mIgnore)

def klineMsgtab := msgtab "KLINE" 2 MAXPARA
  (handlers mUnregistered mNotOper msKline mIgnore moKline mIgnore)

def knockMsgtab := msgtab "KNOCK" 2 MAXPARA
  (handlers mUnregistered mKnock mKnock mIgnore mKnock mIgnore)

def linksMsgtab := msgtab "LINKS" 0 MAXPARA
  (handlers mUnregistered mLinks msLinks mIgnore moLinks mIgnore)

def listMsgtab := msgtab "LIST" 0 MAXPARA
  (handlers mUnregistered mList mIgnore mIgnore mList mIgnore)

def locopsMsgtab := msgtab "LOCOPS" 2 MAXPARA
  (handlers mUnregistered mNotOper msLocops mIgnore moLocops mIgnore)

def lusersMsgtab := msgtab "LUSERS" 0 MAXPARA
  (handlers mUnregistered mLusers msLusers mIgnore msLusers mIgnore)

def mapMsgtab := msgtab "MAP" 0 MAXPARA
  (handlers mUnregistered mMap mIgnore mIgnore moMap mIgnore)

def moduleMsgtab := msgtab "MODULE" 2 MAXPARA
  (handlers mUnregistered mNotOper mIgnore mIgnore moModule mIgnore)

def motdMsgtab := msgtab "MOTD" 0 MAXPARA
  (handlers mUnregistered mMotd msMotd mIgnore msMotd mIgnore)

def namesMsgtab := msgtab "NAMES" 0 MAXPARA
  (handlers mUnregistered mNames mIgnore mIgnore mNames mIgnore)

def operMsgtab := msgtab "OPER" 3 MAXPARA
  (handlers mUnregistered mOper mIgnore mIgnore moOper mIgnore)

def passMsgtab := msgtab "PASS" 2 MAXPARA
  (handlers mrPass mRegistered mIgnore mIgnore mRegistered mrPass)

def pingMsgtab := msgtab "PING" 1 MAXPARA
  (handlers mUnregistered mPing msPing mIgnore mPing mPing)

def pongMsgtab := msgtab "PONG" 1 MAXPARA
  (handlers mrPong mIgnore msPong mIgnore mIgnore mIgnore)

def postMsgtab := msgtab "POST" 0 MAXPARA
  (handlers mrDumbProxy mIgnore mIgnore mIgnore mIgnore mIgnore)

def getMsgtab := msgtab "GET" 0 MAXPARA
  (handlers mrDumbProxy mIgnore mIgnore mIgnore mIgnore mIgnore)

def putMsgtab := msgtab "PUT" 0 MAXPARA
  (handlers mrDumbProxy mIgnore mIgnore mIgnore mIgnore mIgnore)

def rehashMsgtab := msgtab "REHASH" 0 MAXPARA
  (handlers mUnregistered mNotOper mIgnore mIgnore moRehash mIgnore)

def restartMsgtab := msgtab "RESTART" 0 MAXPARA
  (handlers mUnregistered mNotOper mIgnore mIgnore moRestart mIgnore)

def resvMsgtab := msgtab "RESV" 3 MAXPARA
  (handlers mIgnore mNotOper msResv meResv moResv mIgnore)

def setMsgtab := msgtab "SET" 0 MAXPARA
  (handlers mUnregistered mNotOper mIgnore mIgnore moSet mIgnore)

def statsMsgtab := msgtab "STATS" 2 MAXPARA
  (handlers mUnregistered mStats msStats mIgnore msStats mIgnore)

def svinfoMsgtab := msgtab "SVINFO" 5 MAXPARA
  (handlers mUnregistered mIgnore msSvinfo mIgnore mIgnore mIgnore)

def svsjoinMsgtab := msgtab "SVSJOIN" 3 MAXPARA
  (handlers mUnregistered mIgnore msSvsjoin mIgnore mIgnore mIgnore)

def svskillMsgtab := msgtab "SVSKILL" 2 MAXPARA
  (handlers mIgnore mIgnore msSvskill mIgnore mIgnore mIgnore)

def svsmodeMsgtab := msgtab "SVSMODE" 4 MAXPARA
  (handlers mIgnore mIgnore msSvsmode mIgnore mIgnore mIgnore)

def svsnickMsgtab := msgtab "SVSNICK" 4 MAXPARA
  (handlers mIgnore mIgnore msSvsnick mIgnore mIgnore mIgnore)

def svspartMsgtab := msgtab "SVSPART" 3 MAXPARA
  (handlers mUnregistered mIgnore msSvspart mIgnore mIgnore mIgnore)

def svstagMsgtab := msgtab "SVSTAG" 4 MAXPARA
  (handlers mIgnore mIgnore msSvstag mIgnore mIgnore mIgnore)

def tburstMsgtab := msgtab "TBURST" 6 MAXPARA
  (handlers mIgnore mIgnore msTburst mIgnore mIgnore mIgnore)

def timeMsgtab := msgtab "TIME" 0 MAXPARA
  (handlers mUnregistered mTime msTime mIgnore msTime mIgnore)

def topicMsgtab := msgtab "TOPIC" 2 MAXPARA
  (handlers mUnregistered mTopic msTopic mIgnore mTopic mIgnore)

def traceMsgtab := msgtab "TRACE" 0 MAXPARA
  (handlers mUnregistered mTrace msTrace mIgnore moTrace mIgnore)

def undlineMsgtab := msgtab "UNDLINE" 2 MAXPARA
  (handlers mUnregistered mNotOper msUndline mIgnore moUndline mIgnore)

def unklineMsgtab := msgtab "UNKLINE" 2 MAXPARA
  (handlers mUnregistered mNotOper msUnkline mIgnore moUnkline mIgnore)

def unresvMsgtab := msgtab "UNRESV" 2 MAXPARA
  (handlers mIgnore mNotOper msUnresv mIgnore moUnresv mIgnore)

def unxlineMsgtab := msgtab "UNXLINE" 2 MAXPARA
  (handlers mUnregistered mNotOper msUnxline mIgnore moUnxline mIgnore)

def userMsgtab := msgtab "USER" 5 MAXPARA
  (handlers mrUser mRegistered mIgnore mIgnore mRegistered mIgnore)

def userhostMsgtab := msgtab "USERHOST" 2 1
  (handlers mUnregistered mUserhost mUserhost mIgnore mUserhost mIgnore)

def versionMsgtab := msgtab "VERSION" 0 MAXPARA
  (handlers mUnregistered mVersion msVersion mIgnore msVersion mIgnore)

def wallopsMsgtab := msgtab "WALLOPS" 2 MAXPARA
  (handlers mUnregistered mNotOper msWallops mIgnore moWallops mIgnore)

def watchMsgtab := msgtab "WATCH" 0 1
  (handlers mUnregistered mWatch mIgnore mIgnore mWatch mIgnore)

def webircMsgtab := msgtab "WEBIRC" 5 MAXPARA
  (handlers mrWebirc mRegistered mIgnore mIgnore mRegistered mIgnore)

def whoMsgtab := msgtab "WHO" 2 MAXPARA
  (handlers mUnregistered mWho mIgnore mIgnore mWho mIgnore)

def whoisMsgtab := msgtab "WHOIS" 0 MAXPARA
  (handlers mUnregistered mWhois moWhois mIgnore moWhois mIgnore)

def whowasMsgtab := msgtab "WHOWAS" 0 MAXPARA
  (handlers mUnregistered mWhowas msWhowas mIgnore msWhowas mIgnore)

def xlineMsgtab := msgtab "XLINE" 2 MAXPARA
  (handlers mUnregistered mNotOper msXline meXline moXline mIgnore)

def opmeMsgtab := msgtab "OPME" 2 MAXPARA
  (handlers mUnregistered mNotOper mIgnore mIgnore moOpme mIgnore)

def bmaskMsgtab := msgtab "BMASK" 5 MAXPARA
  (handlers mIgnore mIgnore msBmask mIgnore mIgnore mIgnore)

def dieMsgtab := msgtab "DIE" 1 MAXPARA
  (handlers mUnregistered mNotOper mIgnore mIgnore moDie mIgnore)

def errorMsgtab := msgtab "ERROR" 1 MAXPARA
  (handlers mrError mIgnore msError mIgnore mIgnore mIgnore)

def usripMsgtab := msgtab "USRIP" 1 MAXPARA
  (handlers mUsrip mUsrip mIgnore mIgnore mUsrip mIgnore)

def rchgMsgtab := msgtab "RCHG" 2 MAXPARA
  (handlers mUnregistered mRchg mRchg mIgnore mRchg mIgnore)

def rlstMsgtab := msgtab "RLST" 0 MAXPARA
  (handlers mUnregistered mIgnore mRlst mIgnore mIgnore mIgnore)

def broadcastMsgtab := msgtab "BROADCAST" 0 MAXPARA
  (handlers mUnregistered mNotOper mBroadcast mIgnore mBroadcast mIgnore)

def banMsgtab := msgtab "BAN" 0 MAXPARA
  (handlers mUnregistered mIgnore mBan mIgnore mIgnore mIgnore)

def joinMsgtab := msgtab "JOIN" 2 MAXPARA
  (handlers mUnregistered mJoin msJoin mIgnore mJoin mIgnore)

def kickMsgtab := msgtab "KICK" 3 MAXPARA
  (handlers mUnregistered mKick msKick mIgnore mKick mIgnore)

def killMsgtab := msgtab "KILL" 2 MAXPARA
  (handlers mUnregistered mNotOper msKill mIgnore moKill mIgnore)

def privmsgMsgtab := msgtab "PRIVMSG" 0 MAXPARA
  (handlers mUnregistered mPrivmsg mPrivmsg mIgnore mPrivmsg mIgnore)

def noticeMsgtab := msgtab "NOTICE" 0 MAXPARA
  (handlers mUnregistered mNotice mNotice mIgnore mNotice mIgnore)

def modeMsgtab := msgtab "MODE" 2 MAXPARA
  (handlers mUnregistered mMode mMode mIgnore mMode mIgnore)

def nickMsgtab := msgtab "NICK" 0 MAXPARA
  (handlers mrNick mNick msNick mIgnore mNick mIgnore)

def uidMsgtab := msgtab "UID" 10 MAXPARA
  (handlers mIgnore mIgnore msUid mIgnore mIgnore mIgnore)

def partMsgtab := msgtab "PART" 2 MAXPARA
  (handlers mUnregistered mPart mPart mIgnore mPart mIgnore)

def quitMsgtab := msgtab "QUIT" 0 MAXPARA
  (handlers mQuit mQuit msQuit mIgnore mQuit mIgnore)

def serverMsgtab := msgtab "SERVER" 4 MAXPARA
  (handlers mrServer mRegistered mIgnore mIgnore mRegistered mIgnore)

def sidMsgtab := msgtab "SID" 5 MAXPARA
  (handlers mIgnore mIgnore msSid mIgnore mIgnore mIgnore)

def sjoinMsgtab := msgtab "SJOIN" 5 MAXPARA
  (handlers mUnregistered mIgnore msSjoin mIgnore mIgnore mIgnore)

def squitMsgtab := msgtab "SQUIT" 1 MAXPARA
  (handlers mUnregistered mNotOper msSquit mIgnore moSquit mIgnore)

def tmodeMsgtab := msgtab "TMODE" 4 MAXPARA
  (handlers mIgnore mIgnore msTmode mIgnore mIgnore mIgnore)

/-- The messages whose handlers ask for everything that `args_min` does not promise. -/
def checkedMessages : List Message :=
  [acceptMsgtab, adminMsgtab, awayMsgtab, capMsgtab, capabMsgtab, certfpMsgtab, challengeMsgtab,
    closeMsgtab, connectMsgtab, dlineMsgtab, eobMsgtab, etraceMsgtab, glineMsgtab, globopsMsgtab,
    hashMsgtab, helpMsgtab, infoMsgtab, inviteMsgtab, isonMsgtab, klineMsgtab, knockMsgtab,
    listMsgtab, locopsMsgtab, lusersMsgtab, mapMsgtab, moduleMsgtab, motdMsgtab, namesMsgtab,
    operMsgtab, passMsgtab, pingMsgtab, pongMsgtab, postMsgtab, getMsgtab, putMsgtab,
    rehashMsgtab, restartMsgtab, resvMsgtab, setMsgtab, statsMsgtab, svinfoMsgtab, svsjoinMsgtab,
    svskillMsgtab, svsmodeMsgtab, svsnickMsgtab, svspartMsgtab, svstagMsgtab, tburstMsgtab,
    timeMsgtab, traceMsgtab, undlineMsgtab, unklineMsgtab, unresvMsgtab, unxlineMsgtab,
    userMsgtab, userhostMsgtab, versionMsgtab, wallopsMsgtab, watchMsgtab, webircMsgtab,
    whoMsgtab, whoisMsgtab, whowasMsgtab, xlineMsgtab, opmeMsgtab, bmaskMsgtab, dieMsgtab,
    errorMsgtab, usripMsgtab, rchgMsgtab, rlstMsgtab, joinMsgtab, kickMsgtab, killMsgtab,
    privmsgMsgtab, noticeMsgtab, modeMsgtab, nickMsgtab, uidMsgtab, partMsgtab, quitMsgtab,
    serverMsgtab, sidMsgtab, sjoinMsgtab, squitMsgtab, tmodeMsgtab]

/-- The others. -/
def uncheckedMessages : List Message :=
  [encapMsgtab, unglineMsgtab, linksMsgtab, topicMsgtab, broadcastMsgtab, banMsgtab]

/-- The messages of all modules. -/
def messages : List Message := checkedMessages ++ uncheckedMessages

/-- What `pseudo_register` makes of a command. -/
def pseudoMsg (command : CStr) : Message :=
  ⟨command, 0, 2, true,
    handlers mUnregistered mPseudo mIgnore mIgnore mPseudo mIgnore⟩

/-- A message that may be there: of a module, or of a pseudo command. -/
def Registered (m : Message) : Prop := m ∈ messages ∨ ∃ command, m = pseudoMsg command

end IrcdHybrid.MessageTable
