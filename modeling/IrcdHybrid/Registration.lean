import IrcdHybrid.CString
import IrcdHybrid.SentLog

/-!
What a server tells its peers about its own clients. A connection becomes a
client in `register_local_user`, which introduces it at the very end;
`exit_client` decides from the status alone whether peers hear a QUIT. Between
the two, a refused password exits a client that has the status and was never
introduced. Runs without such a refusal only send lines in the name of clients
that the peer knows.
-/

namespace IrcdHybrid.Registration

open CString SentLog

def maxBuffer : ℕ := 60

inductive Status where
  | unknown
  | client
  deriving DecidableEq, Repr

/-- A local connection that has not been exited. -/
structure LocalClient where
  conn : ℕ
  status : Status
  id : CStr
  name : CStr
  certfp : CStr
  away : CStr
  /-- `OPER_FLAG_OPME`, without which a nick change is an exit -/
  opMe : Bool
  deriving DecidableEq, Repr

structure Server where
  link : ℕ
  dead : Bool
  deriving DecidableEq, Repr

/-- Lines to a peer server. Those of the first group carry the server's own
prefix, those of the second the UID of a local client. -/
inductive Line where
  | uid (id name : CStr)
  | kill (id : CStr)
  | sjoin (chan id : CStr)
  | burst (chan : CStr)
  | certfp (id fp : CStr)
  | away (id msg : CStr)
  | nick (id name : CStr)
  | join (id chan : CStr)
  | part (id chan : CStr)
  | quit (id : CStr)
  deriving DecidableEq, Repr

def meaning : Meaning Line CStr where
  introduces
    | .uid id _ => some id
    | _ => none
  withdraws
    | .kill id => some id
    | .quit id => some id
    | _ => none
  speaker
    | .certfp id _ => some id
    | .away id _ => some id
    | .nick id _ => some id
    | .join id _ => some id
    | .part id _ => some id
    | .quit id => some id
    | _ => none

structure Chan where
  name : CStr
  members : List ℕ
  deriving DecidableEq, Repr

/-- The server: its connections (`global_client_list` are those with the status
of a client), channels, linked peers, and everything sent to them, newest first. -/
structure State where
  clients : List LocalClient
  channels : List Chan
  servers : List Server
  sent : List (ℕ × Line)
  nextConn : ℕ
  nextLink : ℕ

def State.start : State := ⟨[], [], [], [], 0, 0⟩

/-- The links of the servers that `sendto_server` reaches. -/
def liveLinks (s : State) : List ℕ := (s.servers.filter fun p => !p.dead).map Server.link

def sendtoServer (s : State) (l : Line) : State :=
  { s with sent := broadcast (liveLinks s) l s.sent }

def findConn (s : State) (conn : ℕ) : Option LocalClient := s.clients.find? fun c => c.conn = conn

def updateConn (s : State) (conn : ℕ) (f : LocalClient → LocalClient) : State :=
  { s with clients := s.clients.map fun c => if c.conn = conn then f c else c }

/-- `remove_user_from_channel` for every channel; an empty channel is destroyed. -/
def partAll (chans : List Chan) (conn : ℕ) : List Chan :=
  (chans.map fun ch => { ch with members := ch.members.filter fun m => m ≠ conn }).filter
    fun ch => !ch.members.isEmpty

/-- `exit_client` for a local connection; `killed` is `FLAGS_KILLED`. -/
def exitClient (s : State) (conn : ℕ) (killed : Bool) : State :=
  match findConn s conn with
  | none => s
  | some c =>
    let s := if c.status = .client ∧ killed = false then sendtoServer s (.quit c.id) else s
    { s with
      clients := s.clients.filter fun d => d.conn ≠ conn
      channels := partAll s.channels conn }

/-- `introduce_client` for a local client. -/
def introduceClient (s : State) (c : LocalClient) : State :=
  let s := sendtoServer s (.uid c.id c.name)
  if c.certfp.isEmpty then s else sendtoServer s (.certfp c.id c.certfp)

/-- What `register_local_user` reads of the configuration and the connection. -/
structure RegisterEnv where
  pingCookie : Bool
  pingSent : Bool
  randomPing : ℕ
  hasPingCookie : Bool
  /-- `check_client`, which exits the client itself when it refuses -/
  checkClient : Bool
  gotId : Bool
  needIdentd : Bool
  /-- the link died while notices were written to it -/
  isDead : Bool
  maxclients : ℕ
  exemptLimits : Bool
  xline : Bool
  /-- the first result of `uid_get` that is not in use -/
  uid : CStr
  sockhost : CStr
  password : Option CStr
  challengeValue : ℕ

section

variable (verifyEvo1 : CStr → CStr → CStr → Bool) (verifyEvo2 : CStr → CStr → CStr → ℕ → Bool)

/-- The password section: `pwdOk` from the two verifiers. -/
def passwordOk (env : RegisterEnv) (name : CStr) : Bool :=
  match env.password with
  | none => false
  | some password =>
    if password.length ≠ 4 ∧ password.length ≠ 6 then false
    else if env.challengeValue = 0 then false
    else if password.length = 4 then verifyEvo2 name env.sockhost password env.challengeValue
    else verifyEvo1 name env.sockhost password

/-- The checks before the connection is made a client: `none` to go on, else
whether it is exited. -/
def earlyChecks (s : State) (env : RegisterEnv) : Option Bool :=
  let countLocal := (s.clients.filter fun c => c.status = .client).length
  if env.pingCookie ∧ (env.pingSent = false ∧ env.randomPing = 0) then some false
  else if env.pingCookie ∧ env.hasPingCookie = false then some false
  else if env.checkClient = false then some true
  else if env.gotId = false ∧ env.needIdentd = true then some true
  else if env.isDead then some false
  else if countLocal ≥ env.maxclients + maxBuffer ∨
      (countLocal ≥ env.maxclients ∧ env.exemptLimits = false) then some true
  else if env.xline then some true
  else none

/-- `register_local_user` -/
def registerLocalUser (s : State) (c : LocalClient) (env : RegisterEnv) : State :=
  match earlyChecks s env with
  | some true => exitClient s c.conn false
  | some false => s
  | none =>
    -- hash_add_id, SetClient and the move to global_client_list
    let s := updateConn s c.conn fun d => { d with id := env.uid, status := .client }
    if passwordOk verifyEvo1 verifyEvo2 env c.name = false then exitClient s c.conn false
    else introduceClient s { c with id := env.uid, status := .client }

end

/-- `sendnick_TS` to one link. -/
def sendnickTS (link : ℕ) (sent : List (ℕ × Line)) (c : LocalClient) : List (ℕ × Line) :=
  if c.status ≠ .client then sent
  else
    let sent := broadcast [link] (.uid c.id c.name) sent
    let sent := if c.certfp.isEmpty then sent else broadcast [link] (.certfp c.id c.certfp) sent
    if c.away.isEmpty then sent else broadcast [link] (.away c.id c.away) sent

/-- One client of a burst, unless it carries `FLAGS_BURSTED`. -/
def burstClient (link : ℕ) (acc : List ℕ × List (ℕ × Line)) (c : LocalClient) :
    List ℕ × List (ℕ × Line) :=
  if c.conn ∈ acc.1 then acc else (c.conn :: acc.1, sendnickTS link acc.2 c)

/-- `burst_members` and the channel's own lines. -/
def burstChannel (clients : List LocalClient) (link : ℕ) (acc : List ℕ × List (ℕ × Line))
    (ch : Chan) : List ℕ × List (ℕ × Line) :=
  if ch.members.isEmpty then acc
  else
    let members := ch.members.filterMap fun conn => clients.find? fun c => c.conn = conn
    let acc := members.foldl (burstClient link) acc
    (acc.1, broadcast [link] (.burst ch.name) acc.2)

/-- `burst_all` to a link that has just been moved to `local_server_list`. -/
def burstAll (s : State) (link : ℕ) : State :=
  let acc := s.channels.foldl (burstChannel s.clients link) ([], s.sent)
  let acc := (s.clients.filter fun c => c.status = .client).foldl (burstClient link) acc
  { s with sent := acc.2 }

def setAway (msg : CStr) (c : LocalClient) : LocalClient := { c with away := msg }

def rename (nick : CStr) (c : LocalClient) : LocalClient := { c with name := nick }

def hashFindClient (s : State) (nick : CStr) : Option LocalClient :=
  s.clients.find? fun c => irccmp nick c.name = 0

/-- `mr_nick`: a nick that another connection holds is refused. -/
def mrNick (s : State) (c : LocalClient) (nick : CStr) : State :=
  match hashFindClient s nick with
  | none => updateConn s c.conn (rename nick)
  | some target => if target.conn = c.conn then updateConn s c.conn (rename nick) else s

/-- `change_local_nick`; `tooFast` is the flood check. -/
def changeLocalNick (s : State) (c : LocalClient) (nick : CStr) (tooFast : Bool) : State :=
  if c.opMe = false then exitClient s c.conn false
  else if tooFast then s
  else updateConn (sendtoServer s (.nick c.id nick)) c.conn (rename nick)

/-- `m_nick` once the nick itself has been accepted. -/
def mNick (s : State) (c : LocalClient) (nick : CStr) (tooFast : Bool) : State :=
  match hashFindClient s nick with
  | none => changeLocalNick s c nick tooFast
  | some target =>
    if target.conn = c.conn then
      if target.name ≠ nick then changeLocalNick s c nick tooFast else s
    else if target.status = .unknown then
      changeLocalNick (exitClient s target.conn false) c nick tooFast
    else s

def findChan (s : State) (name : CStr) : Option Chan :=
  s.channels.find? fun ch => irccmp name ch.name = 0

/-- One channel of `channel_do_join`; `allowed` is the outcome of its checks. -/
def channelDoJoin (s : State) (c : LocalClient) (name : CStr) (allowed : Bool) : State :=
  match findChan s name with
  | some ch =>
    if c.conn ∈ ch.members then s
    else if allowed = false then s
    else
      sendtoServer
        { s with channels := s.channels.map fun d =>
            if d.name = ch.name then { d with members := c.conn :: d.members } else d }
        (.join c.id ch.name)
  | none =>
    if allowed = false then s
    else sendtoServer { s with channels := ⟨name, [c.conn]⟩ :: s.channels } (.sjoin name c.id)

def removeUserFromChannel (chans : List Chan) (name : CStr) (conn : ℕ) : List Chan :=
  (chans.map fun ch =>
    if ch.name = name then { ch with members := ch.members.filter fun m => m ≠ conn }
    else ch).filter fun ch => !ch.members.isEmpty

/-- `part_one_client` -/
def channelDoPart (s : State) (c : LocalClient) (name : CStr) : State :=
  match findChan s name with
  | none => s
  | some ch =>
    if c.conn ∈ ch.members then
      let s := sendtoServer s (.part c.id ch.name)
      { s with channels := removeUserFromChannel s.channels ch.name c.conn }
    else s

/-- `channel_do_join_0` -/
def channelDoJoin0 (s : State) (c : LocalClient) : State :=
  (s.channels.filter fun ch => c.conn ∈ ch.members).foldl
    (fun s ch => channelDoPart s c ch.name) s

/-- A KILL for a local client, sent to every server but the one it came from. -/
def killClient (s : State) (c : LocalClient) (source : Option ℕ) : State :=
  let links := (liveLinks s).filter fun link => some link ≠ source
  exitClient { s with sent := broadcast links (.kill c.id) s.sent } c.conn true

inductive Event where
  | connect (certfp : CStr) (opMe : Bool)
  | setNick (conn : ℕ) (nick : CStr)
  | register (conn : ℕ) (env : RegisterEnv)
  | nick (conn : ℕ) (nick : CStr) (tooFast : Bool)
  | join (conn : ℕ) (chan : CStr) (allowed : Bool)
  | join0 (conn : ℕ)
  | part (conn : ℕ) (chan : CStr)
  | away (conn : ℕ) (msg : CStr)
  | exit (conn : ℕ)
  | kill (conn : ℕ) (source : Option ℕ)
  | link
  | linkDead (link : ℕ)
  | unlink (link : ℕ)

section

variable (verifyEvo1 : CStr → CStr → CStr → Bool) (verifyEvo2 : CStr → CStr → CStr → ℕ → Bool)

/-- Events of a connection that is gone do nothing, nor do those its status does
not allow. -/
def step (s : State) : Event → State
  | .connect certfp opMe =>
    { s with
      clients := ⟨s.nextConn, .unknown, [], [], certfp, [], opMe⟩ :: s.clients
      nextConn := s.nextConn + 1 }
  | .setNick conn nick =>
    match findConn s conn with
    | some c => if c.status = .unknown then mrNick s c nick else s
    | none => s
  | .register conn env =>
    match findConn s conn with
    | some c =>
      if c.status = .unknown ∧ ∀ d ∈ s.clients, d.id ≠ env.uid then
        registerLocalUser verifyEvo1 verifyEvo2 s c env
      else s
    | none => s
  | .nick conn nick tooFast =>
    match findConn s conn with
    | some c => if c.status = .client then mNick s c nick tooFast else s
    | none => s
  | .join conn chan allowed =>
    match findConn s conn with
    | some c => if c.status = .client then channelDoJoin s c chan allowed else s
    | none => s
  | .join0 conn =>
    match findConn s conn with
    | some c => if c.status = .client then channelDoJoin0 s c else s
    | none => s
  | .part conn chan =>
    match findConn s conn with
    | some c => if c.status = .client then channelDoPart s c chan else s
    | none => s
  | .away conn msg =>
    match findConn s conn with
    | some c =>
      if c.status = .client then updateConn (sendtoServer s (.away c.id msg)) conn (setAway msg)
      else s
    | none => s
  | .exit conn => exitClient s conn false
  | .kill conn source =>
    match findConn s conn with
    | some c => if c.status = .client then killClient s c source else s
    | none => s
  | .link =>
    burstAll { s with
      servers := ⟨s.nextLink, false⟩ :: s.servers
      nextLink := s.nextLink + 1 } s.nextLink
  | .linkDead link =>
    { s with servers := s.servers.map fun p => if p.link = link then { p with dead := true } else p }
  | .unlink link => { s with servers := s.servers.filter fun p => p.link ≠ link }

def run (s : State) (events : List Event) : State := events.foldl (step verifyEvo1 verifyEvo2) s

/-- The step is no registration that passes every check before `SetClient` and
then fails the password section while a peer is linked. -/
def Admitted (s : State) : Event → Prop
  | .register conn env =>
    ∀ c, findConn s conn = some c → earlyChecks s env = none →
      passwordOk verifyEvo1 verifyEvo2 env c.name = true ∨ liveLinks s = []
  | _ => True

end

/-- Distinct links, distinct connections and UIDs, and every client introduced
on every link and not withdrawn. -/
structure Inv (s : State) : Prop where
  sound : Sound meaning s.sent
  links_nodup : (s.servers.map Server.link).Nodup
  links_lt : ∀ p ∈ s.servers, p.link < s.nextLink
  conns : ∀ c ∈ s.clients, ∀ d ∈ s.clients, c.conn = d.conn → c = d
  conns_lt : ∀ c ∈ s.clients, c.conn < s.nextConn
  ids : ∀ c ∈ s.clients, ∀ d ∈ s.clients, c.status = .client → d.status = .client →
    c.id = d.id → c = d
  known : ∀ link ∈ liveLinks s, ∀ c ∈ s.clients, c.status = .client →
    knows meaning s.sent link c.id = true

theorem inv_start : Inv State.start where
  sound := sound_nil meaning
  links_nodup := by simp [State.start]
  links_lt := by simp [State.start]
  conns := by simp [State.start]
  conns_lt := by simp [State.start]
  ids := by simp [State.start]
  known := by simp [State.start]

theorem Inv.liveLinks_nodup (s : State) (h : Inv s) : (liveLinks s).Nodup :=
  h.links_nodup.sublist (List.Sublist.map _ List.filter_sublist)

theorem Inv.channels (s : State) (h : Inv s) (chans : List Chan) :
    Inv { s with channels := chans } :=
  ⟨h.sound, h.links_nodup, h.links_lt, h.conns, h.conns_lt, h.ids, h.known⟩

theorem findConn_mem (s : State) (conn : ℕ) (c : LocalClient) (h : findConn s conn = some c) :
    c ∈ s.clients ∧ c.conn = conn :=
  ⟨List.mem_of_find?_eq_some h, by simpa using List.find?_some h⟩

/-- A line in the name of a client, or in the server's own. -/
theorem Inv.sendtoServer (s : State) (h : Inv s) (l : Line) (hw : meaning.withdraws l = none)
    (hspeaker : ∀ u, meaning.speaker l = some u →
      ∃ c ∈ s.clients, c.status = .client ∧ c.id = u) : Inv (sendtoServer s l) where
  sound := by
    apply sound_broadcast meaning _ l s.sent h.liveLinks_nodup _ h.sound
    intro u hu link hlink
    obtain ⟨c, hc, hstatus, rfl⟩ := hspeaker u hu
    exact h.known link hlink c hc hstatus
  links_nodup := h.links_nodup
  links_lt := h.links_lt
  conns := h.conns
  conns_lt := h.conns_lt
  ids := h.ids
  known := by
    intro link hlink c hc hstatus
    apply knows_broadcast_keeps meaning _ l s.sent link c.id
    · simp [hw]
    · exact h.known link hlink c hc hstatus

theorem Inv.updateConn (s : State) (h : Inv s) (conn : ℕ) (f : LocalClient → LocalClient)
    (hf : ∀ c, (f c).conn = c.conn ∧ (f c).id = c.id ∧ (f c).status = c.status) :
    Inv (updateConn s conn f) := by
  have hmem : ∀ c ∈ (Registration.updateConn s conn f).clients, ∃ d ∈ s.clients,
      c = (if d.conn = conn then f d else d) ∧ c.conn = d.conn ∧ c.id = d.id ∧
        c.status = d.status := by
    intro c hc
    obtain ⟨d, hd, rfl⟩ := List.mem_map.mp hc
    refine ⟨d, hd, rfl, ?_⟩
    by_cases hd : d.conn = conn
    · simpa [hd] using hf d
    · simp [hd]
  refine ⟨h.sound, h.links_nodup, h.links_lt, ?_, ?_, ?_, ?_⟩
  · intro c hc d hd hcd
    obtain ⟨c', hc', rfl, hconn, _⟩ := hmem c hc
    obtain ⟨d', hd', rfl, hconn', _⟩ := hmem d hd
    rw [h.conns c' hc' d' hd' (by omega)]
  · intro c hc
    obtain ⟨c', hc', _, hconn, _⟩ := hmem c hc
    rw [hconn]
    exact h.conns_lt c' hc'
  · intro c hc d hd hcs hds hid
    obtain ⟨c', hc', rfl, _, hid1, hs1⟩ := hmem c hc
    obtain ⟨d', hd', rfl, _, hid2, hs2⟩ := hmem d hd
    rw [h.ids c' hc' d' hd' (hs1 ▸ hcs) (hs2 ▸ hds) (by rw [← hid1, ← hid2, hid])]
  · intro link hlink c hc hstatus
    obtain ⟨c', hc', _, _, hid, hs⟩ := hmem c hc
    rw [hid]
    exact h.known link hlink c' hc' (hs ▸ hstatus)

/-- Taking a client off, with whatever was said about it alone. -/
theorem Inv.remove (s : State) (h : Inv s) (conn : ℕ) (sent : List (ℕ × Line)) (chans : List Chan)
    (hsound : Sound meaning sent)
    (hknown : ∀ link ∈ liveLinks s, ∀ d ∈ s.clients, d.conn ≠ conn → d.status = .client →
      knows meaning sent link d.id = true) :
    Inv { s with
      clients := s.clients.filter fun d => d.conn ≠ conn
      channels := chans
      sent := sent } where
  sound := hsound
  links_nodup := h.links_nodup
  links_lt := h.links_lt
  conns := fun c hc d hd => h.conns c (List.mem_of_mem_filter hc) d (List.mem_of_mem_filter hd)
  conns_lt := fun c hc => h.conns_lt c (List.mem_of_mem_filter hc)
  ids := fun c hc d hd => h.ids c (List.mem_of_mem_filter hc) d (List.mem_of_mem_filter hd)
  known := by
    intro link hlink d hd hstatus
    obtain ⟨hd, hne⟩ := List.mem_filter.mp hd
    exact hknown link hlink d hd (by simpa using hne) hstatus

/-- Saying that a client is gone leaves what peers know of the others. -/
theorem Inv.knows_others (s : State) (h : Inv s) (c : LocalClient) (hc : c ∈ s.clients)
    (hstatus : c.status = .client) (links : List ℕ) (l : Line) (hi : meaning.introduces l = none)
    (hw : meaning.withdraws l = some c.id) :
    ∀ link ∈ liveLinks s, ∀ d ∈ s.clients, d.conn ≠ c.conn → d.status = .client →
      knows meaning (broadcast links l s.sent) link d.id = true := by
  intro link hlink d hd hne hds
  have hid : c.id ≠ d.id := fun heq => hne (congrArg LocalClient.conn
    (h.ids c hc d hd hstatus hds heq)).symm
  rw [knows_broadcast_other meaning links l s.sent link d.id (by simp [hi]) (by simpa [hw] using hid)]
  exact h.known link hlink d hd hds

theorem Inv.exitClient (s : State) (h : Inv s) (conn : ℕ) : Inv (exitClient s conn false) := by
  unfold Registration.exitClient
  cases hfind : findConn s conn with
  | none => exact h
  | some c =>
    obtain ⟨hc, hconn⟩ := findConn_mem s conn c hfind
    by_cases hstatus : c.status = .client
    · simp only [hstatus, and_self, ↓reduceIte]
      apply Inv.remove s h conn
      · apply sound_broadcast meaning _ _ s.sent h.liveLinks_nodup _ h.sound
        intro u hu link hlink
        obtain rfl : c.id = u := Option.some.inj hu
        exact h.known link hlink c hc hstatus
      · rw [← hconn]
        exact h.knows_others s c hc hstatus _ (.quit c.id) rfl rfl
    · simp only [hstatus, false_and, ↓reduceIte]
      exact Inv.remove s h conn s.sent _ h.sound fun link hlink d hd _ => h.known link hlink d hd

theorem Inv.killClient (s : State) (h : Inv s) (c : LocalClient) (hc : c ∈ s.clients)
    (hstatus : c.status = .client) (source : Option ℕ) : Inv (killClient s c source) := by
  unfold Registration.killClient Registration.exitClient
  cases hfind : findConn s c.conn with
  | none =>
    have hnone := List.find?_eq_none.mp hfind c hc
    simp at hnone
  | some d =>
    have hfind' : ∀ sent, findConn { s with sent := sent } c.conn = some d := fun _ => hfind
    simp only [hfind', Bool.true_eq_false, and_false, ↓reduceIte]
    apply Inv.remove s h c.conn
    · apply sound_broadcast meaning _ _ s.sent (h.liveLinks_nodup.filter _) _ h.sound
      intro u hu
      simp [meaning] at hu
    · exact h.knows_others s c hc hstatus _ (.kill c.id) rfl rfl

theorem rename_keeps (nick : CStr) (c : LocalClient) :
    (rename nick c).conn = c.conn ∧ (rename nick c).id = c.id ∧
      (rename nick c).status = c.status := ⟨rfl, rfl, rfl⟩

theorem Inv.changeLocalNick (s : State) (h : Inv s) (c : LocalClient) (hc : c ∈ s.clients)
    (hstatus : c.status = .client) (nick : CStr) (tooFast : Bool) :
    Inv (changeLocalNick s c nick tooFast) := by
  unfold Registration.changeLocalNick
  split
  · exact h.exitClient s c.conn
  · split
    · exact h
    · apply Inv.updateConn _ _ c.conn _ (rename_keeps nick)
      apply Inv.sendtoServer s h _ rfl
      intro u hu
      exact ⟨c, hc, hstatus, Option.some.inj hu⟩

theorem mem_exitClient_of_ne (s : State) (conn : ℕ) (killed : Bool) (c : LocalClient)
    (hc : c ∈ s.clients) (hne : c.conn ≠ conn) : c ∈ (exitClient s conn killed).clients := by
  unfold exitClient
  cases findConn s conn with
  | none => exact hc
  | some d =>
    have hmem : c ∈ s.clients.filter fun d => d.conn ≠ conn :=
      List.mem_filter.mpr ⟨hc, by simpa using hne⟩
    by_cases hquit : d.status = .client ∧ killed = false
    · simp only [if_pos hquit]
      exact hmem
    · simp only [if_neg hquit]
      exact hmem

section

variable (s : State) (h : Inv s) (c : LocalClient)

include h

theorem Inv.mNick (hc : c ∈ s.clients)
    (hstatus : c.status = .client) (nick : CStr) (tooFast : Bool) :
    Inv (mNick s c nick tooFast) := by
  unfold Registration.mNick
  split
  · exact h.changeLocalNick s c hc hstatus nick tooFast
  · rename_i target _
    by_cases hself : target.conn = c.conn
    · rw [if_pos hself]
      split
      · exact h.changeLocalNick s c hc hstatus nick tooFast
      · exact h
    · rw [if_neg hself]
      split
      · apply Inv.changeLocalNick _ (h.exitClient s target.conn) c _ hstatus
        exact mem_exitClient_of_ne s target.conn false c hc (Ne.symm hself)
      · exact h

theorem Inv.mrNick (nick : CStr) :
    Inv (mrNick s c nick) := by
  unfold Registration.mrNick
  split
  · exact h.updateConn s c.conn _ (rename_keeps nick)
  · split
    · exact h.updateConn s c.conn _ (rename_keeps nick)
    · exact h

theorem Inv.channelDoJoin (hc : c ∈ s.clients)
    (hstatus : c.status = .client) (name : CStr) (allowed : Bool) :
    Inv (channelDoJoin s c name allowed) := by
  unfold Registration.channelDoJoin
  split
  · split
    · exact h
    · split
      · exact h
      · apply Inv.sendtoServer _ (h.channels s _) _ rfl
        intro u hu
        exact ⟨c, hc, hstatus, Option.some.inj hu⟩
  · split
    · exact h
    · apply Inv.sendtoServer _ (h.channels s _) _ rfl
      intro u hu
      simp [meaning] at hu

theorem Inv.channelDoPart (hc : c ∈ s.clients) (hstatus : c.status = .client) (name : CStr) :
    Inv (channelDoPart s c name) ∧ c ∈ (channelDoPart s c name).clients := by
  unfold Registration.channelDoPart
  split
  · exact ⟨h, hc⟩
  · split
    · refine ⟨Inv.channels _ ?_ _, hc⟩
      apply Inv.sendtoServer s h _ rfl
      intro u hu
      exact ⟨c, hc, hstatus, Option.some.inj hu⟩
    · exact ⟨h, hc⟩

theorem Inv.channelDoJoin0 (hc : c ∈ s.clients)
    (hstatus : c.status = .client) : Inv (channelDoJoin0 s c) := by
  have hfold : ∀ (chans : List Chan) (s : State), Inv s → c ∈ s.clients →
      Inv (chans.foldl (fun s ch => Registration.channelDoPart s c ch.name) s) := by
    intro chans
    induction chans with
    | nil => exact fun s hs _ => hs
    | cons ch chans ih =>
      intro s hs hcs
      obtain ⟨hs', hcs'⟩ := hs.channelDoPart s c hcs hstatus ch.name
      exact ih _ hs' hcs'
  exact hfold _ s h hc

/-- Registration that comes through: the connection is made a client and introduced. -/
theorem Inv.introduce (hc : c ∈ s.clients) (uid : CStr) (hfresh : ∀ d ∈ s.clients, d.id ≠ uid) :
    Inv (introduceClient
      (Registration.updateConn s c.conn fun d => { d with id := uid, status := .client })
      { c with id := uid, status := .client }) := by
  -- the members of the table afterwards: `c` as a client, and the others as before
  have hmem : ∀ d ∈ (Registration.updateConn s c.conn fun d =>
      { d with id := uid, status := .client }).clients,
      d = { c with id := uid, status := .client } ∨ (d ∈ s.clients ∧ d.conn ≠ c.conn) := by
    intro d hd
    obtain ⟨e, he, rfl⟩ := List.mem_map.mp hd
    by_cases hec : e.conn = c.conn
    · obtain rfl := h.conns e he c hc hec
      exact Or.inl (by simp)
    · exact Or.inr (by simpa [hec] using he)
  have huid : Inv (Registration.sendtoServer
      (Registration.updateConn s c.conn fun d => { d with id := uid, status := .client })
      (.uid uid c.name)) := by
    refine ⟨?_, h.links_nodup, h.links_lt, ?_, ?_, ?_, ?_⟩
    · apply sound_broadcast meaning _ _ s.sent h.liveLinks_nodup _ h.sound
      intro u hu
      simp [meaning] at hu
    · intro d hd e he hde
      rcases hmem d hd with rfl | ⟨hd, hdc⟩ <;> rcases hmem e he with rfl | ⟨he, hec⟩
      · rfl
      · exact absurd hde.symm hec
      · exact absurd hde hdc
      · exact h.conns d hd e he hde
    · intro d hd
      rcases hmem d hd with rfl | ⟨hd, _⟩
      · exact h.conns_lt c hc
      · exact h.conns_lt d hd
    · intro d hd e he hds hes hid
      rcases hmem d hd with rfl | ⟨hd, _⟩ <;> rcases hmem e he with rfl | ⟨he, _⟩
      · rfl
      · exact absurd hid.symm (hfresh e he)
      · exact absurd hid (hfresh d hd)
      · exact h.ids d hd e he hds hes hid
    · intro link hlink d hd hds
      rcases hmem d hd with rfl | ⟨hd, _⟩
      · exact knows_broadcast_intro meaning _ _ s.sent link uid rfl hlink
      · apply knows_broadcast_keeps meaning _ _ s.sent link d.id
        · simp [meaning]
        · exact h.known link hlink d hd hds
  unfold introduceClient
  simp only
  split
  · exact huid
  · apply Inv.sendtoServer _ huid _ rfl
    intro u hu
    refine ⟨{ c with id := uid, status := .client }, ?_, rfl, Option.some.inj hu⟩
    exact List.mem_map.mpr ⟨c, hc, by simp⟩

end

/-- A refusal after `SetClient` is only heard by linked peers. -/
theorem exit_unheard (s : State) (c : LocalClient) (hc : c ∈ s.clients) (uid : CStr)
    (hlinks : liveLinks s = []) :
    exitClient (updateConn s c.conn fun d => { d with id := uid, status := .client }) c.conn
        false =
      { s with
        clients := s.clients.filter fun d => d.conn ≠ c.conn
        channels := partAll s.channels c.conn } := by
  have hfilter : ∀ l : List LocalClient,
      (l.map fun d => if d.conn = c.conn then { d with id := uid, status := .client }
        else d).filter (fun d => d.conn ≠ c.conn) = l.filter fun d => d.conn ≠ c.conn := by
    intro l
    induction l with
    | nil => rfl
    | cons d l ih =>
      by_cases hd : d.conn = c.conn <;> simpa [hd] using ih
  have hsilent : ∀ l, sendtoServer
      (updateConn s c.conn fun d => { d with id := uid, status := .client }) l =
      updateConn s c.conn fun d => { d with id := uid, status := .client } := by
    intro l
    have hlinks' : liveLinks
        (updateConn s c.conn fun d => { d with id := uid, status := .client }) = [] := hlinks
    simp [sendtoServer, hlinks', broadcast]
  unfold exitClient
  cases hfind : findConn
      (updateConn s c.conn fun d => { d with id := uid, status := .client }) c.conn with
  | none =>
    have hmem : { c with id := uid, status := .client } ∈
        (updateConn s c.conn fun d => { d with id := uid, status := .client }).clients :=
      List.mem_map.mpr ⟨c, hc, by simp⟩
    have hnone := List.find?_eq_none.mp hfind _ hmem
    simp at hnone
  | some d =>
    simp only [hsilent, ite_self]
    rw [show (updateConn s c.conn fun d => { d with id := uid, status := .client }).clients =
      s.clients.map fun d => if d.conn = c.conn then { d with id := uid, status := .client }
        else d from rfl, hfilter]
    rfl

theorem sendnickTS_keeps (link : ℕ) (sent : List (ℕ × Line)) (c : LocalClient)
    (hsound : Sound meaning sent) :
    Sound meaning (sendnickTS link sent c) ∧
      (∀ p u, knows meaning sent p u = true → knows meaning (sendnickTS link sent c) p u = true) ∧
      (c.status = .client → knows meaning (sendnickTS link sent c) link c.id = true) := by
  -- a line of the client itself, once the link has heard its UID
  have hline : ∀ (l : Line) (sent : List (ℕ × Line)) (b : Bool), meaning.withdraws l = none →
      meaning.speaker l = some c.id → Sound meaning sent →
      knows meaning sent link c.id = true →
      Sound meaning (if b then sent else broadcast [link] l sent) ∧
        ∀ p u, knows meaning sent p u = true →
          knows meaning (if b then sent else broadcast [link] l sent) p u = true := by
    intro l sent b hw hs hsound hknows
    cases b with
    | true => exact ⟨hsound, fun _ _ h => h⟩
    | false =>
      refine ⟨?_, fun p u h => ?_⟩
      · apply sound_broadcast meaning [link] l sent (List.nodup_singleton link) _ hsound
        intro u hu p hp
        obtain rfl := Option.some.inj (hs.symm.trans hu)
        rw [List.mem_singleton.mp hp]
        exact hknows
      · exact knows_broadcast_keeps meaning [link] l sent p u (by simp [hw]) h
  unfold sendnickTS
  split
  · exact ⟨hsound, fun _ _ h => h, fun h => absurd h (by assumption)⟩
  · have huid : Sound meaning (broadcast [link] (.uid c.id c.name) sent) := by
      apply sound_broadcast meaning [link] _ sent (List.nodup_singleton link) _ hsound
      intro u hu
      simp [meaning] at hu
    have hmono : ∀ p u, knows meaning sent p u = true →
        knows meaning (broadcast [link] (.uid c.id c.name) sent) p u = true := fun p u h =>
      knows_broadcast_keeps meaning [link] _ sent p u (by simp [meaning]) h
    have hintro : knows meaning (broadcast [link] (.uid c.id c.name) sent) link c.id = true :=
      knows_broadcast_intro meaning [link] _ sent link c.id rfl List.mem_cons_self
    obtain ⟨h1, m1⟩ := hline (.certfp c.id c.certfp) _ c.certfp.isEmpty rfl rfl huid hintro
    obtain ⟨h2, m2⟩ := hline (.away c.id c.away) _ c.away.isEmpty rfl rfl h1 (m1 _ _ hintro)
    exact ⟨h2, fun p u h => m2 p u (m1 p u (hmono p u h)), fun _ => m2 _ _ (m1 _ _ hintro)⟩

/-- What a burst keeps while it goes on: a sound log that only grows in
knowledge, and every client marked as sent is known on the link. -/
structure Bursting (s : State) (link : ℕ) (acc : List ℕ × List (ℕ × Line)) : Prop where
  sound : Sound meaning acc.2
  grows : ∀ p u, knows meaning s.sent p u = true → knows meaning acc.2 p u = true
  told : ∀ c ∈ s.clients, c.status = .client → c.conn ∈ acc.1 →
    knows meaning acc.2 link c.id = true

section

variable (s : State) (link : ℕ) (acc : List ℕ × List (ℕ × Line)) (h : Inv s) (hb : Bursting s link acc)

include h hb

theorem Bursting.client (c : LocalClient) (hc : c ∈ s.clients) :
    Bursting s link (burstClient link acc c) ∧ c.conn ∈ (burstClient link acc c).1 ∧
      ∀ conn ∈ acc.1, conn ∈ (burstClient link acc c).1 := by
  unfold burstClient
  split
  · exact ⟨hb, by assumption, fun _ h => h⟩
  · obtain ⟨h1, h2, h3⟩ := sendnickTS_keeps link acc.2 c hb.sound
    refine ⟨⟨h1, fun p u hk => h2 p u (hb.grows p u hk), ?_⟩, List.mem_cons_self,
      fun conn hconn => List.mem_cons_of_mem _ hconn⟩
    intro d hd hds hconn
    rcases List.mem_cons.mp hconn with hdc | hconn
    · obtain rfl := h.conns d hd c hc hdc
      exact h3 hds
    · exact h2 _ _ (hb.told d hd hds hconn)

theorem Bursting.clients (l : List LocalClient) (hl : ∀ c ∈ l, c ∈ s.clients) :
    Bursting s link (l.foldl (burstClient link) acc) ∧
      (∀ c ∈ l, c.conn ∈ (l.foldl (burstClient link) acc).1) ∧
      ∀ conn ∈ acc.1, conn ∈ (l.foldl (burstClient link) acc).1 := by
  induction l generalizing acc with
  | nil => exact ⟨hb, by simp, fun _ h => h⟩
  | cons c l ih =>
    obtain ⟨hb', hc', hmono⟩ := hb.client s link acc h c (hl c List.mem_cons_self)
    obtain ⟨hb'', hl'', hmono'⟩ := ih _ hb' fun d hd => hl d (List.mem_cons_of_mem c hd)
    refine ⟨hb'', ?_, fun conn hconn => hmono' conn (hmono conn hconn)⟩
    intro d hd
    rcases List.mem_cons.mp hd with rfl | hd
    · exact hmono' _ hc'
    · exact hl'' d hd

theorem Bursting.channel (ch : Chan) :
    Bursting s link (burstChannel s.clients link acc ch) := by
  unfold burstChannel
  split
  · exact hb
  · obtain ⟨hb', _, _⟩ := hb.clients s link acc h
      (ch.members.filterMap fun conn => s.clients.find? fun c => c.conn = conn) (by
        intro c hc
        obtain ⟨conn, _, hfind⟩ := List.mem_filterMap.mp hc
        exact List.mem_of_find?_eq_some hfind)
    refine ⟨?_, fun p u hk => ?_, fun c hc hs hconn => ?_⟩
    · apply sound_broadcast meaning [link] _ _ (List.nodup_singleton link) _ hb'.sound
      intro u hu
      simp [meaning] at hu
    · exact knows_broadcast_keeps meaning [link] _ _ p u (by simp [meaning]) (hb'.grows p u hk)
    · exact knows_broadcast_keeps meaning [link] _ _ link c.id (by simp [meaning])
        (hb'.told c hc hs hconn)

end

/-- A new link hears of every client before anything else. -/
theorem Inv.link (s : State) (h : Inv s) :
    Inv (burstAll { s with
      servers := ⟨s.nextLink, false⟩ :: s.servers
      nextLink := s.nextLink + 1 } s.nextLink) := by
  have hchans : ∀ (chans : List Chan) (acc : List ℕ × List (ℕ × Line)),
      Bursting s s.nextLink acc →
      Bursting s s.nextLink (chans.foldl (burstChannel s.clients s.nextLink) acc) := by
    intro chans
    induction chans with
    | nil => exact fun _ hacc => hacc
    | cons ch chans ih => exact fun acc hacc => ih _ (hacc.channel s _ acc h ch)
  have hstart : Bursting s s.nextLink ([], s.sent) :=
    ⟨h.sound, fun _ _ hk => hk, fun _ _ _ hconn => by simp at hconn⟩
  obtain ⟨hb, hall, _⟩ := (hchans s.channels _ hstart).clients s s.nextLink _ h
    (s.clients.filter fun c => c.status = .client) fun c hc => List.mem_of_mem_filter hc
  refine ⟨hb.sound, ?_, ?_, h.conns, h.conns_lt, h.ids, ?_⟩
  · apply List.nodup_cons.mpr
    refine ⟨fun hmem => ?_, h.links_nodup⟩
    obtain ⟨p, hp, hlink⟩ := List.mem_map.mp hmem
    have := h.links_lt p hp
    simp only at hlink
    omega
  · intro p hp
    rcases List.mem_cons.mp hp with rfl | hp
    · exact Nat.lt_succ_self _
    · exact Nat.lt_succ_of_lt (h.links_lt p hp)
  · intro link hlink c hc hs
    have hcases : link = s.nextLink ∨ link ∈ liveLinks s := by
      simpa [liveLinks, burstAll] using hlink
    rcases hcases with rfl | hlink
    · exact hb.told c hc hs (hall c (List.mem_filter.mpr ⟨hc, by simpa using hs⟩))
    · exact hb.grows _ _ (h.known link hlink c hc hs)

section

variable (verifyEvo1 : CStr → CStr → CStr → Bool) (verifyEvo2 : CStr → CStr → CStr → ℕ → Bool)

theorem Inv.registerLocalUser (s : State) (h : Inv s) (c : LocalClient) (hc : c ∈ s.clients)
    (env : RegisterEnv) (hfresh : ∀ d ∈ s.clients, d.id ≠ env.uid)
    (hpass : earlyChecks s env = none →
      passwordOk verifyEvo1 verifyEvo2 env c.name = true ∨ liveLinks s = []) :
    Inv (registerLocalUser verifyEvo1 verifyEvo2 s c env) := by
  unfold Registration.registerLocalUser
  cases hearly : earlyChecks s env with
  | some exits =>
    cases exits with
    | true => exact h.exitClient s c.conn
    | false => exact h
  | none =>
    simp only
    by_cases hok : passwordOk verifyEvo1 verifyEvo2 env c.name = true
    · rw [if_neg (by simp [hok])]
      exact h.introduce s c hc env.uid hfresh
    · have hlinks : liveLinks s = [] := (hpass hearly).resolve_left hok
      rw [if_pos (by simpa using hok), exit_unheard s c hc env.uid hlinks]
      exact Inv.remove s h c.conn s.sent _ h.sound fun link hlink d hd _ => h.known link hlink d hd

/-- One event keeps the invariant, unless it is a refusal after `SetClient`. -/
theorem Inv.step (s : State) (h : Inv s) (e : Event)
    (hadmitted : Admitted verifyEvo1 verifyEvo2 s e) : Inv (step verifyEvo1 verifyEvo2 s e) := by
  cases e with
  | connect certfp opMe =>
    refine ⟨h.sound, h.links_nodup, h.links_lt, ?_, ?_, ?_, ?_⟩
    · intro c hc d hd hcd
      rcases List.mem_cons.mp hc with rfl | hc <;> rcases List.mem_cons.mp hd with rfl | hd
      · rfl
      · exact absurd hcd.symm (h.conns_lt d hd).ne
      · exact absurd hcd (h.conns_lt c hc).ne
      · exact h.conns c hc d hd hcd
    · intro c hc
      rcases List.mem_cons.mp hc with rfl | hc
      · exact Nat.lt_succ_self _
      · exact Nat.lt_succ_of_lt (h.conns_lt c hc)
    · intro c hc d hd hcs hds
      rcases List.mem_cons.mp hc with rfl | hc
      · simp at hcs
      · rcases List.mem_cons.mp hd with rfl | hd
        · simp at hds
        · exact h.ids c hc d hd hcs hds
    · intro link hlink c hc hcs
      rcases List.mem_cons.mp hc with rfl | hc
      · simp at hcs
      · exact h.known link hlink c hc hcs
  | setNick conn nick =>
    simp only [Registration.step]
    split
    · split
      · exact h.mrNick s _ nick
      · exact h
    · exact h
  | register conn env =>
    simp only [Registration.step]
    split
    · rename_i c hfind
      obtain ⟨hc, _⟩ := findConn_mem s conn c hfind
      split
      · rename_i hfresh
        exact h.registerLocalUser verifyEvo1 verifyEvo2 s c hc env hfresh.2 (hadmitted c hfind)
      · exact h
    · exact h
  | nick conn nick tooFast =>
    simp only [Registration.step]
    split
    · rename_i c hfind
      split
      · exact h.mNick s c (findConn_mem s conn c hfind).1 (by assumption) nick tooFast
      · exact h
    · exact h
  | join conn chan allowed =>
    simp only [Registration.step]
    split
    · rename_i c hfind
      split
      · exact h.channelDoJoin s c (findConn_mem s conn c hfind).1 (by assumption) chan allowed
      · exact h
    · exact h
  | join0 conn =>
    simp only [Registration.step]
    split
    · rename_i c hfind
      split
      · exact h.channelDoJoin0 s c (findConn_mem s conn c hfind).1 (by assumption)
      · exact h
    · exact h
  | part conn chan =>
    simp only [Registration.step]
    split
    · rename_i c hfind
      split
      · exact (h.channelDoPart s c (findConn_mem s conn c hfind).1 (by assumption) chan).1
      · exact h
    · exact h
  | away conn msg =>
    simp only [Registration.step]
    split
    · rename_i c hfind
      split
      · rename_i hstatus
        apply Inv.updateConn _ _ conn (setAway msg) fun _ => ⟨rfl, rfl, rfl⟩
        apply Inv.sendtoServer s h _ rfl
        intro u hu
        exact ⟨c, (findConn_mem s conn c hfind).1, hstatus, Option.some.inj hu⟩
      · exact h
    · exact h
  | exit conn => exact h.exitClient s conn
  | kill conn source =>
    simp only [Registration.step]
    split
    · rename_i c hfind
      split
      · exact h.killClient s c (findConn_mem s conn c hfind).1 (by assumption) source
      · exact h
    · exact h
  | link => exact h.link s
  | linkDead link =>
    have hlive : ∀ l ∈ liveLinks (Registration.step verifyEvo1 verifyEvo2 s (.linkDead link)),
        l ∈ liveLinks s := by
      intro l hl
      obtain ⟨p, hp, rfl⟩ := List.mem_map.mp hl
      obtain ⟨hp, halive⟩ := List.mem_filter.mp hp
      obtain ⟨q, hq, rfl⟩ := List.mem_map.mp hp
      by_cases hqlink : q.link = link
      · simp [hqlink] at halive
      · simp only [hqlink, ↓reduceIte] at halive ⊢
        exact List.mem_map.mpr ⟨q, List.mem_filter.mpr ⟨hq, halive⟩, rfl⟩
    have hlinks : (s.servers.map fun p => if p.link = link then { p with dead := true }
        else p).map Server.link = s.servers.map Server.link := by
      rw [List.map_map]
      apply List.map_congr_left
      intro p _
      by_cases hp : p.link = link <;> simp [hp]
    refine ⟨h.sound, ?_, ?_, h.conns, h.conns_lt, h.ids, fun l hl => h.known l (hlive l hl)⟩
    · show ((s.servers.map fun p => if p.link = link then { p with dead := true }
        else p).map Server.link).Nodup
      rw [hlinks]
      exact h.links_nodup
    · intro p hp
      obtain ⟨q, hq, rfl⟩ := List.mem_map.mp hp
      show (if q.link = link then { q with dead := true } else q).link < s.nextLink
      have hlink : (if q.link = link then { q with dead := true } else q).link = q.link := by
        by_cases hqlink : q.link = link <;> simp [hqlink]
      rw [hlink]
      exact h.links_lt q hq
  | unlink link =>
    refine ⟨h.sound, ?_, ?_, h.conns, h.conns_lt, h.ids, ?_⟩
    · exact h.links_nodup.sublist (List.Sublist.map _ List.filter_sublist)
    · exact fun p hp => h.links_lt p (List.mem_of_mem_filter hp)
    · intro l hl
      obtain ⟨p, hp, rfl⟩ := List.mem_map.mp hl
      obtain ⟨hp, halive⟩ := List.mem_filter.mp hp
      exact h.known p.link
        (List.mem_map.mpr ⟨p, List.mem_filter.mpr ⟨List.mem_of_mem_filter hp, halive⟩, rfl⟩)

/-- Every step of the run is admitted in the state it meets. -/
def AdmittedRun (s : State) : List Event → Prop
  | [] => True
  | e :: events =>
    Admitted verifyEvo1 verifyEvo2 s e ∧ AdmittedRun (step verifyEvo1 verifyEvo2 s e) events

theorem Inv.run (s : State) (h : Inv s) (events : List Event)
    (hadmitted : AdmittedRun verifyEvo1 verifyEvo2 s events) :
    Inv (run verifyEvo1 verifyEvo2 s events) := by
  induction events generalizing s with
  | nil => exact h
  | cons e events ih =>
    exact ih _ (h.step verifyEvo1 verifyEvo2 s e hadmitted.1) hadmitted.2

/-- In a run without a refusal after `SetClient`, peers only hear from clients
that were introduced to them and not withdrawn. -/
theorem run_sound (events : List Event)
    (hadmitted : AdmittedRun verifyEvo1 verifyEvo2 State.start events) :
    Sound meaning (run verifyEvo1 verifyEvo2 State.start events).sent :=
  (inv_start.run verifyEvo1 verifyEvo2 State.start events hadmitted).sound

end

/-- A connection that passes every check but the password section's. -/
def plainEnv (password : Option CStr) : RegisterEnv where
  pingCookie := false
  pingSent := false
  randomPing := 0
  hasPingCookie := false
  checkClient := true
  gotId := true
  needIdentd := false
  isDead := false
  maxclients := 10
  exemptLimits := false
  xline := false
  uid := "1AAAAAAAA".toList
  sockhost := "10.1.2.3".toList
  password := password
  challengeValue := 7

/-- A client that registers, joins and quits in front of a peer. -/
theorem run_sound_registered :
    Sound meaning (run (fun _ _ _ => true) (fun _ _ _ _ => true) State.start
      [.link, .connect [] true, .setNick 0 "a".toList,
        .register 0 (plainEnv (some "ABCD".toList)), .join 0 "#c".toList true, .exit 0]).sent :=
  run_sound _ _ _ (by
    refine ⟨trivial, trivial, trivial, ?_, trivial, trivial, trivial⟩
    intro c _ _
    exact Or.inl rfl)

/-- A blank password after `SetClient`: the peer gets a QUIT of a stranger. -/
theorem run_unsound_blankPassword :
    ¬ ∀ (verifyEvo1 : CStr → CStr → CStr → Bool) (verifyEvo2 : CStr → CStr → CStr → ℕ → Bool)
      (events : List Event),
      Sound meaning (run verifyEvo1 verifyEvo2 State.start events).sent := by
  intro hall
  have hsound := hall (fun _ _ _ => true) (fun _ _ _ _ => true)
    [.link, .connect [] true, .setNick 0 "a".toList, .register 0 (plainEnv none)]
  have hsent : (run (fun _ _ _ => true) (fun _ _ _ _ => true) State.start
      [.link, .connect [] true, .setNick 0 "a".toList, .register 0 (plainEnv none)]).sent =
      [(0, .quit "1AAAAAAAA".toList)] := by decide
  have hknows := hsound [] 0 (.quit "1AAAAAAAA".toList) [] "1AAAAAAAA".toList hsent rfl
  simp [knows] at hknows

end IrcdHybrid.Registration
