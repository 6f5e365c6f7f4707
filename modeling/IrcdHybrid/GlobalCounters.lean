import IrcdHybrid.ServerRuns
import IrcdHybrid.UserModes

/-!
The counters of a server over its runs. A user is counted when it is registered or introduced, and
counted off by the exit, whichever way that comes; in between MODE, OPER and SVSMODE keep the
counters of modes.
-/

namespace IrcdHybrid.GlobalCounters

open CString HashChains MemberLists ServerTree ServerEvents ServerInvariant ServerRuns
open UserModes Tallies Index Function

/-- What a client or server has besides what the lists say; the last is `FLAGS_SERVICE`. -/
structure User where
  umodes : Modes
  operHandler : Bool
  adminFlag : Bool
  service : Bool

structure World where
  net : Net
  user : ClientPtr → User
  count : Counter

/-- `services` says of a name whether a `service` block matches it. -/
structure Conf where
  net : ServerTree.Conf
  user : UserModes.Conf
  services : CStr → Bool

/-- As `make_client` leaves it. -/
def blankUser : User := ⟨∅, false, false, false⟩

def clientOf (w : World) (p : ClientPtr) : UserModes.Client where
  myConnect := ServerTree.myConnect w.net p
  umodes := (w.user p).umodes
  operHandler := (w.user p).operHandler
  adminFlag := (w.user p).adminFlag
  tsinfo := (w.net.node p).profile.tsinfo
  account := (w.net.node p).profile.account
  host := (w.net.node p).profile.host

/-- The modes as `introduce_client` writes them. -/
def umodesText (umodes : Modes) : CStr :=
  '+' :: (umodeTab.filter fun tab => decide (tab.2 ∈ umodes)).map Prod.fst

/-- What a handler has made of the client. -/
def putClient (w : World) (p : ClientPtr) (c : UserModes.Client) : World where
  net := modifyNode w.net p (fun n => { n with profile := { n.profile with
    umodes := umodesText c.umodes, account := c.account, host := c.host } })
  user := update w.user p ⟨c.umodes, c.operHandler, c.adminFlag, (w.user p).service⟩
  count := w.count

def updateClientExitStats (w : World) (p : ClientPtr) : Counter :=
  if isClient w.net.rooms p then
    let count := { w.count with total := w.count.total - 1 }
    let count := if .oper ∈ (w.user p).umodes then { count with oper := count.oper - 1 } else count
    if .invisible ∈ (w.user p).umodes then { count with invisi := count.invisi - 1 } else count
  else w.count

def exitOneClient (conf : Conf) (w : World) (source : ClientPtr) (comment : CStr) : World where
  net := ServerTree.exitOneClient conf.net w.net source comment
  user := w.user
  count := updateClientExitStats w source

def recurseRemoveClients (conf : Conf) (comment : CStr) : ℕ → World → ClientPtr → World
  | 0, w, _ => w
  | depth + 1, w, source =>
    let w := walk (fun w : World => (w.net.node source).clientList)
      (fun w p => exitOneClient conf w p comment)
      (w.net.node source).clientList.length w (w.net.node source).clientList.head?
    walk (fun w : World => (w.net.node source).serverList)
      (fun w p => exitOneClient conf (recurseRemoveClients conf comment depth w p) p comment)
      (w.net.node source).serverList.length w (w.net.node source).serverList.head?

def closeLocal (w : World) (source : ClientPtr) (comment : CStr) : World where
  net := ServerTree.closeLocal w.net source comment
  user := w.user
  count := if isClient w.net.rooms source then
      { w.count with localClients := w.count.localClients - 1 } else w.count

def exitRest (conf : Conf) (w : World) (source : ClientPtr) (comment : CStr) : World :=
  if isServer w.net source then
    let splitstr := splitComment conf.net w.net source
    let w := if (w.net.node source).squit then w
      else { w with net := sendtoServer w.net none (.squit none (idOf w.net source) comment) }
    let w := recurseRemoveClients conf splitstr w.net.globalServerList.length w source
    exitOneClient conf w source comment
  else
    let w := if isClient w.net.rooms source && !(w.net.node source).killed then
        let line := Line.quitOf (idOf w.net source) comment
        { w with net := sendtoServer w.net (some (fromOf w.net source)) line }
      else w
    exitOneClient conf w source comment

def exitClient (conf : Conf) (w : World) (source : ClientPtr) (comment : CStr) : World :=
  if ServerTree.myConnect w.net source then
    if (w.net.node source).closing then w
    else exitRest conf (closeLocal w source comment) source comment
  else exitRest conf w source comment

/-- `register_local_user`, until the user is on the lists. -/
def onTheLists (s : Net) (p : ClientPtr) (id : CStr) (profile : Profile) : Net :=
  let s := modifyNode s p (fun n => { n with servptr := s.me, profile := profile })
  let s := hashAddId (modifyId s p id) p
  let s := enlistClient (setStatus s p .client) p
  { s with unknownList := s.unknownList.erase p, localClientList := p :: s.localClientList }

/-- `register_local_user`: the user is counted, and leaves again when the password is refused. -/
def registerLocalUser (conf : Conf) (w : World) (p : ClientPtr) (id : CStr) (profile : Profile)
    (ssl : Bool) (refusal : Option CStr) : World :=
  let count := if conf.user.invisibleOnConnect then
      { w.count with invisi := w.count.invisi + 1 } else w.count
  let umodes := if conf.user.invisibleOnConnect then insert .invisible (w.user p).umodes
    else (w.user p).umodes
  let count := { count with localClients := count.localClients + 1, total := count.total + 1 }
  let profile := { profile with umodes := umodesText umodes }
  let w : World := {
    net := onTheLists w.net p id profile
    user := update w.user p
      { w.user p with umodes := umodes, operHandler := decide (.oper ∈ umodes) }
    count := count }
  match refusal with
  | some comment => exitClient conf w p comment
  | none =>
    -- `user_welcome`
    let c := clientOf w p
    let w := if ssl then putClient w p { c with umodes := insert .ssl c.umodes } else w
    { w with net := introduceClient w.net p }

def setUserMode (conf : Conf) (w : World) (p : ClientPtr) (modes : CStr) : World :=
  let (c, count) := UserModes.setUserMode conf.user (clientOf w p) w.count modes
  { putClient w p c with count := count }

def operUp (conf : Conf) (w : World) (p : ClientPtr) (modes : Modes) (admin : Bool) : World :=
  let (c, count) := UserModes.operUp conf.user modes admin (clientOf w p) w.count
  { putClient w p c with count := count }

def msSvsmode (conf : Conf) (w : World) (p : ClientPtr) (ts : ℤ) (modes : CStr)
    (extarg : Option CStr) : World :=
  let (c, count) := UserModes.msSvsmode conf.user (clientOf w p) w.count ts modes extarg
  { putClient w p c with count := count }

/-- `refusal` is why a password is not taken; `other` is what no counter depends on. -/
inductive Event where
  | other (e : ServerEvents.Event)
  | webirc (p : ClientPtr)
  | user (p : ClientPtr) (id : CStr) (profile : Profile) (ssl : Bool) (refusal : Option CStr)
  | uid (source p : ClientPtr) (name : CStr) (hopcount : ℕ) (id umodes : CStr) (profile : Profile)
  | mode (p : ClientPtr) (modes : CStr)
  | oper (p : ClientPtr) (modes : Modes) (admin : Bool)
  | svsmode (source p : ClientPtr) (ts : ℤ) (modes : CStr) (extarg : Option CStr)
  | exit (p : ClientPtr) (comment : CStr)

/-- The events of the lists that have an event of their own here. -/
def counted : ServerEvents.Event → Bool
  | .user .. => true
  | .uid .. => true
  | .exit .. => true
  | _ => false

/-- The text of the modes stays with the modes. -/
def keepUmodes (w : World) : ServerEvents.Event → ServerEvents.Event
  | .profile p profile =>
    .profile p { profile with umodes := (w.net.node p).profile.umodes }
  | e => e

/-- Who is made anew has no modes. -/
def made (user : ClientPtr → User) : ServerEvents.Event → ClientPtr → User
  | .connect p => update user p blankUser
  | .servConnect p _ => update user p blankUser
  | .sid _ p _ _ _ _ => update user p blankUser
  | _ => user

def addService (conf : Conf) (net : Net) (p : ClientPtr) (user : ClientPtr → User) :
    ClientPtr → User :=
  if isServer net p && conf.services (nameOf net p) then
    update user p { user p with service := true }
  else user

/-- A server that has come may be one of services. -/
def markService (conf : Conf) (net : Net) (user : ClientPtr → User) :
    ServerEvents.Event → ClientPtr → User
  | .server p _ _ _ => addService conf net p user
  | .sid _ p _ _ _ _ => addService conf net p user
  | _ => user

def allowed (b : Bool) (w : World) : Option World := if b then some w else none

def step (conf : Conf) (w : World) : Event → Option World
  | .other e =>
    if counted e then none
    else (ServerEvents.step conf.net w.net (keepUmodes w e)).map fun net =>
      { net := net, user := markService conf net (made w.user e) e, count := w.count }
  | .webirc p =>
    allowed (unregistered w.net p)
      (putClient w p { clientOf w p with umodes := insert .webirc (w.user p).umodes })
  | .user p id profile ssl refusal =>
    let (found, net) := hashFindId w.net id
    let w := { w with net := net }
    allowed (unregistered net p && hashed net.clientTable p && decide (id ≠ [] ∧ found = none))
      (registerLocalUser conf w p id profile ssl refusal)
  | .uid source p name hopcount id umodes profile =>
    let (modes, count) := uidModes umodes w.count
    let profile := { profile with umodes := umodesText modes }
    (ServerEvents.step conf.net w.net (.uid source p name hopcount id profile)).map fun net =>
      { net := net
        user := update w.user p ⟨modes, decide (.oper ∈ modes), false, (w.user source).service⟩
        count := { count with total := count.total + 1 } }
  | .mode p modes => allowed (isClient w.net.rooms p) (setUserMode conf w p modes)
  | .oper p modes admin =>
    allowed (isClient w.net.rooms p && ServerTree.myConnect w.net p && !(w.user p).operHandler)
      (operUp conf w p modes admin)
  | .svsmode source p ts modes extarg =>
    allowed (known w.net source && (w.user source).service && isClient w.net.rooms p)
      (msSvsmode conf w p ts modes extarg)
  | .exit p comment => allowed (known w.net p) (exitClient conf w p comment)

/-- Just started. -/
def start (hashfXorKey : BitVec 32) (me : ClientPtr) (meId meName meInfo : CStr) : World where
  net := ServerEvents.start hashfXorKey me meId meName meInfo
  user := fun _ => blankUser
  count := ⟨0, 0, 0, 0⟩


inductive Kind
  | total | localClients | oper | invisi
  deriving DecidableEq

def reading (count : Counter) : Kind → BitVec 32
  | .total => count.total
  | .localClients => count.localClients
  | .oper => count.oper
  | .invisi => count.invisi

def belongs (w : World) (k : Kind) (p : ClientPtr) : Bool :=
  isClient w.net.rooms p &&
    match k with
    | .total => true
    | .localClients => ServerTree.myConnect w.net p
    | .oper => decide (.oper ∈ (w.user p).umodes)
    | .invisi => decide (.invisible ∈ (w.user p).umodes)

/-- Each counter is the number of those it counts. -/
def Settled (w : World) : Prop :=
  ∀ k, Tally (reading w.count k) {p | belongs w k p = true}

theorem settled_change (w w' : World) (p : ClientPtr) (h : Settled w)
    (hother : ∀ q, q ≠ p → ∀ k, belongs w' k q = belongs w k q)
    (hcount : ∀ k, reading w'.count k + bit (belongs w k p) =
      reading w.count k + bit (belongs w' k p)) : Settled w' := by
  intro k
  refine tally_change _ _ _ _ p (belongs w k p) (belongs w' k p) (h k) Iff.rfl Iff.rfl ?_ (hcount k)
  intro q hq
  show belongs w' k q = true ↔ belongs w k q = true
  rw [hother q hq k]

theorem standing_read (r r' : MemberLists.State) (q : ClientPtr)
    (hread : (r'.clients q).map standing = (r.clients q).map standing) :
    isClient r' q = isClient r q ∧ MemberLists.myConnect r' q = MemberLists.myConnect r q := by
  unfold isClient MemberLists.myConnect
  cases hc : r.clients q with
  | none =>
    rw [hc, Option.map_none, Option.map_eq_none_iff] at hread
    rw [hread]
    exact ⟨rfl, rfl⟩
  | some c =>
    rw [hc, Option.map_some, Option.map_eq_some_iff] at hread
    obtain ⟨c', hc', hstanding⟩ := hread
    unfold standing at hstanding
    simp only [Prod.mk.injEq] at hstanding
    rw [hc']
    simp [hstanding.1, hstanding.2.1]

theorem belongs_read (w w' : World) (q : ClientPtr)
    (hread : (w'.net.rooms.clients q).map standing = (w.net.rooms.clients q).map standing)
    (huser : w'.user q = w.user q) (k : Kind) : belongs w' k q = belongs w k q := by
  obtain ⟨hclient, hmy⟩ := standing_read w.net.rooms w'.net.rooms q hread
  unfold belongs ServerTree.myConnect
  rw [hclient, hmy, huser]

section Exit

variable (conf : Conf)

theorem exitOneClient_rooms (s : Net) (p : ClientPtr) (comment : CStr) :
    (ServerTree.exitOneClient conf.net s p comment).rooms =
        MemberLists.exitOneClient conf.net.env s.rooms p ∧
      (ServerTree.exitOneClient conf.net s p comment).me = s.me := by
  have hunlist : (unlist s p comment).rooms = s.rooms ∧ (unlist s p comment).me = s.me := by
    unfold unlist
    split
    · exact ⟨rfl, rfl⟩
    · split <;> exact ⟨rfl, rfl⟩
  unfold ServerTree.exitOneClient
  dsimp only
  split
  · split <;> exact ⟨congrArg (MemberLists.exitOneClient conf.net.env · p) hunlist.1, hunlist.2⟩
  · split <;> exact ⟨congrArg (MemberLists.exitOneClient conf.net.env · p) hunlist.1, hunlist.2⟩

/-- The rooms have the client no more, and the others are what they were. -/
theorem exitOneClient_standing (env : MemberLists.Env) (r : MemberLists.State) (p : ClientPtr) :
    (MemberLists.exitOneClient env r p).clients p = none ∧
      ∀ q, q ≠ p → ((MemberLists.exitOneClient env r p).clients q).map standing =
        (r.clients q).map standing := by
  unfold MemberLists.exitOneClient
  dsimp only
  refine ⟨update_self _ _ _, fun q hq => ?_⟩
  rw [update_of_ne hq]
  split
  · have hsame := (RoomHeads.channelDoJoin0_same r p).heads q
    have hread : ∀ c, standing c = (fun x : CStr × CStr × Status × Bool × ClientPtr =>
        (x.2.2.1, x.2.2.2.1, x.2.2.2.2)) (RoomHeads.head c) := fun _ => rfl
    have hfun : standing = (fun x : CStr × CStr × Status × Bool × ClientPtr =>
        (x.2.2.1, x.2.2.2.1, x.2.2.2.2)) ∘ RoomHeads.head := funext hread
    have hwhowas : (whowasAddHistory env (channelDoJoin0 r p) p false).clients =
        (channelDoJoin0 r p).clients := by
      unfold whowasAddHistory
      split <;> rfl
    show ((whowasAddHistory env (channelDoJoin0 r p) p false).clients q).map standing = _
    rw [hwhowas, hfun, ← Option.map_map, ← Option.map_map, hsame]
  · rfl

theorem exitOneClient_lists (s : Net) (p : ClientPtr) (comment : CStr) (q x : ClientPtr)
    (h : x ∈ ((ServerTree.exitOneClient conf.net s p comment).node q).clientList ∨
      x ∈ ((ServerTree.exitOneClient conf.net s p comment).node q).serverList) :
    x ∈ (s.node q).clientList ∨ x ∈ (s.node q).serverList := by
  have hnode : ∀ f : Node → Node, (∀ n, (x ∈ (f n).clientList → x ∈ n.clientList) ∧
      (x ∈ (f n).serverList → x ∈ n.serverList)) → ∀ (s : Net) (a : ClientPtr),
      x ∈ ((modifyNode s a f).node q).clientList ∨ x ∈ ((modifyNode s a f).node q).serverList →
      x ∈ (s.node q).clientList ∨ x ∈ (s.node q).serverList := by
    intro f hf s a hx
    unfold modifyNode at hx
    dsimp only at hx
    by_cases hqa : q = a
    · rw [hqa, update_self] at hx
      rw [hqa]
      exact hx.imp (hf _).1 (hf _).2
    · rwa [update_of_ne hqa] at hx
  have hunlist : x ∈ ((unlist s p comment).node q).clientList ∨
      x ∈ ((unlist s p comment).node q).serverList →
      x ∈ (s.node q).clientList ∨ x ∈ (s.node q).serverList := by
    intro hx
    unfold unlist at hx
    split at hx
    · exact hnode (fun n => { n with clientList := n.clientList.erase p })
        (fun n => ⟨List.mem_of_mem_erase, id⟩) s _ hx
    · split at hx
      · exact hnode (fun n => { n with serverList := n.serverList.erase p })
          (fun n => ⟨id, List.mem_of_mem_erase⟩) s _ hx
      · exact hx
  refine hunlist ?_
  unfold ServerTree.exitOneClient at h
  dsimp only at h
  refine hnode (fun n => { n with dead := true }) (fun n => ⟨id, id⟩) (unlist s p comment) p ?_
  split at h
  · split at h <;> exact h
  · split at h <;> exact h

end Exit


section Exits

variable (conf : Conf) (comment : CStr)

/-- One client, with its connection closed before if it has one. -/
theorem exitOneClient_settled (w w₁ : World) (p : ClientPtr) (h : Settled w)
    (hrooms : w₁.net.rooms = w.net.rooms) (huser : w₁.user = w.user)
    (hcount : w₁.count = if belongs w .localClients p then
        { w.count with localClients := w.count.localClients - 1 } else w.count) :
    Settled (exitOneClient conf w₁ p comment) := by
  obtain ⟨hexit, -⟩ := exitOneClient_rooms conf w₁.net p comment
  obtain ⟨hnone, hothers⟩ := exitOneClient_standing conf.net.env w₁.net.rooms p
  have hclient : isClient (exitOneClient conf w₁ p comment).net.rooms p = false := by
    show isClient (ServerTree.exitOneClient conf.net w₁.net p comment).rooms p = false
    rw [hexit]
    unfold isClient
    rw [hnone]
  have hgone : ∀ k, belongs (exitOneClient conf w₁ p comment) k p = false := by
    intro k
    unfold belongs
    rw [hclient, Bool.false_and]
  refine settled_change w _ p h (fun q hq k => ?_) fun k => ?_
  · have huser' : (exitOneClient conf w₁ p comment).user q = w.user q := congrFun huser q
    refine belongs_read w _ q ?_ huser' k
    show ((ServerTree.exitOneClient conf.net w₁.net p comment).rooms.clients q).map standing = _
    rw [hexit, hothers q hq, hrooms]
  · rw [hgone k]
    show reading (updateClientExitStats w₁ p) k + _ = _
    unfold updateClientExitStats
    rw [hrooms, huser, hcount]
    unfold belongs
    cases hcl : isClient w.net.rooms p <;> cases hmy : ServerTree.myConnect w.net p <;>
      by_cases ho : .oper ∈ (w.user p).umodes <;> by_cases hi : .invisible ∈ (w.user p).umodes <;>
      cases k <;> simp [reading, bit, ho, hi]

/-- Nobody on the list of another server has a connection of its own. -/
def Apart (s : Net) : Prop :=
  ∀ q, q ≠ s.me → ∀ x, x ∈ (s.node q).clientList ∨ x ∈ (s.node q).serverList →
    x ≠ s.me ∧ ServerTree.myConnect s x = false

theorem placed_apart (s : Net) (h : Placed s) : Apart s := by
  intro q hq x hx
  have hparent : clientParent s x = some q ∨ serverParent s x = some q :=
    hx.imp ((h.listed.clients q).2 x).mp ((h.listed.servers q).2 x).mp
  refine ⟨?_, ?_⟩
  · rintro rfl
    obtain ⟨hclient, hserver⟩ := h.listed.root
    rw [hclient, hserver] at hparent
    simp at hparent
  · exact ((h.routed x q hparent).resolve_left fun hroot => hq hroot.1).2.2

/-- An exit of clients that are behind other servers, as far as the counters go. -/
structure Fewer (w w' : World) : Prop where
  settled : Settled w → Settled w'
  me : w'.net.me = w.net.me
  apart : Apart w.net → Apart w'.net
  user : w'.user = w.user
  remote : ∀ q, ServerTree.myConnect w.net q = false → ServerTree.myConnect w'.net q = false
  client : ∀ q, isClient w.net.rooms q = false → isClient w'.net.rooms q = false

theorem Fewer.refl (w : World) : Fewer w w := ⟨id, rfl, id, rfl, fun _ => id, fun _ => id⟩

theorem Fewer.trans {w w' w'' : World} (h : Fewer w w') (h' : Fewer w' w'') : Fewer w w'' :=
  ⟨fun hs => h'.settled (h.settled hs), h'.me.trans h.me, fun ha => h'.apart (h.apart ha),
    h'.user.trans h.user, fun q hq => h'.remote q (h.remote q hq),
    fun q hq => h'.client q (h.client q hq)⟩

theorem exitOneClient_fewer (w : World) (p : ClientPtr)
    (hp : belongs w .localClients p = false) : Fewer w (exitOneClient conf w p comment) := by
  obtain ⟨hexit, hme⟩ := exitOneClient_rooms conf w.net p comment
  obtain ⟨hnone, hothers⟩ := exitOneClient_standing conf.net.env w.net.rooms p
  have hread : ∀ q, (ServerTree.myConnect w.net q = false →
        ServerTree.myConnect (exitOneClient conf w p comment).net q = false) ∧
      (isClient w.net.rooms q = false →
        isClient (exitOneClient conf w p comment).net.rooms q = false) := by
    intro q
    show (_ → MemberLists.myConnect (ServerTree.exitOneClient conf.net w.net p comment).rooms q =
      false) ∧ (_ → isClient (ServerTree.exitOneClient conf.net w.net p comment).rooms q = false)
    rw [hexit]
    by_cases hq : q = p
    · unfold MemberLists.myConnect isClient
      rw [hq, hnone]
      exact ⟨fun _ => rfl, fun _ => rfl⟩
    · obtain ⟨hclient, hmy⟩ := standing_read w.net.rooms _ q (hothers q hq)
      rw [hclient, hmy]
      exact ⟨id, id⟩
  refine ⟨fun h => ?_, hme, fun h q hq x hx => ?_, rfl, fun q => (hread q).1, fun q => (hread q).2⟩
  · refine exitOneClient_settled conf comment w w p h rfl rfl ?_
    rw [hp]
    rfl
  · have hq' : q ≠ w.net.me := by
      rw [← hme]
      exact hq
    obtain ⟨hx₁, hx₂⟩ := h q hq' x (exitOneClient_lists conf w.net p comment q x hx)
    refine ⟨?_, (hread x).1 hx₂⟩
    show x ≠ (ServerTree.exitOneClient conf.net w.net p comment).me
    rw [hme]
    exact hx₁

theorem recurseRemoveClients_fewer (depth : ℕ) (w : World) (source : ClientPtr)
    (ha : Apart w.net) (hne : source ≠ w.net.me) :
    Fewer w (recurseRemoveClients conf comment depth w source) := by
  induction depth generalizing w source with
  | zero => exact Fewer.refl w
  | succ depth ih =>
    -- whoever a walk comes to is behind the server
    have hlocal : ∀ (v : World) a, ServerTree.myConnect v.net a = false →
        belongs v .localClients a = false := by
      intro v a hv
      unfold belongs
      rw [hv, Bool.and_false]
    have hwalk : ∀ (list : World → List ClientPtr) (body : World → ClientPtr → World),
        (∀ v a, a ∈ list v → a ∈ (v.net.node source).clientList ∨
          a ∈ (v.net.node source).serverList) →
        (∀ v a, Fewer w v → a ≠ v.net.me → ServerTree.myConnect v.net a = false →
          Fewer v (body v a)) →
        ∀ v, Fewer w v → Fewer w (walk list body (list v).length v (list v).head?) := by
      intro list body hlist hbody v hv
      have hmem : ∀ u a, Fewer w u → a ∈ list u →
          a ≠ u.net.me ∧ ServerTree.myConnect u.net a = false := by
        intro u a hu hmem
        refine hu.apart ha source ?_ a (hlist u a hmem)
        rw [hu.me]
        exact hne
      refine walk_keeps list body (Fewer w)
        (fun u a => a ≠ u.net.me ∧ ServerTree.myConnect u.net a = false) hmem ?_ _ v _ hv ?_
      · intro u a hu hR
        have hstep := hbody u a hu hR.1 hR.2
        refine ⟨hu.trans hstep, fun b hb => ⟨?_, hstep.remote b hb.2⟩⟩
        rw [hstep.me]
        exact hb.1
      · intro a hhead
        exact hmem v a hv (List.mem_of_mem_head? hhead)
    unfold recurseRemoveClients
    dsimp only
    have hfirst := hwalk (fun v : World => (v.net.node source).clientList)
      (fun v p => exitOneClient conf v p comment) (fun _ _ => Or.inl)
      (fun v a _ _ hmy => exitOneClient_fewer conf comment v a (hlocal v a hmy)) w (Fewer.refl w)
    refine hwalk (fun v : World => (v.net.node source).serverList)
      (fun v p => exitOneClient conf (recurseRemoveClients conf comment depth v p) p comment)
      (fun _ _ => Or.inr) (fun v a hv hame hmy => ?_) _ hfirst
    have hbelow := ih v a (hv.apart ha) hame
    exact hbelow.trans (exitOneClient_fewer conf comment _ a (hlocal _ a (hbelow.remote a hmy)))

/-- The lists are those of the exits without the counters. -/
theorem recurseRemoveClients_net (depth : ℕ) (w : World) (source : ClientPtr) :
    (recurseRemoveClients conf comment depth w source).net =
      ServerTree.recurseRemoveClients conf.net comment depth w.net source := by
  induction depth generalizing w source with
  | zero => rfl
  | succ depth ih =>
    unfold recurseRemoveClients ServerTree.recurseRemoveClients
    dsimp only
    rw [walk_map World.net (fun v : World => (v.net.node source).serverList)
      (fun s : Net => (s.node source).serverList) _ (fun s p => ServerTree.exitOneClient conf.net
        (ServerTree.recurseRemoveClients conf.net comment depth s p) p comment) (fun _ => rfl)
      fun v a => ?_]
    · have hclients := walk_map World.net (fun v : World => (v.net.node source).clientList)
        (fun s : Net => (s.node source).clientList) (fun v p => exitOneClient conf v p comment)
        (fun s p => ServerTree.exitOneClient conf.net s p comment) (fun _ => rfl) (fun _ _ => rfl)
        (w.net.node source).clientList.length w (w.net.node source).clientList.head?
      rw [hclients]
    · show _ = ServerTree.exitOneClient conf.net (recurseRemoveClients conf comment depth v a).net a
        comment
      rw [ih]

theorem exitRest_net (w : World) (source : ClientPtr) :
    (exitRest conf w source comment).net =
      ServerTree.exitRest conf.net w.net source comment := by
  unfold exitRest ServerTree.exitRest
  split
  · dsimp only
    show ServerTree.exitOneClient conf.net (recurseRemoveClients conf _ _ _ source).net source
      comment = _
    rw [recurseRemoveClients_net]
    split <;> rfl
  · dsimp only
    split <;> rfl

theorem exitClient_net (w : World) (source : ClientPtr) :
    (exitClient conf w source comment).net =
      ServerTree.exitClient conf.net w.net source comment := by
  unfold exitClient ServerTree.exitClient
  split
  · split
    · rfl
    · exact exitRest_net conf comment (closeLocal w source comment) source
  · exact exitRest_net conf comment w source

end Exits


section ExitClient

variable (conf : Conf) (comment : CStr)

/-- The counters only depend on the rooms, the users and themselves. -/
theorem settled_same (w w₁ : World) (h : Settled w) (hrooms : w₁.net.rooms = w.net.rooms)
    (huser : w₁.user = w.user) (hcount : w₁.count = w.count) : Settled w₁ := by
  intro k
  have hset : {p | belongs w₁ k p = true} = {p | belongs w k p = true} := by
    ext q
    show belongs w₁ k q = true ↔ belongs w k q = true
    rw [belongs_read w w₁ q (by rw [hrooms]) (congrFun huser q) k]
  rw [hset, hcount]
  exact h k

/-- The rest of an exit, when the connection is closed and counted off. -/
theorem exitRest_settled (w w₁ : World) (p : ClientPtr) (h : Settled w)
    (hrooms : w₁.net.rooms = w.net.rooms) (huser : w₁.user = w.user)
    (hcount : w₁.count = if belongs w .localClients p then
        { w.count with localClients := w.count.localClients - 1 } else w.count)
    (ha : Apart w₁.net) (hne : p ≠ w₁.net.me) : Settled (exitRest conf w₁ p comment) := by
  unfold exitRest
  split
  · next hserver =>
    have hclient : isClient w.net.rooms p = false := by
      obtain ⟨c, hc, hstatus⟩ := (isServer_iff w₁.net p).mp hserver
      rw [hrooms] at hc
      unfold isClient
      rw [hc]
      dsimp only
      rw [hstatus]
      rfl
    have hcount' : w₁.count = w.count := by
      rw [hcount]
      unfold belongs
      rw [hclient, Bool.false_and]
      rfl
    have hsettled := settled_same w w₁ h hrooms huser hcount'
    dsimp only
    obtain ⟨sent, hsent⟩ : ∃ sent, (if (w₁.net.node p).squit = true then w₁
        else { w₁ with
          net := sendtoServer w₁.net none (.squit none (idOf w₁.net p) comment) }) =
          { w₁ with net := { w₁.net with sent := sent } } := by
      split
      · exact ⟨w₁.net.sent, rfl⟩
      · exact ⟨_, rfl⟩
    rw [hsent]
    generalize hv : ({ w₁ with net := { w₁.net with sent := sent } } : World) = v
    have hv' : v.net.rooms = w₁.net.rooms ∧ v.user = w₁.user ∧ v.count = w₁.count ∧
        Apart v.net ∧ p ≠ v.net.me := by
      rw [← hv]
      exact ⟨rfl, rfl, rfl, ha, hne⟩
    obtain ⟨hvrooms, hvuser, hvcount, hva, hvne⟩ := hv'
    have hvsettled := settled_same w₁ v hsettled hvrooms hvuser hvcount
    have hbelow := recurseRemoveClients_fewer conf (splitComment conf.net w₁.net p)
      v.net.globalServerList.length v p hva hvne
    have hgone : isClient (recurseRemoveClients conf (splitComment conf.net w₁.net p)
        v.net.globalServerList.length v p).net.rooms p = false := by
      refine hbelow.client p ?_
      rw [hvrooms, hrooms]
      exact hclient
    refine (exitOneClient_fewer conf comment _ p ?_).settled (hbelow.settled hvsettled)
    unfold belongs
    rw [hgone, Bool.false_and]
  · dsimp only
    split
    · exact exitOneClient_settled conf comment w _ p h hrooms huser hcount
    · exact exitOneClient_settled conf comment w w₁ p h hrooms huser hcount

theorem exitClient_settled (w : World) (p : ClientPtr) (hinv : Inv w.net)
    (hknown : known w.net p = true) (h : Settled w) : Settled (exitClient conf w p comment) := by
  have hne : p ≠ w.net.me := ClientExit.known_ne_me w.net hinv.placed p hknown
  have ha := placed_apart w.net hinv.placed
  unfold exitClient
  split
  · next hmy =>
    rw [if_neg (by simp [hinv.opened p hknown])]
    obtain ⟨lines, clients, unknown, -, -, heq⟩ := ClientExit.closeLocal_spec w.net p comment
    have hnet : (closeLocal w p comment).net.rooms = w.net.rooms ∧
        (closeLocal w p comment).net.me = w.net.me ∧
        (closeLocal w p comment).net.node =
          update w.net.node p { w.net.node p with closing := true } := by
      show (ServerTree.closeLocal w.net p comment).rooms = _ ∧ _
      unfold closeLocal
      dsimp only
      rw [heq]
      exact ⟨rfl, rfl, rfl⟩
    obtain ⟨hrooms, hme, hnode⟩ := hnet
    refine exitRest_settled conf comment w _ p h hrooms rfl ?_ (fun q hq x hx => ?_) ?_
    · show (if isClient w.net.rooms p = true then _ else _) = _
      unfold belongs
      dsimp only
      rw [hmy, Bool.and_true]
    · rw [hme] at hq ⊢
      have hlists : ((closeLocal w p comment).net.node q).clientList = (w.net.node q).clientList ∧
          ((closeLocal w p comment).net.node q).serverList = (w.net.node q).serverList := by
        rw [hnode]
        by_cases hqp : q = p
        · rw [hqp, update_self]
          exact ⟨rfl, rfl⟩
        · rw [update_of_ne hqp]
          exact ⟨rfl, rfl⟩
      rw [hlists.1, hlists.2] at hx
      obtain ⟨hx₁, hx₂⟩ := ha q hq x hx
      refine ⟨hx₁, ?_⟩
      unfold ServerTree.myConnect at hx₂ ⊢
      rwa [hrooms]
    · rw [hme]
      exact hne
  · next hmy =>
    refine exitRest_settled conf comment w w p h rfl rfl ?_ ha hne
    unfold belongs
    dsimp only
    rw [Bool.eq_false_iff.mpr hmy, Bool.and_false]
    rfl

end ExitClient

end IrcdHybrid.GlobalCounters
