import IrcdHybrid.LinkEstab

/-!
Runs of a server. The lists are right in every state it can come to. The hashes are right
too as long as no connection registers as a server after a nick of it was accepted: the
name is changed then while the connection is in the bucket of the old one.
-/

namespace IrcdHybrid.ServerRuns

open CString HashChains NameTables RoomHeads ServerLists MemberLists MemberInvariant MemberRuns
open ServerTree ServerBurst ServerEvents ServerInvariant ServerComing Exits ClientExit
open ServerSteps LinkEstab Function
open Uid (validSid)

/-- A connection that registers as a server is in no bucket of names. -/
def clean (s : Net) : Event → Prop
  | .server p _ _ _ => Off s.clientTable p
  | _ => True

theorem validServname_ne_nil (name : CStr) (h : validServname name = true) : name ≠ [] := by
  rintro rfl
  simp [validServname] at h

theorem validSid_ne_nil (id : CStr) (h : validSid id = true) : id ≠ [] := by
  rintro rfl
  simp [validSid] at h

section Server

variable (conf : Conf) (s : Net) (p : ClientPtr) (name : CStr) (hopcount : ℕ) (info : CStr)

/-- The connection under the name of the server it says it is. -/
def renamed : Net :=
  modifyNode (modifyName s p name) p (fun n => { setServerGecos n info with hopcount := hopcount })

theorem renamed_inv (h : Inv s) (hp : unregistered s p = true) :
    Inv (renamed s p name hopcount info) ∧ unregistered (renamed s p name hopcount info) p = true := by
  obtain ⟨hunknown, hmy⟩ := unregistered_iff s p hp
  have hstatus := modifyName_status s p p name
  have hunknown' := hstatus.1.trans hunknown
  refine ⟨unknownNode_inv _ p (modifyName_inv s h p name) hunknown' _ ?_ ?_ ?_, ?_⟩
  · exact (setServerGecos_fields _ info).1
  · exact (setServerGecos_fields _ info).2.1
  · exact (setServerGecos_fields _ info).2.2.1
  · show (isUnknown (modifyName s p name) p && ServerTree.myConnect (modifyName s p name) p) = true
    rw [hunknown', hstatus.2.2.2.1, hmy]
    rfl

theorem mrServer_eq : mrServer conf s p name hopcount info =
    serverEstab conf (renamed s p name hopcount info) p := rfl

theorem mrServer_inv (h : Inv s) (hp : unregistered s p = true) :
    Inv (mrServer conf s p name hopcount info) := by
  obtain ⟨h₁, hp₁⟩ := renamed_inv s p name hopcount info h hp
  exact serverEstab_inv conf _ p h₁ hp₁

theorem mrServer_named (h : Inv s) (hn : Named s) (hp : unregistered s p = true)
    (hoff : Off s.clientTable p) (hname : name ≠ []) (hid : idOf s p ≠ []) :
    Named (mrServer conf s p name hopcount info) := by
  obtain ⟨h₁, hp₁⟩ := renamed_inv s p name hopcount info h hp
  have hknown := known_of_isUnknown s p (unregistered_iff s p hp).1
  have hn₁ : Named (renamed s p name hopcount info) :=
    node_named _ _ (modifyName_named s hn p name hoff)
  refine serverEstab_named conf _ p h₁ hp₁ hn₁ hoff ?_ ?_
  · exact modifyName_name s p hknown (unknown_ne_me s p h hknown) name hname
  · have hsame := (modifyName_status s p p name).2.2.2.2.2
    show idOf (modifyName s p name) p ≠ []
    rw [hsame]
    exact hid

end Server

section Step

variable (conf : Conf) (s s' : Net) (e : Event)

theorem setMode_good (h : Good s.rooms) (chptr : ChannelPtr) (mode : Channels.Mode)
    (hkey : mode.key.length ≤ Channels.KEYLEN) :
    Good (modifyChannel s.rooms chptr (fun c => { c with mode := mode })) := by
  refine ⟨modifyChannel_consistent s.rooms h.consistent chptr _ (fun _ => rfl) (fun _ => rfl)
    (fun c hc => ⟨irccmp_self c.name, (h.consistent.hashed.buffers chptr c hc).1, hkey⟩),
    fun p c hc => ?_⟩
  obtain ⟨old, hold, hsame⟩ := modifyChannel_live s.rooms chptr p
    (fun c => { c with mode := mode }) (fun _ => rfl) c hc
  rw [← hsame]
  exact h.live p old hold

/-- The lookups of a nick and of the names of a server. -/
structure Looked (s s₁ : Net) : Prop where
  inv : Inv s → Inv s₁
  named : Named s → Named s₁
  same : ∃ clientTable idTable, s₁ = { s with clientTable := clientTable, idTable := idTable }
  off : Named s → ∀ q, (Off s₁.clientTable q ↔ Off s.clientTable q) ∧
    (Off s₁.idTable q ↔ Off s.idTable q)

theorem looked_names (k : ℕ) (f : ClientPtr → Bool) :
    Looked s { s with clientTable := (s.clientTable.find s.top k f).2 } :=
  ⟨tables_inv s _ s.idTable, fun h => (findName_named s h k f).1, ⟨_, s.idTable, rfl⟩,
    fun h q => ⟨(findName_named s h k f).2 q, Iff.rfl⟩⟩

theorem looked_client (name : CStr) : Looked s (hashFindClient s name).2 := looked_names s _ _

theorem looked_id (name : CStr) : Looked s (hashFindId s name).2 :=
  ⟨tables_inv s s.clientTable _, fun h => (findId_named s h _ _).1, ⟨s.clientTable, _, rfl⟩,
    fun h q => ⟨Iff.rfl, (findId_named s h _ _).2 q⟩⟩

theorem looked_server (name : CStr) : Looked s (hashFindServer s name).2 := by
  unfold hashFindServer
  split
  · exact looked_id s name
  · exact looked_names s _ _

theorem looked_trans (s₁ s₂ : Net) (h : Looked s s₁) (h' : Looked s₁ s₂) : Looked s s₂ := by
  refine ⟨fun hs => h'.inv (h.inv hs), fun hn => h'.named (h.named hn), ?_, fun hn q => ?_⟩
  · obtain ⟨t, u, rfl⟩ := h.same
    obtain ⟨t', u', rfl⟩ := h'.same
    exact ⟨t', u', rfl⟩
  · exact ⟨(h'.off (h.named hn) q).1.trans (h.off hn q).1, (h'.off (h.named hn) q).2.trans (h.off hn q).2⟩

/-- What the events with a lookup come to. -/
inductive Handled (s : Net) : Event → Net → Prop where
  | nick (p : ClientPtr) (nick : CStr) (hp : unregistered s p = true) (hnick : nick ≠ []) :
    Handled s (.nick p nick) (setInitialNick s p nick)
  | user (p : ClientPtr) (id : CStr) (profile : Profile) (hp : unregistered s p = true)
    (hid : id ≠ []) : Handled s (.user p id profile) (registerLocalUser s p id profile)
  | server (p : ClientPtr) (name : CStr) (hopcount : ℕ) (info : CStr)
    (hp : unregistered s p = true) (hname : name ≠ []) (hid : idOf s p ≠ []) :
    Handled s (.server p name hopcount info) (mrServer conf s p name hopcount info)
  | sid (source p : ClientPtr) (name : CStr) (hopcount : ℕ) (id info : CStr)
    (hsource : isServer s source = true) (hfresh : fresh s p = true) (hname : name ≠ [])
    (hid : id ≠ []) :
    Handled s (.sid source p name hopcount id info) (msSid s source p name hopcount id info)
  | uid (source p : ClientPtr) (name : CStr) (hopcount : ℕ) (id : CStr) (profile : Profile)
    (hsource : isServer s source = true) (hfresh : fresh s p = true) (hname : name ≠ [])
    (hid : id ≠ []) :
    Handled s (.uid source p name hopcount id profile)
      (uidFromServer s source p name hopcount id profile)
  | changeNick (p : ClientPtr) (nick : CStr) (hp : isClient s.rooms p = true)
    (hnick : nick ≠ []) : Handled s (.changeNick p nick) (changeNick conf s p nick)

/-- The events that are handled after a lookup. -/
def looks : Event → Bool
  | .nick .. | .user .. | .server .. | .sid .. | .uid .. | .changeNick .. => true
  | _ => false

theorem handled_of_step (hlooks : looks e = true) (hstep : step conf s e = some s') :
    ∃ s₁, Looked s s₁ ∧ Handled conf s₁ e s' := by
  cases e with
  | nick p nick =>
    obtain ⟨hguard, rfl⟩ := (guarded_eq_some _ _ _).mp hstep
    rw [Bool.and_eq_true, decide_eq_true_iff] at hguard
    exact ⟨_, looked_client s nick, .nick p nick hguard.1 hguard.2.1⟩
  | user p id profile =>
    obtain ⟨hguard, rfl⟩ := (guarded_eq_some _ _ _).mp hstep
    rw [Bool.and_eq_true, Bool.and_eq_true, decide_eq_true_iff] at hguard
    exact ⟨_, looked_id s id, .user p id profile hguard.1.1 hguard.2.1⟩
  | server p name hopcount info =>
    obtain ⟨hguard, rfl⟩ := (guarded_eq_some _ _ _).mp hstep
    simp only [Bool.and_eq_true] at hguard
    exact ⟨_, looked_trans s _ _ (looked_server s name) (looked_id _ _),
      .server p name hopcount info hguard.1.1.1 (validServname_ne_nil name hguard.1.1.2)
        (validSid_ne_nil _ hguard.1.2)⟩
  | sid source p name hopcount id info =>
    obtain ⟨hguard, rfl⟩ := (guarded_eq_some _ _ _).mp hstep
    simp only [Bool.and_eq_true] at hguard
    exact ⟨_, looked_trans s _ _ (looked_id s id) (looked_server _ _),
      .sid source p name hopcount id info hguard.1.1.1.1 hguard.1.1.1.2
        (validServname_ne_nil name hguard.1.1.2) (validSid_ne_nil id hguard.1.2)⟩
  | uid source p name hopcount id profile =>
    obtain ⟨hguard, rfl⟩ := (guarded_eq_some _ _ _).mp hstep
    simp only [Bool.and_eq_true, decide_eq_true_iff] at hguard
    exact ⟨_, looked_trans s _ _ (looked_id s id) (looked_client _ _),
      .uid source p name hopcount id profile hguard.1.1 hguard.1.2 hguard.2.1 hguard.2.2.1⟩
  | changeNick p nick =>
    obtain ⟨hguard, rfl⟩ := (guarded_eq_some _ _ _).mp hstep
    rw [Bool.and_eq_true, decide_eq_true_iff] at hguard
    exact ⟨_, looked_client s nick, .changeNick p nick hguard.1 hguard.2.1⟩
  | _ => simp [looks] at hlooks

theorem looked_clean (s₁ : Net) (hlooked : Looked s s₁) (hn : Named s) (h : clean s e) :
    clean s₁ e := by
  cases e with
  | server p name hopcount info => exact (hlooked.off hn p).1.mpr h
  | _ => trivial

theorem handled_inv (h : Inv s) (hhandled : Handled conf s e s') : Inv s' := by
  cases hhandled with
  | nick p nick hp hnick => exact setInitialNick_inv s p h nick
  | user p id profile hp hid => exact registerLocalUser_inv s p h hp id profile
  | server p name hopcount info hp hname hid => exact mrServer_inv conf s p name hopcount info h hp
  | sid source p name hopcount id info hsource hfresh hname hid =>
    exact msSid_inv s p source name id h hsource hfresh hopcount info
  | uid source p name hopcount id profile hsource hfresh hname hid =>
    exact uidFromServer_inv s p source name id h hsource hfresh hopcount profile
  | changeNick p nick hp hnick => exact changeNick_inv conf s p h hp nick

theorem handled_named (h : Inv s) (hn : Named s) (hclean : clean s e)
    (hhandled : Handled conf s e s') : Named s' := by
  cases hhandled with
  | nick p nick hp hnick =>
    exact setInitialNick_named s p h hn (known_of_isUnknown s p (unregistered_iff s p hp).1) nick hnick
  | user p id profile hp hid => exact registerLocalUser_named s p h hn hp id hid profile
  | server p name hopcount info hp hname hid =>
    exact mrServer_named conf s p name hopcount info h hn hp hclean hname hid
  | sid source p name hopcount id info hsource hfresh hname hid =>
    exact msSid_named s p source name id h hn hsource hfresh hname hid hopcount info
  | uid source p name hopcount id profile hsource hfresh hname hid =>
    exact uidFromServer_named s p source name id h hn hsource hfresh hname hid hopcount profile
  | changeNick p nick hp hnick => exact changeNick_named conf s p h hn hp nick hnick

/-- The events that leave the clients and their lists alone, and what is in the hashes. -/
def quiet : Event → Bool
  | .capab .. | .profile .. | .channelData .. | .memberMode .. | .channelMode .. | .join ..
  | .msJoin .. | .msSjoin .. | .part .. | .mKick .. | .msKick .. | .findClient _ | .findId _
  | .findServer _ | .deadLink _ | .eob _ | .kill _ | .squit _ | .freeExited => true
  | _ => false

/-- What such an event does: something of one client is noted, the channels change, somebody is
looked up, or what was to be freed goes. -/
inductive Quiet (s : Net) : Net → Prop where
  | node (p : ClientPtr) (f : Node → Node) (hservptr : ∀ n, (f n).servptr = n.servptr)
    (hclients : ∀ n, (f n).clientList = n.clientList)
    (hservers : ∀ n, (f n).serverList = n.serverList) (hclosing : ∀ n, (f n).closing = n.closing)
    (houtbound : ∀ n, (f n).outbound = n.outbound) : Quiet s (modifyNode s p f)
  | rooms (rooms' : MemberLists.State) (hgood : Good rooms') (hsame : SameHeads s.rooms rooms') :
    Quiet s (onRooms s rooms')
  | extra (extra : ChannelPtr → Extra) : Quiet s { s with extra := extra }
  | looked (s' : Net) (hlooked : Looked s s') : Quiet s s'
  | freed : Quiet s { s with deadList := [] }

theorem quiet_of_step (h : Good s.rooms) (hquiet : quiet e = true) (hstep : step conf s e = some s') :
    Quiet s s' := by
  cases e with
  | capab p _ _ _ | profile p _ | deadLink p | eob p | kill p | squit p =>
    obtain ⟨-, rfl⟩ := (guarded_eq_some _ _ _).mp hstep
    exact .node p _ (fun _ => rfl) (fun _ => rfl) (fun _ => rfl) (fun _ => rfl) (fun _ => rfl)
  | channelData chptr extra =>
    rw [← Option.some.inj hstep]
    exact .extra _
  | memberMode member flags =>
    rw [← Option.some.inj hstep]
    exact .rooms _ ⟨setFlags_consistent s.rooms h.consistent member flags, h.live⟩
      (setFlags_same s.rooms member flags)
  | channelMode chptr mode =>
    obtain ⟨hkey, rfl⟩ := (guarded_eq_some _ _ _).mp hstep
    exact .rooms _ (setMode_good s h chptr mode (by simpa using hkey)) (modifyChannel_same s.rooms chptr _)
  | join policy p channel =>
    obtain ⟨hp, rfl⟩ := (guarded_eq_some _ _ _).mp hstep
    exact .rooms _ (channelDoJoin_good conf.env policy s.rooms h p channel hp)
      (channelDoJoin_same s.rooms conf.env policy p channel)
  | msJoin source params =>
    rw [← Option.some.inj hstep]
    exact .rooms _ (msJoin_good conf.env s.rooms h source params)
      (msJoin_same s.rooms conf.env source params)
  | msSjoin source params =>
    rw [← Option.some.inj hstep]
    exact .rooms _ (msSjoin_good conf.env s.rooms h source params)
      (msSjoin_same s.rooms conf.env source params)
  | part p channel =>
    rw [← Option.some.inj hstep]
    exact .rooms _ (channelDoPart_good s.rooms h p channel) (channelDoPart_same s.rooms p channel)
  | mKick source name target =>
    rw [← Option.some.inj hstep]
    exact .rooms _ (mKick_good conf.env s.rooms h source name target)
      (mKick_same s.rooms conf.env source name target)
  | msKick name target =>
    rw [← Option.some.inj hstep]
    exact .rooms _ (msKick_good conf.env s.rooms h name target)
      (msKick_same s.rooms conf.env name target)
  | findClient name =>
    rw [← Option.some.inj hstep]
    exact .looked _ (looked_client s name)
  | findId name =>
    rw [← Option.some.inj hstep]
    exact .looked _ (looked_id s name)
  | findServer name =>
    rw [← Option.some.inj hstep]
    exact .looked _ (looked_server s name)
  | freeExited =>
    rw [← Option.some.inj hstep]
    exact .freed
  | _ => simp [quiet] at hquiet

theorem quiet_inv (h : Inv s) (hquiet : Quiet s s') : Inv s' := by
  cases hquiet with
  | node p f hservptr hclients hservers hclosing houtbound =>
    exact modifyNode_inv s h p f (fun _ => hservptr _) (hclients _) (hservers _) (hclosing _)
  | rooms rooms' hgood hsame => exact rooms_inv s _ h hgood hsame
  | extra extra => exact frame_inv s h s.unknownList s.localClientList extra s.sent
  | looked _ hlooked => exact hlooked.inv h
  | freed =>
    exact ⟨⟨h.placed.good, h.placed.rootless, h.placed.listed, h.placed.routed, h.placed.own,
      h.placed.unmarked, List.nodup_nil, by simp⟩, h.links_nodup, h.mem_links, h.opened⟩

theorem quiet_named (hn : Named s) (hquiet : Quiet s s') : Named s' := by
  cases hquiet with
  | node p f hservptr hclients hservers hclosing houtbound => exact node_named s _ hn
  | rooms rooms' hgood hsame => exact rooms_named s _ hn hsame
  | extra extra => exact frame_named s hn s.unknownList s.localClientList extra s.sent
  | looked _ hlooked => exact hlooked.named hn
  | freed => exact ⟨hn.names, hn.ids, hn.named, hn.ided, hn.pending, hn.below⟩

theorem step_inv (h : Inv s) (hstep : step conf s e = some s') : Inv s' := by
  cases e with
  | connect p =>
    obtain ⟨hfresh, rfl⟩ := (guarded_eq_some _ _ _).mp hstep
    exact makeClient_inv s p h none hfresh
  | servConnect p name =>
    obtain ⟨hfresh, rfl⟩ := (guarded_eq_some _ _ _).mp hstep
    exact servConnect_inv s p h hfresh name
  | pass p id =>
    obtain ⟨hguard, rfl⟩ := (guarded_eq_some _ _ _).mp hstep
    rw [Bool.and_eq_true] at hguard
    exact modifyId_inv s h p id
      (unregistered_of_unknown s p (unregistered_iff s p hguard.1).1).1
  | nick | user | server | sid | uid | changeNick =>
    obtain ⟨s₁, hlooked, hhandled⟩ := handled_of_step conf s s' _ rfl hstep
    exact handled_inv conf s₁ s' _ (hlooked.inv h) hhandled
  | exit p comment =>
    obtain ⟨hknown, rfl⟩ := (guarded_eq_some _ _ _).mp hstep
    exact exitClient_inv conf s p comment h hknown
  | _ => exact quiet_inv s s' h (quiet_of_step conf s s' _ h.placed.good rfl hstep)

/-- A step keeps the hashes right, unless a server is renamed in its bucket. -/
theorem step_named (h : Inv s) (hn : Named s) (hclean : clean s e)
    (hstep : step conf s e = some s') : Named s' := by
  cases e with
  | connect p =>
    obtain ⟨hfresh, rfl⟩ := (guarded_eq_some _ _ _).mp hstep
    exact (makeClient_named s p hn none hfresh).1
  | servConnect p name =>
    obtain ⟨hfresh, rfl⟩ := (guarded_eq_some _ _ _).mp hstep
    exact servConnect_named s p hn hfresh name
  | pass p id =>
    obtain ⟨hguard, rfl⟩ := (guarded_eq_some _ _ _).mp hstep
    rw [Bool.and_eq_true] at hguard
    exact modifyId_named s hn p id (hn.pending p (unregistered_iff s p hguard.1).1)
  | nick | user | server | sid | uid | changeNick =>
    obtain ⟨s₁, hlooked, hhandled⟩ := handled_of_step conf s s' _ rfl hstep
    exact handled_named conf s₁ s' _ (hlooked.inv h) (hlooked.named hn)
      (looked_clean s _ s₁ hlooked hn hclean) hhandled
  | exit p comment =>
    obtain ⟨hknown, rfl⟩ := (guarded_eq_some _ _ _).mp hstep
    exact exitClient_named conf s p comment h hknown hn
  | _ => exact quiet_named s s' hn (quiet_of_step conf s s' _ h.placed.good rfl hstep)

end Step

/-- One step, under whatever the configuration is by then. -/
def Step (s s' : Net) : Prop := ∃ conf e, step conf s e = some s'

def CleanStep (s s' : Net) : Prop := ∃ conf e, clean s e ∧ step conf s e = some s'

/-- The states that a server comes to from its start. -/
def Reachable (s : Net) : Prop := ∃ hashfXorKey me meId meName meInfo, meId ≠ [] ∧ meName ≠ [] ∧
  Relation.ReflTransGen Step (start hashfXorKey me meId meName meInfo) s

/-- Those it comes to by clean steps. -/
def CleanReachable (s : Net) : Prop := ∃ hashfXorKey me meId meName meInfo, meId ≠ [] ∧
  meName ≠ [] ∧ Relation.ReflTransGen CleanStep (start hashfXorKey me meId meName meInfo) s

section Run

variable {σ ε : Type*} (allowed : σ → ε → Prop) [∀ s e, Decidable (allowed s e)]
  (next : σ → ε → Option σ)

/-- What a number of events come to, each of which is allowed where it comes. -/
def runAllowed : List ε → σ → Option σ
  | [], s => some s
  | e :: events, s => if allowed s e then (next s e).bind (runAllowed events) else none

theorem runAllowed_steps (r : σ → σ → Prop)
    (hr : ∀ s e s', allowed s e → next s e = some s' → r s s') (events : List ε) (s s' : σ)
    (h : runAllowed allowed next events s = some s') : Relation.ReflTransGen r s s' := by
  induction events generalizing s with
  | nil => rw [← Option.some.inj h]
  | cons e events ih =>
    unfold runAllowed at h
    split at h
    · next hallowed =>
      obtain ⟨t, ht, hrest⟩ := Option.bind_eq_some_iff.mp h
      exact Relation.ReflTransGen.head (hr s e t hallowed ht) (ih t hrest)
    · simp at h

end Run

/-- What a number of events come to. -/
def run (conf : Conf) : List Event → Net → Option Net := runAllowed (fun _ _ => True) (step conf)

instance (s : Net) : (e : Event) → Decidable (clean s e)
  | .server p _ _ _ => inferInstanceAs (Decidable (Off s.clientTable p))
  | .connect .. | .servConnect .. | .pass .. | .capab .. | .nick .. | .user .. | .sid .. | .uid ..
  | .changeNick .. | .profile .. | .channelData .. | .memberMode .. | .channelMode .. | .join ..
  | .msJoin .. | .msSjoin .. | .part .. | .mKick .. | .msKick .. | .findClient .. | .findId ..
  | .findServer .. | .deadLink .. | .eob .. | .kill .. | .squit .. | .exit .. | .freeExited =>
    isTrue trivial

/-- As `run`, by clean steps alone. -/
def runClean (conf : Conf) : List Event → Net → Option Net := runAllowed clean (step conf)

theorem run_steps (conf : Conf) : ∀ events s s', run conf events s = some s' →
    Relation.ReflTransGen Step s s' :=
  runAllowed_steps _ _ _ fun _ e _ _ hstep => ⟨conf, e, hstep⟩

theorem runClean_steps (conf : Conf) : ∀ events s s', runClean conf events s = some s' →
    Relation.ReflTransGen CleanStep s s' :=
  runAllowed_steps _ _ _ fun _ e _ hclean hstep => ⟨conf, e, hclean, hstep⟩

section Start

variable (hashfXorKey : BitVec 32) (me : ClientPtr) (meId meName meInfo : CStr)

theorem start_inv : Inv (start hashfXorKey me meId meName meInfo) := by
  generalize hs : start hashfXorKey me meId meName meInfo = s
  have hfields : s.rooms = MemberLists.start hashfXorKey ∧ s.node = (fun _ => blankNode me) ∧
      s.me = me ∧ s.globalClientList = [] ∧ s.globalServerList = [me] ∧ s.localServerList = [] ∧
      s.deadList = [] ∧ s.bursted = fun _ => false := by
    rw [← hs]
    exact ⟨rfl, rfl, rfl, rfl, rfl, rfl, rfl, rfl⟩
  obtain ⟨hrooms, hnode, hme, hgcl, hgsl, hlinks, hdead, hbursted⟩ := hfields
  have hnobody : ∀ p, s.rooms.clients p = none := by
    intro p
    rw [hrooms]
    rfl
  have hclient : clientParent s = fun _ => none := by
    funext p
    unfold clientParent
    rw [(unregistered_of_none s p (hnobody p)).1]
    rfl
  have hserver : serverParent s = fun _ => none := by
    funext p
    unfold serverParent
    rw [(unregistered_of_none s p (hnobody p)).2.1]
    rfl
  have hmy : ∀ p, ServerTree.myConnect s p = false := by
    intro p
    unfold ServerTree.myConnect MemberLists.myConnect
    rw [hnobody p]
  refine ⟨⟨?_, hnobody _, ⟨?_, ?_, ?_, ?_, ?_, ?_, ?_, ?_, ?_, ?_⟩, ?_, fun p hp => ?_, ?_, ?_, ?_⟩, ?_,
    ?_, fun p hp => ?_⟩
  · rw [hrooms]
    exact start_good hashfXorKey
  · rw [hclient, hnode]
    intro k
    exact ⟨List.nodup_nil, by simp [blankNode]⟩
  · rw [hserver, hnode]
    intro k
    exact ⟨List.nodup_nil, by simp [blankNode]⟩
  · intro p hp
    rw [hserver]
  · rw [hclient, hserver]
    exact ⟨rfl, rfl⟩
  · rw [hclient, hserver]
    simp
  · rw [hgcl]
    exact List.nodup_nil
  · rw [hgcl, hclient, hserver]
    simp
  · rw [hgsl]
    exact List.nodup_singleton me
  · rw [hgsl, hme, hserver]
    simp
  · rw [hserver]
    simp
  · rw [hclient, hserver]
    simp
  · rw [hmy p] at hp
    simp at hp
  · rw [hbursted]
    exact fun _ => rfl
  · rw [hdead]
    exact List.nodup_nil
  · rw [hdead]
    simp
  · rw [hlinks]
    exact List.nodup_nil
  · rw [hlinks, hserver]
    simp
  · rw [(unregistered_of_none s p (hnobody p)).2.2] at hp
    simp at hp

theorem start_named (hid : meId ≠ []) (hname : meName ≠ []) :
    Named (start hashfXorKey me meId meName meInfo) := by
  -- the server itself is in both hashes
  have hempty : ∀ hash, Table (HashChains.empty : Chains ℕ ℕ) hash (me + 1) :=
    fun hash => table_empty hash (me + 1)
  have hoff : ∀ p, Off (HashChains.empty : Chains ℕ ℕ) p := fun _ => rfl
  generalize hs : start hashfXorKey me meId meName meInfo = s
  have hfields : s.me = me ∧ s.meId = meId ∧ s.meName = meName ∧ s.top = me + 1 ∧
      (∀ p, s.rooms.clients p = none) ∧
      s.clientTable = (HashChains.empty : Chains ℕ ℕ).add (nameHash s me) me ∧
      s.idTable = (HashChains.empty : Chains ℕ ℕ).add (idHash s me) me := by
    rw [← hs]
    exact ⟨rfl, rfl, rfl, rfl, fun _ => rfl, rfl, rfl⟩
  obtain ⟨hme, hmeId, hmeName, htop, hnobody, hct, hit⟩ := hfields
  have hadd := table_add _ (nameHash s) (me + 1) (hempty _) me (hoff me) (Nat.lt_succ_self me)
  have hadd' := table_add _ (idHash s) (me + 1) (hempty _) me (hoff me) (Nat.lt_succ_self me)
  have hnameOf : nameOf s me = meName := by
    unfold nameOf
    rw [if_pos hme.symm, hmeName]
  have hidOf : idOf s me = meId := by
    unfold idOf
    rw [if_pos hme.symm, hmeId]
  refine ⟨?_, ?_, fun p hp => ?_, fun p hp => ?_, fun p hp => ?_, fun p hp => ?_⟩
  · rw [hct, htop]
    exact hadd.1
  · rw [hit, htop]
    exact hadd'.1
  · have hpm : p = me := by
      by_contra hne
      rw [hct] at hp
      exact hp ((hadd.2 p).mpr ⟨hne, hoff p⟩)
    rw [hpm, hnameOf, hme]
    exact ⟨Or.inl rfl, hname⟩
  · have hpm : p = me := by
      by_contra hne
      rw [hit] at hp
      exact hp ((hadd'.2 p).mpr ⟨hne, hoff p⟩)
    rw [hpm, hidOf, hme]
    exact ⟨Or.inl rfl, hid⟩
  · unfold isUnknown at hp
    rw [hnobody p] at hp
    simp at hp
  · rw [htop]
    rcases hp with rfl | hp
    · rw [hme]
      exact Nat.lt_succ_self me
    · rw [(unregistered_of_none s p (hnobody p)).2.2] at hp
      simp at hp

end Start

theorem reachable_inv (s : Net) (h : Reachable s) : Inv s := by
  obtain ⟨hashfXorKey, me, meId, meName, meInfo, -, -, hrun⟩ := h
  induction hrun with
  | refl => exact start_inv hashfXorKey me meId meName meInfo
  | tail _ hstep ih =>
    obtain ⟨conf, e, hstep⟩ := hstep
    exact step_inv conf _ _ e ih hstep

theorem clean_named (s : Net) (h : CleanReachable s) : Inv s ∧ Named s := by
  obtain ⟨hashfXorKey, me, meId, meName, meInfo, hid, hname, hrun⟩ := h
  induction hrun with
  | refl => exact ⟨start_inv _ _ _ _ _, start_named hashfXorKey me meId meName meInfo hid hname⟩
  | tail _ hstep ih =>
    obtain ⟨conf, e, hclean, hstep⟩ := hstep
    exact ⟨step_inv conf _ _ e ih.1 hstep, step_named conf _ _ e ih.1 ih.2 hclean hstep⟩

end IrcdHybrid.ServerRuns
