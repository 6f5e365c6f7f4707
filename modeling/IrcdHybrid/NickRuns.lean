import IrcdHybrid.UniqueNames

/-!
Runs of a server in which nicks are taken, changed and collided. The identifier of a UID is looked
for as it came, but is kept cut; and a UID may give the server's own. Apart from these, and from a
connection that takes a nick before it says it is a server, a nick and an identifier lead to one
client in every state that a run comes to.
-/

namespace IrcdHybrid.NickRuns

open CString Index HashChains NameTables RoomHeads MemberLists MemberRuns ServerTree ServerBurst
open ServerEvents ServerInvariant ServerComing Exits ClientExit ServerSteps ServerRuns NickHandlers
open UniqueKeys ClientFaces UniqueNames Function
open Uid (validSid)

section Other

variable (conf : ServerTree.Conf) (s : Net) (p : ClientPtr) (h : Right s)

/-- Somebody who is in no hash, and has a name only if the server gave it one. -/
theorem orderly_waiting (h : Orderly s.me (faceOf s)) (hme : p ≠ s.me) (f : Face)
    (hstatus : f.status = some .unknown) (hin : f.inNames = false ∧ f.inIds = false)
    (hname : f.outbound = true ∨ f.name = []) : Orderly s.me (update (faceOf s) p f) := by
  refine orderly_take s.me _ h p f ⟨fun hr => ?_, fun _ hout hne => ?_, fun hd => ?_⟩
    (fun hd => ?_) fun hd => ?_
  · rw [hstatus] at hr
    simp [hme] at hr
  · rcases hname with hname | hname
    · rw [hout] at hname
      simp at hname
    · exact absurd hname hne
  · rw [hin.1] at hd
    simp at hd
  · rw [hin.1] at hd
    simp at hd
  · rw [hin.2] at hd
    simp at hd

theorem orderly_server (h : Orderly s.me (faceOf s)) (f : Face) (hstatus : f.status = some .server)
    (hin : f.inNames = true ∧ f.inIds = true) (hdot : '.' ∈ f.name) (hfree : FreeId s f.id p) :
    Orderly s.me (update (faceOf s) p f) := by
  refine orderly_take s.me _ h p f ⟨fun _ => hin, fun _ _ _ => hin.1, fun _ => ?_⟩
    (fun _ _ hnot => absurd hstatus hnot) fun _ q hq => hfree q hq
  exact iff_of_true hdot (Or.inr hstatus)

theorem servname_spec (name : CStr) (h : validServname name = true) :
    '.' ∈ name ∧ strlcpy name (BanMask.HOSTLEN + 1) = name := by
  unfold validServname at h
  rw [Bool.and_eq_true, Bool.and_eq_true, decide_eq_true_iff, decide_eq_true_iff] at h
  exact ⟨h.1.2, strlcpy_of_le _ _ h.2⟩

theorem sid_spec (id : CStr) (h : validSid id = true) :
    strlcpy id (Channels.IDLEN + 1) = id := by
  unfold validSid at h
  split at h
  · exact strlcpy_of_le _ _ (by simp [Channels.IDLEN])
  · simp at h

include h

theorem pass_orderly (hp : unregistered s p = true) (id : CStr) :
    Orderly (modifyId s p id).me (faceOf (modifyId s p id)) := by
  obtain ⟨hunknown, -⟩ := unregistered_iff s p hp
  have hknown := known_of_isUnknown s p hunknown
  have hstatus := (status_unknown s p).mpr hunknown
  have hin : (faceOf s p).inIds = false :=
    (hashed_eq_false _ p).mpr (h.named.pending p hunknown)
  have hsound := h.orderly.sound p
  have hme : (modifyId s p id).me = s.me := rfl
  rw [hme, faceOf_modifyId s p hknown (unknown_ne_me s p h.inv hknown) id]
  refine orderly_take s.me _ h.orderly p _ ⟨fun hr => ?_, hsound.waiting, hsound.dotted⟩
    (fun hnames hne hserver q hq hkey => ?_) fun hd => ?_
  · exact hsound.registered hr
  · exact hq (h.orderly.nicks q p _ hkey ((nickKey_eq_some _ _ _ _).mpr ⟨hnames, hne, hserver, rfl⟩))
  · rw [show (faceOf s p).inIds = true from hd] at hin
    simp at hin

theorem user_orderly (hp : unregistered s p = true) (hin : hashed s.clientTable p = true)
    (id : CStr) (hid : id ≠ []) (hlen : id.length ≤ Channels.IDLEN) (hfree : FreeId s id p)
    (profile : Profile) : Orderly (registerLocalUser s p id profile).me
      (faceOf (registerLocalUser s p id profile)) := by
  obtain ⟨hunknown, -⟩ := unregistered_iff s p hp
  have hne := unknown_ne_me s p h.inv (known_of_isUnknown s p hunknown)
  have hstatus := (status_unknown s p).mpr hunknown
  have hme : (registerLocalUser s p id profile).me = s.me := rfl
  rw [hme, faceOf_registerLocalUser s p h.inv h.named hp id hid profile]
  refine orderly_take s.me _ h.orderly p _
    ⟨fun _ => ⟨hin, rfl⟩, fun _ _ _ => hin, fun _ => ?_⟩
    (fun _ _ _ q hq hkey => ?_) fun _ q hq => ?_
  · have hdot := (h.orderly.sound p).dotted hin
    rw [hstatus] at hdot
    refine hdot.trans (iff_of_false ?_ ?_)
    · simp [hne]
    · simp [registeredFace, hne]
  · refine hq (h.orderly.nicks q p _ hkey ((nickKey_eq_some _ _ _ _).mpr ⟨hin, hne, ?_, rfl⟩))
    rw [hstatus]
    simp
  · show _ ≠ some (strlcpy id _)
    rw [strlcpy_of_le id _ hlen]
    exact hfree q hq

end Other

section Step

variable (conf : ServerTree.Conf) (s s' : Net) (e : ServerEvents.Event)

theorem orderly_rooms (h : Orderly s.me (faceOf s)) (rooms' : MemberLists.State)
    (hsame : SameHeads s.rooms rooms') :
    Orderly (onRooms s rooms').me (faceOf (onRooms s rooms')) :=
  orderly_same s (onRooms s rooms') h ⟨rfl, faceOf_rooms s rooms' hsame⟩

theorem orderly_node (h : Orderly s.me (faceOf s)) (p : ClientPtr) (f : Node → Node)
    (hf : (f (s.node p)).outbound = (s.node p).outbound) :
    Orderly (modifyNode s p f).me (faceOf (modifyNode s p f)) :=
  orderly_same s (modifyNode s p f) h ⟨rfl, faceOf_node s p f hf⟩

theorem server_orderly (h : Right s) (p : ClientPtr) (name : CStr) (hopcount : ℕ) (info : CStr)
    (hclean : Off s.clientTable p)
    (hstep : ServerEvents.step conf s (.server p name hopcount info) = some s') :
    Orderly s'.me (faceOf s') := by
  have hstep : guarded (unregistered (hashFindServer s name).2 p && validServname name &&
      validSid (idOf (hashFindServer s name).2 p) &&
      decide (info ≠ [] ∧ (hashFindServer s name).1 = none ∧
        (hashFindId (hashFindServer s name).2 (idOf (hashFindServer s name).2 p)).1 = none))
      (mrServer conf (hashFindId (hashFindServer s name).2 (idOf (hashFindServer s name).2 p)).2 p name
        hopcount info) = some s' := hstep
  obtain ⟨hguard, rfl⟩ := (guarded_eq_some _ _ _).mp hstep
  rw [Bool.and_eq_true, Bool.and_eq_true, Bool.and_eq_true, decide_eq_true_iff] at hguard
  obtain ⟨⟨⟨hp, hname⟩, hsid⟩, -, -, hfound⟩ := hguard
  have h₁ := looked_right s _ (looked_server s name) h
  have hsame₁ := looked_same s _ (looked_server s name) h.named
  have hoff₁ := ((looked_server s name).off h.named p).1.mpr hclean
  generalize (hashFindServer s name).2 = s₁ at *
  have h₂ := looked_right s₁ _ (looked_id s₁ (idOf s₁ p)) h₁
  have hsame₂ := looked_same s₁ _ (looked_id s₁ (idOf s₁ p)) h₁.named
  have hid : idOf (hashFindId s₁ (idOf s₁ p)).2 p = idOf s₁ p := rfl
  have hfree := freeId_same s₁ _ hsame₂ _ p (found_no_id s₁ _ h₁.named hfound p)
  have hoff₂ : Off (hashFindId s₁ (idOf s₁ p)).2.clientTable p := hoff₁
  have hp₂ : unregistered (hashFindId s₁ (idOf s₁ p)).2 p = true := hp
  generalize (hashFindId s₁ (idOf s₁ p)).2 = s₂ at *
  rw [← hid] at hfree hsid
  obtain ⟨hdot, hfits⟩ := servname_spec name hname
  rcases mrServer_faces conf s₂ p h₂.inv hp₂ h₂.named hoff₂ name (validServname_ne_nil name hname)
    (validSid_ne_nil _ hsid) hopcount info with ⟨hme, hface⟩ | hlost
  · rw [hme, hface]
    refine orderly_server s₂ p h₂.orderly _ rfl ⟨rfl, rfl⟩ ?_ hfree
    show '.' ∈ strlcpy name _
    rw [hfits]
    exact hdot
  · exact orderly_lost s₂ _ [p] hlost h₂.orderly

theorem sid_orderly (h : Right s) (source p : ClientPtr) (name : CStr) (hopcount : ℕ)
    (id info : CStr)
    (hstep : ServerEvents.step conf s (.sid source p name hopcount id info) = some s') :
    Orderly s'.me (faceOf s') := by
  have hstep : guarded (isServer (hashFindServer (hashFindId s id).2 name).2 source &&
      fresh (hashFindServer (hashFindId s id).2 name).2 p && validServname name && validSid id &&
      decide (info ≠ [] ∧ (hashFindId s id).1 = none ∧
        (hashFindServer (hashFindId s id).2 name).1 = none))
      (msSid (hashFindServer (hashFindId s id).2 name).2 source p name hopcount id info) = some s' := by
    exact hstep
  obtain ⟨hguard, rfl⟩ := (guarded_eq_some _ _ _).mp hstep
  rw [Bool.and_eq_true, Bool.and_eq_true, Bool.and_eq_true, Bool.and_eq_true, decide_eq_true_iff]
    at hguard
  obtain ⟨⟨⟨⟨hsource, hfresh⟩, hname⟩, hsid⟩, -, hfound, -⟩ := hguard
  have h₁ := looked_right s _ (looked_id s id) h
  have hsame₁ := looked_same s _ (looked_id s id) h.named
  have hfree₁ := freeId_same s _ hsame₁ id p (found_no_id s id h.named hfound p)
  generalize (hashFindId s id).2 = s₁ at *
  have h₂ := looked_right s₁ _ (looked_server s₁ name) h₁
  have hfree := freeId_same s₁ _ (looked_same s₁ _ (looked_server s₁ name) h₁.named) id p hfree₁
  generalize (hashFindServer s₁ name).2 = s₂ at *
  obtain ⟨hdot, hfits⟩ := servname_spec name hname
  have hme : (msSid s₂ source p name hopcount id info).me = s₂.me := rfl
  rw [hme, faceOf_msSid s₂ p source name id h₂.inv h₂.named hsource hfresh
    (validServname_ne_nil name hname) (validSid_ne_nil id hsid) hopcount info]
  refine orderly_server s₂ p h₂.orderly _ rfl ⟨rfl, rfl⟩ ?_ ?_
  · show '.' ∈ strlcpy name _
    rw [hfits]
    exact hdot
  · show FreeId s₂ (strlcpy id _) p
    rw [sid_spec id hsid]
    exact hfree

theorem orderly_quiet (h : Right s) (hquiet : Quiet s s') : Orderly s'.me (faceOf s') := by
  have ho := h.orderly
  cases hquiet with
  | node p f hservptr hclients hservers hclosing houtbound => exact orderly_node s ho p f (houtbound _)
  | rooms rooms' hgood hsame => exact orderly_rooms s ho rooms' hsame
  | looked _ hlooked => exact (looked_right s s' hlooked h).orderly
  | extra | freed =>
    exact orderly_same s _ ho ⟨rfl, faceOf_same s _ rfl rfl ⟨rfl, rfl⟩ (fun _ => rfl) ⟨rfl, rfl⟩⟩

theorem other_orderly (h : Right s) (hclean : clean s e) (hhandled : handled e = false)
    (hstep : ServerEvents.step conf s e = some s') : Orderly s'.me (faceOf s') := by
  have ho := h.orderly
  cases e with
  | connect p =>
    obtain ⟨hfresh, rfl⟩ := (guarded_eq_some _ _ _).mp hstep
    obtain ⟨-, hne, -⟩ := (fresh_iff s p).mp hfresh
    obtain ⟨-, -, hme, -⟩ := makeClient_fields s p none _ rfl
    rw [hme, faceOf_makeClient s p h.named none hfresh]
    exact orderly_waiting s p ho hne _ rfl ⟨rfl, rfl⟩ (Or.inr rfl)
  | servConnect p name =>
    obtain ⟨hfresh, rfl⟩ := (guarded_eq_some _ _ _).mp hstep
    obtain ⟨-, hne, -⟩ := (fresh_iff s p).mp hfresh
    have hme : (servConnect s p name).me = s.me := rfl
    rw [hme, faceOf_servConnect s p h.named hfresh name]
    exact orderly_waiting s p ho hne _ rfl ⟨rfl, rfl⟩ (Or.inl rfl)
  | pass p id =>
    obtain ⟨hguard, rfl⟩ := (guarded_eq_some _ _ _).mp hstep
    rw [Bool.and_eq_true] at hguard
    exact pass_orderly s p h hguard.1 id
  | nick | uid | changeNick => simp [handled] at hhandled
  | user p id profile =>
    have hstep : guarded (unregistered (hashFindId s id).2 p &&
        hashed (hashFindId s id).2.clientTable p && decide (id ≠ [] ∧ (hashFindId s id).1 = none))
        (registerLocalUser (hashFindId s id).2 p id profile) = some s' := hstep
    obtain ⟨hguard, rfl⟩ := (guarded_eq_some _ _ _).mp hstep
    rw [Bool.and_eq_true, Bool.and_eq_true, decide_eq_true_iff] at hguard
    obtain ⟨⟨hp, hin⟩, hid, hfound⟩ := hguard
    have hlen : id.length = Uid.TOTALSIDUID := by simpa [handled] using hhandled
    have hfree := freeId_same s _ (looked_same s _ (looked_id s id) h.named) id p (found_no_id s id h.named hfound p)
    refine user_orderly _ p (looked_right s _ (looked_id s id) h) hp hin id hid ?_ hfree profile
    rw [hlen]
    decide
  | server p name hopcount info => exact server_orderly conf s s' h p name hopcount info hclean hstep
  | sid source p name hopcount id info =>
    exact sid_orderly conf s s' h source p name hopcount id info hstep
  | exit p comment =>
    obtain ⟨hknown, rfl⟩ := (guarded_eq_some _ _ _).mp hstep
    obtain ⟨removed, hlost, -, -⟩ := exitClient_lost conf s p comment h.inv h.named hknown
    exact orderly_lost s _ removed hlost ho
  | _ => exact orderly_quiet s s' h (quiet_of_step conf s s' _ h.inv.placed.good rfl hstep)

end Step

/-- An identifier that comes with a user is kept whole and is not the server's own; and a connection
that says it is a server has taken no nick. -/
def proper (s : Net) : NickHandlers.Event → Prop
  | .other e => clean s e
  | .msUid _ _ _ _ id _ => id.length ≤ Channels.IDLEN ∧ id ≠ s.meId
  | _ => True

theorem step_right (conf : NickHandlers.Conf) (s s' : Net) (e : NickHandlers.Event) (h : Right s)
    (hproper : proper s e) (hstep : NickHandlers.step conf s e = some s') : Right s' := by
  cases e with
  | other e =>
    have hother : (if handled e = true then none else ServerEvents.step conf.net s e) = some s' := hstep
    split at hother
    · simp at hother
    · next hhandled =>
      exact ⟨step_inv conf.net s s' e h.inv hother,
        step_named conf.net s s' e h.inv h.named hproper hother,
        other_orderly conf.net s s' e h hproper (by simpa using hhandled) hother⟩
  | mrNick source nick =>
    obtain ⟨hp, rfl⟩ := (guarded_eq_some _ _ _).mp hstep
    exact mrNick_right conf s source h (unregistered_iff s source hp).1 nick
  | mNick source nick record =>
    obtain ⟨hguard, rfl⟩ := (guarded_eq_some _ _ _).mp hstep
    rw [Bool.and_eq_true] at hguard
    exact mNick_right conf s source h hguard.1 nick record
  | msNick source nick ts =>
    obtain ⟨hguard, rfl⟩ := (guarded_eq_some _ _ _).mp hstep
    rw [Bool.and_eq_true] at hguard
    exact msNick_right conf s source h hguard.1 nick ts
  | msUid source p name hopcount id profile =>
    have huid : (if ((isClient s.rooms source && !ServerTree.myConnect s source ||
        isServer s source) && decide (id ≠ [])) = true then
        msUid conf s source p name hopcount id profile else none) = some s' := hstep
    split at huid
    · next hguard =>
      rw [Bool.and_eq_true, decide_eq_true_iff, Bool.or_eq_true, Bool.and_eq_true] at hguard
      have hknown : known s source = true := by
        rcases hguard.1 with hclient | hserver
        · exact known_of_isClient s source hclient.1
        · exact known_of_isServer s source hserver
      exact msUid_right conf s source p h name id hguard.2 hproper.1 hopcount profile hknown hproper.2
        s' huid
    · simp at huid
  | msSvsnick service name nick ts =>
    rw [← Option.some.inj hstep]
    exact msSvsnick_right conf s h service name nick ts

theorem start_right (hashfXorKey : BitVec 32) (me : ClientPtr) (meId meName meInfo : CStr)
    (hid : validSid meId = true) (hname : validServname meName = true) :
    Right (start hashfXorKey me meId meName meInfo) := by
  have hinv := start_inv hashfXorKey me meId meName meInfo
  have hnamed := start_named hashfXorKey me meId meName meInfo (validSid_ne_nil meId hid)
    (validServname_ne_nil meName hname)
  have hnobody : ∀ p, (start hashfXorKey me meId meName meInfo).rooms.clients p = none := fun _ => rfl
  have hme : (start hashfXorKey me meId meName meInfo).me = me := rfl
  have hmeName : (start hashfXorKey me meId meName meInfo).meName = meName := rfl
  have hempty : ∀ hash, Table (HashChains.empty : Chains ℕ ℕ) hash (me + 1) :=
    fun hash => table_empty hash (me + 1)
  have htables : ∃ k k', (start hashfXorKey me meId meName meInfo).clientTable =
      (HashChains.empty : Chains ℕ ℕ).add k me ∧
      (start hashfXorKey me meId meName meInfo).idTable =
        (HashChains.empty : Chains ℕ ℕ).add k' me := ⟨_, _, rfl, rfl⟩
  obtain ⟨k, k', hct, hit⟩ := htables
  have hoff := (table_add _ (fun _ => k) (me + 1) (hempty _) me rfl (Nat.lt_succ_self me)).2
  have hoff' := (table_add _ (fun _ => k') (me + 1) (hempty _) me rfl (Nat.lt_succ_self me)).2
  generalize start hashfXorKey me meId meName meInfo = s at *
  have hstatus : ∀ p, (faceOf s p).status = none := fun p => by
    unfold faceOf
    rw [hnobody p]
    rfl
  have hnames : ∀ p, (faceOf s p).inNames = true ↔ p = me := by
    intro p
    rw [inNames_iff, hct, hoff p]
    have hself : Off (HashChains.empty : Chains ℕ ℕ) p := rfl
    simp [hself]
  have hids : ∀ p, (faceOf s p).inIds = true ↔ p = me := by
    intro p
    rw [inIds_iff, hit, hoff' p]
    have hself : Off (HashChains.empty : Chains ℕ ℕ) p := rfl
    simp [hself]
  refine ⟨hinv, hnamed, fun p => ⟨fun hr => ?_, fun hw => ?_, fun hd => ?_⟩, fun p q k hp => ?_,
    fun p q k hp hq => ?_⟩
  · rw [hstatus, hme] at hr
    rw [hnames, hids]
    simpa using hr
  · rw [hstatus] at hw
    simp at hw
  · have hp := (hnames p).mp hd
    refine iff_of_true ?_ (Or.inl (hp.trans hme.symm))
    show '.' ∈ nameOf s p
    unfold nameOf
    rw [if_pos (hp.trans hme.symm), hmeName]
    exact (servname_spec meName hname).1
  · obtain ⟨hin, hne, -⟩ := (nickKey_eq_some _ _ _ _).mp hp
    rw [hme] at hne
    exact absurd ((hnames p).mp hin) hne
  · have hp := (hids p).mp ((idKey_eq_some _ _ _).mp hp).1
    have hq := (hids q).mp ((idKey_eq_some _ _ _).mp hq).1
    rw [hp, hq]

/-- One step, under whatever the configuration is by then. -/
def NickStep (s s' : Net) : Prop := ∃ conf e, NickHandlers.step conf s e = some s'

def ProperStep (s s' : Net) : Prop :=
  ∃ conf e, proper s e ∧ NickHandlers.step conf s e = some s'

/-- The states that a server comes to from its start by such steps. -/
def From (steps : Net → Net → Prop) (s : Net) : Prop :=
  ∃ hashfXorKey me meId meName meInfo, validSid meId = true ∧ validServname meName = true ∧
    Relation.ReflTransGen steps (start hashfXorKey me meId meName meInfo) s

theorem from_right (s : Net) (h : From ProperStep s) : Right s := by
  obtain ⟨hashfXorKey, me, meId, meName, meInfo, hid, hname, hrun⟩ := h
  induction hrun with
  | refl => exact start_right hashfXorKey me meId meName meInfo hid hname
  | tail _ hstep ih =>
    obtain ⟨conf, e, hproper, hstep⟩ := hstep
    exact step_right conf _ _ e ih hproper hstep

def InNames (s : Net) (p : ClientPtr) : Prop := ∃ k, OnChain s.clientTable.next (s.clientTable.head k) p

def InIds (s : Net) (p : ClientPtr) : Prop := ∃ k, OnChain s.idTable.next (s.idTable.head k) p

/-- What the hashes say: the name of a server is no nick. -/
structure OneClient (s : Net) : Prop where
  nicks : ∀ p q, InNames s p → InNames s q → p ≠ s.me → isServer s p = false →
    irccmp (nameOf s p) (nameOf s q) = 0 → p = q
  uids : ∀ p q, InIds s p → InIds s q → idOf s p = idOf s q → p = q
  named : ∀ p, isClient s.rooms p = true ∨ statUnknown s p = true ∧ nameOf s p ≠ [] → InNames s p
  identified : ∀ p, isClient s.rooms p = true ∨ isServer s p = true → InIds s p
  findClient : ∀ p, InNames s p → p ≠ s.me → isServer s p = false →
    ∀ name, (hashFindClient s name).1 = some p ↔ irccmp name (nameOf s p) = 0
  findId : ∀ p, InIds s p → ∀ id, (hashFindId s id).1 = some p ↔ id = idOf s p

section Right

variable (s : Net) (h : Right s) (p : ClientPtr)

include h

theorem mem_names : InNames s p ↔ (faceOf s p).inNames = true := by
  rw [inNames_iff]
  constructor
  · rintro ⟨k, hon⟩
    exact (table_onChain _ _ _ h.named.names k p hon).1
  · intro hon
    obtain ⟨l, hspells, -, hmem⟩ := table_chain _ _ _ h.named.names (nameHash s p)
    exact ⟨nameHash s p, (onChain_iff _ _ _ hspells p).mpr ((hmem p).mpr ⟨hon, rfl⟩)⟩

theorem mem_ids : InIds s p ↔ (faceOf s p).inIds = true := by
  rw [inIds_iff]
  constructor
  · rintro ⟨k, hon⟩
    exact (table_onChain _ _ _ h.named.ids k p hon).1
  · intro hon
    obtain ⟨l, hspells, -, hmem⟩ := table_chain _ _ _ h.named.ids (idHash s p)
    exact ⟨idHash s p, (onChain_iff _ _ _ hspells p).mpr ((hmem p).mpr ⟨hon, rfl⟩)⟩

/-- Whoever has the nick of a client, server or not, is that client. -/
theorem nick_unique (q : ClientPtr) (hp : InNames s p) (hq : InNames s q) (hme : p ≠ s.me)
    (hserver : isServer s p = false) (hname : irccmp (nameOf s p) (nameOf s q) = 0) : p = q := by
  have hin := (mem_names s h p).mp hp
  have hin' := (mem_names s h q).mp hq
  have hstatus : (faceOf s p).status ≠ some .server := by
    rw [ne_eq, status_server, hserver]
    simp
  have hdot := (h.orderly.sound p).dotted hin
  have hdot' := (h.orderly.sound q).dotted hin'
  have hnot : ¬ (q = s.me ∨ (faceOf s q).status = some .server) := by
    rw [← hdot']
    show '.' ∉ nameOf s q
    rw [← dot_mem_congr _ _ hname]
    exact fun hp => (not_or.mpr ⟨hme, hstatus⟩) (hdot.mp hp)
  obtain ⟨hne, hstatus'⟩ := not_or.mp hnot
  refine h.orderly.nicks p q ((nameOf s p).map toUpper) ?_ ?_
  · exact (nickKey_eq_some _ _ _ _).mpr ⟨hin, hme, hstatus, rfl⟩
  · exact (nickKey_eq_some _ _ _ _).mpr
      ⟨hin', hne, hstatus', ((irccmp_eq_zero_iff _ _).mp hname).symm⟩

theorem uid_unique (q : ClientPtr) (hp : InIds s p) (hq : InIds s q)
    (hid : idOf s p = idOf s q) : p = q := by
  refine h.orderly.ids p q (idOf s p) ?_ ?_
  · exact (idKey_eq_some _ _ _).mpr ⟨(mem_ids s h p).mp hp, rfl⟩
  · exact (idKey_eq_some _ _ _).mpr ⟨(mem_ids s h q).mp hq, hid.symm⟩

theorem findId_exact (hp : InIds s p) (id : CStr) :
    (hashFindId s id).1 = some p ↔ id = idOf s p := by
  obtain ⟨hsome, hnone⟩ := findId_spec s id h.named
  have hsearch : Search (idKey (faceOf s)) id (hashFindId s id).1 := by
    refine ⟨fun q hq => ?_, fun hfound q hkey => ?_⟩
    · obtain ⟨hon, hid⟩ := hsome q hq
      exact (idKey_eq_some _ _ _).mpr ⟨(inIds_iff s q).mpr hon, hid.symm⟩
    · obtain ⟨hin, hid⟩ := (idKey_eq_some _ _ _).mp hkey
      exact hnone hfound q ((inIds_iff s q).mp hin) hid.symm
  rw [search_iff _ h.orderly.ids id _ hsearch p, idKey_eq_some]
  exact (and_iff_right ((mem_ids s h p).mp hp)).trans eq_comm

theorem findClient_exact (hp : InNames s p) (hme : p ≠ s.me) (hserver : isServer s p = false)
    (name : CStr) : (hashFindClient s name).1 = some p ↔ irccmp name (nameOf s p) = 0 := by
  obtain ⟨hsome, hnone⟩ := findClient_spec s name h.named
  refine ⟨fun hfound => (hsome p hfound).2, fun hname => ?_⟩
  have hon := (inNames_iff s p).mp ((mem_names s h p).mp hp)
  cases hfound : (hashFindClient s name).1 with
  | none => exact absurd hname (hnone hfound p hon)
  | some q =>
    obtain ⟨hon', hname'⟩ := hsome q hfound
    have hsame := irccmp_trans_zero _ _ _ ((irccmp_comm_zero _ _).mp hname) hname'
    rw [nick_unique s h p q hp ((mem_names s h q).mpr ((inNames_iff s q).mpr hon')) hme hserver hsame]

end Right

/-- As long as every step is proper, a nick and an identifier lead to one client. -/
theorem nicks_and_uids_unique (s : Net) (h : From ProperStep s) : OneClient s := by
  have hr := from_right s h
  refine ⟨nick_unique s hr, uid_unique s hr, fun p hp => ?_, fun p hp => ?_, findClient_exact s hr,
    findId_exact s hr⟩
  · rw [mem_names s hr]
    have hsound := hr.orderly.sound p
    rcases hp with hclient | ⟨hunknown, hname⟩
    · exact (hsound.registered (Or.inr (Or.inl ((status_client s p).mpr hclient)))).1
    · unfold statUnknown at hunknown
      rw [Bool.and_eq_true, Bool.not_eq_true'] at hunknown
      exact hsound.waiting ((status_unknown s p).mpr hunknown.1) hunknown.2 hname
  · rw [mem_ids s hr]
    refine ((hr.orderly.sound p).registered (Or.inr ?_)).2
    exact hp.imp (status_client s p).mpr (status_server s p).mpr

/-- What a number of events come to. -/
def runNicks (conf : NickHandlers.Conf) : List NickHandlers.Event → Net → Option Net :=
  runAllowed (fun _ _ => True) (NickHandlers.step conf)

theorem runNicks_steps (conf : NickHandlers.Conf) : ∀ events s s',
    runNicks conf events s = some s' → Relation.ReflTransGen NickStep s s' :=
  runAllowed_steps _ _ _ fun _ e _ _ hstep => ⟨conf, e, hstep⟩

instance properDecidable (s : Net) : (e : NickHandlers.Event) → Decidable (proper s e)
  | .other e => inferInstanceAs (Decidable (clean s e))
  | .msUid _ _ _ _ id _ => inferInstanceAs (Decidable (id.length ≤ Channels.IDLEN ∧ id ≠ s.meId))
  | .mrNick .. | .mNick .. | .msNick .. | .msSvsnick .. => isTrue trivial

/-- As `runNicks`, by proper steps alone. -/
def runProper (conf : NickHandlers.Conf) : List NickHandlers.Event → Net → Option Net :=
  runAllowed proper (NickHandlers.step conf)

theorem runProper_steps (conf : NickHandlers.Conf) : ∀ events s s',
    runProper conf events s = some s' → Relation.ReflTransGen ProperStep s s' :=
  runAllowed_steps _ _ _ fun _ e _ hproper hstep => ⟨conf, e, hproper, hstep⟩

def nickConf : NickHandlers.Conf where
  net := ⟨⟨7, false, 0, fun _ => none, fun _ => none⟩, false, true, "pw".toList, false⟩
  maxNickLength := 9
  resv := fun _ => false

def alone : Net := start 0 0 "0AA".toList "me.net".toList "me".toList

def userProfile (username : CStr) (tsinfo : ℤ) : Profile :=
  { blankProfile username with tsinfo := tsinfo, host := "h.net".toList }

/-- A server links; bob comes, a younger bob is introduced behind the link, and then an older. -/
def collideEvents : List NickHandlers.Event :=
  [.other (.connect 1), .other (.pass 1 "0AB".toList),
    .other (.server 1 "hub.net".toList 1 "hub".toList),
    .other (.connect 2), .mrNick 2 "bob".toList,
    .other (.user 2 "0AAAAAAAA".toList (userProfile "bob".toList 5)),
    .msUid 1 3 "BOB".toList 1 "0ABAAAAAA".toList (userProfile "rob".toList 6),
    .msUid 1 4 "Bob".toList 1 "0ABAAAAAB".toList (userProfile "rob".toList 4)]

theorem nicks_and_uids_unique_bob : ∃ s, s.globalClientList = [4, 1] ∧
    (hashFindClient s "bob".toList).1 = some 4 ∧ OneClient s := by
  have hrun : (runProper nickConf collideEvents alone).map (fun s =>
      (s.globalClientList, (hashFindClient s "bob".toList).1)) = some ([4, 1], some 4) := by
    decide +kernel
  obtain ⟨s, hs, hview⟩ := Option.map_eq_some_iff.mp hrun
  obtain ⟨hlist, hfound⟩ := Prod.mk.inj hview
  have hreach : From ProperStep s := ⟨0, 0, "0AA".toList, "me.net".toList, "me".toList, by decide,
    by decide, runProper_steps nickConf collideEvents alone s hs⟩
  exact ⟨s, hlist, hfound, nicks_and_uids_unique s hreach⟩

/-- Two users whose identifiers are the same in the letters that are kept. -/
def cutEvents : List NickHandlers.Event :=
  [.other (.connect 1), .other (.pass 1 "0AB".toList),
    .other (.server 1 "hub.net".toList 1 "hub".toList),
    .msUid 1 2 "bob".toList 1 "0ABAAAAAAAAAA".toList (userProfile "bob".toList 5),
    .msUid 1 3 "ann".toList 1 "0ABAAAAAAAAAB".toList (userProfile "ann".toList 5)]

/-- Both are clients, with one identifier. -/
theorem cut_uids_collide : ¬ ∀ s, From NickStep s → OneClient s := by
  intro hall
  have hrun : (runNicks nickConf cutEvents alone).map (fun s =>
      (isClient s.rooms 2, isClient s.rooms 3, decide (idOf s 2 = idOf s 3))) =
      some (true, true, true) := by
    decide +kernel
  obtain ⟨s, hs, hview⟩ := Option.map_eq_some_iff.mp hrun
  simp only [Prod.mk.injEq, decide_eq_true_iff] at hview
  obtain ⟨hbob, hann, hid⟩ := hview
  have hreach : From NickStep s := ⟨0, 0, "0AA".toList, "me.net".toList, "me".toList, by decide,
    by decide, runNicks_steps nickConf cutEvents alone s hs⟩
  have hone := hall s hreach
  have hsame := hone.uids 2 3 (hone.identified 2 (Or.inl hbob)) (hone.identified 3 (Or.inl hann)) hid
  simp at hsame

end IrcdHybrid.NickRuns
