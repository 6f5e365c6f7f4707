import IrcdHybrid.NickHandlers
import IrcdHybrid.UniqueKeys

/-!
What the hashes know of a client: its status, its names, and whether it is in them. A step of the
server is seen here as a change of one such face, or as the loss of some.
-/

namespace IrcdHybrid.ClientFaces

open CString HashChains NameTables RoomHeads MemberLists MemberInvariant ServerTree ServerBurst
open ServerEvents ServerInvariant ServerComing Exits ClientExit ServerSteps LinkEstab ServerRuns
open UniqueKeys Function

@[ext] structure Face where
  status : Option Status
  outbound : Bool
  name : CStr
  id : CStr
  inNames : Bool
  inIds : Bool

/-- What is so of each client by itself. A connection that the server makes has the name of a server
before it is in a hash. -/
structure Sound (me p : ClientPtr) (f : Face) : Prop where
  registered : p = me ∨ f.status = some .client ∨ f.status = some .server →
    f.inNames = true ∧ f.inIds = true
  waiting : f.status = some .unknown → f.outbound = false → f.name ≠ [] → f.inNames = true
  dotted : f.inNames = true → ('.' ∈ f.name ↔ p = me ∨ f.status = some .server)

/-- The nick, of those that have one and are no servers. -/
def nickKey (me : ClientPtr) (face : ClientPtr → Face) (p : ClientPtr) : Option CStr :=
  if (face p).inNames = true ∧ p ≠ me ∧ (face p).status ≠ some .server then
    some ((face p).name.map toUpper) else none

def idKey (face : ClientPtr → Face) (p : ClientPtr) : Option CStr :=
  if (face p).inIds = true then some (face p).id else none

structure Orderly (me : ClientPtr) (face : ClientPtr → Face) : Prop where
  sound : ∀ p, Sound me p (face p)
  nicks : OneEach (nickKey me face)
  ids : OneEach (idKey face)

/-- Nothing is known of the client. -/
def Gone (f : Face) : Prop := f.status = none ∧ f.inNames = false ∧ f.inIds = false

section Orderly

variable (me : ClientPtr) (face face' : ClientPtr → Face)

theorem nickKey_eq_some (p : ClientPtr) (k : CStr) : nickKey me face p = some k ↔
    (face p).inNames = true ∧ p ≠ me ∧ (face p).status ≠ some .server ∧
      (face p).name.map toUpper = k := by
  unfold nickKey
  split
  · next h => simp [h]
  · next h =>
    refine iff_of_false (by simp) fun hall => h ⟨hall.1, hall.2.1, hall.2.2.1⟩

theorem idKey_eq_some (p : ClientPtr) (k : CStr) :
    idKey face p = some k ↔ (face p).inIds = true ∧ (face p).id = k := by
  unfold idKey
  split
  · next h => simp [h]
  · next h => exact iff_of_false (by simp) fun hall => h hall.1

theorem keys_of_face (p : ClientPtr) (h : face' p = face p) :
    nickKey me face' p = nickKey me face p ∧ idKey face' p = idKey face p := by
  unfold nickKey idKey
  rw [h]
  exact ⟨rfl, rfl⟩

variable (h : Orderly me face)

include h

theorem orderly_lose (hface : ∀ q, face' q = face q ∨ q ≠ me ∧ Gone (face' q)) :
    Orderly me face' := by
  refine ⟨fun q => ?_, oneEach_lose _ _ h.nicks fun q k hq => ?_,
    oneEach_lose _ _ h.ids fun q k hq => ?_⟩
  · rcases hface q with hsame | ⟨hne, hstatus, hnames, -⟩
    · rw [hsame]
      exact h.sound q
    · refine ⟨fun hr => ?_, fun hw => ?_, fun hd => ?_⟩
      · rw [hstatus] at hr
        simp [hne] at hr
      · rw [hstatus] at hw
        simp at hw
      · rw [hnames] at hd
        simp at hd
  · rcases hface q with hsame | ⟨-, -, hnames, -⟩
    · rw [← (keys_of_face me face face' q hsame).1]
      exact hq
    · rw [nickKey_eq_some, hnames] at hq
      simp at hq
  · rcases hface q with hsame | ⟨-, -, -, hids⟩
    · rw [← (keys_of_face me face face' q hsame).2]
      exact hq
    · rw [idKey_eq_some, hids] at hq
      simp at hq

/-- One face changes to another that is sound and takes no key of the rest. -/
theorem orderly_take (p : ClientPtr) (f : Face) (hsound : Sound me p f)
    (hnick : f.inNames = true → p ≠ me → f.status ≠ some .server → ∀ q, q ≠ p →
      nickKey me face q ≠ some (f.name.map toUpper))
    (hid : f.inIds = true → ∀ q, q ≠ p → idKey face q ≠ some f.id) :
    Orderly me (update face p f) := by
  have hother : ∀ q, q ≠ p → update face p f q = face q := fun q hq => update_of_ne hq _ _
  have hself : update face p f p = f := update_self _ _ _
  refine ⟨fun q => ?_, ?_, ?_⟩
  · by_cases hq : q = p
    · rw [hq, hself]
      exact hsound
    · rw [hother q hq]
      exact h.sound q
  · refine oneEach_take _ _ h.nicks p (fun q hq => (keys_of_face me _ _ q (hother q hq)).1)
      fun k hk q hq => ?_
    obtain ⟨hnames, hne, hstatus, rfl⟩ := (nickKey_eq_some _ _ _ _).mp hk
    rw [hself] at hnames hstatus ⊢
    exact hnick hnames hne hstatus q hq
  · refine oneEach_take _ _ h.ids p (fun q hq => (keys_of_face me _ _ q (hother q hq)).2)
      fun k hk q hq => ?_
    obtain ⟨hids, rfl⟩ := (idKey_eq_some _ _ _).mp hk
    rw [hself] at hids ⊢
    exact hid hids q hq

end Orderly

def faceOf (s : Net) (p : ClientPtr) : Face where
  status := (s.rooms.clients p).map Client.status
  outbound := (s.node p).outbound
  name := nameOf s p
  id := idOf s p
  inNames := hashed s.clientTable p
  inIds := hashed s.idTable p

theorem hashed_eq_true (t : Chains ℕ ClientPtr) (p : ClientPtr) : hashed t p = true ↔ ¬ Off t p := by
  unfold hashed Off
  exact decide_eq_true_iff

theorem hashed_eq_false (t : Chains ℕ ClientPtr) (p : ClientPtr) : hashed t p = false ↔ Off t p := by
  rw [← Bool.not_eq_true, hashed_eq_true, not_not]

theorem hashed_congr (t t' : Chains ℕ ClientPtr) (p : ClientPtr) (h : Off t' p ↔ Off t p) :
    hashed t' p = hashed t p := by
  rw [Bool.eq_iff_iff, hashed_eq_true, hashed_eq_true, h]

section Status

variable (s : Net) (p : ClientPtr)

theorem status_client : (faceOf s p).status = some .client ↔ isClient s.rooms p = true := by
  rw [isClient_iff]
  exact Option.map_eq_some_iff

theorem status_server : (faceOf s p).status = some .server ↔ isServer s p = true := by
  rw [isServer_iff]
  exact Option.map_eq_some_iff

theorem status_unknown : (faceOf s p).status = some .unknown ↔ isUnknown s p = true := by
  rw [isUnknown_iff]
  exact Option.map_eq_some_iff

end Status

section Same

variable (s s' : Net)

theorem faceOf_read (hme : s'.me = s.me) (hnames : s'.meName = s.meName ∧ s'.meId = s.meId)
    (q : ClientPtr) (hclients : s'.rooms.clients q = s.rooms.clients q)
    (houtbound : (s'.node q).outbound = (s.node q).outbound)
    (hname : Off s'.clientTable q ↔ Off s.clientTable q) (hid : Off s'.idTable q ↔ Off s.idTable q) :
    faceOf s' q = faceOf s q := by
  have hread : ∀ {β : Type} (f : Client → β),
      (s'.rooms.clients q).map f = (s.rooms.clients q).map f := fun f => by rw [hclients]
  exact Face.ext (hread Client.status) houtbound
    (nameOf_read s q s' hme hnames.1 (hread Client.name))
    (idOf_read s q s' hme hnames.2 (hread Client.id)) (hashed_congr _ _ q hname)
    (hashed_congr _ _ q hid)

theorem faceOf_rooms (rooms' : MemberLists.State) (h : SameHeads s.rooms rooms') :
    faceOf (onRooms s rooms') = faceOf s := by
  funext q
  have hread : ∀ {β : Type} (f : Client → β) (g : CStr × CStr × Status × Bool × ClientPtr → β),
      (∀ c, f c = g (head c)) → (rooms'.clients q).map f = (s.rooms.clients q).map f :=
    fun f g hfg => heads_read s rooms' h f g hfg q
  refine Face.ext (hread Client.status (fun x => x.2.2.1) fun _ => rfl) rfl
    (nameOf_read s q (onRooms s rooms') rfl rfl (hread Client.name (fun x => x.2.1) fun _ => rfl))
    (idOf_read s q (onRooms s rooms') rfl rfl (hread Client.id (fun x => x.1) fun _ => rfl)) rfl rfl

theorem faceOf_modifyNode (p : ClientPtr) (f : Node → Node) : faceOf (modifyNode s p f) =
    update (faceOf s) p { faceOf s p with outbound := (f (s.node p)).outbound } := by
  funext q
  by_cases hq : q = p
  · rw [hq, update_self]
    refine Face.ext rfl ?_ rfl rfl rfl rfl
    show (update s.node p (f (s.node p)) p).outbound = _
    rw [update_self]
  · rw [update_of_ne hq]
    refine faceOf_read s (modifyNode s p f) rfl ⟨rfl, rfl⟩ q rfl ?_ Iff.rfl Iff.rfl
    show (update s.node p (f (s.node p)) q).outbound = _
    rw [update_of_ne hq]

theorem faceOf_node (p : ClientPtr) (f : Node → Node)
    (hf : (f (s.node p)).outbound = (s.node p).outbound) :
    faceOf (modifyNode s p f) = faceOf s := by
  rw [faceOf_modifyNode, hf]
  exact update_eq_self p (faceOf s)

end Same

section Change

variable (s : Net) (p : ClientPtr)

theorem faceOf_hashAddClient (hn : Named s) (hoff : Off s.clientTable p) (hknown : known s p = true)
    (hname : nameOf s p ≠ []) :
    faceOf (hashAddClient s p) = update (faceOf s) p { faceOf s p with inNames := true } := by
  obtain ⟨-, hiff⟩ := hashAddClient_named s hn p hoff hknown hname
  funext q
  by_cases hq : q = p
  · rw [hq, update_self]
    refine Face.ext rfl rfl rfl rfl ?_ rfl
    exact (hashed_eq_true _ p).mpr fun hon => ((hiff p).mp hon).1 rfl
  · rw [update_of_ne hq]
    refine faceOf_read s (hashAddClient s p) rfl ⟨rfl, rfl⟩ q rfl rfl ?_ Iff.rfl
    rw [hiff q]
    exact and_iff_right hq

theorem faceOf_hashDelClient (hn : Named s) :
    faceOf (hashDelClient s p) = update (faceOf s) p { faceOf s p with inNames := false } := by
  obtain ⟨-, hiff, -⟩ := hashDelClient_named s hn p
  funext q
  by_cases hq : q = p
  · rw [hq, update_self]
    refine Face.ext rfl rfl rfl rfl ?_ rfl
    exact (hashed_eq_false _ p).mpr ((hiff p).mpr (Or.inl rfl))
  · rw [update_of_ne hq]
    refine faceOf_read s (hashDelClient s p) rfl ⟨rfl, rfl⟩ q rfl rfl ?_ Iff.rfl
    rw [hiff q]
    exact or_iff_right hq

theorem faceOf_hashAddId (hn : Named s) (hoff : Off s.idTable p) (hknown : known s p = true)
    (hid : idOf s p ≠ []) (hregistered : isUnknown s p = false) :
    faceOf (hashAddId s p) = update (faceOf s) p { faceOf s p with inIds := true } := by
  obtain ⟨-, hiff⟩ := hashAddId_named s hn p hoff hknown hid hregistered
  funext q
  by_cases hq : q = p
  · rw [hq, update_self]
    refine Face.ext rfl rfl rfl rfl rfl ?_
    exact (hashed_eq_true _ p).mpr fun hon => ((hiff p).mp hon).1 rfl
  · rw [update_of_ne hq]
    refine faceOf_read s (hashAddId s p) rfl ⟨rfl, rfl⟩ q rfl rfl Iff.rfl ?_
    rw [hiff q]
    exact and_iff_right hq

theorem face_known (c : Client) (hc : s.rooms.clients p = some c) (hme : p ≠ s.me) :
    (faceOf s p).status = some c.status ∧ (faceOf s p).name = c.name ∧ (faceOf s p).id = c.id := by
  unfold faceOf nameOf idOf
  rw [if_neg hme, if_neg hme, hc]
  exact ⟨rfl, rfl, rfl⟩

theorem faceOf_modifyClient (c : Client) (hc : s.rooms.clients p = some c) (hme : p ≠ s.me)
    (f : Client → Client) :
    faceOf (onRooms s (modifyClient s.rooms p f)) = update (faceOf s) p { faceOf s p with
      status := some (f c).status
      name := (f c).name
      id := (f c).id } := by
  funext q
  by_cases hq : q = p
  · have hself : (onRooms s (modifyClient s.rooms p f)).rooms.clients p = some (f c) := by
      show (modifyClient s.rooms p f).clients p = _
      rw [modifyClient_self, hc]
      rfl
    obtain ⟨hstatus, hname, hid⟩ := face_known _ p (f c) hself hme
    rw [hq, update_self]
    exact Face.ext hstatus rfl hname hid rfl rfl
  · rw [update_of_ne hq]
    exact faceOf_read s (onRooms s (modifyClient s.rooms p f)) rfl ⟨rfl, rfl⟩ q
      (modifyClient_of_ne s.rooms p q f hq) rfl Iff.rfl Iff.rfl

variable (hknown : known s p = true) (hme : p ≠ s.me)

include hknown hme

theorem faceOf_modifyName (name : CStr) : faceOf (modifyName s p name) =
    update (faceOf s) p { faceOf s p with name := strlcpy name (BanMask.HOSTLEN + 1) } := by
  obtain ⟨c, hc⟩ := (known_iff s p).mp hknown
  obtain ⟨hstatus, -, hid⟩ := face_known s p c hc hme
  refine (faceOf_modifyClient s p c hc hme _).trans (congrArg (update (faceOf s) p) ?_)
  exact Face.ext hstatus.symm rfl rfl hid.symm rfl rfl

theorem faceOf_modifyId (id : CStr) : faceOf (modifyId s p id) =
    update (faceOf s) p { faceOf s p with id := strlcpy id (Channels.IDLEN + 1) } := by
  obtain ⟨c, hc⟩ := (known_iff s p).mp hknown
  obtain ⟨hstatus, hname, -⟩ := face_known s p c hc hme
  refine (faceOf_modifyClient s p c hc hme _).trans (congrArg (update (faceOf s) p) ?_)
  exact Face.ext hstatus.symm rfl hname.symm rfl rfl rfl

theorem faceOf_setStatus (status : Status) : faceOf (setStatus s p status) =
    update (faceOf s) p { faceOf s p with status := some status } := by
  obtain ⟨c, hc⟩ := (known_iff s p).mp hknown
  obtain ⟨-, hname, hid⟩ := face_known s p c hc hme
  refine (faceOf_modifyClient s p c hc hme _).trans (congrArg (update (faceOf s) p) ?_)
  exact Face.ext rfl rfl hname.symm hid.symm rfl rfl

end Change

section Events

variable (s : Net) (p : ClientPtr)

theorem faceOf_same (s' : Net) (hrooms : s'.rooms = s.rooms) (hme : s'.me = s.me)
    (hnames : s'.meName = s.meName ∧ s'.meId = s.meId)
    (houtbound : ∀ q, (s'.node q).outbound = (s.node q).outbound)
    (htables : s'.clientTable = s.clientTable ∧ s'.idTable = s.idTable) : faceOf s' = faceOf s := by
  funext q
  refine faceOf_read s s' hme hnames q ?_ (houtbound q) ?_ ?_
  · rw [hrooms]
  · rw [htables.1]
  · rw [htables.2]

theorem faceOf_makeClient (hn : Named s) (link : Option ClientPtr) (hfresh : fresh s p = true) :
    faceOf (makeClient s p link) =
      update (faceOf s) p ⟨some .unknown, false, [], [], false, false⟩ := by
  obtain ⟨hnone, hne, -⟩ := (fresh_iff s p).mp hfresh
  obtain ⟨hother, hself, -, -⟩ := makeClient_spec s p link hnone
  obtain ⟨-, hnode, hme, hmeId, hmeName, -, -, -, -, -, -, hct, hit⟩ :=
    makeClient_fields s p link _ rfl
  obtain ⟨-, hoff, hoff'⟩ := makeClient_named s p hn link hfresh
  obtain ⟨hout, hout'⟩ := off_of_none s hn p hnone hne
  rw [selfLink_off p _ hout] at hct
  rw [selfLink_off p _ hout'] at hit
  generalize makeClient s p link = s' at *
  funext q
  by_cases hq : q = p
  · have hme' : p ≠ s'.me := by
      rw [hme]
      exact hne
    obtain ⟨hstatus, hname, hid⟩ := face_known s' p _ hself hme'
    rw [hq, update_self]
    refine Face.ext hstatus ?_ hname hid ((hashed_eq_false _ p).mpr hoff)
      ((hashed_eq_false _ p).mpr hoff')
    show (s'.node p).outbound = false
    rw [hnode, update_self]
    rfl
  · rw [update_of_ne hq]
    refine faceOf_read s s' hme ⟨hmeName, hmeId⟩ q (hother q hq) ?_ ?_ ?_
    · rw [hnode, update_of_ne hq]
    · rw [hct]
    · rw [hit]

theorem makeClient_known (link : Option ClientPtr) (hfresh : fresh s p = true) :
    known (makeClient s p link) p = true ∧ p ≠ (makeClient s p link).me := by
  obtain ⟨hnone, hne, -⟩ := (fresh_iff s p).mp hfresh
  obtain ⟨-, hself, -, -⟩ := makeClient_spec s p link hnone
  obtain ⟨-, -, hme, -⟩ := makeClient_fields s p link _ rfl
  refine ⟨(known_iff _ p).mpr ⟨_, hself⟩, ?_⟩
  rw [hme]
  exact hne

theorem faceOf_servConnect (hn : Named s) (hfresh : fresh s p = true) (name : CStr) :
    faceOf (servConnect s p name) = update (faceOf s) p
      ⟨some .unknown, true, strlcpy name (BanMask.HOSTLEN + 1), [], false, false⟩ := by
  obtain ⟨hknown, hme⟩ := makeClient_known s p none hfresh
  unfold servConnect
  rw [faceOf_modifyNode, faceOf_modifyName (makeClient s p none) p hknown hme name,
    faceOf_makeClient s p hn none hfresh, update_self, update_idem, update_self, update_idem]

/-- The face of one that has taken a nick. -/
def renamedFace (f : Face) (nick : CStr) : Face :=
  { f with name := strlcpy nick (BanMask.HOSTLEN + 1), inNames := true }

theorem faceOf_rename (hn : Named s) (hoff : Off s.clientTable p) (hknown : known s p = true)
    (hme : p ≠ s.me) (nick : CStr) (hnick : nick ≠ []) :
    faceOf (hashAddClient (modifyName s p nick) p) =
      update (faceOf s) p (renamedFace (faceOf s p) nick) := by
  rw [faceOf_hashAddClient _ p (modifyName_named s hn p nick hoff) hoff
    ((modifyName_status s p p nick).2.1.trans hknown) (modifyName_name s p hknown hme nick hnick),
    faceOf_modifyName s p hknown hme nick, update_self, update_idem]
  rfl

theorem faceOf_setInitialNick (h : Inv s) (hn : Named s) (hknown : known s p = true) (nick : CStr)
    (hnick : nick ≠ []) : faceOf (ServerEvents.setInitialNick s p nick) =
      update (faceOf s) p (renamedFace (faceOf s p) nick) := by
  have hme := unknown_ne_me s p h hknown
  by_cases hname : nameOf s p = []
  · have hoff : Off s.clientTable p := by
      by_contra hon
      exact (hn.named p hon).2 hname
    have heq : ServerEvents.setInitialNick s p nick = hashAddClient (modifyName s p nick) p := by
      unfold ServerEvents.setInitialNick
      rw [if_neg (by simp [hname])]
    rw [heq, faceOf_rename s p hn hoff hknown hme nick hnick]
  · have heq : ServerEvents.setInitialNick s p nick =
        hashAddClient (modifyName (hashDelClient s p) p nick) p := by
      unfold ServerEvents.setInitialNick
      rw [if_pos hname]
    obtain ⟨hn', hoff, -⟩ := hashDelClient_named s hn p
    rw [heq, faceOf_rename (hashDelClient s p) p hn' ((hoff p).mpr (Or.inl rfl)) hknown hme nick hnick,
      faceOf_hashDelClient s p hn, update_self, update_idem]
    rfl

theorem faceOf_changeNick (conf : ServerTree.Conf) (h : Inv s) (hn : Named s)
    (hp : isClient s.rooms p = true) (nick : CStr) (hnick : nick ≠ []) :
    faceOf (changeNick conf s p nick) =
      update (faceOf s) p (renamedFace (faceOf s p) nick) := by
  obtain ⟨-, hsame⟩ := whowas_fields conf s p true
  generalize hs₁ : onRooms s (whowasAddHistory conf.env s.rooms p true) = s₁
  have hface : faceOf s₁ = faceOf s := by
    rw [← hs₁]
    exact faceOf_rooms s _ hsame
  have hn₁ : Named s₁ := by
    rw [← hs₁]
    exact rooms_named s _ hn hsame
  have hclient : isClient s₁.rooms p = true := by
    rw [← status_client, hface, status_client]
    exact hp
  have hknown := known_of_isClient s₁ p hclient
  have hme : p ≠ s₁.me := by
    rw [← hs₁]
    exact unknown_ne_me s p h (known_of_isClient s p hp)
  obtain ⟨hn₂, hoff, -⟩ := hashDelClient_named s₁ hn₁ p
  have heq : changeNick conf s p nick = hashAddClient (modifyName (hashDelClient s₁ p) p nick) p := by
    rw [← hs₁]
    rfl
  rw [heq, faceOf_rename (hashDelClient s₁ p) p hn₂ ((hoff p).mpr (Or.inl rfl)) hknown hme nick hnick,
    faceOf_hashDelClient s₁ p hn₁, update_self, update_idem, hface]
  rfl

/-- The face of a user of the server's own. -/
def registeredFace (f : Face) (id : CStr) : Face :=
  { f with
    id := strlcpy id (Channels.IDLEN + 1)
    status := some .client
    inIds := true }

theorem faceOf_registerLocalUser (h : Inv s) (hn : Named s) (hp : unregistered s p = true)
    (id : CStr) (hid : id ≠ []) (profile : Profile) :
    faceOf (registerLocalUser s p id profile) =
      update (faceOf s) p (registeredFace (faceOf s p) id) := by
  obtain ⟨hunknown, -⟩ := unregistered_iff s p hp
  have hknown := known_of_isUnknown s p hunknown
  have hme := unknown_ne_me s p h hknown
  obtain ⟨hn₁, hoff, hknown₁, hid₁, hunknown₁⟩ := identified_named s p h hn hp id hid profile
  have hadd := faceOf_hashAddId _ p hn₁ hoff hknown₁ hid₁ hunknown₁
  generalize hs₁ : modifyNode s p (fun n => { n with servptr := s.me, profile := profile }) = s₁
  have hface₁ : faceOf s₁ = faceOf s := by
    rw [← hs₁]
    exact faceOf_node s p _ rfl
  have hplain : known s₁ p = true ∧ p ≠ s₁.me := by
    rw [← hs₁]
    exact ⟨hknown, hme⟩
  have hknown₂ := (modifyId_status s₁ p p id).2.1.trans hplain.1
  rw [identified, hs₁, faceOf_setStatus _ p hknown₂ hplain.2, faceOf_modifyId s₁ p hplain.1 hplain.2,
    update_self, update_idem, update_self, update_idem, hface₁, ← setStatus_hashAddId, ← hs₁] at hadd
  refine Eq.trans ?_ hadd
  refine faceOf_same _ _ rfl rfl ⟨rfl, rfl⟩ (fun q => ?_) ⟨rfl, rfl⟩
  exact update_node _ _ (fun n => { n with clientList := p :: n.clientList }) q Node.outbound rfl

theorem faceOf_hashAdd (h : Hashable s p) : faceOf (hashAddId (hashAddClient s p) p) =
    update (faceOf s) p { faceOf s p with inNames := true, inIds := true } := by
  obtain ⟨hn, -⟩ := hashAddClient_named s h.named p h.offNames h.isKnown h.name_ne
  rw [faceOf_hashAddId _ p hn h.offIds h.isKnown h.id_ne h.isRegistered,
    faceOf_hashAddClient s p h.named h.offNames h.isKnown h.name_ne, update_self, update_idem]

section Introduced

variable (source : ClientPtr) (name id : CStr) (f : Node → Node) (status : Status)

/-- One that another server has introduced. -/
def introducedFace : Face :=
  ⟨some status, false, strlcpy name (BanMask.HOSTLEN + 1), strlcpy id (Channels.IDLEN + 1), true, true⟩

theorem faceOf_introduced (hn : Named s) (hfresh : fresh s p = true)
    (hf : ∀ n, (f n).outbound = n.outbound) :
    faceOf (introduced s source p name id f) = update (faceOf s) p ⟨some .unknown, false,
      strlcpy name (BanMask.HOSTLEN + 1), strlcpy id (Channels.IDLEN + 1), false, false⟩ := by
  obtain ⟨hknown, hme⟩ := makeClient_known s p (some (fromOf s source)) hfresh
  have hface := faceOf_makeClient s p hn (some (fromOf s source)) hfresh
  unfold introduced
  generalize makeClient s p (some (fromOf s source)) = s₁ at *
  have hknown₁ := (modifyName_status (modifyNode s₁ p f) p p name).2.1.trans hknown
  rw [faceOf_modifyId _ p hknown₁ hme, faceOf_modifyName (modifyNode s₁ p f) p hknown hme,
    faceOf_node s₁ p f (hf _), hface, update_self, update_idem, update_self, update_idem]

/-- It is given its status, put on the lists and in the hashes. -/
theorem faceOf_enlisted (h : Inv s) (hn : Named s) (hsource : isServer s source = true)
    (hfresh : fresh s p = true) (hname : name ≠ []) (hid : id ≠ [])
    (hservptr : ∀ n, (f n).servptr = source) (hclients : ∀ n, (f n).clientList = n.clientList)
    (hservers : ∀ n, (f n).serverList = n.serverList) (hclosing : ∀ n, (f n).closing = n.closing)
    (hf : ∀ n, (f n).outbound = n.outbound) (hstatus : status ≠ .unknown) :
    faceOf (hashAddId (hashAddClient (setStatus (introduced s source p name id f) p status) p) p) =
      update (faceOf s) p (introducedFace name id status) := by
  have hready := introduced_hashable s p source name id f h hn hsource hfresh hname hid hservptr
    hclients hservers hclosing status hstatus
  obtain ⟨h₁, -, -, -⟩ := introduced_inv s p source name id f h hsource hfresh hservptr
    hclients hservers hclosing
  obtain ⟨-, -, -, hknown, -, -⟩ := introduced_named s p source name id f hn hfresh hname hid
  rw [faceOf_hashAdd _ p hready, faceOf_setStatus _ p hknown (unknown_ne_me _ p h₁ hknown),
    faceOf_introduced s p source name id f hn hfresh hf, update_self, update_idem, update_self,
    update_idem]
  rfl

theorem faceOf_uidFromServer (h : Inv s) (hn : Named s) (hsource : isServer s source = true)
    (hfresh : fresh s p = true) (hname : name ≠ []) (hid : id ≠ []) (hopcount : ℕ)
    (profile : Profile) : faceOf (uidFromServer s source p name hopcount id profile) =
      update (faceOf s) p (introducedFace name id .client) := by
  have hface := faceOf_enlisted s p source name id (fun n =>
    { n with servptr := source, hopcount := hopcount, profile := profile }) .client h hn hsource hfresh
    hname hid (fun _ => rfl) (fun _ => rfl) (fun _ => rfl) (fun _ => rfl) (fun _ => rfl) (by simp)
  rw [uidFromServer_eq, ← hface, ← setStatus_hashAddClient, ← setStatus_hashAddId]
  refine faceOf_same _ _ rfl rfl ⟨rfl, rfl⟩ (fun q => ?_) ⟨rfl, rfl⟩
  exact update_node _ _ (fun n => { n with clientList := p :: n.clientList }) q Node.outbound rfl

theorem faceOf_msSid (h : Inv s) (hn : Named s) (hsource : isServer s source = true)
    (hfresh : fresh s p = true) (hname : name ≠ []) (hid : id ≠ []) (hopcount : ℕ) (info : CStr) :
    faceOf (msSid s source p name hopcount id info) =
      update (faceOf s) p (introducedFace name id .server) := by
  have hface := faceOf_enlisted s p source name id (fun n =>
    { setServerGecos n info with hopcount := hopcount, servptr := source }) .server h hn hsource hfresh
    hname hid (fun _ => rfl) (fun n => (setServerGecos_fields n info).1)
    (fun n => (setServerGecos_fields n info).2.1) (fun n => (setServerGecos_fields n info).2.2.1)
    (fun n => (setServerGecos_fields n info).2.2.2.2) (by simp)
  obtain ⟨sent, heq⟩ := msSid_eq s p source name id hopcount info
  rw [heq, ← hface]
  unfold introducedServer
  refine faceOf_same _ _ rfl rfl ⟨rfl, rfl⟩ (fun q => ?_) ⟨rfl, rfl⟩
  exact update_node _ _ (fun n => { n with serverList := p :: n.serverList }) q Node.outbound rfl

end Introduced

end Events

/-- Some are gone, and the others are as they were. -/
structure Lost (s s' : Net) (removed : List ClientPtr) : Prop where
  me : s'.me = s.me
  kept : ∀ q, q ∉ removed → faceOf s' q = faceOf s q
  gone : ∀ q, q ∈ removed → q ≠ s.me ∧ Gone (faceOf s' q)

section Exit

variable (conf : ServerTree.Conf) (s : Net) (p : ClientPtr) (comment : CStr)

theorem exitClient_lost (h : Inv s) (hn : Named s) (hknown : known s p = true) :
    ∃ removed, Lost s (exitClient conf s p comment) removed ∧ p ∈ removed ∧
      (isServer s p = false → ∀ q ∈ removed, q = p) := by
  have hn' := exitClient_named conf s p comment h hknown hn
  obtain ⟨s₀, removed, hshut, hexited, -, hmem⟩ := exitClient_exited conf s p comment h hknown
  obtain ⟨-, htrimmed, htrimmed'⟩ := hexited.hashes (shut_named s s₀ p hshut hn)
  rw [hshut.clientTable] at htrimmed
  rw [hshut.idTable] at htrimmed'
  generalize exitClient conf s p comment = s' at *
  have hme : s'.me = s.me := hexited.rest.me.trans hshut.names.1
  have hnames : s'.meName = s.meName ∧ s'.meId = s.meId :=
    ⟨hexited.rest.meName.trans hshut.names.2.2.1, hexited.rest.meId.trans hshut.names.2.1⟩
  have hhash : hashOf s' = hashOf s := by
    funext name
    unfold hashOf
    rw [hexited.rooms.hashfXorKey, hshut.rooms]
  refine ⟨removed, ⟨hme, fun q hq => ?_, fun q hq => ?_⟩, (hmem p).mpr (Or.inl rfl),
    fun hserver q hq => ?_⟩
  · have hclients : s'.rooms.clients q = s.rooms.clients q := by
      rw [hexited.rooms.clients q, if_neg hq, hshut.rooms]
    have houtbound : (s'.node q).outbound = (s.node q).outbound := by
      rw [hexited.node q hq]
      exact shut_read s s₀ p hshut Node.outbound (fun _ _ => rfl) q
    have hname : nameOf s' q = nameOf s q :=
      nameOf_read s q s' hme hnames.1 (by rw [hclients])
    have hid : idOf s' q = idOf s q := idOf_read s q s' hme hnames.2 (by rw [hclients])
    refine faceOf_read s s' hme hnames q hclients houtbound ?_ ?_
    · refine trimmed_off _ _ _ _ _ _ hn.names hn'.names removed htrimmed q hq ?_
      unfold nameHash
      rw [hhash, hname]
    · refine trimmed_off _ _ _ _ _ _ hn.ids hn'.ids removed htrimmed' q hq ?_
      unfold idHash
      rw [hhash, hid]
  · have hnone : s'.rooms.clients q = none := by rw [hexited.rooms.clients q, if_pos hq]
    have hne : q ≠ s.me := by
      rw [← hshut.names.1]
      exact known_ne_me s₀ (shut_placed s s₀ p hshut h.placed) q (hexited.members q hq)
    obtain ⟨hoff, hoff'⟩ := off_of_none s' hn' q hnone (by rw [hme]; exact hne)
    refine ⟨hne, ?_, (hashed_eq_false _ q).mpr hoff, (hashed_eq_false _ q).mpr hoff'⟩
    unfold faceOf
    rw [hnone]
    rfl
  · refine ((hmem q).mp hq).resolve_right ?_
    exact Forest.not_below _ q p (leaf_of_not_server p s h.placed hknown hserver)

theorem exitClient_alone (h : Inv s) (hn : Named s) (hknown : known s p = true)
    (hserver : isServer s p = false) : Lost s (exitClient conf s p comment) [p] := by
  obtain ⟨removed, hlost, hself, honly⟩ := exitClient_lost conf s p comment h hn hknown
  have honly := honly hserver
  refine ⟨hlost.me, fun q hq => hlost.kept q fun hr => ?_, fun q hq => hlost.gone q ?_⟩
  · rw [honly q hr] at hq
    simp at hq
  · rw [List.mem_singleton.mp hq]
    exact hself

end Exit

section Server

variable (conf : ServerTree.Conf) (s : Net) (p : ClientPtr) (h : Inv s)
  (hp : unregistered s p = true)

def serverFace (f : Face) : Face :=
  { f with status := some .server, inNames := true, inIds := true }

include h hp

theorem faceOf_linked (hn : Named s) (hoff : Off s.clientTable p) (hname : nameOf s p ≠ [])
    (hid : idOf s p ≠ []) :
    faceOf (linked conf s p) = update (faceOf s) p (serverFace (faceOf s p)) := by
  obtain ⟨h₁, hunknown, -, -⟩ := greeted_inv conf s p h hp
  have hface₁ : faceOf (greeted conf s p) = faceOf s := by
    unfold greeted
    rw [greet_eq, faceOf_node]
    · exact faceOf_same s _ rfl rfl ⟨rfl, rfl⟩ (fun _ => rfl) ⟨rfl, rfl⟩
    · rfl
  have hknown₁ := known_of_isUnknown _ p hunknown
  have hface₃ : faceOf (enlisted conf s p) = faceOf (setStatus (greeted conf s p) p .server) := by
    refine faceOf_same _ _ rfl rfl ⟨rfl, rfl⟩ (fun q => ?_) ⟨rfl, rfl⟩
    exact update_node _ _ (fun n => { n with serverList := p :: n.serverList }) q Node.outbound rfl
  have hadd := faceOf_hashAdd _ p (enlisted_hashable conf s p h hn hp hoff hname hid)
  rw [hface₃, faceOf_setStatus _ p hknown₁ (unknown_ne_me _ p h₁ hknown₁), hface₁, update_self,
    update_idem, ← linkServer_eq] at hadd
  exact (faceOf_same _ (linked conf s p) rfl rfl ⟨rfl, rfl⟩ (fun _ => rfl) ⟨rfl, rfl⟩).trans hadd

/-- The connection becomes a server, or is gone as one link too many. -/
theorem serverEstab_faces (hn : Named s) (hoff : Off s.clientTable p) (hname : nameOf s p ≠ [])
    (hid : idOf s p ≠ []) :
    (serverEstab conf s p).me = s.me ∧
        faceOf (serverEstab conf s p) = update (faceOf s) p (serverFace (faceOf s p)) ∨
      Lost s (serverEstab conf s p) [p] := by
  obtain ⟨hunknown, -⟩ := unregistered_iff s p hp
  have hknown := known_of_isUnknown s p hunknown
  by_cases hleaf : (!conf.hub && decide (s.localServerList ≠ [])) = true
  · unfold serverEstab
    rw [if_pos hleaf]
    exact Or.inr (exitClient_alone conf s p "I'm a leaf not a hub".toList h hn hknown
      (unregistered_of_unknown s p hunknown).2)
  · rw [serverEstab_eq conf s p (by simpa using hleaf) (h.opened p hknown)]
    obtain ⟨items, heq, -⟩ := linked_told conf s p h hp
    rw [heq, ← faceOf_linked conf s p h hp hn hoff hname hid]
    obtain ⟨-, hme, -⟩ := greeted_fields conf s p
    refine Or.inl ⟨hme, faceOf_same _ _ rfl rfl ⟨rfl, rfl⟩ (fun _ => rfl) ⟨rfl, rfl⟩⟩

theorem mrServer_faces (hn : Named s) (hoff : Off s.clientTable p) (name : CStr)
    (hname : name ≠ []) (hid : idOf s p ≠ []) (hopcount : ℕ) (info : CStr) :
    (mrServer conf s p name hopcount info).me = s.me ∧
        faceOf (mrServer conf s p name hopcount info) = update (faceOf s) p
          (serverFace { faceOf s p with name := strlcpy name (BanMask.HOSTLEN + 1) }) ∨
      Lost s (mrServer conf s p name hopcount info) [p] := by
  obtain ⟨h₁, hp₁⟩ := renamed_inv s p name hopcount info h hp
  have hknown := known_of_isUnknown s p (unregistered_iff s p hp).1
  have hme := unknown_ne_me s p h hknown
  have hn₁ : Named (renamed s p name hopcount info) :=
    node_named _ _ (modifyName_named s hn p name hoff)
  have hface : faceOf (renamed s p name hopcount info) =
      update (faceOf s) p { faceOf s p with name := strlcpy name (BanMask.HOSTLEN + 1) } := by
    unfold renamed
    rw [faceOf_node, faceOf_modifyName s p hknown hme]
    exact (setServerGecos_fields _ info).2.2.2.2
  rw [mrServer_eq]
  have hcases := serverEstab_faces conf (renamed s p name hopcount info) p h₁ hp₁ hn₁ hoff
    (modifyName_name s p hknown hme name hname) (by
      have hsame := (modifyName_status s p p name).2.2.2.2.2
      show idOf (modifyName s p name) p ≠ []
      rw [hsame]
      exact hid)
  rw [hface, update_self, update_idem] at hcases
  refine hcases.imp id fun hlost => ⟨hlost.me, fun q hq => ?_, hlost.gone⟩
  rw [hlost.kept q hq, hface, update_of_ne (by simpa using hq)]

end Server

end IrcdHybrid.ClientFaces
