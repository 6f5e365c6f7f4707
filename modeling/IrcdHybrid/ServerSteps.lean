import IrcdHybrid.ClientExit
import IrcdHybrid.MemberRuns
import IrcdHybrid.NetworkTold

/-!
What every event keeps. The lists are right after any of them; the hashes are too,
unless a connection registers as a server whose name is in a bucket already.
-/

namespace IrcdHybrid.ServerSteps

open CString HashChains NameTables RoomHeads MemberLists MemberInvariant MemberRuns
open ServerTree ServerBurst ServerEvents ServerInvariant ServerComing Exits Subtree ClientExit
open LinkBurst NetworkTold Function

theorem guarded_eq_some (b : Bool) (s s' : Net) : guarded b s = some s' ↔ b = true ∧ s = s' := by
  unfold guarded
  cases b <;> simp

section Names

variable (s : Net) (p : ClientPtr)

theorem strlcpy_ne_nil (name : CStr) (n : ℕ) (hname : name ≠ []) (hn : 1 ≤ n) :
    strlcpy name (n + 1) ≠ [] := by
  cases name with
  | nil => exact absurd rfl hname
  | cons c name =>
    obtain ⟨m, rfl⟩ := Nat.exists_eq_add_of_le hn
    unfold strlcpy
    have hsize : 1 + m + 1 - 1 = m + 1 := by omega
    rw [hsize, List.take_succ_cons]
    simp

theorem modifyName_name (hknown : known s p = true) (hme : p ≠ s.me) (name : CStr)
    (hname : name ≠ []) : nameOf (modifyName s p name) p ≠ [] := by
  obtain ⟨c, hc⟩ := (known_iff s p).mp hknown
  have hself : (modifyName s p name).rooms.clients p =
      some { c with name := strlcpy name (BanMask.HOSTLEN + 1) } := by
    show (modifyClient s.rooms p _).clients p = _
    rw [modifyClient_self, hc]
    rfl
  have hme' : ¬ p = (modifyName s p name).me := hme
  unfold nameOf
  rw [if_neg hme', hself]
  exact strlcpy_ne_nil name _ hname (by decide)

theorem modifyId_id (hknown : known s p = true) (hme : p ≠ s.me) (id : CStr) (hid : id ≠ []) :
    idOf (modifyId s p id) p ≠ [] := by
  obtain ⟨c, hc⟩ := (known_iff s p).mp hknown
  have hself : ∃ c', (modifyId s p id).rooms.clients p = some c' ∧
      c'.id = strlcpy id (Channels.IDLEN + 1) := by
    refine ⟨{ c with id := strlcpy id (Channels.IDLEN + 1), id_len := List.length_take_le _ _ },
      ?_, rfl⟩
    show (modifyClient s.rooms p _).clients p = _
    rw [modifyClient_self, hc]
    rfl
  obtain ⟨c', hc', hid'⟩ := hself
  have hme' : ¬ p = (modifyId s p id).me := hme
  unfold idOf
  rw [if_neg hme', hc']
  dsimp only
  rw [hid']
  exact strlcpy_ne_nil id _ hid (by decide)

theorem modifyName_status (q : ClientPtr) (name : CStr) :
    isUnknown (modifyName s p name) q = isUnknown s q ∧ known (modifyName s p name) q = known s q ∧
      serverParent (modifyName s p name) q = serverParent s q ∧
      ServerTree.myConnect (modifyName s p name) q = ServerTree.myConnect s q ∧
      fromOf (modifyName s p name) q = fromOf s q ∧
      idOf (modifyName s p name) q = idOf s q := by
  have hp := same_standing s _ (modifyClient_standing s p
    (fun c => { c with name := strlcpy name (BanMask.HOSTLEN + 1) }) fun _ => rfl) q
  refine ⟨hp.2.2.1, hp.2.2.2.1, ?_, hp.2.2.2.2.1, hp.2.2.2.2.2, ?_⟩
  · unfold serverParent
    rw [show isServer (modifyName s p name) q = isServer s q from hp.2.1]
    rfl
  · refine idOf_read s q (modifyName s p name) rfl rfl ?_
    show ((modifyClient s.rooms p _).clients q).map Client.id = _
    refine modifyClient_read s p _ Client.id (fun _ => ?_) q
    rfl

theorem modifyId_status (q : ClientPtr) (id : CStr) :
    isUnknown (modifyId s p id) q = isUnknown s q ∧ known (modifyId s p id) q = known s q ∧
      serverParent (modifyId s p id) q = serverParent s q ∧
      ServerTree.myConnect (modifyId s p id) q = ServerTree.myConnect s q ∧
      fromOf (modifyId s p id) q = fromOf s q := by
  have hp := same_standing s _ (modifyClient_standing s p
    (fun c => { c with id := strlcpy id (Channels.IDLEN + 1), id_len := List.length_take_le _ _ })
    fun _ => rfl) q
  refine ⟨hp.2.2.1, hp.2.2.2.1, ?_, hp.2.2.2.2.1, hp.2.2.2.2.2⟩
  unfold serverParent
  rw [show isServer (modifyId s p id) q = isServer s q from hp.2.1]
  rfl

theorem modifyId_name (q : ClientPtr) (id : CStr) : nameOf (modifyId s p id) q = nameOf s q := by
  refine nameOf_read s q (modifyId s p id) rfl rfl ?_
  show ((modifyClient s.rooms p _).clients q).map Client.name = _
  refine modifyClient_read s p _ Client.name (fun _ => ?_) q
  rfl

end Names

section Handlers

variable (conf : Conf) (s : Net) (p : ClientPtr)

theorem unknown_ne_me (h : Inv s) (hp : known s p = true) : p ≠ s.me := known_ne_me s h.placed p hp

theorem servConnect_inv (h : Inv s) (hfresh : fresh s p = true) (name : CStr) :
    Inv (servConnect s p name) :=
  modifyNode_inv _ (modifyName_inv _ (makeClient_inv s p h none hfresh) p name) p _ (fun _ => rfl)
    rfl rfl rfl

theorem servConnect_named (h : Named s) (hfresh : fresh s p = true) (name : CStr) :
    Named (servConnect s p name) := by
  obtain ⟨hn, hoff, -⟩ := makeClient_named s p h none hfresh
  exact node_named _ _ (modifyName_named _ hn p name hoff)

theorem setInitialNick_inv (h : Inv s) (nick : CStr) : Inv (setInitialNick s p nick) := by
  have hdel : Inv (if nameOf s p ≠ [] then hashDelClient s p else s) := by
    split
    · exact tables_inv s _ s.idTable h
    · exact h
  have hname := modifyName_inv _ hdel p nick
  exact tables_inv _ _ _ hname

/-- Whoever takes a nick leaves the bucket of the old one first. -/
theorem setInitialNick_named (h : Inv s) (hn : Named s) (hp : known s p = true) (nick : CStr)
    (hnick : nick ≠ []) : Named (setInitialNick s p nick) := by
  have hdel : ∃ s₁, (if nameOf s p ≠ [] then hashDelClient s p else s) = s₁ ∧ Named s₁ ∧
      Off s₁.clientTable p ∧ known s₁ p = true ∧ p ≠ s₁.me := by
    refine ⟨_, rfl, ?_⟩
    by_cases hname : nameOf s p ≠ []
    · rw [if_pos hname]
      obtain ⟨hn₁, hoff, -⟩ := hashDelClient_named s hn p
      exact ⟨hn₁, (hoff p).mpr (Or.inl rfl), hp, unknown_ne_me s p h hp⟩
    · rw [if_neg hname]
      refine ⟨hn, ?_, hp, unknown_ne_me s p h hp⟩
      by_contra hon
      exact hname (hn.named p hon).2
  obtain ⟨s₁, heq, hn₁, hoff₁, hp₁, hne⟩ := hdel
  have hset : setInitialNick s p nick = hashAddClient (modifyName s₁ p nick) p := by
    rw [← heq]
    rfl
  rw [hset]
  refine (hashAddClient_named _ (modifyName_named s₁ hn₁ p nick hoff₁) p hoff₁ ?_ ?_).1
  · rw [(modifyName_status s₁ p p nick).2.1]
    exact hp₁
  · exact modifyName_name s₁ p hp₁ hne nick hnick

theorem whowas_fields (online : Bool) :
    (whowasAddHistory conf.env s.rooms p online).channels = s.rooms.channels ∧
      SameHeads s.rooms (whowasAddHistory conf.env s.rooms p online) := by
  unfold whowasAddHistory
  split
  · exact ⟨rfl, same_refl s.rooms⟩
  · exact ⟨rfl, same_of_eq _ _ rfl rfl⟩

theorem whowas_good (h : Good s.rooms) (hp : isClient s.rooms p = true) (online : Bool) :
    Good (whowasAddHistory conf.env s.rooms p online) := by
  refine ⟨whowasAddHistory_consistent s.rooms h.consistent conf.env p online hp, fun q c hc => ?_⟩
  rw [(whowas_fields conf s p online).1] at hc
  exact h.live q c hc

theorem changeNick_inv (h : Inv s) (hp : isClient s.rooms p = true) (nick : CStr) :
    Inv (changeNick conf s p nick) := by
  have hrooms := rooms_inv s _ h (whowas_good conf s p h.placed.good hp true)
    (whowas_fields conf s p true).2
  have hdel : Inv (hashDelClient (onRooms s (whowasAddHistory conf.env s.rooms p true)) p) :=
    tables_inv _ _ s.idTable hrooms
  have hname := modifyName_inv _ hdel p nick
  exact tables_inv _ _ _ hname

theorem changeNick_named (h : Inv s) (hn : Named s) (hp : isClient s.rooms p = true) (nick : CStr)
    (hnick : nick ≠ []) : Named (changeNick conf s p nick) := by
  obtain ⟨-, hsame⟩ := whowas_fields conf s p true
  have hn₁ := rooms_named s _ hn hsame
  have hrooms := rooms_inv s _ h (whowas_good conf s p h.placed.good hp true) hsame
  obtain ⟨hn₂, hoff, -⟩ := hashDelClient_named _ hn₁ p
  have hknown : known (onRooms s (whowasAddHistory conf.env s.rooms p true)) p = true := by
    have hclient : isClient (whowasAddHistory conf.env s.rooms p true) p = true := by
      have hp' := same_standing s _ (heads_read s _ hsame standing
        (fun x => (x.2.2.1, x.2.2.2.1, x.2.2.2.2)) (fun _ => rfl)) p
      rw [hp'.1]
      exact hp
    exact known_of_isClient (onRooms s _) p hclient
  have hne := known_ne_me _ hrooms.placed p hknown
  refine (hashAddClient_named _ (modifyName_named _ hn₂ p nick ((hoff p).mpr (Or.inl rfl))) p
    ((hoff p).mpr (Or.inl rfl)) ?_ ?_).1
  · rw [(modifyName_status _ p p nick).2.1]
    exact hknown
  · exact modifyName_name _ p hknown hne nick hnick

theorem setStatus_hashAddId (q : ClientPtr) (status : Status) :
    setStatus (hashAddId s p) q status = hashAddId (setStatus s q status) p := by
  have hid : idOf (setStatus s q status) p = idOf s p := by
    refine idOf_read s p (setStatus s q status) rfl rfl ?_
    show ((modifyClient s.rooms q _).clients p).map Client.id = _
    refine modifyClient_read s q _ Client.id (fun _ => ?_) p
    rfl
  unfold hashAddId
  rw [hid]
  rfl

theorem setStatus_hashAddClient (q : ClientPtr) (status : Status) :
    setStatus (hashAddClient s p) q status = hashAddClient (setStatus s q status) p := by
  have hname : nameOf (setStatus s q status) p = nameOf s p := by
    refine nameOf_read s p (setStatus s q status) rfl rfl ?_
    show ((modifyClient s.rooms q _).clients p).map Client.name = _
    refine modifyClient_read s q _ Client.name (fun _ => ?_) p
    rfl
  unfold hashAddClient
  rw [hname]
  rfl

/-- What the hashes ask of a client that enters them. -/
structure Hashable : Prop where
  named : Named s
  offNames : Off s.clientTable p
  offIds : Off s.idTable p
  isKnown : known s p = true
  isRegistered : isUnknown s p = false
  name_ne : nameOf s p ≠ []
  id_ne : idOf s p ≠ []

theorem hashAdd_named (h : Hashable s p) : Named (hashAddId (hashAddClient s p) p) := by
  obtain ⟨hn, -⟩ := hashAddClient_named s h.named p h.offNames h.isKnown h.name_ne
  exact (hashAddId_named _ hn p h.offIds h.isKnown h.id_ne h.isRegistered).1

theorem registered (h : Good s.rooms) (status : Status) (hstatus : status ≠ .unknown)
    (hunknown : isUnknown s p = true) : isUnknown (setStatus s p status) p = false := by
  obtain ⟨-, -, -, -, hclient, hserver⟩ := setStatus_spec s p h status hunknown
  cases status with
  | unknown => exact absurd rfl hstatus
  | server =>
    have hs : isServer (setStatus s p .server) p = true := hserver
    by_contra hu
    rw [(unregistered_of_unknown _ p (by simpa using hu)).2] at hs
    simp at hs
  | client =>
    have hc : isClient (setStatus s p .client).rooms p = true := hclient
    by_contra hu
    rw [(unregistered_of_unknown _ p (by simpa using hu)).1] at hc
    simp at hc

theorem unregistered_iff (hp : unregistered s p = true) :
    isUnknown s p = true ∧ ServerTree.myConnect s p = true := by
  unfold unregistered at hp
  rwa [Bool.and_eq_true] at hp

/-- The node of one that has not registered is nobody's server. -/
theorem unknownNode_inv (h : Inv s) (hunknown : isUnknown s p = true) (f : Node → Node)
    (hclients : (f (s.node p)).clientList = (s.node p).clientList)
    (hservers : (f (s.node p)).serverList = (s.node p).serverList)
    (hclosing : (f (s.node p)).closing = (s.node p).closing) : Inv (modifyNode s p f) := by
  refine modifyNode_inv s h p f (fun hregistered => ?_) hclients hservers hclosing
  obtain ⟨hc, hs⟩ := unregistered_of_unknown s p hunknown
  rw [hc, hs] at hregistered
  simp at hregistered

theorem reached_own (h : Inv s) (hmy : ServerTree.myConnect s p = true) (hservptr : (s.node p).servptr = s.me) :
    Reached s p := Or.inl ⟨hservptr, h.placed.own p hmy⟩

theorem registerLocalUser_inv (h : Inv s) (hp : unregistered s p = true) (id : CStr)
    (profile : Profile) : Inv (registerLocalUser s p id profile) := by
  obtain ⟨hunknown, hmy⟩ := unregistered_iff s p hp
  generalize hs₁ : modifyNode s p (fun n => { n with servptr := s.me, profile := profile }) = s₁
  have hself : s₁.node p = { s.node p with servptr := s.me, profile := profile } := by
    rw [← hs₁]
    exact update_self _ _ _
  have h₁ : Inv s₁ := by
    rw [← hs₁]
    exact unknownNode_inv s p h hunknown _ rfl rfl rfl
  have hrooms : s₁.rooms = s.rooms ∧ s₁.me = s.me := by
    rw [← hs₁]
    exact ⟨rfl, rfl⟩
  have hunknown₁ : isUnknown s₁ p = true := by
    unfold isUnknown at hunknown ⊢
    rwa [hrooms.1]
  have hmy₁ : ServerTree.myConnect s₁ p = true := by
    unfold ServerTree.myConnect at hmy ⊢
    rwa [hrooms.1]
  have h₂ := modifyId_inv s₁ h₁ p id (unregistered_of_unknown s₁ p hunknown₁).1
  have hstatus := modifyId_status s₁ p p id
  have h₃ : Inv (hashAddId (modifyId s₁ p id) p) := tables_inv _ _ _ h₂
  have hreached : Reached (hashAddId (modifyId s₁ p id) p) p := by
    refine reached_own _ p h₃ ?_ ?_
    · exact hstatus.2.2.2.1.trans hmy₁
    · show (s₁.node p).servptr = s₁.me
      rw [hself, hrooms.2]
  have h₄ := enlistClient_inv _ p h₃ (hstatus.1.trans hunknown₁) hreached
  have h₅ := frame_inv _ h₄ (s.unknownList.erase p) (p :: s.localClientList) s.extra
    (registerLocalUser s p id profile).sent
  have heq : registerLocalUser s p id profile =
      { enlistClient (setStatus (hashAddId (modifyId s₁ p id) p) p .client) p with
        unknownList := s.unknownList.erase p
        localClientList := p :: s.localClientList
        extra := s.extra
        sent := (registerLocalUser s p id profile).sent } := by
    rw [← hs₁]
    rfl
  rw [heq]
  exact h₅

/-- The client that registers, before it is in the hash of the identifiers. -/
def identified (id : CStr) (profile : Profile) : Net :=
  setStatus (modifyId (modifyNode s p fun n => { n with servptr := s.me, profile := profile }) p id)
    p .client

theorem identified_named (h : Inv s) (hn : Named s) (hp : unregistered s p = true) (id : CStr)
    (hid : id ≠ []) (profile : Profile) :
    Named (identified s p id profile) ∧ Off (identified s p id profile).idTable p ∧
      known (identified s p id profile) p = true ∧ idOf (identified s p id profile) p ≠ [] ∧
      isUnknown (identified s p id profile) p = false := by
  obtain ⟨hunknown, -⟩ := unregistered_iff s p hp
  have hne := unknown_ne_me s p h (known_of_isUnknown s p hunknown)
  unfold identified
  generalize hs₁ : modifyNode s p (fun n => { n with servptr := s.me, profile := profile }) = s₁
  have hn₁ : Named s₁ := by
    rw [← hs₁]
    exact node_named s _ hn
  have hrooms : s₁.rooms = s.rooms ∧ s₁.me = s.me := by
    rw [← hs₁]
    exact ⟨rfl, rfl⟩
  have hunknown₁ : isUnknown s₁ p = true := by
    unfold isUnknown at hunknown ⊢
    rwa [hrooms.1]
  have hknown₁ := known_of_isUnknown s₁ p hunknown₁
  rw [← hrooms.2] at hne
  have hoff := hn₁.pending p hunknown₁
  have hgood : Good (modifyId s₁ p id).rooms :=
    modifyClient_good s₁.rooms (by rw [hrooms.1]; exact h.placed.good) p _
      (unregistered_of_unknown s₁ p hunknown₁).1 (fun _ => rfl)
  have hstatus := modifyId_status s₁ p p id
  have hunknown₂ := hstatus.1.trans hunknown₁
  obtain ⟨-, -, hknown, hids, -, -⟩ := setStatus_spec (modifyId s₁ p id) p hgood .client hunknown₂
  refine ⟨setStatus_named _ p (modifyId_named s₁ hn₁ p id hoff) hgood .client hunknown₂, hoff,
    (hknown p).trans (hstatus.2.1.trans hknown₁), ?_, registered _ p hgood .client (by simp) hunknown₂⟩
  rw [(hids p).2.1]
  exact modifyId_id s₁ p hknown₁ hne id hid

theorem registerLocalUser_named (h : Inv s) (hn : Named s) (hp : unregistered s p = true)
    (id : CStr) (hid : id ≠ []) (profile : Profile) : Named (registerLocalUser s p id profile) := by
  obtain ⟨hn₁, hoff, hknown, hid₁, hunknown⟩ := identified_named s p h hn hp id hid profile
  obtain ⟨hn₂, -⟩ := hashAddId_named _ hn₁ p hoff hknown hid₁ hunknown
  rw [identified, ← setStatus_hashAddId] at hn₂
  exact lists_named _ (registerLocalUser s p id profile) hn₂ rfl rfl ⟨rfl, rfl⟩ ⟨rfl, rfl⟩ rfl

/-- The client that a server introduces, with its names and its place in the tree. -/
def introduced (s : Net) (source p : ClientPtr) (name id : CStr) (f : Node → Node) : Net :=
  modifyId (modifyName (modifyNode (makeClient s p (some (fromOf s source))) p f) p name) p id

section Introduced

variable (source : ClientPtr) (name id : CStr) (f : Node → Node)

/-- Who introduces is a server, and what it introduces is put behind it. -/
theorem introduced_inv (h : Inv s) (hsource : isServer s source = true) (hfresh : fresh s p = true)
    (hservptr : ∀ n, (f n).servptr = source) (hclients : ∀ n, (f n).clientList = n.clientList)
    (hservers : ∀ n, (f n).serverList = n.serverList) (hclosing : ∀ n, (f n).closing = n.closing) :
    Inv (introduced s source p name id f) ∧ isUnknown (introduced s source p name id f) p = true ∧
      Reached (introduced s source p name id f) p ∧
      ServerTree.myConnect (introduced s source p name id f) p = false := by
  obtain ⟨hnone, hne, -⟩ := (fresh_iff s p).mp hfresh
  obtain ⟨hother, hself, -, -⟩ := makeClient_spec s p (some (fromOf s source)) hnone
  have hfields := makeClient_fields s p (some (fromOf s source)) _ rfl
  have h₁ := makeClient_inv s p h (some (fromOf s source)) hfresh
  unfold introduced
  generalize makeClient s p (some (fromOf s source)) = s₁ at *
  have hunknown₁ : isUnknown s₁ p = true := (isUnknown_iff s₁ p).mpr ⟨_, hself, rfl⟩
  have h₂ := unknownNode_inv s₁ p h₁ hunknown₁ f (hclients _) (hservers _) (hclosing _)
  have h₃ := modifyName_inv _ h₂ p name
  have hname := modifyName_status (modifyNode s₁ p f) p p name
  have hunknown₃ : isUnknown (modifyName (modifyNode s₁ p f) p name) p = true := hname.1.trans hunknown₁
  have h₄ := modifyId_inv _ h₃ p id (unregistered_of_unknown _ p hunknown₃).1
  have hid := modifyId_status (modifyName (modifyNode s₁ p f) p name) p p id
  have hmy₁ : ServerTree.myConnect s₁ p = false := by
    unfold ServerTree.myConnect MemberLists.myConnect
    rw [hself]
    rfl
  have hmy : ServerTree.myConnect (modifyId (modifyName (modifyNode s₁ p f) p name) p id) p = false :=
    hid.2.2.2.1.trans (hname.2.2.2.1.trans hmy₁)
  have hsp : source ≠ p := by
    rintro rfl
    obtain ⟨c, hc, -⟩ := (isServer_iff s source).mp hsource
    rw [hnone] at hc
    simp at hc
  have hsme : source ≠ s.me := by
    rintro rfl
    obtain ⟨c, hc, -⟩ := (isServer_iff s s.me).mp hsource
    rw [h.placed.rootless] at hc
    simp at hc
  have hnode : ((modifyId (modifyName (modifyNode s₁ p f) p name) p id).node p).servptr = source := by
    show (update s₁.node p (f (s₁.node p)) p).servptr = source
    rw [update_self, hservptr]
  refine ⟨h₄, hid.1.trans hunknown₃, Or.inr ⟨?_, ?_, ?_, hmy⟩, hmy⟩
  · rw [hnode]
    show source ≠ s₁.me
    rw [hfields.2.2.1]
    exact hsme
  · rw [hnode, serverParent_ne_none]
    have hs := (modifyName_status (modifyNode s₁ p f) p source name).2.2.1
    have hs' := (modifyId_status (modifyName (modifyNode s₁ p f) p name) p source id).2.2.1
    rw [← serverParent_ne_none, hs', hs, serverParent_ne_none]
    show isServer s₁ source = true
    unfold isServer
    rw [hother source hsp]
    exact hsource
  · have hs := (modifyName_status (modifyNode s₁ p f) p source name).2.2.2.2.1
    have hs' := (modifyId_status (modifyName (modifyNode s₁ p f) p name) p source id).2.2.2.2
    rw [hnode, hs', hs, hid.2.2.2.2, hname.2.2.2.2.1]
    show fromOf s₁ p = fromOf s₁ source
    unfold fromOf
    rw [hself, hother source hsp]
    rfl

theorem introduced_named (h : Named s) (hfresh : fresh s p = true) (hname : name ≠ []) (hid : id ≠ []) :
    Named (introduced s source p name id f) ∧ Off (introduced s source p name id f).clientTable p ∧
      Off (introduced s source p name id f).idTable p ∧
      known (introduced s source p name id f) p = true ∧
      nameOf (introduced s source p name id f) p ≠ [] ∧
      idOf (introduced s source p name id f) p ≠ [] := by
  obtain ⟨hnone, hne, -⟩ := (fresh_iff s p).mp hfresh
  obtain ⟨-, hself, -, -⟩ := makeClient_spec s p (some (fromOf s source)) hnone
  have hfields := makeClient_fields s p (some (fromOf s source)) _ rfl
  obtain ⟨hn₁, hoff, hoff'⟩ := makeClient_named s p h (some (fromOf s source)) hfresh
  unfold introduced
  generalize makeClient s p (some (fromOf s source)) = s₁ at *
  have hknown₁ : known s₁ p = true := (known_iff s₁ p).mpr ⟨_, hself⟩
  have hne₁ : p ≠ s₁.me := by
    rw [hfields.2.2.1]
    exact hne
  have hn₂ := node_named s₁ (update s₁.node p (f (s₁.node p))) hn₁
  have hn₃ := modifyName_named (modifyNode s₁ p f) hn₂ p name hoff
  have hknown₃ := (modifyName_status (modifyNode s₁ p f) p p name).2.1.trans hknown₁
  refine ⟨modifyId_named _ hn₃ p id hoff', hoff, hoff', ?_, ?_, ?_⟩
  · exact (modifyId_status _ p p id).2.1.trans hknown₃
  · rw [modifyId_name]
    exact modifyName_name _ p hknown₁ hne₁ name hname
  · exact modifyId_id _ p hknown₃ hne₁ id hid

theorem setServerGecos_fields (n : Node) (info : CStr) :
    (setServerGecos n info).clientList = n.clientList ∧
      (setServerGecos n info).serverList = n.serverList ∧
      (setServerGecos n info).closing = n.closing ∧ (setServerGecos n info).servptr = n.servptr ∧
      (setServerGecos n info).outbound = n.outbound := by
  unfold setServerGecos
  split
  exact ⟨rfl, rfl, rfl, rfl, rfl⟩

theorem uidFromServer_eq (hopcount : ℕ) (profile : Profile) :
    uidFromServer s source p name hopcount id profile = introduceClient (enlistClient (setStatus
      (hashAddId (hashAddClient (introduced s source p name id (fun n =>
        { n with servptr := source, hopcount := hopcount, profile := profile })) p) p) p .client) p) p :=
  rfl

theorem uidFromServer_inv (h : Inv s) (hsource : isServer s source = true)
    (hfresh : fresh s p = true) (hopcount : ℕ) (profile : Profile) :
    Inv (uidFromServer s source p name hopcount id profile) := by
  rw [uidFromServer_eq]
  obtain ⟨h₁, hunknown, hreached, -⟩ := introduced_inv s p source name id
    (fun n => { n with servptr := source, hopcount := hopcount, profile := profile }) h hsource hfresh
    (fun _ => rfl) (fun _ => rfl) (fun _ => rfl) (fun _ => rfl)
  generalize introduced s source p name id _ = s₁ at *
  have h₂ : Inv (hashAddId (hashAddClient s₁ p) p) :=
    tables_inv s₁ (hashAddClient s₁ p).clientTable (hashAddId (hashAddClient s₁ p) p).idTable h₁
  have h₃ := enlistClient_inv _ p h₂ hunknown hreached
  exact frame_inv _ h₃ s₁.unknownList s₁.localClientList s₁.extra _

theorem introduced_hashable (h : Inv s) (hn : Named s) (hsource : isServer s source = true)
    (hfresh : fresh s p = true) (hname : name ≠ []) (hid : id ≠ [])
    (hservptr : ∀ n, (f n).servptr = source) (hclients : ∀ n, (f n).clientList = n.clientList)
    (hservers : ∀ n, (f n).serverList = n.serverList) (hclosing : ∀ n, (f n).closing = n.closing)
    (status : Status) (hstatus : status ≠ .unknown) :
    Hashable (setStatus (introduced s source p name id f) p status) p := by
  obtain ⟨h₁, hunknown, -, -⟩ := introduced_inv s p source name id f h hsource hfresh hservptr
    hclients hservers hclosing
  obtain ⟨hn₁, hoff, hoff', hknown, hname', hid'⟩ := introduced_named s p source name id f hn hfresh
    hname hid
  generalize introduced s source p name id f = s₁ at *
  obtain ⟨-, -, hknown₂, hsame, -, -⟩ := setStatus_spec s₁ p h₁.placed.good status hunknown
  exact ⟨setStatus_named s₁ p hn₁ h₁.placed.good status hunknown, hoff, hoff',
    (hknown₂ p).trans hknown, registered s₁ p h₁.placed.good status hstatus hunknown,
    by rw [(hsame p).1]; exact hname', by rw [(hsame p).2.1]; exact hid'⟩

theorem uidFromServer_named (h : Inv s) (hn : Named s) (hsource : isServer s source = true)
    (hfresh : fresh s p = true) (hname : name ≠ []) (hid : id ≠ []) (hopcount : ℕ)
    (profile : Profile) : Named (uidFromServer s source p name hopcount id profile) := by
  have hready := introduced_hashable s p source name id
    (fun n => { n with servptr := source, hopcount := hopcount, profile := profile }) h hn hsource
    hfresh hname hid (fun _ => rfl) (fun _ => rfl) (fun _ => rfl) (fun _ => rfl) .client (by simp)
  rw [uidFromServer_eq, setStatus_hashAddId, setStatus_hashAddClient]
  exact lists_named _ _ (hashAdd_named _ p hready) rfl rfl ⟨rfl, rfl⟩ ⟨rfl, rfl⟩ rfl

/-- The server that a server introduces, before it is announced. -/
def introducedServer (s : Net) (source p : ClientPtr) (name : CStr) (hopcount : ℕ) (id info : CStr) :
    Net :=
  hashAddId (hashAddClient (enlistServer (setStatus (introduced s source p name id (fun n =>
    { setServerGecos n info with hopcount := hopcount, servptr := source })) p .server) p) p) p

theorem msSid_eq (hopcount : ℕ) (info : CStr) : ∃ sent,
    msSid s source p name hopcount id info =
      { introducedServer s source p name hopcount id info with sent := sent } := ⟨_, rfl⟩

theorem msSid_inv (h : Inv s) (hsource : isServer s source = true) (hfresh : fresh s p = true)
    (hopcount : ℕ) (info : CStr) : Inv (msSid s source p name hopcount id info) := by
  obtain ⟨sent, heq⟩ := msSid_eq s p source name id hopcount info
  rw [heq]
  unfold introducedServer
  obtain ⟨h₁, hunknown, hreached, hmy⟩ := introduced_inv s p source name id
    (fun n => { setServerGecos n info with hopcount := hopcount, servptr := source }) h hsource hfresh
    (fun _ => rfl) (fun n => (setServerGecos_fields n info).1)
    (fun n => (setServerGecos_fields n info).2.1) (fun n => (setServerGecos_fields n info).2.2.1)
  generalize introduced s source p name id _ = s₁ at *
  have h₂ := enlistServer_inv s₁ p h₁ hunknown hreached s₁.localServerList (by rw [hmy]; rfl)
  have h₃ := tables_inv _
    (hashAddClient (enlistServer (setStatus s₁ p .server) p) p).clientTable
    (hashAddId (hashAddClient (enlistServer (setStatus s₁ p .server) p) p) p).idTable h₂
  exact frame_inv _ h₃ s₁.unknownList s₁.localClientList s₁.extra sent

theorem msSid_named (h : Inv s) (hn : Named s) (hsource : isServer s source = true)
    (hfresh : fresh s p = true) (hname : name ≠ []) (hid : id ≠ []) (hopcount : ℕ) (info : CStr) :
    Named (msSid s source p name hopcount id info) := by
  have hready := introduced_hashable s p source name id
    (fun n => { setServerGecos n info with hopcount := hopcount, servptr := source }) h hn hsource
    hfresh hname hid (fun _ => rfl) (fun n => (setServerGecos_fields n info).1)
    (fun n => (setServerGecos_fields n info).2.1) (fun n => (setServerGecos_fields n info).2.2.1)
    .server (by simp)
  obtain ⟨sent, heq⟩ := msSid_eq s p source name id hopcount info
  rw [heq]
  exact lists_named _ _ (hashAdd_named _ p hready) rfl rfl ⟨rfl, rfl⟩ ⟨rfl, rfl⟩ rfl

end Introduced

end Handlers

end IrcdHybrid.ServerSteps
