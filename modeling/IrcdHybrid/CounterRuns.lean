import IrcdHybrid.GlobalCounters

/-!
Runs of a server with its counters. What happens to the lists alone changes nobody that is counted;
every other step moves the counters by as much as it changes.
-/

namespace IrcdHybrid.CounterRuns

open CString HashChains RoomHeads MemberLists MemberInvariant ServerTree ServerBurst ServerEvents
open ServerInvariant ServerComing Exits ServerSteps ServerRuns UserModes Tallies GlobalCounters
open Function

/-- The users are the same, and nobody waits that did not before, except one who is made. -/
structure Kept (e : ServerEvents.Event) (s s' : Net) : Prop where
  client : ∀ q, isClient s'.rooms q = isClient s.rooms q
  connection : ∀ q, isClient s.rooms q = true → ServerTree.myConnect s' q = ServerTree.myConnect s q
  unknown : ∀ q, isUnknown s' q = true → isUnknown s q = true ∨ ∀ user, made user e q = blankUser
  users : ∀ q, isClient s.rooms q = true → ∀ user, made user e q = user q

section Kept

variable (e : ServerEvents.Event) (s s' : Net)

/-- Who is not made is the one it was. -/
def Plain : Prop := ∀ user, made user e = user

theorem kept_of_standing (he : Plain e)
    (h : ∀ p, (s'.rooms.clients p).map standing = (s.rooms.clients p).map standing) :
    Kept e s s' := by
  have hsame := same_standing s s'.rooms h
  refine ⟨fun q => (hsame q).1, fun q _ => (hsame q).2.2.2.2.1, fun q hq => Or.inl ?_,
    fun q _ user => by rw [he user]⟩
  rw [← (hsame q).2.2.1]
  exact hq

theorem kept_of_rooms (he : Plain e) (h : s'.rooms = s.rooms) : Kept e s s' :=
  kept_of_standing e s s' he fun p => by rw [h]

theorem kept_of_heads (he : Plain e) (h : SameHeads s.rooms s'.rooms) : Kept e s s' :=
  kept_of_standing e s s' he (heads_read s s'.rooms h standing
    (fun x => (x.2.2.1, x.2.2.2.1, x.2.2.2.2)) fun _ => rfl)

theorem kept_trans (s'' : Net) (he : Plain e) (h : Kept e s s') (h' : Kept e s' s'') :
    Kept e s s'' := by
  have hnone : ∀ q, ¬ ((∀ user, made user e q = blankUser)) := by
    intro q hq
    have hfalse := hq fun _ => ⟨∅, true, false, false⟩
    rw [he] at hfalse
    have hhandler := congrArg User.operHandler hfalse
    simp [blankUser] at hhandler
  refine ⟨fun q => (h'.client q).trans (h.client q), fun q hq => ?_, fun q hq => ?_, h.users⟩
  · rw [h'.connection q ((h.client q).trans hq)]
    exact h.connection q hq
  · have hmid := (h'.unknown q hq).resolve_right (hnone q)
    exact h.unknown q hmid

/-- What is only another state of one who is no user, before and after. -/
theorem kept_of_other (p : ClientPtr) (he : ∀ user q, q ≠ p → made user e q = user q)
    (hother : ∀ q, q ≠ p → s'.rooms.clients q = s.rooms.clients q)
    (hbefore : isClient s.rooms p = false) (hafter : isClient s'.rooms p = false)
    (hunknown : isUnknown s' p = true → isUnknown s p = true) : Kept e s s' := by
  have hne : ∀ q, isClient s.rooms q = true → q ≠ p := by
    rintro q hq rfl
    rw [hbefore] at hq
    simp at hq
  refine ⟨fun q => ?_, fun q hq => ?_, fun q hq => Or.inl ?_, fun q hq user => he user q (hne q hq)⟩
  · by_cases hqp : q = p
    · rw [hqp, hbefore, hafter]
    · unfold isClient
      rw [hother q hqp]
  · unfold ServerTree.myConnect MemberLists.myConnect
    rw [hother q (hne q hq)]
  · by_cases hqp : q = p
    · rw [hqp] at hq ⊢
      exact hunknown hq
    · unfold isUnknown at hq ⊢
      rwa [hother q hqp] at hq

theorem kept_made (p : ClientPtr) (hp : fresh s p = true)
    (he : ∀ user, made user e = update user p blankUser)
    (h : ∀ q, (s'.rooms.clients q).map standing =
      ((makeClient s p none).rooms.clients q).map standing) : Kept e s s' := by
  obtain ⟨hnone, -, -⟩ := (fresh_iff s p).mp hp
  obtain ⟨hother, -, hclient, -⟩ := makeClient_spec s p none hnone
  obtain ⟨hnot, -, -⟩ := unregistered_of_none s p hnone
  have hsame := same_standing (makeClient s p none) s'.rooms h
  have hne : ∀ q, isClient s.rooms q = true → q ≠ p := by
    rintro q hq rfl
    rw [hnot] at hq
    simp at hq
  refine ⟨fun q => ?_, fun q hq => ?_, fun q hq => ?_, fun q hq user => ?_⟩
  · rw [(hsame q).1, hclient]
  · have hmy : ServerTree.myConnect (onRooms (makeClient s p none) s'.rooms) q =
        ServerTree.myConnect (makeClient s p none) q := (hsame q).2.2.2.2.1
    show ServerTree.myConnect (onRooms (makeClient s p none) s'.rooms) q = _
    rw [hmy]
    unfold ServerTree.myConnect MemberLists.myConnect
    rw [hother q (hne q hq)]
  · by_cases hqp : q = p
    · refine Or.inr fun user => ?_
      rw [he user, hqp, update_self]
    · refine Or.inl ?_
      have hun : isUnknown (makeClient s p none) q = true := by
        rw [← (hsame q).2.2.1]
        exact hq
      unfold isUnknown at hun ⊢
      rwa [hother q hqp] at hun
  · rw [he user, update_of_ne (hne q hq)]

end Kept

section Lists

variable (conf : ServerTree.Conf) (s : Net) (p : ClientPtr)

theorem setInitialNick_standing (nick : CStr) (q : ClientPtr) :
    ((setInitialNick s p nick).rooms.clients q).map standing =
      (s.rooms.clients q).map standing := by
  have hmodify := modifyClient_standing s p
    (fun c => { c with name := strlcpy nick (BanMask.HOSTLEN + 1) }) (fun _ => rfl) q
  unfold setInitialNick
  dsimp only
  split
  · exact hmodify
  · exact hmodify

theorem changeNick_standing (nick : CStr) (q : ClientPtr) :
    ((changeNick conf s p nick).rooms.clients q).map standing =
      (s.rooms.clients q).map standing := by
  have hwhowas : (whowasAddHistory conf.env s.rooms p true).clients = s.rooms.clients := by
    unfold whowasAddHistory
    split <;> rfl
  have hmodify := modifyClient_standing
    (hashDelClient { s with rooms := whowasAddHistory conf.env s.rooms p true } p) p
    (fun c => { c with name := strlcpy nick (BanMask.HOSTLEN + 1) }) (fun _ => rfl) q
  have hrooms : (hashDelClient { s with rooms := whowasAddHistory conf.env s.rooms p true }
      p).rooms.clients = s.rooms.clients := hwhowas
  rw [hrooms] at hmodify
  exact hmodify

/-- A connection that becomes a server, or is closed as one too many. -/
theorem serverEstab_kept (e : ServerEvents.Event) (he : Plain e) (h : Inv s)
    (hp : unregistered s p = true) : Kept e s (serverEstab conf s p) := by
  obtain ⟨hunknown, -⟩ := unregistered_iff s p hp
  have hknown := known_of_isUnknown s p hunknown
  obtain ⟨hclient, hserver⟩ := unregistered_of_unknown s p hunknown
  by_cases hleaf : (!conf.hub && decide (s.localServerList ≠ [])) = true
  · unfold serverEstab
    rw [if_pos hleaf]
    generalize "I'm a leaf not a hub".toList = comment
    obtain ⟨s₀, removed, hshut, hexited, -, hmem⟩ :=
      ClientExit.exitClient_exited conf s p comment h hknown
    have honly : ∀ q, q ∈ removed ↔ q = p := by
      intro q
      rw [hmem q]
      exact or_iff_left (Forest.not_below _ q p (ClientExit.leaf_of_not_server p s h.placed hknown
        hserver))
    have hself := (exited_status s₀ _ removed hexited.rooms p).1 ((honly p).mpr rfl)
    refine kept_of_other e s _ p (fun user q _ => by rw [he user]) (fun q hq => ?_) hclient hself.1 fun hq => ?_
    · rw [hexited.rooms.clients q, if_neg (mt (honly q).mp hq), hshut.rooms]
    · rw [hself.2.2.1] at hq
      simp at hq
  · rw [LinkEstab.serverEstab_eq conf s p (by simpa using hleaf) (h.opened p hknown)]
    obtain ⟨items, heq, -⟩ := LinkEstab.linked_told conf s p h hp
    rw [heq]
    obtain ⟨h₁, hunknown₁, -, -⟩ := LinkEstab.greeted_inv conf s p h hp
    obtain ⟨hrooms, -⟩ := LinkEstab.greeted_fields conf s p
    obtain ⟨-, hother, -, -, -, -⟩ :=
      setStatus_spec (LinkEstab.greeted conf s p) p h₁.placed.good .server hunknown₁
    have hclient' := (LinkEstab.linked_status conf s p h hp p).1
    rw [hclient] at hclient'
    refine kept_of_other e s _ p (fun user q _ => by rw [he user]) (fun q hq => ?_) hclient hclient' fun _ => hunknown
    have hq' := hother q hq
    rw [hrooms] at hq'
    exact hq'

theorem mrServer_kept (e : ServerEvents.Event) (he : Plain e) (h : Inv s)
    (hp : unregistered s p = true) (name : CStr) (hopcount : ℕ) (info : CStr) :
    Kept e s (mrServer conf s p name hopcount info) := by
  obtain ⟨h₁, hp₁⟩ := renamed_inv s p name hopcount info h hp
  have hrenamed : Kept e s (renamed s p name hopcount info) :=
    kept_of_standing e s _ he fun q => modifyClient_standing s p
      (fun c => { c with name := strlcpy name (BanMask.HOSTLEN + 1) }) (fun _ => rfl) q
  exact kept_trans e s _ _ he hrenamed (serverEstab_kept conf _ p e he h₁ hp₁)

theorem introduced_rooms (source : ClientPtr) (name id : CStr) (f : Node → Node) (status : Status)
    (hfresh : fresh s p = true) :
    (∀ q, q ≠ p → (setStatus (introduced s source p name id f) p status).rooms.clients q =
        s.rooms.clients q) ∧
      ((setStatus (introduced s source p name id f) p status).rooms.clients p).map standing =
        some (status, false, fromOf s source) := by
  obtain ⟨hnone, -, -⟩ := (fresh_iff s p).mp hfresh
  obtain ⟨hother, hself, -, -⟩ := makeClient_spec s p (some (fromOf s source)) hnone
  unfold introduced
  constructor
  · intro q hq
    rw [← hother q hq]
    show (modifyClient (modifyClient (modifyClient _ p _) p _) p _).clients q = _
    rw [modifyClient_of_ne _ _ _ _ hq, modifyClient_of_ne _ _ _ _ hq, modifyClient_of_ne _ _ _ _ hq]
    rfl
  · show ((modifyClient (modifyClient (modifyClient _ p _) p _) p _).clients p).map standing = _
    rw [modifyClient_self, modifyClient_self, modifyClient_self]
    show ((((((makeClient s p (some (fromOf s source))).rooms.clients p).map _).map _).map _).map _) = _
    rw [hself]
    rfl

theorem msSid_kept (e : ServerEvents.Event)
    (he : ∀ user q, q ≠ p → made user e q = user q) (source : ClientPtr)
    (hfresh : fresh s p = true) (name : CStr) (hopcount : ℕ) (id info : CStr) :
    Kept e s (msSid s source p name hopcount id info) := by
  obtain ⟨sent, heq⟩ := msSid_eq s p source name id hopcount info
  rw [heq]
  obtain ⟨hother, hself⟩ := introduced_rooms s p source name id
    (fun n => { setServerGecos n info with hopcount := hopcount, servptr := source }) .server hfresh
  obtain ⟨hnone, -, -⟩ := (fresh_iff s p).mp hfresh
  have hrooms : ({ introducedServer s source p name hopcount id info with sent := sent } : Net).rooms =
      (setStatus (introduced s source p name id (fun n =>
        { setServerGecos n info with hopcount := hopcount, servptr := source })) p .server).rooms := rfl
  rw [← hrooms] at hother hself
  obtain ⟨c, hc, hstanding⟩ := Option.map_eq_some_iff.mp hself
  have hstatus : c.status = .server := congrArg Prod.fst hstanding
  refine kept_of_other e s _ p he hother (unregistered_of_none s p hnone).1 ?_ fun hq => ?_
  · unfold isClient
    rw [hc]
    dsimp only
    rw [hstatus]
    rfl
  · unfold isUnknown at hq
    rw [hc] at hq
    dsimp only at hq
    rw [hstatus] at hq
    simp at hq

end Lists


section Step

variable (conf : ServerTree.Conf) (s s' : Net) (e : ServerEvents.Event)

theorem looked_kept (s₁ : Net) (hlooked : Looked s s₁) (h : Kept e s₁ s') : Kept e s s' := by
  obtain ⟨clientTable, idTable, rfl⟩ := hlooked.same
  exact ⟨h.client, h.connection, h.unknown, h.users⟩

theorem handled_kept (h : Inv s) (hcounted : counted e = false)
    (hhandled : Handled conf s e s') : Kept e s s' := by
  cases hhandled with
  | nick p nick => exact kept_of_standing _ s _ (fun _ => rfl) (setInitialNick_standing s p nick)
  | user | uid => simp [counted] at hcounted
  | server p name hopcount info hp hname hid =>
    exact mrServer_kept conf s p _ (fun _ => rfl) h hp name hopcount info
  | sid source p name hopcount id info hsource hfresh hname hid =>
    refine msSid_kept s p _ (fun user q hq => ?_) source hfresh name hopcount id info
    exact update_of_ne hq _ _
  | changeNick p nick =>
    exact kept_of_standing _ s _ (fun _ => rfl) (changeNick_standing conf s p nick)

theorem quiet_kept (hquiet : quiet e = true) (h : Quiet s s') : Kept e s s' := by
  have hplain : Plain e := by
    cases e with
    | connect | servConnect | sid => simp [quiet] at hquiet
    | _ => exact fun _ => rfl
  cases h with
  | rooms rooms' hgood hsame => exact kept_of_heads _ s _ hplain hsame
  | looked _ hlooked =>
    obtain ⟨clientTable, idTable, rfl⟩ := hlooked.same
    exact kept_of_rooms _ s _ hplain rfl
  | node | extra | freed => exact kept_of_rooms _ s _ hplain rfl

theorem step_kept (h : Inv s) (hcounted : counted e = false)
    (hstep : ServerEvents.step conf s e = some s') : Kept e s s' := by
  cases e with
  | connect p =>
    obtain ⟨hfresh, rfl⟩ := (guarded_eq_some _ _ _).mp hstep
    exact kept_made _ s _ p hfresh (fun _ => rfl) fun _ => rfl
  | servConnect p name =>
    obtain ⟨hfresh, rfl⟩ := (guarded_eq_some _ _ _).mp hstep
    exact kept_made _ s _ p hfresh (fun _ => rfl) fun q => modifyClient_standing
      (makeClient s p none) p (fun c => { c with name := strlcpy name (BanMask.HOSTLEN + 1) })
      (fun _ => rfl) q
  | pass p id =>
    obtain ⟨-, rfl⟩ := (guarded_eq_some _ _ _).mp hstep
    exact kept_of_standing _ s _ (fun _ => rfl) fun q => modifyClient_standing s p
      (fun c => { c with id := strlcpy id (Channels.IDLEN + 1), id_len := List.length_take_le _ _ })
      (fun _ => rfl) q
  | nick | user | server | sid | uid | changeNick =>
    obtain ⟨s₁, hlooked, hhandled⟩ := handled_of_step conf s s' _ rfl hstep
    exact looked_kept s _ _ s₁ hlooked (handled_kept conf s₁ s' _ (hlooked.inv h) hcounted hhandled)
  | exit p comment => simp [counted] at hcounted
  | _ => exact quiet_kept s s' _ rfl (quiet_of_step conf s s' _ h.placed.good rfl hstep)

end Step

/-- The counters are right; who waits is not counted by its modes, and the handlers fit. -/
structure Exact (w : World) : Prop where
  inv : Inv w.net
  settled : Settled w
  waiting : ∀ p, isUnknown w.net p = true →
    .oper ∉ (w.user p).umodes ∧ .invisible ∉ (w.user p).umodes
  handled : ∀ p, isClient w.net.rooms p = true →
    (w.user p).operHandler = decide (.oper ∈ (w.user p).umodes)

theorem start_exact (hashfXorKey : BitVec 32) (me : ClientPtr) (meId meName meInfo : CStr) :
    Exact (GlobalCounters.start hashfXorKey me meId meName meInfo) := by
  have hnobody : ∀ k, {p | belongs (GlobalCounters.start hashfXorKey me meId meName meInfo) k p =
      true} = ∅ := by
    intro k
    ext p
    refine iff_of_false (fun hp => ?_) id
    have hclient : isClient (GlobalCounters.start hashfXorKey me meId meName meInfo).net.rooms p =
        false := rfl
    have hp' : belongs (GlobalCounters.start hashfXorKey me meId meName meInfo) k p = true := hp
    unfold belongs at hp'
    rw [hclient, Bool.false_and] at hp'
    simp at hp'
  refine ⟨start_inv hashfXorKey me meId meName meInfo, fun k => ?_, fun p _ => ?_, fun p _ => rfl⟩
  · rw [hnobody k]
    cases k <;> exact tally_empty
  · exact ⟨by simp [GlobalCounters.start, blankUser], by simp [GlobalCounters.start, blankUser]⟩

section Other

variable (conf : GlobalCounters.Conf) (w : World) (e : ServerEvents.Event)

theorem made_keepUmodes (user : ClientPtr → User) : made user (keepUmodes w e) = made user e := by
  cases e <;> rfl

theorem counted_keepUmodes : counted (keepUmodes w e) = counted e := by
  cases e <;> rfl

theorem made_cases (user : ClientPtr → User) (q : ClientPtr) :
    made user e q = user q ∨ made user e q = blankUser := by
  cases e with
  | connect p =>
    by_cases hq : q = p
    · exact Or.inr (by rw [hq]; exact update_self _ _ _)
    · exact Or.inl (update_of_ne hq _ _)
  | servConnect p name =>
    by_cases hq : q = p
    · exact Or.inr (by rw [hq]; exact update_self _ _ _)
    · exact Or.inl (update_of_ne hq _ _)
  | sid source p name hopcount id info =>
    by_cases hq : q = p
    · exact Or.inr (by rw [hq]; exact update_self _ _ _)
    · exact Or.inl (update_of_ne hq _ _)
  | _ => exact Or.inl rfl

theorem markService_modes (conf : GlobalCounters.Conf) (net : Net) (user : ClientPtr → User)
    (q : ClientPtr) : (markService conf net user e q).umodes = (user q).umodes ∧
      (markService conf net user e q).operHandler = (user q).operHandler := by
  have hadd : ∀ p, (addService conf net p user q).umodes = (user q).umodes ∧
      (addService conf net p user q).operHandler = (user q).operHandler := by
    intro p
    unfold addService
    split
    · by_cases hq : q = p
      · rw [hq, update_self]
        exact ⟨rfl, rfl⟩
      · rw [update_of_ne hq]
        exact ⟨rfl, rfl⟩
    · exact ⟨rfl, rfl⟩
  cases e with
  | server p name hopcount info => exact hadd p
  | sid source p name hopcount id info => exact hadd p
  | _ => exact ⟨rfl, rfl⟩

theorem other_exact (h : Exact w) (hcounted : counted e = false) (net : Net)
    (hstep : ServerEvents.step conf.net w.net (keepUmodes w e) = some net) :
    Exact { net := net, user := markService conf net (made w.user e) e, count := w.count } := by
  have hkept := step_kept conf.net w.net net (keepUmodes w e) h.inv
    ((counted_keepUmodes w e).trans hcounted) hstep
  have hinv := step_inv conf.net w.net net (keepUmodes w e) h.inv hstep
  have huser : ∀ q, isClient w.net.rooms q = true → made w.user e q = w.user q := by
    intro q hq
    rw [← made_keepUmodes w e]
    exact hkept.users q hq w.user
  have hmark := markService_modes e conf net (made w.user e)
  refine ⟨hinv, fun k => ?_, fun p hp => ?_, fun p hp => ?_⟩
  · refine tally_same _ _ _ (h.settled k) fun q => ?_
    show belongs _ k q = true ↔ belongs w k q = true
    unfold belongs
    dsimp only
    rw [hkept.client q]
    cases hq : isClient w.net.rooms q with
    | false => rfl
    | true =>
      rw [hkept.connection q hq]
      simp only [(hmark q).1, huser q hq]
  · simp only [(hmark p).1]
    rcases hkept.unknown p hp with hold | hblank
    · rcases made_cases e w.user p with hsame | hsame
      · rw [hsame]
        exact h.waiting p hold
      · rw [hsame]
        exact ⟨by simp [blankUser], by simp [blankUser]⟩
    · have hsame := hblank w.user
      rw [made_keepUmodes] at hsame
      rw [hsame]
      exact ⟨by simp [blankUser], by simp [blankUser]⟩
  · dsimp only at hp
    rw [hkept.client p] at hp
    simp only [(hmark p).1, (hmark p).2, huser p hp]
    exact h.handled p hp

end Other


section One

variable (conf : GlobalCounters.Conf) (w : World) (p : ClientPtr) (h : Exact w)

include h

/-- The lists may change where nobody is who else than before. -/
theorem net_exact (net : Net) (hinv : Inv net) (hrooms : net.rooms = w.net.rooms) :
    Exact { w with net := net } := by
  refine ⟨hinv, settled_same w _ h.settled hrooms rfl rfl, fun q hq => h.waiting q ?_,
    fun q hq => h.handled q ?_⟩
  · unfold isUnknown at hq ⊢
    rwa [← hrooms]
  · rwa [← hrooms]

theorem putClient_inv (c : UserModes.Client) : Inv (putClient w p c).net :=
  modifyNode_inv w.net h.inv p (fun n => { n with profile := { n.profile with
    umodes := umodesText c.umodes, account := c.account, host := c.host } }) (fun _ => rfl) rfl rfl rfl

theorem handler_exact (hclient : isClient w.net.rooms p = true) (c : UserModes.Client)
    (count : Counter) (hturned : Turned (clientOf w p) c w.count count)
    (hseen : Seen (clientOf w p) c w.count count) :
    Exact { putClient w p c with count := count } := by
  have huser : ∀ q, q ≠ p → (putClient w p c).user q = w.user q := fun q hq => update_of_ne hq _ _
  have hself : (putClient w p c).user p =
      ⟨c.umodes, c.operHandler, c.adminFlag, (w.user p).service⟩ := update_self _ _ _
  refine ⟨putClient_inv w p h c, settled_change w _ p h.settled (fun q hq k => ?_) fun k => ?_,
    fun q hq => ?_, fun q hq => ?_⟩
  · exact belongs_read w { putClient w p c with count := count } q rfl (huser q hq) k
  · have hoper := hturned.oper
    unfold Seen at hseen
    unfold belongs
    dsimp only
    have hrooms : (putClient w p c).net.rooms = w.net.rooms := rfl
    have hmy : ServerTree.myConnect (putClient w p c).net p = ServerTree.myConnect w.net p := rfl
    rw [hrooms, hclient, hmy, hself]
    cases k with
    | total => exact congrArg (· + _) hturned.total
    | localClients => exact congrArg (· + _) hturned.localClients
    | oper => exact hoper
    | invisi => exact hseen
  · have hunknown : isUnknown w.net q = true := hq
    have hne : q ≠ p := by
      rintro rfl
      rw [(unregistered_of_unknown w.net q hunknown).1] at hclient
      simp at hclient
    dsimp only
    rw [huser q hne]
    exact h.waiting q hunknown
  · have hq' : isClient w.net.rooms q = true := hq
    dsimp only
    by_cases hqp : q = p
    · rw [hqp, hself]
      exact hturned.handled (h.handled p hclient)
    · simp only [huser q hqp]
      exact h.handled q hq'

theorem setUserMode_exact (hclient : isClient w.net.rooms p = true) (modes : CStr) :
    Exact (GlobalCounters.setUserMode conf w p modes) := by
  obtain ⟨hturned, hseen⟩ := setUserMode_spec conf.user (clientOf w p) w.count modes
  exact handler_exact w p h hclient _ _ hturned hseen

/-- The handler of OPER is that of one who is no operator. -/
theorem operUp_exact (hclient : isClient w.net.rooms p = true)
    (hhandler : (w.user p).operHandler = false) (modes : Modes) (admin : Bool) :
    Exact (GlobalCounters.operUp conf w p modes admin) := by
  have hoper : .oper ∉ (clientOf w p).umodes := by
    have hfits := h.handled p hclient
    rw [hhandler] at hfits
    exact of_decide_eq_false hfits.symm
  obtain ⟨hturned, hseen⟩ := operUp_spec conf.user modes admin (clientOf w p) w.count hoper
  exact handler_exact w p h hclient _ _ hturned hseen

theorem msSvsmode_exact (hclient : isClient w.net.rooms p = true) (ts : ℤ) (modes : CStr)
    (extarg : Option CStr) (hkeeps : ¬ slips conf.user (clientOf w p) ts modes) :
    Exact (GlobalCounters.msSvsmode conf w p ts modes extarg) := by
  obtain ⟨hturned, hseen⟩ := msSvsmode_spec conf.user (clientOf w p) w.count ts modes extarg
  exact handler_exact w p h hclient _ _ hturned (hseen hkeeps)

/-- A connection that is not registered takes a mode that is not counted. -/
theorem webirc_exact (hunknown : isUnknown w.net p = true) :
    Exact (putClient w p { clientOf w p with umodes := insert .webirc (w.user p).umodes }) := by
  obtain ⟨hoper, hinvisi⟩ := h.waiting p hunknown
  have hclient := (unregistered_of_unknown w.net p hunknown).1
  generalize hc : ({ clientOf w p with umodes := insert .webirc (w.user p).umodes } :
    UserModes.Client) = c
  have humodes : c.umodes = insert .webirc (w.user p).umodes := by rw [← hc]
  have huser : ∀ q, q ≠ p → (putClient w p c).user q = w.user q := fun q hq => update_of_ne hq _ _
  refine ⟨putClient_inv w p h c, settled_change w _ p h.settled (fun q hq k => ?_) fun k => ?_,
    fun q hq => ?_, fun q hq => ?_⟩
  · exact belongs_read w (putClient w p c) q rfl (huser q hq) k
  · have hrooms : (putClient w p c).net.rooms = w.net.rooms := rfl
    unfold belongs
    rw [hrooms, hclient, Bool.false_and, Bool.false_and]
    rfl
  · by_cases hqp : q = p
    · have hself : ((putClient w p c).user p).umodes = c.umodes := by
        unfold putClient
        dsimp only
        rw [update_self]
      rw [hqp, hself, humodes]
      exact ⟨by simp [hoper], by simp [hinvisi]⟩
    · rw [huser q hqp]
      exact h.waiting q hq
  · have hq' : isClient w.net.rooms q = true := hq
    have hqp : q ≠ p := by
      rintro rfl
      rw [hclient] at hq'
      simp at hq'
    simp only [huser q hqp]
    exact h.handled q hq'

end One

section Exit

variable (conf : GlobalCounters.Conf) (comment : CStr)

theorem recurseRemoveClients_user (depth : ℕ) (w : World) (source : ClientPtr) :
    (GlobalCounters.recurseRemoveClients conf comment depth w source).user = w.user := by
  induction depth generalizing w source with
  | zero => rfl
  | succ depth ih =>
    have hwalk : ∀ (list : World → List ClientPtr) (body : World → ClientPtr → World)
        (v : World) (n : ℕ) (a : Option ClientPtr), (∀ u b, (body u b).user = u.user) →
        (Index.walk list body n v a).user = v.user := by
      intro list body v n a hbody
      refine Index.walk_keeps list body (fun u => u.user = v.user) (fun _ _ => True)
        (fun _ _ _ _ => trivial) (fun u b hu _ => ⟨(hbody u b).trans hu, fun _ => id⟩) n v a rfl
        fun _ _ => trivial
    unfold GlobalCounters.recurseRemoveClients
    dsimp only
    rw [hwalk, hwalk]
    · exact fun _ _ => rfl
    · exact fun u b => ih u b

theorem exitClient_user (w : World) (p : ClientPtr) :
    (GlobalCounters.exitClient conf w p comment).user = w.user := by
  have hrest : ∀ v : World, (GlobalCounters.exitRest conf v p comment).user = v.user := by
    intro v
    unfold GlobalCounters.exitRest
    split
    · show (GlobalCounters.recurseRemoveClients _ _ _ _ _).user = _
      rw [recurseRemoveClients_user]
      split <;> rfl
    · dsimp only
      split <;> rfl
  unfold GlobalCounters.exitClient
  split
  · split
    · rfl
    · exact hrest (GlobalCounters.closeLocal w p comment)
  · exact hrest w

theorem exit_exact (w : World) (p : ClientPtr) (h : Exact w) (hknown : known w.net p = true) :
    Exact (GlobalCounters.exitClient conf w p comment) := by
  have hsettled := exitClient_settled conf comment w p h.inv hknown h.settled
  have hnet := exitClient_net conf comment w p
  have huser := exitClient_user conf comment w p
  have hinv := ClientExit.exitClient_inv conf.net w.net p comment h.inv hknown
  obtain ⟨s₀, removed, hshut, hexited, -, -⟩ :=
    ClientExit.exitClient_exited conf.net w.net p comment h.inv hknown
  have hread : ∀ q, (isUnknown (GlobalCounters.exitClient conf w p comment).net q = true →
        isUnknown w.net q = true) ∧
      (isClient (GlobalCounters.exitClient conf w p comment).net.rooms q = true →
        isClient w.net.rooms q = true) := by
    intro q
    rw [hnet]
    obtain ⟨hgone, hstays⟩ := exited_status s₀ _ removed hexited.rooms q
    by_cases hq : q ∈ removed
    · rw [(hgone hq).1, (hgone hq).2.2.1]
      simp
    · rw [(hstays hq).1, (hstays hq).2.2.1]
      unfold isUnknown
      rw [hshut.rooms]
      exact ⟨id, id⟩
  refine ⟨?_, hsettled, fun q hq => ?_, fun q hq => ?_⟩
  · rw [hnet]
    exact hinv
  · rw [huser]
    exact h.waiting q ((hread q).1 hq)
  · rw [huser]
    exact h.handled q ((hread q).2 hq)

end Exit


section Arrival

variable (conf : GlobalCounters.Conf) (w : World) (p : ClientPtr) (h : Exact w)

include h

/-- One who was nobody is a user now, and is counted with the modes it comes with. -/
theorem arrival_exact (w' : World) (c : MemberLists.Client) (user : User) (hinv : Inv w'.net)
    (hother : ∀ q, q ≠ p → w'.net.rooms.clients q = w.net.rooms.clients q)
    (huser : w'.user = update w.user p user) (hbefore : isClient w.net.rooms p = false)
    (hself : w'.net.rooms.clients p = some c) (hstatus : c.status = .client)
    (hhandler : user.operHandler = decide (.oper ∈ user.umodes))
    (htotal : w'.count.total = w.count.total + 1)
    (hlocal : w'.count.localClients = w.count.localClients + bit c.myConnect)
    (hoper : w'.count.oper = w.count.oper + bit (decide (.oper ∈ user.umodes)))
    (hinvisi : w'.count.invisi =
      w.count.invisi + bit (decide (.invisible ∈ user.umodes))) : Exact w' := by
  have hclient : isClient w'.net.rooms p = true := (isClient_iff w'.net.rooms p).mpr ⟨c, hself, hstatus⟩
  have hmy : ServerTree.myConnect w'.net p = c.myConnect := by
    unfold ServerTree.myConnect MemberLists.myConnect
    rw [hself]
  have husers : ∀ q, q ≠ p → w'.user q = w.user q := by
    intro q hq
    rw [huser, update_of_ne hq]
  have huserp : w'.user p = user := by rw [huser, update_self]
  refine ⟨hinv, settled_change w w' p h.settled (fun q hq k => ?_) fun k => ?_, fun q hq => ?_,
    fun q hq => ?_⟩
  · exact belongs_read w w' q (by rw [hother q hq]) (husers q hq) k
  · unfold belongs
    rw [hbefore, hclient, hmy, huserp, Bool.false_and, Bool.true_and]
    cases k with
    | total => simp [reading, bit, htotal]
    | localClients => simp [reading, bit, hlocal]
    | oper => simp [reading, bit, hoper]
    | invisi => simp [reading, bit, hinvisi]
  · have hqp : q ≠ p := by
      rintro rfl
      rw [(unregistered_of_unknown w'.net q hq).1] at hclient
      simp at hclient
    rw [husers q hqp]
    refine h.waiting q ?_
    unfold isUnknown at hq ⊢
    rwa [hother q hqp] at hq
  · by_cases hqp : q = p
    · rw [hqp, huserp]
      exact hhandler
    · rw [husers q hqp]
      refine h.handled q ?_
      unfold isClient at hq ⊢
      rwa [hother q hqp] at hq

theorem registerLocalUser_exact (hp : unregistered w.net p = true) (id : CStr) (profile : Profile)
    (ssl : Bool) (refusal : Option CStr) :
    Exact (GlobalCounters.registerLocalUser conf w p id profile ssl refusal) := by
  obtain ⟨hunknown, hmy⟩ := unregistered_iff w.net p hp
  obtain ⟨hoper, hinvisi⟩ := h.waiting p hunknown
  have hbefore := (unregistered_of_unknown w.net p hunknown).1
  obtain ⟨c, hc, -⟩ := (isUnknown_iff w.net p).mp hunknown
  have hcmy : c.myConnect = true := by
    unfold ServerTree.myConnect MemberLists.myConnect at hmy
    rwa [hc] at hmy
  unfold GlobalCounters.registerLocalUser
  dsimp only
  generalize humodes : (if conf.user.invisibleOnConnect = true then
    insert UMode.invisible (w.user p).umodes else (w.user p).umodes) = umodes
  generalize hcount : (if conf.user.invisibleOnConnect = true then
    { w.count with invisi := w.count.invisi + 1 } else w.count) = count
  have hcounts : count.total = w.count.total ∧ count.localClients = w.count.localClients ∧
      count.oper = w.count.oper + bit (decide (.oper ∈ umodes)) ∧
      count.invisi = w.count.invisi + bit (decide (.invisible ∈ umodes)) := by
    rw [← humodes, ← hcount]
    split <;> simp [hoper, hinvisi, bit]
  obtain ⟨htotal, hlocal, hoper', hinvisi'⟩ := hcounts
  generalize ({ profile with umodes := umodesText umodes } : Profile) = profile
  generalize hw' : ({
    net := onTheLists w.net p id profile
    user := update w.user p
      { w.user p with umodes := umodes, operHandler := decide (.oper ∈ umodes) }
    count := { count with
      localClients := count.localClients + 1, total := count.total + 1 } } : World) = w'
  have hinv : Inv (onTheLists w.net p id profile) := by
    have hregistered := registerLocalUser_inv w.net p h.inv hp id profile
    exact frame_inv _ hregistered (onTheLists w.net p id profile).unknownList
      (onTheLists w.net p id profile).localClientList w.net.extra w.net.sent
  have hother : ∀ q, q ≠ p →
      (onTheLists w.net p id profile).rooms.clients q = w.net.rooms.clients q := by
    intro q hq
    show (modifyClient (modifyClient w.net.rooms p _) p _).clients q = _
    rw [modifyClient_of_ne _ _ _ _ hq, modifyClient_of_ne _ _ _ _ hq]
  have hself : (onTheLists w.net p id profile).rooms.clients p = some { c with
      id := strlcpy id (Channels.IDLEN + 1), id_len := List.length_take_le _ _
      status := .client } := by
    show (modifyClient (modifyClient w.net.rooms p _) p _).clients p = _
    rw [modifyClient_self, modifyClient_self, hc]
    rfl
  have hnow : Exact w' := by
    rw [← hw']
    refine arrival_exact w p h _ _ _ hinv hother rfl hbefore hself rfl rfl (congrArg (· + 1) htotal) ?_
      hoper' hinvisi'
    rw [hcmy]
    exact congrArg (· + 1) hlocal
  have hclient : isClient w'.net.rooms p = true := by
    rw [← hw']
    exact (isClient_iff _ p).mpr ⟨_, hself, rfl⟩
  cases refusal with
  | some comment =>
    exact exit_exact conf comment w' p hnow (known_of_isClient w'.net p hclient)
  | none =>
    have hintroduce : ∀ v : World, Exact v → Exact { v with net := introduceClient v.net p } :=
      fun v hv => net_exact v hv _ (frame_inv v.net hv.inv v.net.unknownList v.net.localClientList
        v.net.extra _) rfl
    dsimp only
    split
    · refine hintroduce _ ?_
      have hturned : Turned (clientOf w' p) { clientOf w' p with
          umodes := insert .ssl (clientOf w' p).umodes } w'.count w'.count :=
        turned_of_same _ _ _ rfl rfl (by simp)
      refine handler_exact w' p hnow hclient _ w'.count hturned ?_
      unfold Seen invisiBit
      simp
    · exact hintroduce w' hnow

theorem uid_exact (source : ClientPtr) (name : CStr) (hopcount : ℕ) (id umodes : CStr)
    (profile : Profile) (net : Net)
    (hstep : ServerEvents.step conf.net w.net
      (.uid source p name hopcount id profile) = some net) :
    Exact {
      net := net
      user := update w.user p ⟨(uidModes umodes w.count).1,
        decide (.oper ∈ (uidModes umodes w.count).1), false, (w.user source).service⟩
      count := { (uidModes umodes w.count).2 with
        total := (uidModes umodes w.count).2.total + 1 } } := by
  have hinv := step_inv conf.net w.net net _ h.inv hstep
  obtain ⟨s₁, hlooked, hhandled⟩ := handled_of_step conf.net w.net net _ rfl hstep
  obtain ⟨clientTable, idTable, hsame⟩ := hlooked.same
  have hrooms₁ : s₁.rooms = w.net.rooms := by rw [hsame]
  obtain ⟨htotal, hlocal, hoper, hinvisi⟩ := uidModes_introduced umodes w.count
  cases hhandled with
  | uid _ _ _ _ _ _ hsource hfresh hname hid =>
    obtain ⟨hother, hself⟩ := introduced_rooms s₁ p source name id (fun n =>
      { n with servptr := source, hopcount := hopcount, profile := profile }) .client hfresh
    obtain ⟨hnone, -, -⟩ := (fresh_iff s₁ p).mp hfresh
    rw [hrooms₁] at hother hnone
    obtain ⟨c, hc, hstanding⟩ := Option.map_eq_some_iff.mp hself
    have hstatus : c.status = .client := congrArg Prod.fst hstanding
    have hmy : c.myConnect = false := congrArg (fun x => x.2.1) hstanding
    refine arrival_exact w p h _ c _ hinv hother rfl (unregistered_of_none w.net p hnone).1 hc hstatus
      rfl (congrArg (· + 1) htotal) ?_ hoper hinvisi
    rw [hmy]
    show (uidModes umodes w.count).2.localClients = _
    simp [hlocal, bit]

end Arrival


/-- No SVSMODE takes a mode away that the counter does not follow. -/
def keeps (conf : GlobalCounters.Conf) (w : World) : GlobalCounters.Event → Prop
  | .svsmode _ p ts modes _ => ¬ slips conf.user (clientOf w p) ts modes
  | _ => True

theorem allowed_eq_some (b : Bool) (w w' : World) :
    allowed b w = some w' ↔ b = true ∧ w = w' := by
  unfold allowed
  cases b <;> simp

section Step

variable (conf : GlobalCounters.Conf) (w w' : World) (e : GlobalCounters.Event) (h : Exact w)

include h

theorem user_step (p : ClientPtr) (id : CStr) (profile : Profile) (ssl : Bool)
    (refusal : Option CStr)
    (hstep : GlobalCounters.step conf w (.user p id profile ssl refusal) = some w') :
    Exact w' := by
  obtain ⟨hguard, rfl⟩ := (allowed_eq_some _ _ _).mp hstep
  rw [Bool.and_eq_true, Bool.and_eq_true] at hguard
  have hlooked : Exact { w with net := (hashFindId w.net id).2 } :=
    net_exact w h _ ((looked_id w.net id).inv h.inv) rfl
  exact registerLocalUser_exact conf _ p hlooked hguard.1.1 id profile ssl refusal

theorem step_exact (hkeeps : keeps conf w e) (hstep : GlobalCounters.step conf w e = some w') :
    Exact w' := by
  cases e with
  | other e =>
    have hother : (if counted e = true then none
      else (ServerEvents.step conf.net w.net (keepUmodes w e)).map fun net =>
        ({ net := net, user := markService conf net (made w.user e) e, count := w.count } :
          World)) = some w' := hstep
    split at hother
    · simp at hother
    · next hcounted =>
      obtain ⟨net, hnet, rfl⟩ := Option.map_eq_some_iff.mp hother
      exact other_exact conf w e h (Bool.eq_false_iff.mpr hcounted) net hnet
  | webirc p =>
    obtain ⟨hp, rfl⟩ := (allowed_eq_some _ _ _).mp hstep
    exact webirc_exact w p h (unregistered_iff w.net p hp).1
  | user p id profile ssl refusal => exact user_step conf w w' h p id profile ssl refusal hstep
  | uid source p name hopcount id umodes profile =>
    obtain ⟨net, hnet, rfl⟩ := Option.map_eq_some_iff.mp hstep
    exact uid_exact conf w p h source name hopcount id umodes _ net hnet
  | mode p modes =>
    obtain ⟨hp, rfl⟩ := (allowed_eq_some _ _ _).mp hstep
    exact setUserMode_exact conf w p h hp modes
  | oper p modes admin =>
    obtain ⟨hguard, rfl⟩ := (allowed_eq_some _ _ _).mp hstep
    simp only [Bool.and_eq_true, Bool.not_eq_true'] at hguard
    exact operUp_exact conf w p h hguard.1.1 hguard.2 modes admin
  | svsmode source p ts modes extarg =>
    obtain ⟨hguard, rfl⟩ := (allowed_eq_some _ _ _).mp hstep
    rw [Bool.and_eq_true] at hguard
    exact msSvsmode_exact conf w p h hguard.2 ts modes extarg hkeeps
  | exit p comment =>
    obtain ⟨hknown, rfl⟩ := (allowed_eq_some _ _ _).mp hstep
    exact exit_exact conf comment w p h hknown

end Step

/-- One step, under whatever the configuration is by then. -/
def CountStep (w w' : World) : Prop := ∃ conf e, GlobalCounters.step conf w e = some w'

def KeptStep (w w' : World) : Prop :=
  ∃ conf e, keeps conf w e ∧ GlobalCounters.step conf w e = some w'

/-- The states that a server comes to from its start by such steps. -/
def From (steps : World → World → Prop) (w : World) : Prop :=
  ∃ hashfXorKey me meId meName meInfo, Relation.ReflTransGen steps
    (GlobalCounters.start hashfXorKey me meId meName meInfo) w

theorem from_exact (w : World) (h : From KeptStep w) : Exact w := by
  obtain ⟨hashfXorKey, me, meId, meName, meInfo, hrun⟩ := h
  induction hrun with
  | refl => exact start_exact hashfXorKey me meId meName meInfo
  | tail _ hstep ih =>
    obtain ⟨conf, e, hkeeps, hstep⟩ := hstep
    exact step_exact conf _ _ e ih hkeeps hstep

/-- The counters are the numbers of those that they stand for. -/
structure CountersExact (w : World) : Prop where
  total : Tally w.count.total {p | isClient w.net.rooms p = true}
  localClients : Tally w.count.localClients
    {p | isClient w.net.rooms p = true ∧ ServerTree.myConnect w.net p = true}
  oper : Tally w.count.oper {p | isClient w.net.rooms p = true ∧ .oper ∈ (w.user p).umodes}
  invisi : Tally w.count.invisi
    {p | isClient w.net.rooms p = true ∧ .invisible ∈ (w.user p).umodes}

/-- As long as no SVSMODE slips, the counters are exact in every state that a run comes to. -/
theorem global_counters (w : World) (h : From KeptStep w) : CountersExact w := by
  have hsettled := (from_exact w h).settled
  have hset : ∀ k (s : Set ClientPtr), (∀ p, belongs w k p = true ↔ p ∈ s) →
      Tally (reading w.count k) s := fun k s hs => tally_same _ _ _ (hsettled k) fun q => (hs q).symm
  refine ⟨hset .total _ fun p => ?_, hset .localClients _ fun p => ?_, hset .oper _ fun p => ?_,
    hset .invisi _ fun p => ?_⟩ <;> simp [belongs]

/-- No event is an SVSMODE. -/
def unserviced : GlobalCounters.Event → Bool
  | .svsmode .. => false
  | _ => true

/-- What a number of such events come to. -/
def runKept (conf : GlobalCounters.Conf) : List GlobalCounters.Event → World → Option World :=
  runAllowed (fun _ e => unserviced e = true) (GlobalCounters.step conf)

theorem runKept_steps (conf : GlobalCounters.Conf) : ∀ events w w',
    runKept conf events w = some w' → Relation.ReflTransGen KeptStep w w' := by
  refine runAllowed_steps _ _ _ fun w e w' hevent hstep => ⟨conf, e, ?_, hstep⟩
  cases e with
  | svsmode => simp [unserviced] at hevent
  | _ => trivial

/-- Everybody is invisible from the start, and `+i` is for operators only. -/
def strictConf : GlobalCounters.Conf where
  net := ⟨⟨0, false, 0, fun _ => none, fun _ => none⟩, false, true, "pw".toList, false⟩
  user := ⟨{.invisible, .debug}, {.servnotice}, true, by decide⟩
  services := fun name => decide (name = "services.net".toList)

def alone : World := GlobalCounters.start 0 0 "0AA".toList "me.net".toList "me".toList

/-- Services link, bob comes and becomes an operator. -/
def operEvents : List GlobalCounters.Event :=
  [.other (.connect 1), .other (.pass 1 "0SV".toList),
    .other (.server 1 "services.net".toList 1 "services".toList),
    .other (.connect 2), .other (.nick 2 "bob".toList),
    .user 2 "0AAAAAAAA".toList (blankProfile "bob".toList) false none, .oper 2 ∅ false]

theorem global_counters_bob : ∃ w, w.count = ⟨1, 1, 1, 1⟩ ∧ CountersExact w := by
  have hrun : (runKept strictConf operEvents alone).map World.count = some ⟨1, 1, 1, 1⟩ := by
    decide +kernel
  obtain ⟨w, hw, hcount⟩ := Option.map_eq_some_iff.mp hrun
  have hreach : From KeptStep w := ⟨0, 0, "0AA".toList, "me.net".toList, "me".toList,
    runKept_steps strictConf operEvents alone w hw⟩
  exact ⟨w, hcount, global_counters w hreach⟩

/-- Services take `+o` from bob. -/
def strip : GlobalCounters.Event := .svsmode 1 2 0 "-o".toList none

/-- Bob is invisible no more, but is still counted as one who is. -/
theorem svsmode_miscounts : ¬ ∀ w, From CountStep w → CountersExact w := by
  intro hall
  have hrun : ((runKept strictConf operEvents alone).bind fun v =>
      (GlobalCounters.step strictConf v strip).map fun w =>
        (v.net.globalClientList, isClient v.net.rooms 1, w.count.invisi,
          decide (.invisible ∈ (w.user 2).umodes))) = some ([2, 1], false, 1, false) := by
    decide +kernel
  obtain ⟨v, hv, hlast⟩ := Option.bind_eq_some_iff.mp hrun
  obtain ⟨w, hw, hview⟩ := Option.map_eq_some_iff.mp hlast
  simp only [Prod.mk.injEq, decide_eq_false_iff_not] at hview
  obtain ⟨hlist, hserver, hcount, hgone⟩ := hview
  have hbefore : From KeptStep v := ⟨0, 0, "0AA".toList, "me.net".toList, "me".toList,
    runKept_steps strictConf operEvents alone v hv⟩
  have hrun : Relation.ReflTransGen CountStep alone v :=
    (runKept_steps strictConf operEvents alone v hv).lift id fun _ _ ⟨conf, e, _, h⟩ => ⟨conf, e, h⟩
  have hafter : From CountStep w := ⟨0, 0, "0AA".toList, "me.net".toList, "me".toList,
    hrun.tail ⟨strictConf, strip, hw⟩⟩
  have hrooms : w.net.rooms = v.net.rooms := by
    obtain ⟨-, rfl⟩ := (allowed_eq_some _ _ _).mp hw
    rfl
  have hnobody : {p | isClient w.net.rooms p = true ∧ .invisible ∈ (w.user p).umodes} = ∅ := by
    ext p
    refine iff_of_false ?_ id
    rintro ⟨hclient, hinvisi⟩
    rw [hrooms] at hclient
    have hmem := (from_exact v hbefore).inv.placed.listed.mem_global p
    rw [clientParent_ne_none, hlist] at hmem
    have hp := hmem.mpr (Or.inl hclient)
    simp only [List.mem_cons, List.not_mem_nil, or_false] at hp
    rcases hp with rfl | rfl
    · exact hgone hinvisi
    · rw [hserver] at hclient
      simp at hclient
  obtain ⟨-, hexact⟩ := (hall w hafter).invisi
  rw [hnobody, hcount] at hexact
  simp at hexact

end IrcdHybrid.CounterRuns
