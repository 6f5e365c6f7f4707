import IrcdHybrid.BanLists

/-!
The cache of `can_send` says what the ban lists say, as long as no change of case in a
nick makes a difference to them. Every other change of the lists, of a nick or of a host
clears the caches it concerns, so that the answers are those of a server without a cache.
-/

namespace IrcdHybrid.BanCoherence

open CString BanMask Channels Sjoin ChannelMode BanCache BanLists
open ChannelTable hiding Step Reachable
open Function

/-- What is in a cache was looked up, for a local client that is on the channel. -/
structure Tidy (w : World) : Prop where
  checked : ∀ f id, (w.cache f id).silenced = true → (w.cache f id).checked = true
  present : ∀ f id, (w.cache f id).checked = true → isLocal w id = true ∧
    ∃ chptr, w.table f = some chptr ∧ chptr.isMember id = true

theorem isLocal_some (w : World) (id : CStr) (c : Client) (hc : w.clients id = some c) :
    isLocal w id = c.myClient := by
  unfold isLocal
  rw [hc, Option.any_some]

theorem setClient_self (w : World) (id : CStr) (c : Client) :
    (setClient w id c).clients id = some c := by
  unfold setClient
  exact update_self _ _ _

theorem setClient_other (w : World) (id id' : CStr) (c : Client) (h : id' ≠ id) :
    (setClient w id c).clients id' = w.clients id' := by
  unfold setClient
  exact update_of_ne h _ _

theorem exitClient_other (w : World) (id id' : CStr) (h : id' ≠ id) :
    (exitClient w id).clients id' = w.clients id' := by
  unfold exitClient
  exact update_of_ne h _ _

theorem clearBanCacheClient_cache (w : World) (id f id' : CStr) :
    (clearBanCacheClient w id).cache f id' = if id' = id then cleared else w.cache f id' := rfl

theorem clearBanCacheClient_coherent (w : World) (h : Coherent w) (id : CStr) :
    Coherent (clearBanCacheClient w id) ∧
      ∀ f, ((clearBanCacheClient w id).cache f id).checked = false := by
  refine ⟨fun f chptr id' c hchptr hmember hc hlocal hchecked => ?_, fun f => ?_⟩
  · rw [clearBanCacheClient_cache] at hchecked ⊢
    split at hchecked
    · exact absurd hchecked (by simp [cleared])
    · next hne =>
      rw [if_neg hne]
      exact h f chptr id' c hchptr hmember hc hlocal hchecked
  · rw [clearBanCacheClient_cache, if_pos rfl]
    rfl

section Steps

variable (w : World) (hw : Tidy w)

include hw

/-- What is left in a cache when the channels change was in it before, and not cleared. -/
theorem withTable_checked (table : Table) (clears : CStr → Bool) (f id : CStr)
    (h : ((withTable w table clears).cache f id).checked = true) :
    (withTable w table clears).cache f id = w.cache f id ∧ clears f = false ∧
      stays w.table table f id = true := by
  have hif : ((if !stays w.table table f id || (clears f && isLocal w id) then cleared
    else w.cache f id) : Cache).checked = true := h
  show (if !stays w.table table f id || (clears f && isLocal w id) then cleared
    else w.cache f id) = w.cache f id ∧ _
  split at hif
  · exact absurd hif (by simp [cleared])
  · next hnot =>
    rw [if_neg hnot]
    have hlocal := (hw.present f id hif).1
    rw [hlocal] at hnot
    simp only [Bool.and_true, Bool.or_eq_true, Bool.not_eq_true', not_or, Bool.not_eq_true,
      Bool.not_eq_false] at hnot
    exact ⟨rfl, hnot.2, hnot.1⟩

theorem withTable_tidy (table : Table) (clears : CStr → Bool) : Tidy (withTable w table clears) := by
  constructor
  · intro f id hsilenced
    have hif : ((if !stays w.table table f id || (clears f && isLocal w id) then cleared
      else w.cache f id) : Cache).silenced = true := hsilenced
    show ((if !stays w.table table f id || (clears f && isLocal w id) then cleared
      else w.cache f id) : Cache).checked = true
    split at hif
    · exact absurd hif (by simp [cleared])
    · next hnot =>
      rw [if_neg hnot]
      exact hw.checked f id hif
  · intro f id hchecked
    obtain ⟨hsame, _, hstays⟩ := withTable_checked w hw table clears f id hchecked
    rw [hsame] at hchecked
    refine ⟨(hw.present f id hchecked).1, ?_⟩
    unfold stays at hstays
    obtain ⟨_, hnew⟩ := Bool.and_eq_true_iff.mp hstays
    obtain ⟨chptr, hchptr, hmember⟩ := (Option.any_eq_true _ _).mp hnew
    exact ⟨chptr, hchptr, hmember⟩

theorem withTable_coherent (h : Coherent w) (table : Table) (clears : CStr → Bool)
    (hsame : ∀ f chptr chptr', w.table f = some chptr → table f = some chptr' →
      clears f = false → SameLists chptr chptr') : Coherent (withTable w table clears) := by
  intro f chptr' id c hnew hmember hc hlocal hchecked
  obtain ⟨hcache, hclears, _⟩ := withTable_checked w hw table clears f id hchecked
  rw [hcache] at hchecked ⊢
  obtain ⟨_, chptr, hold, hon⟩ := hw.present f id hchecked
  rw [(hsame f chptr chptr' hold hnew hclears).isBanned c]
  exact h f chptr id c hold hon hc hlocal hchecked

theorem clearBanCacheClient_tidy (id : CStr) : Tidy (clearBanCacheClient w id) := by
  have hleft : ∀ f id', ((clearBanCacheClient w id).cache f id').checked = true →
      id' ≠ id ∧ (w.cache f id').checked = true := by
    intro f id' hchecked
    rw [clearBanCacheClient_cache] at hchecked
    split at hchecked
    · exact absurd hchecked (by simp [cleared])
    · next hne => exact ⟨hne, hchecked⟩
  constructor
  · intro f id' hsilenced
    rw [clearBanCacheClient_cache] at hsilenced ⊢
    split at hsilenced
    · exact absurd hsilenced (by simp [cleared])
    · next hne =>
      rw [if_neg hne]
      exact hw.checked f id' hsilenced
  · intro f id' hchecked
    exact hw.present f id' (hleft f id' hchecked).2

/-- A client changes; it is as local as before where its cache is set. -/
theorem setClient_tidy (id : CStr) (c : Client)
    (hlocal : ∀ f, (w.cache f id).checked = true → c.myClient = true) :
    Tidy (setClient w id c) := by
  refine ⟨hw.checked, fun f id' hchecked => ?_⟩
  obtain ⟨hold, hmember⟩ := hw.present f id' hchecked
  refine ⟨?_, hmember⟩
  by_cases hid : id' = id
  · rw [hid] at hchecked ⊢
    rw [isLocal_some (setClient w id c) id c (setClient_self w id c)]
    exact hlocal f hchecked
  · unfold isLocal
    rw [setClient_other w id id' c hid]
    exact hold

theorem setClient_coherent (h : Coherent w) (id : CStr) (c : Client)
    (hsame : ∀ f chptr, w.table f = some chptr → (w.cache f id).checked = true →
      ∃ old, w.clients id = some old ∧ isBanned chptr c = isBanned chptr old) :
    Coherent (setClient w id c) := by
  intro f chptr id' c' hchptr hmember hc' hlocal hchecked
  by_cases hid : id' = id
  · rw [hid] at hmember hc' hchecked ⊢
    obtain rfl : c = c' := Option.some.inj ((setClient_self w id c).symm.trans hc')
    obtain ⟨old, hold, hbanned⟩ := hsame f chptr hchptr hchecked
    rw [hbanned]
    refine h f chptr id old hchptr hmember hold ?_ hchecked
    rw [← isLocal_some w id old hold]
    exact (hw.present f id hchecked).1
  · have hold : w.clients id' = some c' := (setClient_other w id id' c hid).symm.trans hc'
    exact h f chptr id' c' hchptr hmember hold hlocal hchecked

theorem exitClient_good (h : Coherent w) (id : CStr) :
    Tidy (exitClient w id) ∧ Coherent (exitClient w id) := by
  have htidy := withTable_tidy w hw (ChannelTable.leaveAll w.table id) (fun _ => false)
  have hcoherent := withTable_coherent w hw h (ChannelTable.leaveAll w.table id) (fun _ => false)
    (fun f chptr chptr' hold hnew _ => leaveAll_same w.table id f chptr chptr' hold hnew)
  have hgone : ∀ f, ((exitClient w id).cache f id).checked = true → False := by
    intro f hchecked
    obtain ⟨_, chptr, hchptr, hmember⟩ := htidy.present f id hchecked
    have hleft : ChannelTable.leaveAll w.table id f = some chptr := hchptr
    unfold ChannelTable.leaveAll at hleft
    obtain ⟨old, _, hremoved⟩ := Option.bind_eq_some_iff.mp hleft
    unfold removeUser at hremoved
    dsimp only at hremoved
    split at hremoved
    · simp at hremoved
    · rw [← Option.some.inj hremoved] at hmember
      simp [Channel.isMember] at hmember
  refine ⟨⟨htidy.checked, fun f id' hchecked => ?_⟩, ?_⟩
  · have hid : id' ≠ id := fun heq => hgone f (heq ▸ hchecked)
    obtain ⟨hlocal, hmember⟩ := htidy.present f id' hchecked
    refine ⟨?_, hmember⟩
    unfold isLocal
    rw [exitClient_other w id id' hid]
    exact hlocal
  · intro f chptr id' c hchptr hmember hc hlocal hchecked
    have hid : id' ≠ id := fun heq => hgone f (heq ▸ hchecked)
    have hold : w.clients id' = some c := (exitClient_other w id id' hid).symm.trans hc
    exact hcoherent f chptr id' c hchptr hmember hold hlocal hchecked

end Steps

structure Good (w : World) : Prop where
  tidy : Tidy w
  coherent : Coherent w

section Good

variable (w : World) (h : Good w)

include h

theorem withTable_good (table : Table) (clears : CStr → Bool)
    (hsame : ∀ f chptr chptr', w.table f = some chptr → table f = some chptr' →
      clears f = false → SameLists chptr chptr') : Good (withTable w table clears) :=
  ⟨withTable_tidy w h.tidy table clears,
    withTable_coherent w h.tidy h.coherent table clears hsame⟩

theorem withTable_quiet (name : CStr) (new : Option Channel)
    (hone : ∀ chptr chptr', hashFindChannel w.table name = some chptr → new = some chptr' →
      SameLists chptr chptr') :
    Good (withTable w (setChannel w.table name new) (fun _ => false)) :=
  withTable_good w h _ _ fun f chptr chptr' hold hnew _ =>
    setChannel_same w.table name new false (fun d d' hd hd' _ => hone d d' hd hd') f chptr chptr'
      hold hnew (Bool.and_false _)

theorem clearBanCacheClient_good (id : CStr) : Good (clearBanCacheClient w id) :=
  ⟨clearBanCacheClient_tidy w h.tidy id, (clearBanCacheClient_coherent w h.coherent id).1⟩

theorem exitClient_keeps (id : CStr) : Good (exitClient w id) := by
  obtain ⟨htidy, hcoherent⟩ := exitClient_good w h.tidy h.coherent id
  exact ⟨htidy, hcoherent⟩

/-- A client with nothing in its caches may become any other. -/
theorem setClient_unchecked (id : CStr) (c : Client)
    (hnone : ∀ f, (w.cache f id).checked = false) : Good (setClient w id c) := by
  have hno : ∀ f, (w.cache f id).checked = true → False := by
    intro f hchecked
    rw [hnone f] at hchecked
    exact absurd hchecked (by simp)
  exact ⟨setClient_tidy w h.tidy id c fun f hf => (hno f hf).elim,
    setClient_coherent w h.tidy h.coherent id c fun f _ _ hf => (hno f hf).elim⟩

/-- A client may change as long as no ban that counts becomes another. -/
theorem setClient_keeps (id : CStr) (old c : Client) (hold : w.clients id = some old)
    (hlocal : c.myClient = old.myClient)
    (hsame : ∀ f chptr, w.table f = some chptr → (w.cache f id).checked = true →
      isBanned chptr c = isBanned chptr old) : Good (setClient w id c) := by
  refine ⟨setClient_tidy w h.tidy id c fun f hchecked => ?_,
    setClient_coherent w h.tidy h.coherent id c fun f chptr hchptr hchecked =>
      ⟨old, hold, hsame f chptr hchptr hchecked⟩⟩
  rw [hlocal, ← isLocal_some w id old hold]
  exact (h.tidy.present f id hchecked).1

theorem unchecked_of_not_local (id : CStr) (hnot : isLocal w id = false) (f : CStr) :
    (w.cache f id).checked = false := by
  by_contra hchecked
  have hlocal := (h.tidy.present f id (by simpa using hchecked)).1
  rw [hnot] at hlocal
  exact absurd hlocal (by simp)

end Good

theorem recount_same (conf : NickConf) (c : Client) :
    (recount conf c).name = c.name ∧ (recount conf c).myClient = c.myClient ∧
      (∀ chptr, isBanned chptr (recount conf c) = isBanned chptr c) ∧
      ∀ chptr nick, isBanned chptr (withName (recount conf c) nick) =
        isBanned chptr (withName c nick) := by
  unfold recount
  split
  · exact ⟨rfl, rfl, fun _ => rfl, fun _ _ => rfl⟩
  · exact ⟨rfl, rfl, fun _ => rfl, fun _ _ => rfl⟩

/-- A nick change of a local client, the third of whose outcomes leaves the caches alone. -/
theorem changeLocalNick_good (w : World) (h : Good w) (conf : NickConf) (id nick : CStr)
    (c : Client) (hc : w.clients id = some c)
    (hcareful : recased conf c nick = true → ∀ f chptr, w.table f = some chptr →
      (w.cache f id).checked = true → isBanned chptr (withName c nick) = isBanned chptr c) :
    Good (changeLocalNick conf w id c nick) := by
  obtain ⟨hname, hlocal, hbanned, hrenamed⟩ := recount_same conf c
  unfold changeLocalNick
  by_cases hopme : (!c.opme) = true
  · rw [if_pos hopme]
    exact exitClient_keeps w h id
  rw [if_neg hopme]
  dsimp only
  by_cases hfast : tooFast conf (recount conf c) = true
  · rw [if_pos hfast]
    exact setClient_keeps w h id c _ hc hlocal fun f chptr _ _ => hbanned chptr
  rw [if_neg hfast]
  by_cases hsame : irccmp (recount conf c).name nick = 0
  · rw [if_pos hsame]
    refine setClient_keeps w h id c _ hc hlocal fun f chptr hchptr hchecked => ?_
    have hrecased : recased conf c nick = true := by
      unfold recased
      rw [hname] at hsame
      simp [hsame, hfast, show c.opme = true by simpa using hopme]
    exact (hrenamed chptr nick).trans (hcareful hrecased f chptr hchptr hchecked)
  · rw [if_neg hsame]
    exact setClient_unchecked _ (clearBanCacheClient_good w h id) id _
      (clearBanCacheClient_coherent w h.coherent id).2

theorem svsnick_good (w : World) (h : Good w) (id nick ts : CStr) (c : Client)
    (hashFind : Option CStr) : Good (svsnick w id c nick ts hashFind) := by
  have hrename : ∀ w, Good w → ∀ c', Good (setClient (clearBanCacheClient w id) id c') :=
    fun w hw c' => setClient_unchecked _ (clearBanCacheClient_good w hw id) id c'
      (clearBanCacheClient_coherent w hw.coherent id).2
  unfold svsnick
  cases hashFind with
  | none => exact hrename w h _
  | some other =>
    dsimp only
    split
    · split
      · exact h
      · exact hrename w h _
    · split
      · exact hrename _ (exitClient_keeps w h other) _
      · exact exitClient_keeps w h id

theorem userSetHostmask_good (w : World) (h : Good w) (id hostname : CStr) (c : Client)
    (hc : w.clients id = some c) (what : Dir) : Good (userSetHostmask w id c hostname what) := by
  have hchange : ∀ changed : Client, changed.myClient = c.myClient →
      Good (if changed.myClient then clearBanCacheClient (setClient w id changed) id
        else setClient w id changed) := by
    intro changed hlocal
    split
    -- the two calls clear the same caches in either order
    · exact setClient_unchecked _ (clearBanCacheClient_good w h id) id changed
        (clearBanCacheClient_coherent w h.coherent id).2
    · next hnot =>
      refine setClient_unchecked w h id changed (unchecked_of_not_local w h id ?_)
      rw [isLocal_some w id c hc, ← hlocal]
      simpa using hnot
  unfold userSetHostmask
  split
  · exact h
  · cases what with
    | query => exact h
    | add => exact hchange _ rfl
    | del => exact hchange _ rfl

/-- `can_send` leaves a cache alone, or sets one that was clear to what the lists say. -/
theorem canSend_cache (conf : SendConf) (chptr : Channel) (source : Client) (fl : Flags)
    (cache cache' : Cache) (message : CStr)
    (h : (canSend conf chptr source (some (fl, cache)) message).2 = some cache') :
    cache' = cache ∨ (source.myClient = true ∧ cache' = ⟨true, isBanned chptr source⟩) := by
  unfold canSend at h
  split at h
  · next heq =>
    obtain rfl : cache = cache' := Option.some.inj h
    exact Or.inl rfl
  · next heq =>
    obtain ⟨rfl, rfl⟩ := Prod.mk.inj (Option.some.inj heq)
    by_cases hlocal : (!source.myClient) = true
    · rw [if_pos hlocal] at h
      exact Or.inl (Option.some.inj h).symm
    rw [if_neg hlocal] at h
    by_cases hsilenced : cache.silenced = true
    · rw [if_pos hsilenced] at h
      exact Or.inl (Option.some.inj h).symm
    rw [if_neg hsilenced] at h
    by_cases hchecked : (!cache.checked) = true
    · rw [if_pos hchecked] at h
      refine Or.inr ⟨by simpa using hlocal, ?_⟩
      by_cases hbanned : isBanned chptr source = true
      · rw [if_pos hbanned] at h
        rw [← Option.some.inj h, hbanned]
      · rw [if_neg hbanned] at h
        rw [← Option.some.inj h]
        simp [show isBanned chptr source = false by simpa using hbanned,
          show cache.silenced = false by simpa using hsilenced]
    · rw [if_neg hchecked] at h
      exact Or.inl (Option.some.inj h).symm
  · next heq => simp at heq

/-- The answer is the one that the lists give, where the cache says what they say. -/
theorem canSend_answer (conf : SendConf) (chptr : Channel) (source : Client)
    (member : Option (Flags × Cache)) (message : CStr)
    (htidy : ∀ fl cache, member = some (fl, cache) → cache.silenced = true → cache.checked = true)
    (hcoherent : ∀ fl cache, member = some (fl, cache) → source.myClient = true →
      cache.checked = true → (cache.silenced = true ↔ isBanned chptr source = true)) :
    (canSend conf chptr source member message).1 =
      canSendAnew conf chptr source (member.map Prod.fst) message := by
  unfold canSend canSendAnew
  split
  · next heq =>
    rw [heq]
  · next fl cache heq =>
    specialize htidy fl cache rfl
    specialize hcoherent fl cache rfl
    rw [heq]
    dsimp only
    cases hlocal : source.myClient with
    | false => rfl
    | true =>
      cases hbanned : isBanned chptr source with
      | true =>
        cases hchecked : cache.checked with
        | true =>
          have hsilenced := (hcoherent hlocal hchecked).mpr hbanned
          simp [hsilenced]
        | false => cases hsilenced : cache.silenced <;> simp
      | false =>
        have hnot : cache.silenced = false := by
          by_contra hsilenced
          have hsilenced : cache.silenced = true := by simpa using hsilenced
          have hyes := (hcoherent hlocal (htidy hsilenced)).mp hsilenced
          rw [hbanned] at hyes
          exact absurd hyes (by simp)
        cases hchecked : cache.checked <;> simp [hnot]
  · next heq =>
    rw [heq]
    dsimp only
    split <;> rfl

theorem memberOf_eq (w : World) (f : CStr) (chptr : Channel) (id : CStr) :
    (memberOf w f chptr id).map Prod.fst =
      (findChannelLink chptr id).map Channels.Membership.flags := by
  unfold memberOf
  rw [Option.map_map]
  rfl

theorem memberOf_some (w : World) (f : CStr) (chptr : Channel) (id : CStr) (fl : Flags)
    (cache : Cache) (h : memberOf w f chptr id = some (fl, cache)) :
    chptr.isMember id = true ∧ cache = w.cache f id := by
  unfold memberOf findChannelLink at h
  obtain ⟨member, hfind, heq⟩ := Option.map_eq_some_iff.mp h
  refine ⟨?_, (Prod.mk.inj heq).2.symm⟩
  have hid : (member.id == id) = true := by simpa using List.find?_some hfind
  exact List.any_eq_true.mpr ⟨member, List.mem_of_find?_eq_some hfind, hid⟩

theorem answersAnew (w : World) (h : Good w) : AnswersAnew w := by
  intro conf f chptr id c message hchptr hc
  rw [← memberOf_eq w f chptr id]
  refine canSend_answer conf chptr c _ message (fun fl cache hmember hsilenced => ?_)
    (fun fl cache hmember hlocal hchecked => ?_)
  · obtain ⟨_, rfl⟩ := memberOf_some w f chptr id fl cache hmember
    exact h.tidy.checked f id hsilenced
  · obtain ⟨hon, rfl⟩ := memberOf_some w f chptr id fl cache hmember
    exact h.coherent f chptr id c hchptr hon hc hlocal hchecked

theorem setCache_apply (w : World) (f id : CStr) (x : Cache) (f' id' : CStr) :
    update w.cache f (update (w.cache f) id x) f' id' =
      if f' = f ∧ id' = id then x else w.cache f' id' := by
  by_cases hf : f' = f
  · by_cases hid : id' = id
    · rw [hf, hid, update_self, update_self, if_pos ⟨rfl, rfl⟩]
    · rw [hf, update_self, update_of_ne hid, if_neg (fun hboth => hid hboth.2)]
  · rw [update_of_ne hf, if_neg (fun hboth => hf hboth.1)]

theorem setCache_good (w : World) (h : Good w) (f id : CStr) (chptr : Channel) (c : Client)
    (hchptr : w.table f = some chptr) (hon : chptr.isMember id = true)
    (hc : w.clients id = some c) (hlocal : c.myClient = true) :
    Good { w with
      cache := update w.cache f (update (w.cache f) id ⟨true, isBanned chptr c⟩) } := by
  generalize hw' : ({ w with
      cache := update w.cache f (update (w.cache f) id ⟨true, isBanned chptr c⟩) } : World) = w'
  have hcache : ∀ f' id', w'.cache f' id' =
      if f' = f ∧ id' = id then ⟨true, isBanned chptr c⟩ else w.cache f' id' := by
    intro f' id'
    rw [← hw']
    exact setCache_apply w f id _ f' id'
  have htable : w'.table = w.table := by rw [← hw']
  have hclients : w'.clients = w.clients := by rw [← hw']
  refine ⟨⟨fun f' id' hsilenced => ?_, fun f' id' hchecked => ?_⟩, ?_⟩
  · rw [hcache] at hsilenced ⊢
    split at hsilenced
    · next hboth => rw [if_pos hboth]
    · next hnot =>
      rw [if_neg hnot]
      exact h.tidy.checked f' id' hsilenced
  · rw [hcache] at hchecked
    split at hchecked
    · next hboth =>
      obtain ⟨rfl, rfl⟩ := hboth
      refine ⟨(isLocal_some w' id' c (by rw [hclients, hc])).trans hlocal, chptr, ?_, hon⟩
      rw [htable, hchptr]
    · unfold isLocal
      rw [htable, hclients]
      exact h.tidy.present f' id' hchecked
  · intro f' chptr' id' c' hchptr' hon' hc' hlocal' hchecked
    rw [htable] at hchptr'
    rw [hclients] at hc'
    rw [hcache] at hchecked ⊢
    split at hchecked
    · next hboth =>
      obtain ⟨rfl, rfl⟩ := hboth
      obtain rfl : chptr = chptr' := Option.some.inj (hchptr.symm.trans hchptr')
      obtain rfl : c = c' := Option.some.inj (hc.symm.trans hc')
      rw [if_pos ⟨rfl, rfl⟩]
    · next hnot =>
      rw [if_neg hnot]
      exact h.coherent f' chptr' id' c' hchptr' hon' hc' hlocal' hchecked

theorem sendTo_good (conf : SendConf) (w : World) (h : Good w) (id name message : CStr) :
    Good (sendTo conf w id name message) := by
  unfold sendTo
  split
  · next c chptr hc hchptr =>
    split
    · next cache hcache =>
      cases hmember : memberOf w (fold name) chptr id with
      | none =>
        rw [hmember] at hcache
        unfold canSend at hcache
        split at hcache
        · simp at hcache
        · next heq => simp at heq
        · split at hcache <;> simp at hcache
      | some pair =>
        obtain ⟨hon, hpair⟩ := memberOf_some w (fold name) chptr id pair.1 pair.2 hmember
        rw [hmember] at hcache
        have hset := canSend_cache conf chptr c pair.1 pair.2 cache message hcache
        rw [hpair] at hset
        rcases hset with rfl | ⟨hlocal, rfl⟩
        · rw [update_eq_self, update_eq_self]
          exact h
        · exact setCache_good w h (fold name) id chptr c hchptr hon hc hlocal
    · exact h
  · exact h

theorem opme_same (chptr : Channel) (id : CStr) : SameLists chptr (ChannelTable.opme chptr id) := by
  unfold ChannelTable.opme
  split
  · exact ⟨rfl, rfl⟩
  · exact ⟨rfl, rfl⟩

theorem apply_good (w : World) (h : Good w) (op : Op) (hcareful : Careful w op) :
    Good (apply w op) := by
  have hgone : ∀ id, (w.clients id).isNone = true → ∀ f, (w.cache f id).checked = false := by
    intro id hnone
    refine unchecked_of_not_local w h id ?_
    unfold isLocal
    rw [Option.isNone_iff_eq_none.mp hnone, Option.any_none]
  cases op with
  | connect id c =>
    unfold apply
    dsimp only
    split
    · next hnone => exact setClient_unchecked w h id c (hgone id hnone)
    · exact h
  | register id c =>
    unfold apply
    dsimp only
    split
    · next hunknown =>
      obtain ⟨old, hold, hstatus⟩ := (Option.any_eq_true _ _).mp hunknown
      refine setClient_unchecked w h id c (unchecked_of_not_local w h id ?_)
      rw [isLocal_some w id old hold]
      unfold Client.myClient
      rw [beq_iff_eq.mp hstatus]
      simp
    · exact h
  | exit id => exact exitClient_keeps w h id
  | create currentTime name id =>
    unfold apply
    dsimp only
    split
    · exact h
    · next hnone =>
      refine withTable_quiet w h name _ fun chptr chptr' hold _ => ?_
      rw [hold] at hnone
      exact absurd rfl hnone
  | join name id =>
    unfold apply
    dsimp only
    cases hold : hashFindChannel w.table name with
    | none => exact h
    | some chptr =>
      dsimp only
      split
      · exact h
      · refine withTable_quiet w h name _ fun d d' hd hd' => ?_
        rw [hold] at hd
        rw [← Option.some.inj hd, ← Option.some.inj hd']
        exact ⟨rfl, rfl⟩
  | leave name id =>
    unfold apply
    dsimp only
    cases hold : hashFindChannel w.table name with
    | none => exact h
    | some chptr =>
      refine withTable_quiet w h name _ fun d d' hd hd' => ?_
      rw [hold] at hd
      rw [← Option.some.inj hd]
      exact removeUser_same chptr d' id hd'
  | leaveAll id =>
    exact withTable_good w h _ _ fun f chptr chptr' hold hnew _ =>
      leaveAll_same w.table id f chptr chptr' hold hnew
  | opme name id =>
    unfold apply
    dsimp only
    cases hold : hashFindChannel w.table name with
    | none => exact h
    | some chptr =>
      refine withTable_quiet w h name _ fun d d' hd hd' => ?_
      rw [hold] at hd
      rw [← Option.some.inj hd, ← Option.some.inj hd']
      exact opme_same chptr id
  | mode source name modes params =>
    unfold apply
    dsimp only
    cases hold : hashFindChannel w.table name with
    | none => exact h
    | some chptr =>
      refine withTable_good w h _ _ fun f d d' hd hd' hclears => ?_
      refine setChannel_same w.table name _ _ (fun e e' he he' hquiet => ?_) f d d' hd hd' hclears
      rw [hold] at he
      rw [← Option.some.inj he, ← Option.some.inj he']
      exact setChannelMode_same source chptr modes params hquiet
  | line link line =>
    exact withTable_good w h _ _ fun f chptr chptr' hold hnew hclears =>
      receive_same link w.table f chptr chptr' hold line hnew hclears
  | nick conf id nick =>
    unfold apply
    dsimp only
    cases hc : w.clients id with
    | none => exact h
    | some c =>
      dsimp only
      split
      · next hlocal =>
        exact changeLocalNick_good w h conf id nick c hc (hcareful c hc hlocal)
      · exact h
  | remoteNick id nick ts =>
    unfold apply
    dsimp only
    cases hc : w.clients id with
    | none => exact h
    | some c =>
      dsimp only
      split
      · exact h
      · next hremote =>
        have hnone : ∀ f, (w.cache f id).checked = false := by
          refine unchecked_of_not_local w h id ?_
          rw [isLocal_some w id c hc]
          unfold Client.myClient
          rw [show c.myConnect = false by simpa using hremote, Bool.false_and]
        unfold changeRemoteNick
        split
        · exact setClient_unchecked w h id _ hnone
        · exact setClient_unchecked w h id _ hnone
  | svsnick id nick ts hashFind =>
    unfold apply
    dsimp only
    split
    · exact h
    · split
      · exact svsnick_good w h id nick ts _ hashFind
      · exact h
  | hostmask id hostname what =>
    unfold apply
    dsimp only
    split
    · exact h
    · next c hc => exact userSetHostmask_good w h id hostname c hc what
  | umodes id registered oper opme =>
    unfold apply
    dsimp only
    split
    · exact h
    · next c hc => exact setClient_keeps w h id c _ hc rfl fun _ _ _ _ => rfl
  | send conf id name message => exact sendTo_good conf w h id name message

/-- A careless change of case leaves a cache behind that is wrong. -/
theorem careful_of_coherent (w : World) (h : Good w) (op : Op) (hnext : Coherent (apply w op)) :
    Careful w op := by
  cases op with
  | nick conf id nick =>
    intro c hc hlocal hrecased f chptr hchptr hchecked
    obtain ⟨_, d, hd, hon⟩ := h.tidy.present f id hchecked
    obtain rfl : chptr = d := Option.some.inj (hchptr.symm.trans hd)
    obtain ⟨hname, hlocal', _, hrenamed⟩ := recount_same conf c
    unfold recased at hrecased
    simp only [Bool.and_eq_true, Bool.not_eq_true', decide_eq_true_eq] at hrecased
    obtain ⟨⟨hopme, hslow⟩, hsame⟩ := hrecased
    unfold apply at hnext
    simp only [hc, hlocal, if_true] at hnext
    unfold changeLocalNick at hnext
    rw [if_neg (by simp [hopme])] at hnext
    dsimp only at hnext
    rw [if_neg (by simp [hslow]), hname, if_pos hsame] at hnext
    have hold := h.coherent f chptr id c hchptr hon hc hlocal hchecked
    have hnew := hnext f chptr id _ hchptr hon (setClient_self w id _)
      (hlocal'.trans hlocal) hchecked
    refine Eq.trans ?_ (Bool.eq_iff_iff.mpr (hnew.symm.trans hold))
    exact (hrenamed chptr nick).symm
  | _ => trivial

/-- Something holds at every state of a run. -/
def Always (P : World → Prop) : World → List Op → Prop
  | w, [] => P w
  | w, op :: ops => P w ∧ Always P (apply w op) ops

/-- Every step of a run is careful. -/
def CarefulRun : World → List Op → Prop
  | _, [] => True
  | w, op :: ops => Careful w op ∧ CarefulRun (apply w op) ops

theorem always_run (P : World → Prop) (w : World) (ops : List Op) (h : Always P w ops) :
    P (run w ops) := by
  induction ops generalizing w with
  | nil => exact h
  | cons op ops ih => exact ih (apply w op) h.2

theorem always_of_careful (P : World → Prop) (hP : ∀ w, Good w → P w) (w : World) (h : Good w)
    (ops : List Op) (hcareful : CarefulRun w ops) : Always P w ops := by
  induction ops generalizing w with
  | nil => exact hP w h
  | cons op ops ih =>
    exact ⟨hP w h, ih (apply w op) (apply_good w h op hcareful.1) hcareful.2⟩

theorem careful_of_always (w : World) (h : Good w) (ops : List Op)
    (halways : Always Coherent w ops) : CarefulRun w ops := by
  induction ops generalizing w with
  | nil => trivial
  | cons op ops ih =>
    have hnext : Coherent (apply w op) := by
      have hrest := halways.2
      cases ops with
      | nil => exact hrest
      | cons op' ops => exact hrest.1
    have hcareful := careful_of_coherent w h op hnext
    exact ⟨hcareful, ih (apply w op) (apply_good w h op hcareful) halways.2⟩

theorem start_good : Good start := by
  refine ⟨⟨fun f id hsilenced => ?_, fun f id hchecked => ?_⟩, fun f chptr id c hchptr => ?_⟩
  · exact absurd hsilenced (by simp [start, cleared])
  · exact absurd hchecked (by simp [start, cleared])
  · exact absurd hchptr (by simp [start])

/-- The cache says what the lists say in every state of exactly the careful runs, and then all
answers are those of a server without it. -/
theorem cache_coherent_iff_careful (ops : List Op) :
    (Always Coherent start ops ↔ CarefulRun start ops) ∧
      (CarefulRun start ops → Always AnswersAnew start ops) :=
  ⟨⟨careful_of_always start start_good ops,
    always_of_careful Coherent (fun _ hw => hw.coherent) start start_good ops⟩,
    always_of_careful AnswersAnew answersAnew start start_good ops⟩

def visitor (name : CStr) : Client :=
  ⟨name, "user".toList, "example.net".toList, "192.0.2.7".toList, .inet, ⟨0xc0000207, fun _ => 0⟩,
    .client, true, false, false, true, false, false, true, 0, 0, 0⟩

def bobsSetter : Setter := ⟨false, true, false, false, false, .chanop, 100, fun _ => none⟩

def openConf : SendConf := ⟨false, fun _ _ => false⟩

/-- bob bans `\Anna`, anna speaks, and then calls herself Anna. -/
def recasedOps : List Op :=
  [.connect "1AAAAAAAA".toList (visitor "bob".toList),
    .connect "1AAAAAAAB".toList (visitor "anna".toList),
    .create 1000000000 "#a".toList "1AAAAAAAA".toList,
    .join "#a".toList "1AAAAAAAB".toList,
    .mode bobsSetter "#a".toList "+b".toList ["\\Anna!*@*".toList],
    .send openConf "1AAAAAAAB".toList "#a".toList "hello".toList,
    .nick ⟨1000000000, 20, true, 5⟩ "1AAAAAAAB".toList "Anna".toList]

/-- She is banned and may speak nevertheless. -/
def overheard (w : World) (f id message : CStr) : Bool :=
  match w.table f, w.clients id with
  | some chptr, some c =>
    (canSend openConf chptr c (memberOf w f chptr id) message).1 == .nonop &&
      canSendAnew openConf chptr c
        ((findChannelLink chptr id).map Channels.Membership.flags) message == .cannotSendToChan
  | _, _ => false

theorem recased_nick_speaks : ∃ ops, ¬ (Always Coherent start ops ∧ Always AnswersAnew start ops) := by
  refine ⟨recasedOps, fun h => ?_⟩
  have hanew := always_run AnswersAnew start recasedOps h.2
  have hoverheard : overheard (run start recasedOps) (fold "#a".toList) "1AAAAAAAB".toList
      "hello".toList = true := by decide +kernel
  unfold overheard at hoverheard
  split at hoverheard
  · next chptr c hchptr hc =>
    have heq := hanew openConf _ chptr _ c "hello".toList hchptr hc
    obtain ⟨hsend, hanswer⟩ := Bool.and_eq_true_iff.mp hoverheard
    rw [beq_iff_eq.mp hsend, beq_iff_eq.mp hanswer] at heq
    exact absurd heq (by decide)
  · exact absurd hoverheard (by simp)

end IrcdHybrid.BanCoherence
