import IrcdHybrid.ClientFaces

/-!
What the handlers of nicks keep: everybody that has a nick or an identifier is in the hash under
it, and is the only one there. A handler has to know that a nick is free when it gives it away;
whoever had it is gone by then, or is the one that is to have it.
-/

namespace IrcdHybrid.UniqueNames

open CString HashChains NameTables MemberLists MemberInvariant ServerTree ServerEvents
open ServerInvariant ServerComing Exits ClientExit ServerSteps ServerRuns NickHandlers
open UniqueKeys ClientFaces Function
open NickHistory (validNickname)

structure Right (s : Net) : Prop where
  inv : Inv s
  named : Named s
  orderly : Orderly s.me (faceOf s)

theorem dot_mem_fold (name : CStr) : '.' ∈ name.map toUpper ↔ '.' ∈ name := by
  have hdot : toUpper '.' = '.' := by decide
  rw [List.mem_map]
  constructor
  · rintro ⟨c, hc, hfold⟩
    rw [← hdot, toUpper_eq_iff, toLower_eq_iff_of_unfolded '.' c (by decide)] at hfold
    rwa [hfold] at hc
  · exact fun h => ⟨'.', h, hdot⟩

theorem dot_mem_congr (a b : CStr) (h : irccmp a b = 0) : '.' ∈ a ↔ '.' ∈ b := by
  rw [← dot_mem_fold a, (irccmp_eq_zero_iff a b).mp h, dot_mem_fold]

/-- A nick fits where it is kept, and is no name of a server. -/
structure Nick (nick : CStr) : Prop where
  ne_nil : nick ≠ []
  undotted : '.' ∉ nick
  fits : strlcpy nick (BanMask.HOSTLEN + 1) = nick

theorem nick_of_valid (nick : CStr) (loc : Bool) (h : validNickname nick loc = true) : Nick nick := by
  unfold NickHistory.validNickname at h
  split at h
  · simp at h
  · split at h
    · simp at h
    · rw [Bool.and_eq_true, decide_eq_true_iff, List.all_eq_true] at h
      refine ⟨by simp, fun hdot => absurd (h.1 _ hdot) (by decide), strlcpy_of_le _ _ ?_⟩
      exact Nat.le_trans h.2 (by decide)

/-- Nobody else is in the hash under the nick. -/
def Free (s : Net) (nick : CStr) (p : ClientPtr) : Prop :=
  ∀ q, q ≠ p → nickKey s.me (faceOf s) q ≠ some (nick.map toUpper)

def FreeId (s : Net) (id : CStr) (p : ClientPtr) : Prop := ∀ q, q ≠ p → idKey (faceOf s) q ≠ some id

/-- Nothing has happened to a name or to a client. -/
structure Same (s s' : Net) : Prop where
  me : s'.me = s.me
  face : faceOf s' = faceOf s

section Same

variable (s s' : Net)

theorem same_refl : Same s s := ⟨rfl, rfl⟩

theorem orderly_same (h : Orderly s.me (faceOf s)) (hsame : Same s s') :
    Orderly s'.me (faceOf s') := by
  rw [hsame.me, hsame.face]
  exact h

theorem status_of_face (q : ClientPtr) (hface : faceOf s' q = faceOf s q) :
    isClient s'.rooms q = isClient s.rooms q ∧ isServer s' q = isServer s q ∧
      isUnknown s' q = isUnknown s q ∧ known s' q = known s q := by
  refine ⟨?_, ?_, ?_, ?_⟩
  · rw [Bool.eq_iff_iff, ← status_client, ← status_client, hface]
  · rw [Bool.eq_iff_iff, ← status_server, ← status_server, hface]
  · rw [Bool.eq_iff_iff, ← status_unknown, ← status_unknown, hface]
  · have hstatus := congrArg (fun f => f.status.isSome) hface
    unfold faceOf at hstatus
    simpa [known] using hstatus

theorem same_status (hsame : Same s s') (q : ClientPtr) :
    isClient s'.rooms q = isClient s.rooms q ∧ isServer s' q = isServer s q ∧
      isUnknown s' q = isUnknown s q ∧ known s' q = known s q :=
  status_of_face s s' q (congrFun hsame.face q)

theorem free_same (hsame : Same s s') (nick : CStr) (p : ClientPtr) (h : Free s nick p) :
    Free s' nick p := by
  unfold Free
  rw [hsame.me, hsame.face]
  exact h

theorem freeId_same (hsame : Same s s') (id : CStr) (p : ClientPtr) (h : FreeId s id p) :
    FreeId s' id p := by
  unfold FreeId
  rw [hsame.face]
  exact h

end Same

section Lost

variable (s s' : Net) (removed : List ClientPtr) (hlost : Lost s s' removed)

include hlost

theorem orderly_lost (h : Orderly s.me (faceOf s)) : Orderly s'.me (faceOf s') := by
  rw [hlost.me]
  refine orderly_lose s.me _ _ h fun q => ?_
  by_cases hq : q ∈ removed
  · exact Or.inr (hlost.gone q hq)
  · exact Or.inl (hlost.kept q hq)

theorem lost_same (s₀ : Net) (hsame : Same s₀ s) : Lost s₀ s' removed := by
  refine ⟨hlost.me.trans hsame.me, fun q hq => ?_, fun q hq => ?_⟩
  · rw [hlost.kept q hq, hsame.face]
  · rw [← hsame.me]
    exact hlost.gone q hq

theorem keys_lost (q : ClientPtr) (k : CStr) :
    (nickKey s'.me (faceOf s') q = some k → nickKey s.me (faceOf s) q = some k ∧ q ∉ removed) ∧
      (idKey (faceOf s') q = some k → idKey (faceOf s) q = some k) := by
  by_cases hq : q ∈ removed
  · obtain ⟨-, -, hnames, hids⟩ := hlost.gone q hq
    rw [nickKey_eq_some, idKey_eq_some, hnames, hids]
    simp
  · rw [hlost.me]
    obtain ⟨hnick, hid⟩ := keys_of_face s.me (faceOf s) (faceOf s') q (hlost.kept q hq)
    rw [hnick, hid]
    exact ⟨fun h => ⟨h, hq⟩, id⟩

theorem freeId_lost (id : CStr) (p : ClientPtr) (h : FreeId s id p) : FreeId s' id p :=
  fun q hq hkey => h q hq ((keys_lost s s' removed hlost q id).2 hkey)

end Lost

theorem free_lost (s s' : Net) (target : ClientPtr) (hlost : Lost s s' [target]) (nick : CStr)
    (p : ClientPtr) (h : Free s nick target) : Free s' nick p := by
  intro q _ hkey
  obtain ⟨hold, hne⟩ := (keys_lost s s' [target] hlost q _).1 hkey
  exact h q (by simpa using hne) hold

section Find

variable (s : Net) (name : CStr)

theorem looked_same (s₁ : Net) (hlooked : Looked s s₁) (hn : Named s) : Same s s₁ := by
  have hoff := hlooked.off hn
  obtain ⟨t, u, rfl⟩ := hlooked.same
  exact ⟨rfl, funext fun q => faceOf_read s { s with clientTable := t, idTable := u } rfl
    ⟨rfl, rfl⟩ q rfl rfl (hoff q).1 (hoff q).2⟩

theorem looked_right (s₁ : Net) (hlooked : Looked s s₁) (h : Right s) : Right s₁ :=
  ⟨hlooked.inv h.inv, hlooked.named h.named,
    orderly_same s s₁ h.orderly (looked_same s s₁ hlooked h.named)⟩

/-- Whoever is found has the name, and when nobody is found nobody has it. -/
theorem findClient_spec (hn : Named s) :
    (∀ q, (hashFindClient s name).1 = some q →
        ¬ Off s.clientTable q ∧ irccmp name (nameOf s q) = 0) ∧
      ((hashFindClient s name).1 = none →
        ∀ q, ¬ Off s.clientTable q → irccmp name (nameOf s q) ≠ 0) := by
  obtain ⟨hsome, hnone⟩ := table_found s.clientTable (nameHash s) s.top hn.names (hashOf s name)
    (fun p => decide (irccmp name (nameOf s p) = 0))
  refine ⟨fun q hq => ?_, fun hfound q hq hsame => ?_⟩
  · obtain ⟨hon, -, hname⟩ := hsome q hq
    exact ⟨hon, of_decide_eq_true hname⟩
  · have hhash : nameHash s q = hashOf s name := (strhash_congr _ _ _ hsame).symm
    exact of_decide_eq_false (hnone hfound q hq hhash) hsame

theorem findId_spec (hn : Named s) :
    (∀ q, (hashFindId s name).1 = some q → ¬ Off s.idTable q ∧ name = idOf s q) ∧
      ((hashFindId s name).1 = none → ∀ q, ¬ Off s.idTable q → name ≠ idOf s q) := by
  obtain ⟨hsome, hnone⟩ := table_found s.idTable (idHash s) s.top hn.ids (hashOf s name)
    (fun p => decide (name = idOf s p))
  refine ⟨fun q hq => ?_, fun hfound q hq hsame => ?_⟩
  · obtain ⟨hon, -, hid⟩ := hsome q hq
    exact ⟨hon, of_decide_eq_true hid⟩
  · have hhash : idHash s q = hashOf s name := by
      unfold idHash
      rw [← hsame]
    exact of_decide_eq_false (hnone hfound q hq hhash) hsame

theorem inNames_iff (q : ClientPtr) : (faceOf s q).inNames = true ↔ ¬ Off s.clientTable q :=
  hashed_eq_true _ _

theorem inIds_iff (q : ClientPtr) : (faceOf s q).inIds = true ↔ ¬ Off s.idTable q :=
  hashed_eq_true _ _

/-- Who is found under a nick is no server, and nobody else has the nick. -/
theorem found_nick (h : Right s) (hnick : Nick name) (target : ClientPtr)
    (hfound : (hashFindClient s name).1 = some target) :
    target ≠ s.me ∧ known s target = true ∧ isServer s target = false ∧ Free s name target := by
  obtain ⟨hon, hname⟩ := (findClient_spec s name h.named).1 target hfound
  have hin := (inNames_iff s target).mpr hon
  have hnot : ¬ (target = s.me ∨ (faceOf s target).status = some .server) := by
    rw [← (h.orderly.sound target).dotted hin]
    show '.' ∉ nameOf s target
    rw [← dot_mem_congr name _ hname]
    exact hnick.undotted
  obtain ⟨hne, hstatus⟩ := not_or.mp hnot
  have hkey : nickKey s.me (faceOf s) target = some (name.map toUpper) :=
    (nickKey_eq_some _ _ _ _).mpr ⟨hin, hne, hstatus, ((irccmp_eq_zero_iff _ _).mp hname).symm⟩
  refine ⟨hne, (h.named.named target hon).1.resolve_left hne, ?_, fun q hq hkey' => ?_⟩
  · rw [status_server] at hstatus
    simpa using hstatus
  · exact hq (h.orderly.nicks q target _ hkey' hkey)

theorem found_no_nick (hn : Named s) (hfound : (hashFindClient s name).1 = none) (p : ClientPtr) :
    Free s name p := by
  intro q _ hkey
  obtain ⟨hin, -, -, hfold⟩ := (nickKey_eq_some _ _ _ _).mp hkey
  exact (findClient_spec s name hn).2 hfound q ((inNames_iff s q).mp hin)
    ((irccmp_eq_zero_iff _ _).mpr hfold.symm)

theorem found_no_id (hn : Named s) (hfound : (hashFindId s name).1 = none) (p : ClientPtr) :
    FreeId s name p := by
  intro q _ hkey
  obtain ⟨hin, hid⟩ := (idKey_eq_some _ _ _).mp hkey
  exact (findId_spec s name hn).2 hfound q ((inIds_iff s q).mp hin) hid.symm

end Find

section Quiet

variable (s : Net) (p : ClientPtr)

theorem right_node (h : Right s) (f : Node → Node)
    (hservptr : (f (s.node p)).servptr = (s.node p).servptr)
    (hclients : (f (s.node p)).clientList = (s.node p).clientList)
    (hservers : (f (s.node p)).serverList = (s.node p).serverList)
    (hclosing : (f (s.node p)).closing = (s.node p).closing)
    (houtbound : (f (s.node p)).outbound = (s.node p).outbound) :
    Right (modifyNode s p f) ∧ Same s (modifyNode s p f) := by
  have hsame : Same s (modifyNode s p f) := ⟨rfl, faceOf_node s p f houtbound⟩
  exact ⟨⟨modifyNode_inv s h.inv p f (fun _ => hservptr) hclients hservers hclosing,
    node_named s _ h.named, orderly_same s _ h.orderly hsame⟩, hsame⟩

theorem right_restamp (h : Right s) (ts : ℤ) : Right (restamp s p ts) ∧ Same s (restamp s p ts) :=
  right_node s p h _ rfl rfl rfl rfl rfl

theorem right_killed (h : Right s) : Right (addFlagKilled s p) ∧ Same s (addFlagKilled s p) :=
  right_node s p h _ rfl rfl rfl rfl rfl

variable (conf : NickHandlers.Conf) (comment : CStr)

theorem right_exit (h : Right s) (hknown : known s p = true) :
    Right (exitClient conf.net s p comment) := by
  obtain ⟨removed, hlost, -, -⟩ := exitClient_lost conf.net s p comment h.inv h.named hknown
  exact ⟨exitClient_inv conf.net s p comment h.inv hknown,
    exitClient_named conf.net s p comment h.inv hknown h.named,
    orderly_lost s _ removed hlost h.orderly⟩

theorem right_kill (h : Right s) (hknown : known s p = true) :
    Right (exitClient conf.net (addFlagKilled s p) p comment) :=
  right_exit (addFlagKilled s p) p conf comment (right_killed s p h).1 hknown

theorem kill_alone (h : Right s) (hknown : known s p = true) (hserver : isServer s p = false) :
    Lost s (exitClient conf.net (addFlagKilled s p) p comment) [p] := by
  obtain ⟨h', hsame⟩ := right_killed s p h
  exact lost_same _ _ _ (exitClient_alone conf.net _ p comment h'.inv h'.named hknown hserver) s hsame

end Quiet

section Take

variable (s : Net) (p : ClientPtr) (nick : CStr)

theorem id_kept (h : Orderly s.me (faceOf s)) (hin : (faceOf s p).inIds = true) (q : ClientPtr)
    (hq : q ≠ p) : idKey (faceOf s) q ≠ some (faceOf s p).id :=
  fun hkey => hq (h.ids q p _ hkey ((idKey_eq_some _ _ _).mpr ⟨hin, rfl⟩))

theorem orderly_rename (h : Right s) (hme : p ≠ s.me)
    (hserver : (faceOf s p).status ≠ some .server) (hnick : Nick nick) (hfree : Free s nick p) :
    Orderly s.me (update (faceOf s) p (renamedFace (faceOf s p) nick)) := by
  have hsound := h.orderly.sound p
  refine orderly_take s.me _ h.orderly p _ ⟨fun hr => ?_, fun _ _ _ => rfl, fun _ => ?_⟩
    (fun _ _ _ q hq => ?_) fun hin q hq => id_kept s p h.orderly hin q hq
  · exact ⟨rfl, (hsound.registered hr).2⟩
  · show '.' ∈ strlcpy nick _ ↔ _
    rw [hnick.fits]
    exact iff_of_false hnick.undotted (by simp [renamedFace, hme, hserver])
  · show _ ≠ some ((strlcpy nick _).map toUpper)
    rw [hnick.fits]
    exact hfree q hq

variable (conf : NickHandlers.Conf) (h : Right s) (hnick : Nick nick) (hfree : Free s nick p)

include h hnick hfree

theorem right_setInitialNick (hp : isUnknown s p = true) :
    Right (NickHandlers.setInitialNick conf s p nick) := by
  have hstamped : ∀ s', Right s' ∧ Same s s' → Right (ServerEvents.setInitialNick s' p nick) := by
    rintro s' ⟨h', hsame⟩
    have hp' : isUnknown s' p = true := (same_status s s' hsame p).2.2.1.trans hp
    have hknown := known_of_isUnknown s' p hp'
    have hface := faceOf_setInitialNick s' p h'.inv h'.named hknown nick hnick.ne_nil
    have hstatus := (status_unknown s' p).mpr hp'
    have hme : (ServerEvents.setInitialNick s' p nick).me = s'.me := by
      unfold ServerEvents.setInitialNick
      dsimp only
      split <;> rfl
    refine ⟨setInitialNick_inv s' p h'.inv nick,
      setInitialNick_named s' p h'.inv h'.named hknown nick hnick.ne_nil, ?_⟩
    rw [hme, hface]
    exact orderly_rename s' p nick h' (unknown_ne_me s' p h'.inv hknown) (by rw [hstatus]; simp) hnick
      (free_same s s' hsame nick p hfree)
  unfold NickHandlers.setInitialNick
  dsimp only
  split
  · exact hstamped s ⟨h, same_refl s⟩
  · exact hstamped _ (right_node s p h _ rfl rfl rfl rfl rfl)

theorem right_changeNick (hp : isClient s.rooms p = true) :
    Right (changeNick conf.net s p nick) := by
  have hface := faceOf_changeNick s p conf.net h.inv h.named hp nick hnick.ne_nil
  have hstatus := (status_client s p).mpr hp
  refine ⟨changeNick_inv conf.net s p h.inv hp nick,
    changeNick_named conf.net s p h.inv h.named hp nick hnick.ne_nil, ?_⟩
  have hme : (changeNick conf.net s p nick).me = s.me := rfl
  rw [hme, hface]
  exact orderly_rename s p nick h (unknown_ne_me s p h.inv (known_of_isClient s p hp))
    (by rw [hstatus]; simp) hnick hfree

theorem right_forceNick (hp : isClient s.rooms p = true) (ts : ℤ) :
    Right (forceNick conf s p nick ts) := by
  obtain ⟨h', hsame⟩ := right_restamp s p h ts
  exact right_changeNick (restamp s p ts) p nick conf h' hnick (free_same s _ hsame nick p hfree)
    ((same_status s _ hsame p).1.trans hp)

theorem right_changeRemoteNick (hp : isClient s.rooms p = true) (ts : ℤ) :
    Right (changeRemoteNick conf s p nick ts) := by
  unfold changeRemoteNick
  dsimp only
  split
  · exact right_changeNick s p nick conf h hnick hfree hp
  · exact right_forceNick s p nick conf h hnick hfree hp ts

theorem right_changeLocalNick (hp : isClient s.rooms p = true) (record : Record) :
    Right (changeLocalNick conf s p nick record) := by
  unfold changeLocalNick
  dsimp only
  split
  · exact right_exit s p conf _ h (known_of_isClient s p hp)
  · split
    · exact h
    · split
      · exact right_changeNick s p nick conf h hnick hfree hp
      · exact right_forceNick s p nick conf h hnick hfree hp _

end Take

/-- What a search for a nick comes to. -/
structure Searched (s : Net) (nick : CStr) (found : Option ClientPtr) : Prop where
  right : Right s
  free : found = none → ∀ p, Free s nick p
  held : ∀ target, found = some target →
    known s target = true ∧ isServer s target = false ∧ Free s nick target

theorem search_nick (s : Net) (h : Right s) (nick : CStr) (hnick : Nick nick) :
    ∃ found s', hashFindClient s nick = (found, s') ∧ Same s s' ∧ Searched s' nick found := by
  have hsame := looked_same s _ (looked_client s nick) h.named
  refine ⟨_, _, rfl, hsame, looked_right s _ (looked_client s nick) h, fun hfound p => ?_,
    fun target hfound => ?_⟩
  · exact free_same s _ hsame nick p (found_no_nick s nick h.named hfound p)
  · obtain ⟨-, hknown, hserver, hfree⟩ := found_nick s nick h hnick target hfound
    obtain ⟨-, hs, -, hk⟩ := same_status s _ hsame target
    exact ⟨hk.trans hknown, hs.trans hserver, free_same s _ hsame nick target hfree⟩

/-- When the one with the nick is gone, the nick is free for another client. -/
theorem room_made (s s' : Net) (source target : ClientPtr) (nick : CStr) (hlost : Lost s s' [target])
    (hne : target ≠ source) (hp : isClient s.rooms source = true) (hfree : Free s nick target) :
    isClient s'.rooms source = true ∧ Free s' nick source := by
  have hnot : source ∉ [target] := by simpa using Ne.symm hne
  exact ⟨(status_of_face s s' source (hlost.kept source hnot)).1.trans hp,
    free_lost s s' target hlost nick source hfree⟩

theorem statUnknown_unknown (s : Net) (p : ClientPtr) (hp : statUnknown s p = true) :
    isUnknown s p = true := by
  unfold statUnknown at hp
  rw [Bool.and_eq_true] at hp
  exact hp.1

section Handlers

variable (conf : NickHandlers.Conf) (s : Net) (source : ClientPtr) (h : Right s)

include h

theorem mrNick_right (hp : isUnknown s source = true) (nick : CStr) :
    Right (mrNick conf s source nick) := by
  unfold mrNick
  dsimp only
  generalize copied conf nick = nick
  split
  · exact h
  · next hvalid =>
    simp only [Bool.or_eq_true, Bool.not_eq_true', not_or, Bool.not_eq_false] at hvalid
    have hnick := nick_of_valid nick true hvalid.1
    obtain ⟨found, s', heq, hsame, hsearched⟩ := search_nick s h nick hnick
    have hp' := (same_status s s' hsame source).2.2.1.trans hp
    rw [heq]
    cases found with
    | none =>
      exact right_setInitialNick s' source nick conf hsearched.right hnick (hsearched.free rfl source) hp'
    | some target =>
      dsimp only
      split
      · next hself =>
        obtain ⟨-, -, hfree⟩ := hsearched.held target rfl
        rw [hself] at hfree
        exact right_setInitialNick s' source nick conf hsearched.right hnick hfree hp'
      · exact hsearched.right

theorem mNick_right (hp : isClient s.rooms source = true) (nick : CStr) (record : Record) :
    Right (mNick conf s source nick record) := by
  unfold mNick
  dsimp only
  generalize copied conf nick = nick
  split
  · exact h
  · next hvalid =>
    rw [Bool.or_eq_true, not_or, Bool.not_eq_true', Bool.not_eq_false] at hvalid
    have hnick := nick_of_valid nick true hvalid.1
    obtain ⟨found, s', heq, hsame, hsearched⟩ := search_nick s h nick hnick
    have hp' := (same_status s s' hsame source).1.trans hp
    rw [heq]
    cases found with
    | none =>
      exact right_changeLocalNick s' source nick conf hsearched.right hnick (hsearched.free rfl source)
        hp' record
    | some target =>
      obtain ⟨hknown, hserver, hfree⟩ := hsearched.held target rfl
      dsimp only
      split
      · next hself =>
        rw [hself] at hfree ⊢
        split
        · exact hsearched.right
        · exact right_changeLocalNick s' source nick conf hsearched.right hnick hfree hp' record
      · next hne =>
        split
        · have hlost := exitClient_alone conf.net s' target "Overridden by other sign on".toList
            hsearched.right.inv hsearched.right.named hknown hserver
          obtain ⟨hclient, hfree'⟩ := room_made s' _ source target nick hlost hne hp' hfree
          exact right_changeLocalNick _ source nick conf
            (right_exit s' target conf _ hsearched.right hknown) hnick hfree' hclient record
        · exact hsearched.right

theorem checkCleanNick_right (hknown : known s source = true) (nick : CStr) :
    Right (checkCleanNick conf s source nick).1 ∧ ((checkCleanNick conf s source nick).2 = false →
      (checkCleanNick conf s source nick).1 = s ∧ Nick nick) := by
  unfold checkCleanNick
  split
  · next hvalid => exact ⟨h, fun _ => ⟨rfl, nick_of_valid nick false hvalid⟩⟩
  · split
    · exact ⟨right_kill s source conf _ h hknown, fun hfalse => by simp at hfalse⟩
    · exact ⟨h, fun hfalse => by simp at hfalse⟩

section Collide

variable (target : ClientPtr) (hknown : known s target = true) (hserver : isServer s target = false)

include hknown hserver

theorem performNickChangeCollides_right (nick : CStr) (hfree : Free s nick target)
    (hp : isClient s.rooms source = true) (hne : target ≠ source) (newts : ℤ) :
    Right (performNickChangeCollides conf s source target newts).1 ∧
      ((performNickChangeCollides conf s source target newts).2 = true →
        isClient (performNickChangeCollides conf s source target newts).1.rooms source = true ∧
          Free (performNickChangeCollides conf s source target newts).1 nick source) := by
  unfold performNickChangeCollides
  dsimp only
  have hsource := known_of_isClient s source hp
  split
  · -- both go, one after the other
    obtain ⟨h₁, hsame₁⟩ := right_killed s source h
    obtain ⟨h₂, hsame₂⟩ := right_killed (addFlagKilled s source) target h₁
    generalize addFlagKilled (addFlagKilled s source) target = s₂ at *
    have hsame : Same s s₂ := ⟨hsame₂.me.trans hsame₁.me, hsame₂.face.trans hsame₁.face⟩
    obtain ⟨-, hserver₂, -, hsource₂⟩ := same_status s s₂ hsame source
    have hlost := exitClient_alone conf.net s₂ source "Nick collision (old)".toList h₂.inv h₂.named
      (hsource₂.trans hsource) (hserver₂.trans (not_server_of_client s source hp))
    have h₃ := right_exit s₂ source conf "Nick collision (old)".toList h₂ (hsource₂.trans hsource)
    have htarget := (status_of_face s₂ _ target (hlost.kept target (by simpa using hne))).2.2.2
    refine ⟨right_exit _ target conf _ h₃ (htarget.trans ?_), fun hfalse => by simp at hfalse⟩
    exact (same_status s s₂ hsame target).2.2.2.trans hknown
  · split
    · exact ⟨right_kill s source conf _ h hsource, fun hfalse => by simp at hfalse⟩
    · refine ⟨right_kill s target conf _ h hknown, fun _ => ?_⟩
      exact room_made s _ source target nick (kill_alone s target conf _ h hknown hserver) hne hp hfree

theorem performUidIntroductionCollides_right (new : Profile) :
    Right (performUidIntroductionCollides conf s target new).1 ∧
      ((performUidIntroductionCollides conf s target new).2 = true →
        Lost s (performUidIntroductionCollides conf s target new).1 [target]) := by
  unfold performUidIntroductionCollides
  dsimp only
  split
  · exact ⟨right_kill s target conf _ h hknown, fun hfalse => by simp at hfalse⟩
  · split
    · exact ⟨h, fun hfalse => by simp at hfalse⟩
    · exact ⟨right_kill s target conf _ h hknown,
        fun _ => kill_alone s target conf _ h hknown hserver⟩

end Collide

theorem msNick_right (hp : isClient s.rooms source = true) (nick : CStr) (ts : ℤ) :
    Right (msNick conf s source nick ts) := by
  unfold msNick
  obtain ⟨hclean, hnext⟩ := checkCleanNick_right conf s source h (known_of_isClient s source hp) nick
  cases hcheck : checkCleanNick conf s source nick with
  | mk s₁ bad =>
    rw [hcheck] at hclean hnext
    cases bad with
    | true => exact hclean
    | false =>
      obtain ⟨rfl, hnick⟩ := hnext rfl
      obtain ⟨found, s', heq, hsame, hsearched⟩ := search_nick s₁ h nick hnick
      have hp' := (same_status s₁ s' hsame source).1.trans hp
      dsimp only
      rw [heq]
      cases found with
      | none =>
        exact right_changeRemoteNick s' source nick conf hsearched.right hnick
          (hsearched.free rfl source) hp' ts
      | some target =>
        obtain ⟨hknown, hserver, hfree⟩ := hsearched.held target rfl
        dsimp only
        split
        · next hunknown =>
          have hne : target ≠ source := by
            rintro rfl
            have hu := (unregistered_of_unknown s' target (statUnknown_unknown s' target hunknown)).1
            rw [hp'] at hu
            simp at hu
          have hlost := exitClient_alone conf.net s' target "Overridden by other sign on".toList
            hsearched.right.inv hsearched.right.named hknown hserver
          obtain ⟨hclient, hfree'⟩ := room_made s' _ source target nick hlost hne hp' hfree
          exact right_changeRemoteNick _ source nick conf
            (right_exit s' target conf _ hsearched.right hknown) hnick hfree' hclient ts
        · split
          · next hself =>
            rw [hself] at hfree ⊢
            split
            · exact hsearched.right
            · exact right_changeRemoteNick s' source nick conf hsearched.right hnick hfree hp' ts
          · next hne =>
            obtain ⟨hcollide, hgo⟩ := performNickChangeCollides_right conf s' source hsearched.right target
              hknown hserver nick hfree hp' hne ts
            cases hresult : performNickChangeCollides conf s' source target ts with
            | mk s₂ go =>
              rw [hresult] at hcollide hgo
              cases go with
              | true =>
                obtain ⟨hclient, hfree'⟩ := hgo rfl
                exact right_changeRemoteNick s₂ source nick conf hcollide hnick hfree' hclient ts
              | false => exact hcollide

omit h in
/-- `find_person` finds a client, and changes nothing but the order in a bucket. -/
theorem findPerson_same (h : Right s) (name : CStr) :
    Right (NickHandlers.findPerson s name).2 ∧ Same s (NickHandlers.findPerson s name).2 ∧
      ∀ target, (NickHandlers.findPerson s name).1 = some target →
        isClient (NickHandlers.findPerson s name).2.rooms target = true := by
  have hcases : ∃ (found : Option ClientPtr) (s' : Net),
      NickHandlers.findPerson s name = (found.filter (isClient s'.rooms), s') ∧
      Right s' ∧ Same s s' := by
    unfold NickHandlers.findPerson
    by_cases hdigit : startsWithDigit name = true
    · rw [if_pos hdigit]
      exact ⟨_, _, rfl, looked_right s _ (looked_id s name) h, looked_same s _ (looked_id s name)
        h.named⟩
    · rw [if_neg hdigit]
      exact ⟨_, _, rfl, looked_right s _ (looked_client s name) h, looked_same s _
        (looked_client s name) h.named⟩
  obtain ⟨found, s', heq, h', hsame⟩ := hcases
  rw [heq]
  exact ⟨h', hsame, fun target hfound => (Option.filter_eq_some_iff.mp hfound).2⟩

theorem msSvsnick_right (service : Bool) (name nick : CStr) (ts : ℤ) :
    Right (msSvsnick conf s service name nick ts) := by
  unfold msSvsnick
  split
  · exact h
  · next hvalid =>
    rw [Bool.or_eq_true, not_or, Bool.not_eq_true', Bool.not_eq_false, Bool.not_eq_true',
      Bool.not_eq_false] at hvalid
    have hnick := nick_of_valid nick true hvalid.2
    obtain ⟨h₁, -, hperson⟩ := findPerson_same s h name
    cases hfind : NickHandlers.findPerson s name with
    | mk person s₁ =>
      rw [hfind] at h₁ hperson
      cases person with
      | none => exact h₁
      | some target =>
        have hp := hperson target rfl
        dsimp only
        split
        · exact h₁
        · obtain ⟨found, s', heq, hsame, hsearched⟩ := search_nick s₁ h₁ nick hnick
          have hp' := (same_status s₁ s' hsame target).1.trans hp
          rw [heq]
          cases found with
          | none =>
            exact right_forceNick s' target nick conf hsearched.right hnick
              (hsearched.free rfl target) hp' ts
          | some holder =>
            obtain ⟨hknown, hserver, hfree⟩ := hsearched.held holder rfl
            dsimp only
            split
            · next hself =>
              rw [← hself] at hfree
              split
              · exact hsearched.right
              · exact right_forceNick s' target nick conf hsearched.right hnick hfree hp' ts
            · next hne =>
              split
              · have hlost := exitClient_alone conf.net s' holder "SVSNICK Override".toList
                  hsearched.right.inv hsearched.right.named hknown hserver
                obtain ⟨hclient, hfree'⟩ :=
                  room_made s' _ target holder nick hlost (Ne.symm hne) hp' hfree
                exact right_forceNick _ target nick conf
                  (right_exit s' holder conf _ hsearched.right hknown) hnick hfree' hclient ts
              · exact right_exit s' target conf _ hsearched.right (known_of_isClient s' target hp')

end Handlers

section Uid

variable (conf : NickHandlers.Conf) (s : Net) (source p : ClientPtr) (h : Right s) (name id : CStr)
  (hid : id ≠ []) (hlen : id.length ≤ Channels.IDLEN) (hopcount : ℕ) (profile : Profile)

include h hid hlen

theorem introduce_right (hname : Nick name) (hfree : Free s name p) (hfreeId : FreeId s id p)
    (s' : Net) (hstep : introduce s source p name hopcount id profile = some s') : Right s' := by
  obtain ⟨hguard, rfl⟩ := (guarded_eq_some _ _ _).mp hstep
  rw [Bool.and_eq_true] at hguard
  obtain ⟨hsource, hfresh⟩ := hguard
  obtain ⟨-, hne, -⟩ := (fresh_iff s p).mp hfresh
  have hface := faceOf_uidFromServer s p source name id h.inv h.named hsource hfresh hname.ne_nil hid
    hopcount profile
  refine ⟨uidFromServer_inv s p source name id h.inv hsource hfresh hopcount profile,
    uidFromServer_named s p source name id h.inv h.named hsource hfresh hname.ne_nil hid hopcount
      profile, ?_⟩
  have hme : (uidFromServer s source p name hopcount id profile).me = s.me := rfl
  rw [hme, hface]
  refine orderly_take s.me _ h.orderly p _ ⟨fun _ => ⟨rfl, rfl⟩, fun _ _ _ => rfl, fun _ => ?_⟩
    (fun _ _ _ q hq => ?_) fun _ q hq => ?_
  · show '.' ∈ strlcpy name _ ↔ _
    rw [hname.fits]
    exact iff_of_false hname.undotted (by simp [introducedFace, hne])
  · show _ ≠ some ((strlcpy name _).map toUpper)
    rw [hname.fits]
    exact hfree q hq
  · show _ ≠ some (strlcpy id _)
    rw [strlcpy_of_le id _ hlen]
    exact hfreeId q hq

theorem msUid_right (hknown : known s source = true) (hme : id ≠ s.meId) (s' : Net)
    (hstep : msUid conf s source p name hopcount id profile = some s') : Right s' := by
  unfold msUid at hstep
  obtain ⟨hclean, hnext⟩ := checkCleanNick_right conf s source h hknown name
  cases hcheck : checkCleanNick conf s source name with
  | mk s₀ bad =>
    rw [hcheck] at hclean hnext hstep
    cases bad with
    | true => exact Option.some.inj hstep ▸ hclean
    | false =>
      obtain ⟨rfl, hname⟩ := hnext rfl
      dsimp only at hstep
      split at hstep
      · exact Option.some.inj hstep ▸ h
      · have h₁ := looked_right s₀ _ (looked_id s₀ id) h
        have hsame₁ := looked_same s₀ _ (looked_id s₀ id) h.named
        cases hfind : (hashFindId s₀ id).1 with
        | some target =>
          have heq : hashFindId s₀ id = (some target, (hashFindId s₀ id).2) := by rw [← hfind]
          rw [heq] at hstep
          obtain ⟨hon, hidOf⟩ := (findId_spec s₀ id h.named).1 target hfind
          have hne : target ≠ s₀.me := by
            rintro rfl
            refine hme (hidOf.trans ?_)
            unfold idOf
            rw [if_pos rfl]
          have htarget := (h.named.ided target hon).1.resolve_left hne
          rw [← Option.some.inj hstep]
          exact right_kill _ target conf _ h₁ ((same_status s₀ _ hsame₁ target).2.2.2.trans htarget)
        | none =>
          have heq : hashFindId s₀ id = (none, (hashFindId s₀ id).2) := by rw [← hfind]
          rw [heq] at hstep
          have hfreeId := freeId_same s₀ _ hsame₁ id p (found_no_id s₀ id h.named hfind p)
          generalize (hashFindId s₀ id).2 = s₁ at *
          obtain ⟨found, s₂, heq', hsame, hsearched⟩ := search_nick s₁ h₁ name hname
          have hfreeId' := freeId_same s₁ s₂ hsame id p hfreeId
          dsimp only at hstep
          rw [heq'] at hstep
          cases found with
          | none =>
            exact introduce_right s₂ source p hsearched.right name id hid hlen hopcount profile hname
              (hsearched.free rfl p) hfreeId' s' hstep
          | some target =>
            obtain ⟨htarget, hserver, hfree⟩ := hsearched.held target rfl
            dsimp only at hstep
            split at hstep
            · have hlost := exitClient_alone conf.net s₂ target "Overridden by other sign on".toList
                hsearched.right.inv hsearched.right.named htarget hserver
              exact introduce_right _ source p (right_exit s₂ target conf _ hsearched.right htarget) name
                id hid hlen hopcount profile hname (free_lost s₂ _ target hlost name p hfree)
                (freeId_lost s₂ _ [target] hlost id p hfreeId') s' hstep
            · obtain ⟨hcollide, hgo⟩ := performUidIntroductionCollides_right conf s₂ hsearched.right
                target htarget hserver profile
              cases hresult : performUidIntroductionCollides conf s₂ target profile with
              | mk s₃ go =>
                rw [hresult] at hcollide hgo hstep
                cases go with
                | true =>
                  have hlost := hgo rfl
                  exact introduce_right s₃ source p hcollide name id hid hlen hopcount profile hname
                    (free_lost s₂ s₃ target hlost name p hfree)
                    (freeId_lost s₂ s₃ [target] hlost id p hfreeId') s' hstep
                | false => exact Option.some.inj hstep ▸ hcollide

end Uid

end IrcdHybrid.UniqueNames
