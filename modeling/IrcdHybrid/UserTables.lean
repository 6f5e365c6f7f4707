import IrcdHybrid.UserStreams

/-!
The hashes of a server, when every nick belongs to one user: a user is found by its identifier and
by its nick, and by nothing else.
-/

namespace IrcdHybrid.UserTables

open CString UserLines UserEcho UserNetwork UserStreams Function
open NickHistory (validNickname)
open MemberLists (startsWithDigit)

variable {S : Type*} [DecidableEq S] (top : Topology S) (owner : CStr → CStr)

/-- `from`, as every server has it. -/
def linkOf (n : S) (u : CStr) : Option S :=
  if n = top.home u then none else some (top.route (top.home u) n)

def entryOf (n : S) (u : CStr) : Presence → Option (Entry S)
  | .here c => some ⟨c, linkOf top n u⟩
  | _ => none

/-- The hashes have those that are here. -/
structure Matches (n : S) (x : CStr → Presence) (s : Server S) : Prop where
  known : ∀ u, s.byId u = entryOf top n u (x u)
  names : ∀ k u, s.byName k = some u ↔ ∃ c, x u = .here c ∧ nameKey c.name = k
  good : ∀ u c, x u = .here c → Good owner u c
  ids : ∀ u, x u ≠ .absent → validUid u = true

theorem validUid_digit (u : CStr) (h : validUid u = true) : startsWithDigit u = true := by
  unfold validUid at h
  rw [Bool.and_eq_true, Bool.and_eq_true] at h
  exact h.1.1

theorem validUid_plain (u : CStr) (h : validUid u = true) : serverPrefix u = false := by
  unfold validUid at h
  rw [Bool.and_eq_true, Bool.and_eq_true, List.all_eq_true, decide_eq_true_iff] at h
  obtain ⟨⟨-, hall⟩, hlen⟩ := h
  have hdot : '.' ∉ u := fun hin => absurd (hall '.' hin) (by decide)
  have hlong : ¬ u.length ≤ Uid.IRC_MAXSID := by
    rw [hlen]
    decide
  simp [serverPrefix, hdot, hlong]

theorem nick_prefix (nick : CStr) (h : validNickname nick true = true) : serverPrefix nick = false := by
  have hdigit := validNickname_digit nick h
  have hdot : '.' ∉ nick := by
    intro hin
    cases nick with
    | nil => simp at hin
    | cons c rest =>
      obtain ⟨-, hall⟩ := (validNickname_cons c rest true).mp h
      rw [Bool.and_eq_true, List.all_eq_true] at hall
      exact absurd (hall.1 '.' hin) (by decide)
  simp [serverPrefix, hdigit, hdot]

theorem isDigit_toUpper (c : Char) : isDigit (toUpper c) = isDigit c := by
  have hlow : ∀ d : Char, isDigit d = true ↔ 48 ≤ d.toNat ∧ d.toNat ≤ 57 := by
    intro d
    unfold isDigit
    rw [Bool.and_eq_true, decide_eq_true_iff, decide_eq_true_iff]
    exact Iff.rfl
  rw [Bool.eq_iff_iff, hlow, hlow, toNat_toUpper]
  split
  · omega
  · rfl

theorem nameKey_digit (a b : CStr) (h : nameKey a = nameKey b) :
    startsWithDigit a = startsWithDigit b := by
  have hkey : ∀ a : CStr, startsWithDigit (nameKey a) = startsWithDigit a := by
    intro a
    cases a with
    | nil => rfl
    | cons c rest => exact isDigit_toUpper c
  rw [← hkey a, ← hkey b, h]

section Lookup

variable {top owner} {n : S} {x : CStr → Presence} {s : Server S} (h : Matches top owner n x s)

include h

theorem found_iff (nick u : CStr) :
    found s nick = some u ↔ ∃ c, x u = .here c ∧ nameKey c.name = nameKey nick :=
  h.names (nameKey nick) u

theorem found_owner (nick u : CStr) (hu : found s nick = some u) : owner (nameKey nick) = u := by
  obtain ⟨c, hc, hkey⟩ := (found_iff h nick u).mp hu
  rw [← hkey]
  exact (h.good u c hc).nick

theorem found_clear (nick u : CStr) (hu : owner (nameKey nick) = u) :
    found s nick = none ∨ found s nick = some u := by
  cases hf : found s nick with
  | none => exact Or.inl rfl
  | some v => exact Or.inr (congrArg some ((found_owner h nick v hf).symm.trans hu))

theorem byId_here (u : CStr) (c : Client) (hc : x u = .here c) :
    s.byId u = some ⟨c, linkOf top n u⟩ := by
  rw [h.known u, hc]
  rfl

theorem byId_eq_some (u : CStr) (e : Entry S) :
    s.byId u = some e ↔ x u = .here e.client ∧ e.link = linkOf top n u := by
  rw [h.known u]
  cases x u with
  | absent => simp [entryOf]
  | gone => simp [entryOf]
  | here c =>
    simp only [entryOf, Option.some.injEq, Presence.here.injEq]
    constructor
    · rintro rfl
      exact ⟨rfl, rfl⟩
    · rintro ⟨rfl, hlink⟩
      rw [← hlink]

theorem byId_none (u : CStr) (hu : ∀ c, x u ≠ .here c) : s.byId u = none := by
  rw [Option.eq_none_iff_forall_ne_some]
  intro e he
  exact hu e.client ((byId_eq_some h u e).mp he).1

theorem byId_nick (nick : CStr) (hdigit : startsWithDigit nick = false) : s.byId nick = none := by
  refine byId_none h nick fun c hc => ?_
  have hvalid := validUid_digit nick (h.ids nick (by simp [hc]))
  rw [hdigit] at hvalid
  simp at hvalid

theorem name_digit (u : CStr) (c : Client) (hc : x u = .here c) : startsWithDigit c.name = false :=
  validNickname_digit c.name (h.good u c hc).fit.name

theorem findSource_here (u : CStr) (c : Client) (hc : x u = .here c) (word : CStr)
    (hword : word = u ∨ word = c.name) :
    findSource s word = some (u, ⟨c, linkOf top n u⟩) := by
  have hu := byId_here h u c hc
  unfold findSource
  rcases hword with rfl | rfl
  · rw [hu]
  · rw [byId_nick h c.name (name_digit h u c hc), (found_iff h c.name u).mpr ⟨c, hc, rfl⟩]
    simp [hu]

theorem findSource_subject (word v : CStr) (e : Entry S) (hv : findSource s word = some (v, e)) :
    v = subject owner word ∧ s.byId v = some e := by
  unfold findSource at hv
  split at hv
  · next e' he' =>
    obtain ⟨rfl, rfl⟩ := Prod.mk.inj (Option.some.inj hv)
    have hdigit : startsWithDigit word = true := by
      by_contra hnot
      rw [byId_nick h word (by simpa using hnot)] at he'
      simp at he'
    exact ⟨(if_pos hdigit).symm, he'⟩
  · next hnone =>
    obtain ⟨v', hfound, hmap⟩ := Option.bind_eq_some_iff.mp hv
    obtain ⟨e', he', heq⟩ := Option.map_eq_some_iff.mp hmap
    obtain ⟨rfl, rfl⟩ := Prod.mk.inj heq
    refine ⟨?_, he'⟩
    obtain ⟨c, hc, hkey⟩ := (found_iff h word v').mp hfound
    have hdigit : startsWithDigit word = false := by
      rw [← nameKey_digit c.name word hkey]
      exact name_digit h v' c hc
    unfold subject
    rw [if_neg (by simp [hdigit])]
    exact (found_owner h word v' hfound).symm

theorem findSource_none (word : CStr) (hword : ∀ c, x (subject owner word) ≠ .here c) :
    findSource s word = none := by
  rw [Option.eq_none_iff_forall_ne_some]
  rintro ⟨v, e⟩ hv
  obtain ⟨rfl, he⟩ := findSource_subject h word v e hv
  exact hword e.client ((byId_eq_some h _ e).mp he).1

theorem findPerson_subject (word v : CStr) (e : Entry S) (hv : findPerson s word = some (v, e)) :
    v = subject owner word ∧ x v = .here e.client := by
  unfold findPerson at hv
  split at hv
  · next hdigit =>
    obtain ⟨e', he', heq⟩ := Option.map_eq_some_iff.mp hv
    obtain ⟨rfl, rfl⟩ := Prod.mk.inj heq
    exact ⟨(if_pos hdigit).symm, ((byId_eq_some h _ _).mp he').1⟩
  · next hdigit =>
    obtain ⟨v', hfound, hmap⟩ := Option.bind_eq_some_iff.mp hv
    obtain ⟨e', he', heq⟩ := Option.map_eq_some_iff.mp hmap
    obtain ⟨rfl, rfl⟩ := Prod.mk.inj heq
    refine ⟨?_, ((byId_eq_some h _ _).mp he').1⟩
    unfold subject
    rw [if_neg hdigit]
    exact (found_owner h word v' hfound).symm

theorem findPerson_here (u : CStr) (c : Client) (hc : x u = .here c) :
    findPerson s u = some (u, ⟨c, linkOf top n u⟩) := by
  unfold findPerson
  rw [if_pos (validUid_digit u (h.ids u (by simp [hc]))), byId_here h u c hc]
  rfl

theorem matches_drop (u : CStr) (c : Client) (hc : x u = .here c) (e : Entry S)
    (he : e.client = c) : Matches top owner n (update x u .gone) (dropUser s u e) := by
  refine ⟨fun v => ?_, fun k v => ?_, fun v c' hc' => ?_, fun v hv => ?_⟩
  · show update s.byId u none v = _
    by_cases hvu : v = u
    · subst hvu
      rw [update_self, update_self]
      rfl
    · rw [update_of_ne hvu, update_of_ne hvu, h.known v]
  · show update s.byName (nameKey e.client.name) none k = some v ↔ _
    rw [he]
    by_cases hk : k = nameKey c.name
    · subst hk
      rw [update_self]
      simp only [reduceCtorEq, false_iff, not_exists, not_and]
      intro c' hc' hkey
      by_cases hvu : v = u
      · rw [hvu, update_self] at hc'
        simp at hc'
      · rw [update_of_ne hvu] at hc'
        have hown := (h.good v c' hc').nick
        rw [hkey, (h.good u c hc).nick] at hown
        exact hvu hown.symm
    · rw [update_of_ne hk, h.names k v]
      by_cases hvu : v = u
      · subst hvu
        rw [update_self]
        simp only [reduceCtorEq, false_and, exists_false, iff_false, not_exists, not_and]
        intro c' hc' hkey
        rw [hc] at hc'
        obtain rfl := Presence.here.inj hc'
        exact hk hkey.symm
      · rw [update_of_ne hvu]
  · by_cases hvu : v = u
    · rw [hvu, update_self] at hc'
      simp at hc'
    · rw [update_of_ne hvu] at hc'
      exact h.good v c' hc'
  · by_cases hvu : v = u
    · rw [hvu]
      exact h.ids u (by simp [hc])
    · rw [update_of_ne hvu] at hv
      exact h.ids v hv

theorem matches_add (u : CStr) (hu : ∀ c, x u ≠ .here c) (hid : validUid u = true) (e : Entry S)
    (hlink : e.link = linkOf top n u) (hgood : Good owner u e.client) :
    Matches top owner n (update x u (.here e.client)) (addUser s u e) := by
  refine ⟨fun v => ?_, fun k v => ?_, fun v c' hc' => ?_, fun v hv => ?_⟩
  · show update s.byId u (some e) v = _
    by_cases hvu : v = u
    · subst hvu
      rw [update_self, update_self]
      show some e = some ⟨e.client, linkOf top n v⟩
      rw [← hlink]
    · rw [update_of_ne hvu, update_of_ne hvu, h.known v]
  · show update s.byName (nameKey e.client.name) (some u) k = some v ↔ _
    by_cases hk : k = nameKey e.client.name
    · subst hk
      rw [update_self]
      constructor
      · intro heq
        rw [← Option.some.inj heq, update_self]
        exact ⟨e.client, rfl, rfl⟩
      · rintro ⟨c', hc', hkey⟩
        by_cases hvu : v = u
        · rw [hvu]
        · rw [update_of_ne hvu] at hc'
          have hown := (h.good v c' hc').nick
          rw [hkey, hgood.nick] at hown
          rw [hown]
    · rw [update_of_ne hk, h.names k v]
      by_cases hvu : v = u
      · subst hvu
        rw [update_self]
        constructor
        · rintro ⟨c', hc', -⟩
          exact absurd hc' (hu c')
        · rintro ⟨c', hc', hkey⟩
          obtain rfl := Presence.here.inj hc'
          exact absurd hkey.symm hk
      · rw [update_of_ne hvu]
  · by_cases hvu : v = u
    · subst hvu
      rw [update_self] at hc'
      obtain rfl := Presence.here.inj hc'
      exact hgood
    · rw [update_of_ne hvu] at hc'
      exact h.good v c' hc'
  · by_cases hvu : v = u
    · rw [hvu]
      exact hid
    · rw [update_of_ne hvu] at hv
      exact h.ids v hv

theorem matches_put (u : CStr) (c : Client) (hc : x u = .here c) (c' : Option Client)
    (hgood : ∀ c'', c' = some c'' → Good owner u c'') :
    Matches top owner n (update x u (presence c')) (putUser s u ⟨c, linkOf top n u⟩ c') := by
  have hdrop := matches_drop h u c hc ⟨c, linkOf top n u⟩ rfl
  cases c' with
  | none => exact hdrop
  | some c'' =>
    have hadd := matches_add hdrop u (by simp) (h.ids u (by simp [hc])) ⟨c'', linkOf top n u⟩ rfl
      (hgood c'' rfl)
    rwa [update_idem] at hadd

end Lookup

theorem matches_locals (n : S) (x : CStr → Presence) (s : Server S) (h : Matches top owner n x s)
    (locals : CStr → Local) (issued : CStr → Bool) :
    Matches top owner n x { s with locals := locals, issued := issued } :=
  ⟨h.known, h.names, h.good, h.ids⟩

end IrcdHybrid.UserTables
