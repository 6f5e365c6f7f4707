import IrcdHybrid.Netsplit

/-!
The burst of a new link, line by line. Each line about a server, a user or the members
of a channel comes after the lines that introduce the servers and users it speaks of;
everybody that is not behind the link is introduced once, and each channel is sent once.
-/

namespace IrcdHybrid.BurstLaw

open CString Precede Forest MemberLists MemberInvariant ServerTree ServerBurst ServerEvents
open ServerInvariant ServerComing Exits Subtree ClientExit LinkBurst NetworkTold ServerSteps LinkEstab
open ServerRuns Netsplit Function

/-- The lines handed to a connection, in order. -/
def sentTo (s : Net) (p : ClientPtr) : List Line :=
  (s.sent.filter (fun x => decide (x.1 = p))).map Prod.snd

/-- The server a line introduces. -/
def sidOf : Line → Option CStr
  | .sid _ _ _ id _ _ => some id
  | _ => none

/-- The user a line introduces. -/
def uidOf : Line → Option CStr
  | .uid _ _ _ id _ _ => some id
  | _ => none

/-- What a line refers to is known already: the receiver knows of the sender, and of what the
lines before it introduced. -/
def Backed (meId : CStr) (before : List Line) : Line → Prop
  | .sid source _ _ _ _ _ => source = meId ∨ some source ∈ before.map sidOf
  | .uid server _ _ _ _ _ => server = meId ∨ some server ∈ before.map sidOf
  | .sjoin _ members => ∀ m ∈ members, some m.id ∈ before.map uidOf
  | _ => True

def WellFormed (meId : CStr) (lines : List Line) : Prop :=
  ∀ before line after, lines = before ++ line :: after → Backed meId before line

theorem mem_memberGroups (start : ℕ) (members : List Channels.Membership) (t : ℕ)
    (cur : List Channels.Membership) (g : List Channels.Membership) (m : Channels.Membership)
    (hg : g ∈ memberGroups start members t cur) (hm : m ∈ g) : m ∈ cur ++ members := by
  induction members generalizing t cur with
  | nil =>
    unfold memberGroups at hg
    rw [List.mem_singleton.mp hg] at hm
    exact List.mem_append_left _ hm
  | cons member members ih =>
    unfold memberGroups at hg
    extract_lets tlen at hg
    split at hg
    · rcases List.mem_cons.mp hg with rfl | hg
      · exact List.mem_append_left _ hm
      · exact List.mem_append_right _ (ih _ [member] hg)
    · have hall := ih _ (cur ++ [member]) hg
      rwa [List.append_assoc] at hall

section Lines

variable (s : Net) (link : ClientPtr)

theorem sid_told (q : ClientPtr) (items : List Item) (hq : .server q ∈ items) :
    some (idOf s q) ∈ (items.flatMap (itemLines s link)).map sidOf := by
  have hline : .sid (idOf s (s.node q).servptr) (nameOf s q) ((s.node q).hopcount + 1) (idOf s q)
      (s.node q).hidden (s.node q).profile.info ∈ itemLines s link (.server q) :=
    List.mem_singleton_self _
  exact List.mem_map.mpr ⟨_, List.mem_flatMap.mpr ⟨_, hq, hline⟩, rfl⟩

theorem uid_told (q : ClientPtr) (items : List Item) (hq : .user q ∈ items) :
    some (idOf s q) ∈ (items.flatMap (itemLines s link)).map uidOf := by
  have hline : .uid (idOf s (s.node q).servptr) (nameOf s q) ((s.node q).hopcount + 1) (idOf s q)
      (s.node q).profile (s.node link).capSvs ∈ itemLines s link (.user q) :=
    List.mem_append_left _ (List.mem_append_left _ (List.mem_append_left _
      (List.mem_singleton_self _)))
  exact List.mem_map.mpr ⟨_, List.mem_flatMap.mpr ⟨_, hq, hline⟩, rfl⟩

/-- The server that somebody is behind is the sender or has been introduced. -/
theorem server_told (q : ClientPtr) (items : List Item)
    (h : ∀ r, (s.node q).servptr ≠ s.me ∧ r = .server (s.node q).servptr → r ∈ items)
    (rest : List Line) : idOf s (s.node q).servptr = s.meId ∨
      some (idOf s (s.node q).servptr) ∈ (items.flatMap (itemLines s link) ++ rest).map sidOf := by
  by_cases hme : (s.node q).servptr = s.me
  · refine Or.inl ?_
    unfold idOf
    rw [if_pos hme]
  · refine Or.inr ?_
    rw [List.map_append]
    exact List.mem_append_left _ (sid_told s link _ items (h _ ⟨hme, rfl⟩))

/-- A line of an item refers to what the items before it introduced. -/
theorem item_backed (items : List Item) (i : Item) (h : ∀ r, refs s i r → r ∈ items)
    (front back : List Line) (line : Line) (hline : itemLines s link i = front ++ line :: back) :
    Backed s.meId (items.flatMap (itemLines s link) ++ front) line := by
  have hmem : line ∈ itemLines s link i := by
    rw [hline]
    simp
  cases i with
  | server q =>
    rw [List.mem_singleton.mp hmem]
    exact server_told s link q items h front
  | user q =>
    unfold itemLines uidLines at hmem
    simp only [List.mem_append, List.mem_singleton, List.mem_map] at hmem
    rcases hmem with ((rfl | hmem) | hmem) | ⟨tag, -, rfl⟩
    · exact server_told s link q items h front
    · split at hmem
      · rw [List.mem_singleton.mp hmem]
        trivial
      · simp at hmem
    · split at hmem
      · rw [List.mem_singleton.mp hmem]
        trivial
      · simp at hmem
    · trivial
  | channel chptr =>
    unfold itemLines at hmem
    dsimp only at hmem
    cases hc : s.rooms.channels chptr with
    | none =>
      rw [hc] at hmem
      simp at hmem
    | some c =>
      rw [hc] at hmem
      unfold channelLines sendMembers at hmem
      simp only [List.mem_append, List.mem_map] at hmem
      rcases hmem with (((⟨g, hg, rfl⟩ | ⟨t, -, rfl⟩) | ⟨t, -, rfl⟩) | ⟨t, -, rfl⟩) | hmem
      · intro m hm
        have hview := mem_memberGroups _ _ _ [] g m hg hm
        rw [List.nil_append] at hview
        obtain ⟨member, hmember, hview⟩ := List.mem_filterMap.mp hview
        obtain ⟨x, hx, rfl⟩ := Option.map_eq_some_iff.mp hview
        have hof : member ∈ membersOf s.rooms chptr := by
          unfold membersOf
          rw [hc]
          exact hmember
        rw [List.map_append]
        exact List.mem_append_left _ (uid_told s link _ items (h _ ⟨member, hof, x, hx, rfl⟩))
      · trivial
      · trivial
      · trivial
      · split at hmem
        · rw [List.mem_singleton.mp hmem]
          trivial
        · simp at hmem
  | ping =>
    rw [List.mem_singleton.mp hmem]
    trivial
  | eob q =>
    rw [List.mem_singleton.mp hmem]
    trivial

theorem items_wellFormed (items : List Item) (h : Earlier (refs s) items) :
    WellFormed s.meId (items.flatMap (itemLines s link)) := by
  intro before line after hsplit
  obtain ⟨items₁, i, items₂, front, back, hitems, hline, rfl⟩ :=
    flatMap_split (itemLines s link) items before line after hsplit
  exact item_backed s link items₁ i (h items₁ i items₂ hitems) front back line hline

end Lines

/-- Of a new link: what it is told introduces everybody who is not behind it. -/
structure BurstOf (s : Net) (link : ClientPtr) (items : List Item) : Prop where
  once : items.Nodup
  servers : ∀ q, .server q ∈ items ↔
    isServer s q = true ∧ q ≠ link ∧ ¬ Below (parentOf s) q link
  users : ∀ q, .user q ∈ items ↔ isClient s.rooms q = true ∧ ¬ Below (parentOf s) q link
  channels : ∀ chptr, .channel chptr ∈ items ↔ membersOf s.rooms chptr ≠ []
  wellFormed : WellFormed s.meId (items.flatMap (itemLines s link))
  unmarked : ∀ q, s.bursted q = false

section Registration

variable (conf : Conf) (s : Net) (p : ClientPtr)

theorem sentTo_append (sent : List (ClientPtr × Line)) (lines : List Line) :
    sentTo { s with sent := sent ++ lines.map (fun line => (p, line)) } p =
      sentTo { s with sent := sent } p ++ lines := by
  have hall : ∀ x ∈ lines.map (fun line => (p, line)), decide (x.1 = p) = true := by simp
  have hsnd : (lines.map (fun line => (p, line))).map Prod.snd = lines := by
    rw [List.map_map]
    exact List.map_id lines
  unfold sentTo
  dsimp only
  rw [List.filter_append, List.map_append, List.filter_eq_self.mpr hall, hsnd]

/-- The other links are told of the new one; it is only greeted. -/
theorem sentTo_linked : sentTo (linked conf s p) p = sentTo s p ++ greetLines conf s p := by
  obtain ⟨-, -, -, -, -, -, -, hsent⟩ := greeted_fields conf s p
  have hother : sentTo (linked conf s p) p = sentTo (greeted conf s p) p := by
    unfold linked sendtoServer sentTo
    dsimp only
    rw [List.filter_append, List.map_append]
    refine List.append_right_eq_self.mpr (List.map_eq_nil_iff.mpr (List.filter_eq_nil_iff.mpr ?_))
    rintro x hx
    obtain ⟨q, hq, rfl⟩ := List.mem_map.mp hx
    have hne := (List.mem_filter.mp hq).2
    simp only [Bool.and_eq_true, decide_eq_true_iff] at hne
    simpa using fun heq : q = p => hne.2 (congrArg some heq.symm)
  have hgreeted : sentTo (greeted conf s p) p =
      sentTo { s with sent := s.sent ++ (greetLines conf s p).map (fun line => (p, line)) } p := by
    unfold sentTo
    rw [hsent]
  rw [hother, hgreeted, sentTo_append]

theorem serverEstab_burst (h : Inv s) (hp : unregistered s p = true)
    (hlinked : isServer (serverEstab conf s p) p = true) :
    ∃ items, sentTo (serverEstab conf s p) p = sentTo s p ++ greetLines conf s p ++
        items.flatMap (itemLines (serverEstab conf s p) p) ∧
      BurstOf (serverEstab conf s p) p items := by
  have hknown := known_of_isUnknown s p (unregistered_iff s p hp).1
  have hleaf : (!conf.hub && decide (s.localServerList ≠ [])) = false := by
    by_contra hleaf
    obtain ⟨s₀, removed, -, hexited, -, hmem⟩ :=
      exitClient_exited conf s p "I'm a leaf not a hub".toList h hknown
    have hgone := hexited.rooms.clients p
    rw [if_pos ((hmem p).mpr (Or.inl rfl))] at hgone
    unfold serverEstab at hlinked
    rw [if_pos (by simpa using hleaf)] at hlinked
    unfold isServer at hlinked
    rw [hgone] at hlinked
    simp at hlinked
  have heq := serverEstab_eq conf s p hleaf (h.opened p hknown)
  obtain ⟨items, htold, hcomplete⟩ := linked_told conf s p h hp
  have hbehind : ∀ q, ¬ Below (parentOf (linked conf s p)) q p := fun q =>
    not_below _ q p (linked_parents conf s p h hp)
  have hunmarked := (linked_inv conf s p h hp).placed.unmarked
  rw [heq, htold]
  refine ⟨items, ?_, hcomplete.nodup, fun q => ?_, fun q => ?_, hcomplete.channels, ?_, hunmarked⟩
  · rw [← sentTo_linked]
    exact sentTo_append (linked conf s p) p _ _
  · rw [hcomplete.servers q]
    exact and_congr_right fun _ => (and_iff_left (hbehind q)).symm
  · rw [hcomplete.users q]
    exact (and_iff_left (hbehind q)).symm
  · exact items_wellFormed _ p items hcomplete.earlier

end Registration

/-- Two links: the one that comes second is told of the first, and of a user and a channel. -/
def secondLink : List Event :=
  linkEvents ++ [.msJoin 3 ["0".toList, "#a".toList, "+".toList], .connect 4, .pass 4 "0EF".toList]

end IrcdHybrid.BurstLaw
