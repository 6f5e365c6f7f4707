import IrcdHybrid.Precede
import IrcdHybrid.Subtree

/-!
What a new link is told, item by item. The servers come first, each behind the one it
is behind; then the channels, each behind its users; then the users that are on none.
The marks see to it that no user is told twice, and in the end there are none.
-/

namespace IrcdHybrid.LinkBurst

open Precede MemberLists MemberInvariant ServerTree ServerBurst ServerEvents ServerInvariant
open ServerComing Exits Subtree Function

inductive Item where
  | server (p : ClientPtr)
  | user (p : ClientPtr)
  | channel (chptr : ChannelPtr)
  | ping
  | eob (p : ClientPtr)
  deriving DecidableEq

def channelLines (s : Net) (link : ClientPtr) (chptr : ChannelPtr) (c : Channel) : List Line :=
  let view := channelView s chptr c
  let masks := fun type => (Burst.sendModeList s.meId view type).map (fun t => Line.bmask chptr t)
  let e := s.extra chptr
  sendMembers s chptr view ++ masks .ban ++ masks .exception ++ masks .invex ++
    if (s.node link).capTburst && decide (e.topicTime ≠ 0) then
      [.tburst chptr e.topicTime e.topicInfo e.topic]
    else []

/-- The lines by which a link is told of an item. -/
def itemLines (s : Net) (link : ClientPtr) : Item → List Line
  | .server p =>
    let n := s.node p
    [.sid (idOf s n.servptr) (nameOf s p) (n.hopcount + 1) (idOf s p) n.hidden n.profile.info]
  | .user p =>
    let profile := (s.node p).profile
    uidLines s link p ++
      (if profile.away ≠ [] then [.away (idOf s p) profile.away] else []) ++
      profile.svstags.map (fun tag => .svstag s.meId (idOf s p) profile.tsinfo tag)
  | .channel chptr =>
    match s.rooms.channels chptr with
    | some c => channelLines s link chptr c
    | none => []
  | .ping => [.ping s.meId]
  | .eob p => [.eob (idOf s p)]

/-- The link has been told of the items, and these users are marked. -/
def told (s : Net) (link : ClientPtr) (marks : ClientPtr → Bool) (items : List Item) : Net :=
  { s with
    bursted := marks
    sent := s.sent ++ (items.flatMap (itemLines s link)).map (fun line => (link, line)) }

section Told

variable (s : Net) (link : ClientPtr) (marks : ClientPtr → Bool) (items : List Item)

theorem told_nil : told s link s.bursted [] = s := by
  unfold told
  rw [List.flatMap_nil, List.map_nil, List.append_nil]

theorem told_append (items' : List Item) : told s link marks (items ++ items') =
    { told s link marks items with
      sent := (told s link marks items).sent ++
        (items'.flatMap (itemLines s link)).map (fun line => (link, line)) } := by
  unfold told
  dsimp only
  rw [List.flatMap_append, List.map_append, List.append_assoc]

theorem told_one (i : Item) : told s link marks (items ++ [i]) =
    { told s link marks items with
      sent := (told s link marks items).sent ++
        (itemLines s link i).map (fun line => (link, line)) } := by
  rw [told_append, List.flatMap_cons, List.flatMap_nil, List.append_nil]

def serverItems (q : ClientPtr) : List Item :=
  if q = s.me ∨ fromOf s q = link then [] else [.server q]

theorem sendServer_told (q : ClientPtr) : sendServer link (told s link marks items) q =
    told s link marks (items ++ serverItems s link q) := by
  unfold sendServer serverItems
  by_cases hq : q = s.me ∨ fromOf s q = link
  · have hq' : q = (told s link marks items).me ∨ fromOf (told s link marks items) q = link := hq
    rw [if_pos hq, if_pos hq', List.append_nil]
  · have hq' : ¬ (q = (told s link marks items).me ∨ fromOf (told s link marks items) q = link) := hq
    rw [if_neg hq, if_neg hq', told_one]
    rfl

theorem sendServers_told (l : List ClientPtr) : l.foldl (sendServer link) (told s link marks items) =
    told s link marks (items ++ l.flatMap (serverItems s link)) := by
  induction l generalizing items with
  | nil =>
    rw [List.foldl_nil, List.flatMap_nil, List.append_nil]
  | cons q l ih =>
    rw [List.foldl_cons, sendServer_told, ih, List.flatMap_cons, List.append_assoc]

def eobItems (q : ClientPtr) : List Item :=
  if fromOf s q = link then [] else if q = s.me ∨ (s.node q).eob then [.eob q] else []

theorem sendEob_told (q : ClientPtr) : sendEob link (told s link marks items) q =
    told s link marks (items ++ eobItems s link q) := by
  unfold sendEob eobItems
  by_cases hq : fromOf s q = link
  · have hq' : fromOf (told s link marks items) q = link := hq
    rw [if_pos hq, if_pos hq', List.append_nil]
  · have hq' : ¬ fromOf (told s link marks items) q = link := hq
    rw [if_neg hq, if_neg hq']
    by_cases heob : q = s.me ∨ (s.node q).eob = true
    · have heob' : q = (told s link marks items).me ∨
          ((told s link marks items).node q).eob = true := heob
      rw [if_pos heob, if_pos heob', told_one]
      rfl
    · have heob' : ¬ (q = (told s link marks items).me ∨
          ((told s link marks items).node q).eob = true) := heob
      rw [if_neg heob, if_neg heob', List.append_nil]

theorem sendEobs_told (l : List ClientPtr) : l.foldl (sendEob link) (told s link marks items) =
    told s link marks (items ++ l.flatMap (eobItems s link)) := by
  induction l generalizing items with
  | nil =>
    rw [List.foldl_nil, List.flatMap_nil, List.append_nil]
  | cons q l ih =>
    rw [List.foldl_cons, sendEob_told, ih, List.flatMap_cons, List.append_assoc]

theorem sendnickTS_told (q : ClientPtr) : sendnickTS (told s link marks items) link q =
    told s link marks (items ++ if isClient s.rooms q then [.user q] else []) := by
  unfold sendnickTS
  by_cases hq : isClient s.rooms q = true
  · have hq' : (!isClient (told s link marks items).rooms q) = false := by
      show (!isClient s.rooms q) = false
      rw [hq]
      rfl
    rw [hq', if_pos hq, told_one]
    rfl
  · have hq' : (!isClient (told s link marks items).rooms q) = true := by
      show (!isClient s.rooms q) = true
      simpa using hq
    rw [hq', if_neg hq, List.append_nil]
    rfl

theorem burstMember_told (h : Good s.rooms) (m : MemberPtr) (x : MemberLists.Membership)
    (hx : s.rooms.memberships m = some x) : burstMember link (told s link marks items) m =
      if marks x.client then told s link marks items
      else told s link (update marks x.client true)
        (items ++ if fromOf s x.client ≠ link then [.user x.client] else []) := by
  have hclient := h.consistent.linked.clients m x hx
  have hx' : (told s link marks items).rooms.memberships m = some x := hx
  unfold burstMember
  rw [hx']
  dsimp only
  have hmarks : (told s link marks items).bursted = marks := rfl
  rw [hmarks]
  by_cases hmark : marks x.client = true
  · rw [if_pos hmark, if_pos hmark]
  · rw [if_neg hmark, if_neg hmark]
    have hadd : addBursted (told s link marks items) x.client =
        told s link (update marks x.client true) items := rfl
    rw [hadd]
    by_cases hfrom : fromOf s x.client ≠ link
    · have hfrom' : fromOf (told s link (update marks x.client true) items) x.client ≠ link := hfrom
      rw [if_pos hfrom, if_pos hfrom', sendnickTS_told, if_pos hclient]
    · have hfrom' : ¬ fromOf (told s link (update marks x.client true) items) x.client ≠ link := hfrom
      rw [if_neg hfrom, if_neg hfrom', List.append_nil]

theorem burstRest_told (q : ClientPtr) : burstRest link (told s link marks items) q =
    told s link (update marks q false) (items ++
      if marks q = false ∧ fromOf s q ≠ link ∧ isClient s.rooms q = true then [.user q] else []) := by
  unfold burstRest delBursted
  dsimp only
  have hmarks : (told s link marks items).bursted = marks := rfl
  have hfrom : fromOf (told s link marks items) q = fromOf s q := rfl
  rw [hmarks, hfrom]
  by_cases hsend : marks q = false ∧ fromOf s q ≠ link
  · have hcond : (!marks q && decide (fromOf s q ≠ link)) = true := by simp [hsend.1, hsend.2]
    rw [hcond, if_pos rfl, sendnickTS_told]
    have hif : (if isClient s.rooms q = true then [Item.user q] else []) =
        if marks q = false ∧ fromOf s q ≠ link ∧ isClient s.rooms q = true then [.user q] else [] := by
      by_cases hclient : isClient s.rooms q = true
      · rw [if_pos hclient, if_pos ⟨hsend.1, hsend.2, hclient⟩]
      · rw [if_neg hclient, if_neg (fun h => hclient h.2.2)]
    rw [hif]
    rfl
  · have hcond : (!marks q && decide (fromOf s q ≠ link)) = false := by
      rw [Bool.eq_false_iff]
      intro htrue
      rw [Bool.and_eq_true, decide_eq_true_iff] at htrue
      exact hsend ⟨by simpa using htrue.1, htrue.2⟩
    rw [hcond, if_neg (by simp : ¬ (false = true)), if_neg (fun h => hsend ⟨h.1, h.2.1⟩),
      List.append_nil]
    rfl

theorem sendChannel_told (chptr : ChannelPtr) (c : Channel) (hc : s.rooms.channels chptr = some c) :
    (if ((sendChannelModes (told s link marks items) link chptr).node link).capTburst then
        sendTb (sendChannelModes (told s link marks items) link chptr) link chptr
      else sendChannelModes (told s link marks items) link chptr) =
      told s link marks (items ++ [.channel chptr]) := by
  have hlines : itemLines s link (.channel chptr) = channelLines s link chptr c := by
    show (match s.rooms.channels chptr with
      | some c => channelLines s link chptr c
      | none => []) = _
    rw [hc]
  have hmodes : sendChannelModes (told s link marks items) link chptr =
      { told s link marks items with
        sent := (told s link marks items).sent ++
          ((sendMembers s chptr (channelView s chptr c) ++
            (Burst.sendModeList s.meId (channelView s chptr c) .ban).map (fun t => Line.bmask chptr t) ++
            (Burst.sendModeList s.meId (channelView s chptr c) .exception).map
              (fun t => Line.bmask chptr t) ++
            (Burst.sendModeList s.meId (channelView s chptr c) .invex).map
              (fun t => Line.bmask chptr t)).map (fun line => (link, line))) } := by
    unfold sendChannelModes
    have hc' : (told s link marks items).rooms.channels chptr = some c := hc
    rw [hc']
    rfl
  have hnode : ((sendChannelModes (told s link marks items) link chptr).node link).capTburst =
      (s.node link).capTburst := by
    rw [hmodes]
    rfl
  rw [hnode, told_one, hlines]
  unfold channelLines
  dsimp only
  cases hcap : (s.node link).capTburst with
  | false =>
    rw [if_neg (by simp : ¬ (false = true)), hmodes, Bool.false_and, if_neg (by simp : ¬ (false = true)),
      List.append_nil]
  | true =>
    rw [if_pos rfl, Bool.true_and]
    unfold sendTb
    have hextra : (sendChannelModes (told s link marks items) link chptr).extra = s.extra := by
      rw [hmodes]
      rfl
    dsimp only
    rw [hextra]
    by_cases htopic : (s.extra chptr).topicTime ≠ 0
    · rw [if_pos htopic, if_pos (by simpa using htopic), hmodes]
      unfold sendtoOne
      simp only [List.map_append, List.append_assoc]
      rfl
    · rw [if_neg htopic, if_neg (by simpa using htopic), hmodes, List.append_nil]

end Told

/-- What the lines of an item refer to: a server and a user to the server it is behind, a channel
to its users. -/
def refs (s : Net) : Item → Item → Prop
  | .server q, r => (s.node q).servptr ≠ s.me ∧ r = .server (s.node q).servptr
  | .user q, r => (s.node q).servptr ≠ s.me ∧ r = .server (s.node q).servptr
  | .channel chptr, r => ∃ m ∈ membersOf s.rooms chptr, ∃ x,
      s.rooms.memberships m = some x ∧ r = .user x.client
  | .ping, _ => False
  | .eob q, r => q ≠ s.me ∧ r = .server q

section Order

variable (s : Net) (h : Placed s) (link : ClientPtr)
  (hnew : ∀ q, isClient s.rooms q = true ∨ isServer s q = true → fromOf s q = link → q = link)
  (hlink : isServer s link = true)

/-- The walks of `burst_all`, as far as they have come; `servers` has been sent before. -/
structure Bursting (servers : List Item) (done : List ChannelPtr) (met : ClientPtr → Bool)
    (items : List Item) : Prop where
  clients : ∀ q, met q = true → isClient s.rooms q = true
  users : ∀ q, .user q ∈ items ↔ met q = true
  channels : ∀ chptr, .channel chptr ∈ items ↔ chptr ∈ done
  others : ∀ q, .server q ∉ items ∧ .eob q ∉ items ∧ .ping ∉ items
  nodup : items.Nodup
  earlier : Earlier (refs s) (servers ++ items)

variable (servers : List Item)
  (hservers : ∀ q r, isClient s.rooms q = true → refs s (.user q) r → r ∈ servers)

include hservers

theorem user_bursting (done : List ChannelPtr) (met : ClientPtr → Bool) (items : List Item)
    (hb : Bursting s servers done met items) (q : ClientPtr) (hq : isClient s.rooms q = true)
    (hmet : met q = false) :
    Bursting s servers done (update met q true) (items ++ [.user q]) := by
  refine ⟨fun a ha => ?_, fun a => ?_, fun chptr => ?_, fun a => ?_, ?_, ?_⟩
  · by_cases haq : a = q
    · rw [haq]
      exact hq
    · rw [update_of_ne haq] at ha
      exact hb.clients a ha
  · rw [List.mem_append, hb.users a, List.mem_singleton, Item.user.injEq]
    by_cases haq : a = q
    · simp [haq]
    · simp [haq]
  · rw [List.mem_append, hb.channels chptr]
    simp
  · obtain ⟨h1, h2, h3⟩ := hb.others a
    simp [h1, h2, h3]
  · refine List.nodup_append.mpr ⟨hb.nodup, List.nodup_singleton _, ?_⟩
    rintro i hi j hj rfl
    rw [List.mem_singleton.mp hj, hb.users q, hmet] at hi
    simp at hi
  · rw [← List.append_assoc]
    refine earlier_concat _ _ _ hb.earlier fun r hr => ?_
    exact List.mem_append_left _ (hservers q r hq hr)

include hnew hlink

omit hservers in
theorem from_ne (q : ClientPtr) (hq : isClient s.rooms q = true) : fromOf s q ≠ link := by
  intro hfrom
  have hsame := hnew q (Or.inl hq) hfrom
  rw [hsame] at hq
  rw [not_server_of_client s link hq] at hlink
  simp at hlink

include h

theorem burstMembers_bursting (l : List MemberPtr) (done : List ChannelPtr)
    (marks : ClientPtr → Bool) (items : List Item) (hb : Bursting s servers done marks items)
    (hl : ∀ m ∈ l, ∃ x, s.rooms.memberships m = some x) :
    ∃ marks' items', l.foldl (burstMember link) (told s link marks (servers ++ items)) =
        told s link marks' (servers ++ items') ∧ Bursting s servers done marks' items' ∧
      (∀ q, marks q = true → marks' q = true) ∧
      ∀ m ∈ l, ∀ x, s.rooms.memberships m = some x → marks' x.client = true := by
  induction l generalizing marks items with
  | nil => exact ⟨marks, items, rfl, hb, fun _ hq => hq, by simp⟩
  | cons m l ih =>
    obtain ⟨x, hx⟩ := hl m List.mem_cons_self
    have hrest : ∀ m ∈ l, ∃ x, s.rooms.memberships m = some x :=
      fun m' hm' => hl m' (List.mem_cons_of_mem m hm')
    have hclient := h.good.consistent.linked.clients m x hx
    have hm : ∀ {marks' : ClientPtr → Bool}, marks' x.client = true →
        (∀ m ∈ l, ∀ x, s.rooms.memberships m = some x → marks' x.client = true) →
        ∀ m' ∈ m :: l, ∀ x, s.rooms.memberships m' = some x → marks' x.client = true := by
      intro marks' hx' hall m' hm' y hy
      rcases List.mem_cons.mp hm' with rfl | hm'
      · rw [hx] at hy
        rw [← Option.some.inj hy]
        exact hx'
      · exact hall m' hm' y hy
    rw [List.foldl_cons, burstMember_told s link marks (servers ++ items) h.good m x hx]
    cases hmark : marks x.client with
    | true =>
      rw [if_pos rfl]
      obtain ⟨marks', items', heq, hb', hmono, hall⟩ := ih marks items hb hrest
      exact ⟨marks', items', heq, hb', hmono, hm (hmono _ hmark) hall⟩
    | false =>
      have hfrom := from_ne s link hnew hlink x.client hclient
      rw [if_neg (by simp : ¬ (false = true)), if_pos hfrom, List.append_assoc]
      obtain ⟨marks', items', heq, hb', hmono, hall⟩ := ih _ _
        (user_bursting s servers hservers done marks items hb x.client hclient hmark)
        hrest
      refine ⟨marks', items', heq, hb', fun q hq => hmono q ?_,
        hm (hmono _ (update_self _ _ _)) hall⟩
      by_cases hqx : q = x.client
      · rw [hqx, update_self]
      · rw [update_of_ne hqx]
        exact hq

theorem burstChannel_bursting (chptr : ChannelPtr) (c : Channel)
    (hc : s.rooms.channels chptr = some c) (done : List ChannelPtr) (hdone : chptr ∉ done)
    (marks : ClientPtr → Bool) (items : List Item) (hb : Bursting s servers done marks items) :
    ∃ marks' items', burstChannel link (told s link marks (servers ++ items)) chptr =
      told s link marks' (servers ++ items') ∧ Bursting s servers (chptr :: done) marks' items' := by
  have hmembers : membersOf s.rooms chptr = c.members := by
    unfold membersOf
    rw [hc]
  have hne : membersOf (told s link marks (servers ++ items)).rooms chptr ≠ [] := by
    show membersOf s.rooms chptr ≠ []
    rw [hmembers]
    exact h.good.live chptr c hc
  obtain ⟨marks', items', heq, hb', -, hall⟩ := burstMembers_bursting s h link hnew hlink servers
    hservers (membersOf s.rooms chptr) done marks items hb (fun m hm => by
      have hkey := ((h.good.consistent.linked.members chptr).2 m).mp hm
      unfold chanKey at hkey
      obtain ⟨x, hx, -⟩ := Option.map_eq_some_iff.mp hkey
      exact ⟨x, hx⟩)
  refine ⟨marks', items' ++ [.channel chptr], ?_, ?_⟩
  · unfold burstChannel
    rw [if_neg hne]
    unfold burstMembers
    have hrooms : membersOf (told s link marks (servers ++ items)).rooms chptr =
        membersOf s.rooms chptr := rfl
    dsimp only
    rw [hrooms, heq, sendChannel_told s link marks' (servers ++ items') chptr c hc, List.append_assoc]
  · refine ⟨hb'.clients, fun q => ?_, fun a => ?_, fun q => ?_, ?_, ?_⟩
    · rw [List.mem_append, hb'.users q]
      simp
    · rw [List.mem_append, hb'.channels a, List.mem_singleton, Item.channel.injEq, List.mem_cons,
        or_comm]
    · obtain ⟨h1, h2, h3⟩ := hb'.others q
      simp [h1, h2, h3]
    · refine List.nodup_append.mpr ⟨hb'.nodup, List.nodup_singleton _, ?_⟩
      rintro i hi j hj rfl
      rw [List.mem_singleton.mp hj, hb'.channels chptr] at hi
      exact hdone hi
    · rw [← List.append_assoc]
      refine earlier_concat _ _ _ hb'.earlier fun r hr => ?_
      obtain ⟨m, hm, x, hx, rfl⟩ := hr
      exact List.mem_append_right _ ((hb'.users x.client).mpr (hall m hm x hx))

theorem burstChannels_bursting (l : List ChannelPtr) (hl : l.Nodup)
    (hexists : ∀ chptr ∈ l, (s.rooms.channels chptr).isSome = true) (done : List ChannelPtr)
    (hdone : ∀ chptr ∈ l, chptr ∉ done) (marks : ClientPtr → Bool) (items : List Item)
    (hb : Bursting s servers done marks items) :
    ∃ marks' items', l.foldl (burstChannel link) (told s link marks (servers ++ items)) =
      told s link marks' (servers ++ items') ∧
      Bursting s servers (l.reverse ++ done) marks' items' := by
  induction l generalizing done marks items with
  | nil => exact ⟨marks, items, rfl, hb⟩
  | cons chptr l ih =>
    obtain ⟨hnot, hl'⟩ := List.nodup_cons.mp hl
    obtain ⟨c, hc⟩ := Option.isSome_iff_exists.mp (hexists chptr List.mem_cons_self)
    obtain ⟨marks', items', heq, hb'⟩ := burstChannel_bursting s h link hnew hlink servers hservers
      chptr c hc done (hdone chptr List.mem_cons_self) marks items hb
    rw [List.foldl_cons, heq, List.reverse_cons, List.append_assoc]
    refine ih hl' (fun a ha => hexists a (List.mem_cons_of_mem chptr ha)) (chptr :: done)
      (fun a ha => ?_) _ _ hb'
    rw [List.mem_cons, not_or]
    refine ⟨?_, hdone a (List.mem_cons_of_mem chptr ha)⟩
    rintro rfl
    exact hnot ha

omit h in
/-- The users that are still to be sent, and no marks left. -/
theorem burstRest_bursting (l : List ClientPtr) (hl : l.Nodup) (done : List ChannelPtr)
    (marks met : ClientPtr → Bool) (hmarks : ∀ q ∈ l, marks q = met q) (items : List Item)
    (hb : Bursting s servers done met items) :
    ∃ met' items', l.foldl (burstRest link) (told s link marks (servers ++ items)) =
        told s link (fun q => !decide (q ∈ l) && marks q) (servers ++ items') ∧
      Bursting s servers done met' items' ∧
      ∀ q, met' q = true ↔ met q = true ∨ (q ∈ l ∧ isClient s.rooms q = true) := by
  induction l generalizing marks met items with
  | nil => exact ⟨met, items, by simp, hb, by simp⟩
  | cons q l ih =>
    obtain ⟨hnot, hl'⟩ := List.nodup_cons.mp hl
    have hq := hmarks q List.mem_cons_self
    have hne : ∀ a ∈ l, a ≠ q := by
      rintro a ha rfl
      exact hnot ha
    have hclear : (fun a => !decide (a ∈ l) && update marks q false a) =
        fun a => !decide (a ∈ q :: l) && marks a := by
      funext a
      by_cases haq : a = q
      · simp [haq]
      · simp [haq]
    have hrest : ∀ a ∈ l, update marks q false a = marks a := fun a ha => update_of_ne (hne a ha) _ _
    rw [List.foldl_cons, burstRest_told, ← hclear]
    by_cases hsend : marks q = false ∧ fromOf s q ≠ link ∧ isClient s.rooms q = true
    · rw [if_pos hsend, List.append_assoc]
      have hb' := user_bursting s servers hservers done met items hb q hsend.2.2 (hq ▸ hsend.1)
      obtain ⟨met', items', heq, hb'', hmet'⟩ := ih hl' (update marks q false) (update met q true)
        (fun a ha => by
          rw [hrest a ha, update_of_ne (hne a ha)]
          exact hmarks a (List.mem_cons_of_mem q ha)) _ hb'
      refine ⟨met', items', heq, hb'', fun a => ?_⟩
      rw [hmet' a]
      by_cases haq : a = q
      · simp [haq, hsend.2.2]
      · simp [haq]
    · rw [if_neg hsend, List.append_nil]
      obtain ⟨met', items', heq, hb', hmet'⟩ := ih hl' (update marks q false) met
        (fun a ha => by
          rw [hrest a ha]
          exact hmarks a (List.mem_cons_of_mem q ha)) items hb
      refine ⟨met', items', heq, hb', fun a => ?_⟩
      rw [hmet' a]
      by_cases haq : a = q
      · -- it is marked, or it is no user
        have hor : isClient s.rooms q = true → met q = true := by
          intro hclient
          by_contra hmet
          have hfrom := from_ne s link hnew hlink q hclient
          exact hsend ⟨hq.trans (by simpa using hmet), hfrom, hclient⟩
        rw [haq]
        constructor
        · rintro (hmet | ⟨hmem, -⟩)
          · exact Or.inl hmet
          · exact absurd hmem hnot
        · rintro (hmet | ⟨-, hclient⟩)
          · exact Or.inl hmet
          · exact Or.inl (hor hclient)
      · simp [haq]

end Order

end IrcdHybrid.LinkBurst
