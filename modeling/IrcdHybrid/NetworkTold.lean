import IrcdHybrid.LinkBurst

/-!
All that a new link is told of the network: each server but itself, each user and each
channel once, nothing before what it refers to, and no mark is left.
-/

namespace IrcdHybrid.NetworkTold

open Precede ServerLists MemberLists MemberInvariant ServerTree ServerBurst ServerEvents
open ServerInvariant ServerComing Exits Subtree LinkBurst Function

structure Complete (s : Net) (link : ClientPtr) (items : List Item) : Prop where
  nodup : items.Nodup
  servers : ∀ q, .server q ∈ items ↔ isServer s q = true ∧ q ≠ link
  users : ∀ q, .user q ∈ items ↔ isClient s.rooms q = true
  channels : ∀ chptr, .channel chptr ∈ items ↔ membersOf s.rooms chptr ≠ []
  earlier : Earlier (refs s) items

theorem channelList_spec (s : Net) (h : Good s.rooms) :
    (channelList s).Nodup ∧
      ∀ chptr, chptr ∈ channelList s ↔ (s.rooms.channels chptr).isSome = true := by
  unfold channelList
  refine ⟨(List.nodup_reverse.mpr List.nodup_range).filter _, fun chptr => ?_⟩
  rw [List.mem_filter, List.mem_reverse, List.mem_range]
  refine and_iff_right_of_imp fun hsome => ?_
  by_contra hge
  rw [h.consistent.hashed.fresh chptr (Nat.le_of_not_lt hge)] at hsome
  simp at hsome

theorem members_ne_nil (s : Net) (h : Good s.rooms) (chptr : ChannelPtr) :
    (s.rooms.channels chptr).isSome = true ↔ membersOf s.rooms chptr ≠ [] := by
  unfold membersOf
  cases hc : s.rooms.channels chptr with
  | none => simp
  | some c => simp [h.live chptr c hc]

section Servers

variable (s : Net) (h : Placed s) (link : ClientPtr)

theorem mem_serverItems (l : List ClientPtr) (i : Item) :
    i ∈ l.flatMap (serverItems s link) ↔
      ∃ q ∈ l, q ≠ s.me ∧ fromOf s q ≠ link ∧ i = .server q := by
  rw [List.mem_flatMap]
  unfold serverItems
  constructor
  · rintro ⟨q, hq, hi⟩
    split at hi
    · simp at hi
    · next hnot =>
      rw [not_or] at hnot
      exact ⟨q, hq, hnot.1, hnot.2, List.mem_singleton.mp hi⟩
  · rintro ⟨q, hq, hne, hfrom, rfl⟩
    refine ⟨q, hq, ?_⟩
    rw [if_neg (by simp [hne, hfrom])]
    exact List.mem_singleton_self _

theorem nodup_serverItems (l : List ClientPtr) (hl : l.Nodup) :
    (l.flatMap (serverItems s link)).Nodup := by
  induction l with
  | nil => exact List.nodup_nil
  | cons q l ih =>
    obtain ⟨hq, hl'⟩ := List.nodup_cons.mp hl
    rw [List.flatMap_cons]
    refine List.nodup_append.mpr ⟨?_, ih hl', ?_⟩
    · unfold serverItems
      split
      · exact List.nodup_nil
      · exact List.nodup_singleton _
    · rintro i hi j hj rfl
      obtain ⟨a, ha, -, -, rfl⟩ := (mem_serverItems s link l i).mp hj
      unfold serverItems at hi
      split at hi
      · simp at hi
      · rw [Item.server.inj (List.mem_singleton.mp hi)] at ha
        exact hq ha

include h

/-- The server of one that is not reached over the link is not reached over it either. -/
theorem parent_from (p : ClientPtr) (hp : isClient s.rooms p = true ∨ isServer s p = true)
    (hne : (s.node p).servptr ≠ s.me) (hfrom : fromOf s p ≠ link) :
    (s.node p).servptr ∈ s.globalServerList ∧ fromOf s (s.node p).servptr ≠ link := by
  have hparent := parentOf_cases s p _ ((parentOf_eq_some s p _).mpr ⟨hp, rfl⟩)
  refine ⟨parent_mem_servers _ _ _ _ _ _ _ h.listed p _ hparent, ?_⟩
  have hsame := ((h.routed p _ hparent).resolve_left fun hroot => hne hroot.1).2.1
  rwa [← hsame]

/-- From the oldest server on, the one that a server is behind comes earlier. -/
theorem servers_earlier (l pre : List ClientPtr) (hl : s.globalServerList = pre ++ l) :
    Earlier (refs s) (l.reverse.flatMap (serverItems s link)) := by
  induction l generalizing pre with
  | nil => exact earlier_nil _
  | cons q l ih =>
    have hrest := ih (pre ++ [q]) (by rw [hl]; simp)
    rw [List.reverse_cons, List.flatMap_append, List.flatMap_cons, List.flatMap_nil, List.append_nil]
    by_cases hq : q = s.me ∨ fromOf s q = link
    · have hnil : serverItems s link q = [] := by
        unfold serverItems
        rw [if_pos hq]
      rw [hnil, List.append_nil]
      exact hrest
    · have hone : serverItems s link q = [.server q] := by
        unfold serverItems
        rw [if_neg hq]
      rw [not_or] at hq
      rw [hone]
      refine earlier_concat _ _ _ hrest fun r hr => ?_
      obtain ⟨hne, rfl⟩ := hr
      have hmem : q ∈ s.globalServerList := by
        rw [hl]
        simp
      have hserver := (serverParent_ne_none s q).mp (((h.listed.mem_servers q).mp hmem).resolve_left hq.1)
      have hkey : serverParent s q = some (s.node q).servptr := by
        unfold serverParent
        rw [if_pos hserver]
      refine (mem_serverItems s link _ _).mpr ⟨_, ?_, hne,
        (parent_from s h link q (Or.inr hserver) hne hq.2).2, rfl⟩
      rw [List.mem_reverse]
      exact h.listed.ordered pre q l hl _ hkey

end Servers

section Network

variable (s : Net) (h : Placed s) (link : ClientPtr) (hlink : isServer s link = true)
  (hself : fromOf s link = link)
  (hnew : ∀ q, isClient s.rooms q = true ∨ isServer s q = true → fromOf s q = link → q = link)

include h

omit h in
theorem mem_eobItems (l : List ClientPtr) (i : Item) (hi : i ∈ l.flatMap (eobItems s link)) :
    ∃ q ∈ l, fromOf s q ≠ link ∧ i = .eob q := by
  obtain ⟨q, hq, hi⟩ := List.mem_flatMap.mp hi
  unfold eobItems at hi
  split at hi
  · simp at hi
  · next hfrom =>
    split at hi
    · exact ⟨q, hq, hfrom, List.mem_singleton.mp hi⟩
    · simp at hi

omit h in
theorem nodup_eobItems (l : List ClientPtr) (hl : l.Nodup) : (l.flatMap (eobItems s link)).Nodup := by
  induction l with
  | nil => exact List.nodup_nil
  | cons q l ih =>
    obtain ⟨hq, hl'⟩ := List.nodup_cons.mp hl
    rw [List.flatMap_cons]
    refine List.nodup_append.mpr ⟨?_, ih hl', ?_⟩
    · unfold eobItems
      split
      · exact List.nodup_nil
      · split
        · exact List.nodup_singleton _
        · exact List.nodup_nil
    · rintro i hi j hj rfl
      obtain ⟨a, ha, -, rfl⟩ := mem_eobItems s link l i hj
      obtain ⟨b, hb, -, hsame⟩ := mem_eobItems s link [q] (.eob a) (by simpa using hi)
      rw [Item.eob.inj hsame, List.mem_singleton.mp hb] at ha
      exact hq ha

include hlink hself hnew

theorem tellNetwork_told : ∃ items, tellNetwork s link = told s link s.bursted items ∧
    Complete s link items := by
  have hmarks : s.bursted = fun _ => false := funext h.unmarked
  have hnodup : s.globalServerList.reverse.Nodup := List.nodup_reverse.mpr h.listed.servers_nodup
  generalize hserverItems : s.globalServerList.reverse.flatMap (serverItems s link) = servers
  have hearlier : Earlier (refs s) servers := by
    rw [← hserverItems]
    exact servers_earlier s h link s.globalServerList [] rfl
  have hmem : ∀ i, i ∈ servers ↔ ∃ q, isServer s q = true ∧ q ≠ link ∧ i = .server q := by
    intro i
    rw [← hserverItems, mem_serverItems]
    constructor
    · rintro ⟨q, hq, hne, hfrom, rfl⟩
      rw [List.mem_reverse, h.listed.mem_servers] at hq
      refine ⟨q, (serverParent_ne_none s q).mp (hq.resolve_left hne), ?_, rfl⟩
      rintro rfl
      exact hfrom hself
    · rintro ⟨q, hserver, hne, rfl⟩
      refine ⟨q, ?_, ?_, fun hfrom => hne (hnew q (Or.inr hserver) hfrom), rfl⟩
      · rw [List.mem_reverse, h.listed.mem_servers]
        exact Or.inr ((serverParent_ne_none s q).mpr hserver)
      · intro hme
        rw [hme] at hserver
        exact (serverParent_ne_none s s.me).mpr hserver h.listed.root.2
  have hservers : ∀ q r, isClient s.rooms q = true → refs s (.user q) r → r ∈ servers := by
    rintro q r hq ⟨hne, rfl⟩
    have hparent := parent_from s h link q (Or.inl hq) hne (from_ne s link hnew hlink q hq)
    rw [← hserverItems]
    exact (mem_serverItems s link _ _).mpr
      ⟨_, List.mem_reverse.mpr hparent.1, hne, hparent.2, rfl⟩
  -- the servers have been sent, and the channels come next
  have hstart : Bursting s servers [] (fun _ => false) [] := by
    refine ⟨by simp, by simp, by simp, by simp, List.nodup_nil, ?_⟩
    rw [List.append_nil]
    exact hearlier
  obtain ⟨hlist, hchannels⟩ := channelList_spec s h.good
  obtain ⟨marks, items, heq, hb⟩ := burstChannels_bursting s h link hnew hlink servers hservers
    (channelList s) hlist (fun chptr hc => (hchannels chptr).mp hc) [] (by simp) _ [] hstart
  obtain ⟨met, items', heq', hb', hmet⟩ := burstRest_bursting s link hnew hlink servers hservers
    s.globalClientList h.listed.global_nodup _ marks marks (fun _ _ => rfl) items hb
  have hglobal : ∀ q, isClient s.rooms q = true → q ∈ s.globalClientList := fun q hq =>
    (h.listed.mem_global q).mpr (Or.inl ((clientParent_ne_none s q).mpr hq))
  have hcleared : (fun q => !decide (q ∈ s.globalClientList) && marks q) = s.bursted := by
    rw [hmarks]
    funext q
    cases hq : marks q with
    | false => simp
    | true => simp [hglobal q (hb.clients q hq)]
  rw [hcleared] at heq'
  have hburst : serverBurst (s.globalServerList.reverse.foldl (sendServer link) s) link =
      told s link s.bursted (servers ++ items' ++ [.ping]) := by
    have hfirst : s.globalServerList.reverse.foldl (sendServer link) s =
        told s link (fun _ => false) (servers ++ []) := by
      have htold := sendServers_told s link s.bursted [] s.globalServerList.reverse
      rw [told_nil, hserverItems, List.nil_append] at htold
      rw [htold, hmarks, List.append_nil]
    have hall : burstAll (told s link (fun _ => false) (servers ++ [])) link =
        told s link s.bursted (servers ++ items') := by
      show s.globalClientList.foldl (burstRest link) ((channelList s).foldl (burstChannel link)
        (told s link (fun _ => false) (servers ++ []))) = _
      rw [heq, heq']
    unfold serverBurst
    rw [hfirst, hall, told_one]
    rfl
  have hend : ∃ items, tellNetwork s link = told s link s.bursted (servers ++ items' ++ [.ping] ++ items) ∧
      items.Nodup ∧ ∀ i ∈ items, ∃ q ∈ s.globalServerList, fromOf s q ≠ link ∧ i = .eob q := by
    unfold tellNetwork
    dsimp only
    have hnode : ((told s link s.bursted (servers ++ items' ++ [.ping])).node link).capEob =
        (s.node link).capEob := rfl
    rw [hburst, hnode]
    by_cases hcap : (s.node link).capEob = true
    · rw [if_pos hcap]
      refine ⟨s.globalServerList.reverse.flatMap (eobItems s link), ?_,
        nodup_eobItems s link _ hnodup, fun i hi => ?_⟩
      · exact sendEobs_told s link s.bursted _ s.globalServerList.reverse
      · obtain ⟨q, hq, hfrom, hsame⟩ := mem_eobItems s link _ i hi
        exact ⟨q, List.mem_reverse.mp hq, hfrom, hsame⟩
    · rw [if_neg hcap]
      exact ⟨[], by rw [List.append_nil], List.nodup_nil, by simp⟩
  obtain ⟨eobs, htold, heobs, hmemEob⟩ := hend
  have hinServers : ∀ i ∈ servers, ∃ q, i = .server q := by
    intro i hi
    obtain ⟨q, -, -, rfl⟩ := (hmem i).mp hi
    exact ⟨q, rfl⟩
  have hinEobs : ∀ i ∈ eobs, ∃ q, i = .eob q := by
    intro i hi
    obtain ⟨q, -, -, rfl⟩ := hmemEob i hi
    exact ⟨q, rfl⟩
  refine ⟨_, htold, ?_, fun q => ?_, fun q => ?_, fun chptr => ?_, ?_⟩
  · refine List.nodup_append.mpr ⟨List.nodup_append.mpr ⟨List.nodup_append.mpr ⟨?_, hb'.nodup, ?_⟩,
      List.nodup_singleton _, ?_⟩, heobs, ?_⟩
    · rw [← hserverItems]
      exact nodup_serverItems s link _ hnodup
    · rintro i hi j hj rfl
      obtain ⟨q, rfl⟩ := hinServers i hi
      exact (hb'.others q).1 hj
    · rintro i hi j hj rfl
      rw [List.mem_singleton.mp hj] at hi
      rcases List.mem_append.mp hi with hi | hi
      · obtain ⟨q, hq⟩ := hinServers _ hi
        exact absurd hq (by simp)
      · exact (hb'.others 0).2.2 hi
    · rintro i hi j hj rfl
      obtain ⟨q, rfl⟩ := hinEobs i hj
      rcases List.mem_append.mp hi with hi | hi
      · rcases List.mem_append.mp hi with hi | hi
        · obtain ⟨q', hq'⟩ := hinServers _ hi
          exact absurd hq' (by simp)
        · exact (hb'.others q).2.1 hi
      · exact absurd (List.mem_singleton.mp hi) (by simp)
  · have hnot : .server q ∉ eobs := by
      intro hi
      obtain ⟨q', hq'⟩ := hinEobs _ hi
      exact absurd hq' (by simp)
    rw [List.mem_append, List.mem_append, List.mem_append, hmem]
    simp [hnot, (hb'.others q).1]
  · have hnot : .user q ∉ eobs := by
      intro hi
      obtain ⟨q', hq'⟩ := hinEobs _ hi
      exact absurd hq' (by simp)
    rw [List.mem_append, List.mem_append, List.mem_append, hmem, hb'.users q, hmet q]
    simp only [hnot, reduceCtorEq, and_false, exists_false, false_or, or_false, List.mem_singleton]
    constructor
    · rintro (hmark | ⟨-, hclient⟩)
      · exact hb.clients q hmark
      · exact hclient
    · exact fun hclient => Or.inr ⟨hglobal q hclient, hclient⟩
  · have hnot : .channel chptr ∉ eobs := by
      intro hi
      obtain ⟨q', hq'⟩ := hinEobs _ hi
      exact absurd hq' (by simp)
    rw [List.mem_append, List.mem_append, List.mem_append, hmem, hb'.channels chptr, List.append_nil,
      List.mem_reverse, hchannels chptr, members_ne_nil s h.good chptr]
    simp [hnot]
  · refine earlier_append _ _ _ (earlier_append _ _ _ hb'.earlier ?_) ?_
    · intro i hi r hr
      rw [List.mem_singleton.mp hi] at hr
      exact absurd hr (by simp [refs])
    · intro i hi r hr
      obtain ⟨q, hq, hfrom, rfl⟩ := hmemEob i hi
      obtain ⟨hne, rfl⟩ := hr
      have hserver := (serverParent_ne_none s q).mp (((h.listed.mem_servers q).mp hq).resolve_left hne)
      have hnelink : q ≠ link := by
        rintro rfl
        exact hfrom hself
      exact List.mem_append_left _ (List.mem_append_left _ ((hmem _).mpr ⟨q, hserver, hnelink, rfl⟩))

end Network

end IrcdHybrid.NetworkTold
