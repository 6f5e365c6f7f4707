import IrcdHybrid.ServerRuns

/-!
A netsplit. The exit of a server takes exactly what is behind it off all lists and out of
the hashes, and says SQUIT about it to the links, no QUIT. A server that was in a bucket
of names when it registered stays in that bucket when it exits.
-/

namespace IrcdHybrid.Netsplit

open CString HashChains Forest Departure NameTables MemberLists MemberInvariant MemberRuns
open ServerTree ServerEvents ServerInvariant ServerComing Exits Subtree ClientExit ServerRuns Function

/-- What is left of a network when one of its servers exits. -/
structure Split (s s' : Net) (source : ClientPtr) (removed : List ClientPtr) : Prop where
  subtree : ∀ p, p ∈ removed ↔ p = source ∨ Below (parentOf s) p source
  once : removed.Nodup ∧ s'.deadList = removed.reverse ++ s.deadList
  globalClientList : s'.globalClientList = without removed s.globalClientList
  globalServerList : s'.globalServerList = without removed s.globalServerList
  localServerList : s'.localServerList = without removed s.localServerList
  gone : ∀ p ∈ removed, s'.rooms.clients p = none ∧
    (∀ k, ¬ OnChain s'.clientTable.next (s'.clientTable.head k) p ∧
      ¬ OnChain s'.idTable.next (s'.idTable.head k) p) ∧
    ∀ m x, s'.rooms.memberships m = some x → x.client ≠ p
  hashes : Trimmed removed s.clientTable s'.clientTable ∧ Trimmed removed s.idTable s'.idTable
  destroyed : ∀ chptr c, s.rooms.channels chptr = some c →
    (s'.rooms.channels chptr = none ↔ ∀ m ∈ c.members, theirs s.rooms removed m = true)
  channels : ∀ chptr, s'.rooms.channels chptr =
    (s.rooms.channels chptr).bind (thin (theirs s.rooms removed))
  untouched : ∀ chptr c, s.rooms.channels chptr = some c →
    (∀ m ∈ c.members, theirs s.rooms removed m = false) → s'.rooms.channels chptr = some c
  memberships : ∀ m, s'.rooms.memberships m =
    if theirs s.rooms removed m then none else s.rooms.memberships m
  table : ∀ k, s'.rooms.channelTable k =
    (s.rooms.channelTable k).filter (fun ch => (s'.rooms.channels ch).isSome)
  others : ∀ p, p ∉ removed → s'.rooms.clients p = s.rooms.clients p ∧
    s'.node p = thinNode removed (s.node p)
  quiet : ∃ lines, s'.sent = s.sent ++ lines ∧
    ∀ x ∈ lines, isServer s x.1 = true → quits x.2 = false
  rest : s'.localClientList = s.localClientList ∧ s'.unknownList = s.unknownList ∧
    s'.bursted = s.bursted ∧ s'.extra = s.extra

section Split

variable (s : Net) (h : Inv s) (hn : Named s) (source : ClientPtr)
  (hsource : isServer s source = true) (conf : Conf) (comment : CStr)

theorem thin_eq_none (gone : MemberPtr → Bool) (c : Channel) :
    thin gone c = none ↔ ∀ m ∈ c.members, gone m = true := by
  unfold thin
  by_cases hnil : c.members.filter (fun m => !gone m) = []
  · rw [if_pos hnil]
    refine iff_of_true rfl fun m hm => ?_
    have hnot := List.filter_eq_nil_iff.mp hnil m hm
    simpa using hnot
  · rw [if_neg hnil]
    refine iff_of_false (by simp) fun hall => hnil ?_
    exact List.filter_eq_nil_iff.mpr fun m hm => by simp [hall m hm]

include h hsource

/-- Of the servers that are linked directly, only the one that exits is gone. -/
theorem links_split (s₀ : Net) (hshut : Shut s s₀ source) (removed : List ClientPtr)
    (hmem : ∀ p, p ∈ removed ↔ p = source ∨ Below (parentOf s) p source) :
    s₀.localServerList = without removed s.localServerList := by
  have hknown := known_of_isServer s source hsource
  have hother : ∀ q ∈ s.localServerList, q ∈ removed → q = source := by
    intro q hq hgone
    rcases (hmem q).mp hgone with hsame | hbelow
    · exact hsame
    · have hremote := below_remote s source h q hknown hbelow
      rw [((h.mem_links q).mp hq).2] at hremote
      simp at hremote
  have hself : source ∈ removed := (hmem source).mpr (Or.inl rfl)
  have hsame : without removed s.localServerList = without [source] s.localServerList := by
    refine List.filter_congr fun q hq => ?_
    by_cases hqs : q = source
    · simp [hqs, hself]
    · have hnot : q ∉ removed := fun hgone => hqs (hother q hq hgone)
      simp [hqs, hnot]
  rw [hshut.localServerList, hsame, hsource, Bool.and_true]
  split
  · exact (without_singleton source _ h.links_nodup).symm
  · next hmy =>
    refine (without_of_not_mem source _ fun hlink => hmy ?_).symm
    exact ((h.mem_links source).mp hlink).2

include hn

theorem exitClient_split :
    ∃ removed, Split s (exitClient conf s source comment) source removed := by
  have hknown := known_of_isServer s source hsource
  obtain ⟨s₀, removed, hshut, hexited, hplaced, hmem⟩ :=
    exitClient_exited conf s source comment h hknown
  have hnamed := exitClient_named conf s source comment h hknown hn
  generalize exitClient conf s source comment = s' at *
  have hrooms := hexited.rooms
  have hsource' : source ∈ removed := (hmem source).mpr (Or.inl rfl)
  rw [hshut.rooms] at hrooms
  refine ⟨removed, hmem, ⟨hexited.nodup, ?_⟩, ?_, ?_, ?_, fun p hp => ⟨?_, fun k => ?_, ?_⟩, ?_, ?_,
    hrooms.channels, ?_, hrooms.memberships, hrooms.table, fun p hp => ⟨?_, ?_⟩, ?_, ?_⟩
  · rw [hexited.deadList, hshut.deadList]
  · rw [hexited.globalClientList, hshut.globalClientList]
  · rw [hexited.globalServerList, hshut.globalServerList]
  · rw [hexited.rest.localServerList]
    exact links_split s h source hsource s₀ hshut removed hmem
  · rw [hrooms.clients p, if_pos hp]
  · have hne : p ≠ s'.me := by
      rw [hexited.rest.me]
      exact known_ne_me s₀ (shut_placed s s₀ source hshut h.placed) p (hexited.members p hp)
    have hnone : s'.rooms.clients p = none := by
      rw [hrooms.clients p, if_pos hp]
    obtain ⟨hoff, hoff'⟩ := off_of_none s' hnamed p hnone hne
    exact ⟨fun hon => (table_onChain _ _ _ hnamed.names k p hon).1 hoff,
      fun hon => (table_onChain _ _ _ hnamed.ids k p hon).1 hoff'⟩
  · rintro m x hx rfl
    rw [hrooms.memberships m] at hx
    have hx' : s.rooms.memberships m = some x := by
      split at hx
      · exact absurd hx (by simp)
      · exact hx
    have htheirs : theirs s.rooms removed m = true := by
      unfold theirs
      rw [hx']
      simpa using hp
    rw [htheirs, if_pos rfl] at hx
    simp at hx
  · have htrimmed := (hexited.hashes (shut_named s s₀ source hshut hn)).2
    rw [hshut.clientTable, hshut.idTable] at htrimmed
    exact htrimmed
  · intro chptr c hc
    rw [hrooms.channels chptr, hc, Option.bind_some]
    exact thin_eq_none _ c
  · intro chptr c hc hall
    have hloc : ∀ m ∈ c.locmembers, theirs s.rooms removed m = false := by
      intro m hm
      have hlocal : locmembersOf s.rooms chptr = c.locmembers := by
        unfold locmembersOf
        rw [hc]
      have hmembers : membersOf s.rooms chptr = c.members := by
        unfold membersOf
        rw [hc]
      rw [← hlocal] at hm
      have hm' := ((locmembers_iff s.rooms h.placed.good.consistent.linked chptr m).mp hm).1
      rw [hmembers] at hm'
      exact hall m hm'
    rw [hrooms.channels chptr, hc, Option.bind_some]
    exact thin_self _ c (h.placed.good.live chptr c hc) hall hloc
  · rw [hrooms.clients p, if_neg hp]
  · have hne : p ≠ source := by
      rintro rfl
      exact hp hsource'
    rw [hexited.node p hp, hshut.node p hne]
  · obtain ⟨lines, hsent, hquiet⟩ := hshut.sent
    obtain ⟨lines', hsent', hto⟩ := hexited.sent
    refine ⟨lines ++ lines', by rw [hsent', hsent, List.append_assoc], fun x hx hserver => ?_⟩
    rcases List.mem_append.mp hx with hx | hx
    · exact hquiet hsource x hx
    · -- what is said of those who were behind the server is said to users
      by_contra hquit
      have hclient := hto x hx (by simpa using hquit)
      rw [hshut.rooms] at hclient
      rw [not_server_of_client s x.1 hclient] at hserver
      simp at hserver
  · obtain ⟨hlocal, hunknown⟩ := hshut.others hsource
    rw [hexited.rest.localClientList, hexited.rest.unknownList, hexited.rest.bursted,
      hexited.rest.extra, hlocal, hunknown, hshut.rest.2.1, hshut.rest.2.2]
    exact ⟨rfl, rfl, rfl, rfl⟩

end Split

/-- After clean steps, the exit of any server takes off exactly what is behind it. -/
theorem netsplit_exact (s : Net) (h : CleanReachable s) (source : ClientPtr)
    (hsource : isServer s source = true) (conf : Conf) (comment : CStr) :
    ∃ removed, Split s (exitClient conf s source comment) source removed := by
  obtain ⟨hinv, hnamed⟩ := clean_named s h
  exact exitClient_split s hinv hnamed source hsource conf comment

def hubConf : Conf where
  env := ⟨0, false, 0, fun _ => none, fun _ => none⟩
  hideServers := false
  hub := true
  password := "pw".toList
  hidden := false

def alone : Net := start 0 0 "0AA".toList "me.net".toList "me".toList

/-- A link with a server and a user behind it. -/
def linkEvents : List Event :=
  [.connect 1, .pass 1 "0AB".toList, .server 1 "hub.net".toList 1 "hub".toList,
    .sid 1 2 "leaf.net".toList 2 "0CD".toList "leaf".toList,
    .uid 2 3 "bob".toList 3 "0CDAAAAAA".toList (blankProfile "bob".toList)]

theorem netsplit_exact_link : ∃ s removed, isServer s 1 = true ∧ s.globalClientList = [3, 2, 1] ∧
    Split s (exitClient hubConf s 1 "bye".toList) 1 removed := by
  have hrun : (runClean hubConf linkEvents alone).map (fun s => (isServer s 1, s.globalClientList)) =
      some (true, [3, 2, 1]) := by decide +kernel
  obtain ⟨s, hs, hview⟩ := Option.map_eq_some_iff.mp hrun
  obtain ⟨hserver, hlist⟩ := Prod.mk.inj hview
  have hreach : CleanReachable s := ⟨0, 0, "0AA".toList, "me.net".toList, "me".toList, by decide,
    by decide, runClean_steps hubConf linkEvents alone s hs⟩
  obtain ⟨removed, hsplit⟩ := netsplit_exact s hreach 1 hserver hubConf "bye".toList
  exact ⟨s, removed, hserver, hlist, hsplit⟩

/-- A connection that takes the nick foo before it registers as a server. -/
def renamedEvents : List Event :=
  [.connect 1, .nick 1 "foo".toList, .pass 1 "0AB".toList,
    .server 1 "hub.net".toList 1 "hub".toList]

/-- It is still in the bucket of foo after its exit. -/
theorem renamed_server_stays : ¬ ∀ s, ServerRuns.Reachable s → ∀ source, isServer s source = true →
    ∀ conf comment, ∃ removed, Split s (exitClient conf s source comment) source removed := by
  intro hall
  have hrun : (run hubConf renamedEvents alone).map (fun s => (isServer s 1,
      (exitClient hubConf s 1 []).clientTable.head (strhash 0 "foo".toList))) =
      some (true, some 1) := by decide +kernel
  obtain ⟨s, hs, hview⟩ := Option.map_eq_some_iff.mp hrun
  obtain ⟨hserver, hhead⟩ := Prod.mk.inj hview
  have hreach : ServerRuns.Reachable s := ⟨0, 0, "0AA".toList, "me.net".toList, "me".toList, by decide,
    by decide, run_steps hubConf renamedEvents alone s hs⟩
  obtain ⟨removed, hsplit⟩ := hall s hreach 1 hserver hubConf []
  have hself : 1 ∈ removed := (hsplit.subtree 1).mpr (Or.inl rfl)
  refine ((hsplit.gone 1 hself).2.1 (strhash 0 "foo".toList)).1 ?_
  rw [hhead]
  exact OnChain.here 1

end IrcdHybrid.Netsplit
