import IrcdHybrid.PairedLists
import Mathlib.Data.List.Induction

/-!
Invitations. A channel has a list of the clients that are invited, and a client of this server
one of the channels he is invited to. The oldest invitation of a client makes room for a new
one when he has as many as `max_channels` allows; with none allowed and none there, the code
takes the tail of an empty list.
-/

namespace IrcdHybrid.Invitations

open Function PairedLists

abbrev ClientPtr := ℕ
abbrev ChannelPtr := ℕ

/-- The clients of this server and the channels, each with its list, and `max_channels`. -/
structure State where
  clients : ClientPtr → Option (List ChannelPtr)
  channels : ChannelPtr → Option (List ClientPtr)
  maxChannels : ℕ

def State.invited (s : State) (who : ClientPtr) : List ChannelPtr := (s.clients who).getD []

def State.invites (s : State) (chptr : ChannelPtr) : List ClientPtr := (s.channels chptr).getD []

def delInvite (chptr : ChannelPtr) (who : ClientPtr) (s : State) : State :=
  { s with
    clients := update s.clients who ((s.clients who).map (fun invited => invited.erase chptr))
    channels := update s.channels chptr
      ((s.channels chptr).map (fun invites => invites.erase who)) }

/-- The two `dlinkAdd` of `add_invite`. -/
def noteInvite (chptr : ChannelPtr) (who : ClientPtr) (s : State) : State :=
  { s with
    clients := update s.clients who ((s.clients who).map (fun invited => chptr :: invited))
    channels := update s.channels chptr
      ((s.channels chptr).map (fun invites => who :: invites)) }

/-- A list that is full loses its tail, and there is nothing to return if it has none. -/
def makeRoom (who : ClientPtr) (s : State) : Option State :=
  if s.maxChannels ≤ (s.invited who).length then
    match (s.invited who).getLast? with
    | none => none
    | some oldest => some (delInvite oldest who s)
  else some s

def addInvite (chptr : ChannelPtr) (who : ClientPtr) (s : State) : Option State :=
  (makeRoom who (delInvite chptr who s)).map (noteInvite chptr who)

def clearInvites (chptr : ChannelPtr) (s : State) : State :=
  (s.invites chptr).foldl (fun s who => delInvite chptr who s) s

def destroyChannel (chptr : ChannelPtr) (s : State) : State :=
  let s := clearInvites chptr s
  { s with channels := update s.channels chptr none }

/-- The part of `exit_one_client` that cleans up the invitations. -/
def exitClient (who : ClientPtr) (s : State) : State :=
  let s := (s.invited who).foldl (fun s chptr => delInvite chptr who s) s
  { s with clients := update s.clients who none }

inductive Op where
  | register (who : ClientPtr)
  | makeChannel (chptr : ChannelPtr)
  | invite (chptr : ChannelPtr) (who : ClientPtr)
  | join (chptr : ChannelPtr) (who : ClientPtr)
  | loseTs (chptr : ChannelPtr)
  | destroyChannel (chptr : ChannelPtr)
  | exit (who : ClientPtr)
  | rehash (maxChannels : ℕ)

def addClient (who : ClientPtr) (s : State) : State :=
  if (s.clients who).isSome then s else { s with clients := update s.clients who (some []) }

def addChannel (chptr : ChannelPtr) (s : State) : State :=
  if (s.channels chptr).isSome then s else { s with channels := update s.channels chptr (some []) }

/-- Only what is there is invited, joined, cleared and freed. -/
def step (s : State) : Op → Option State
  | .register who => some (addClient who s)
  | .makeChannel chptr => some (addChannel chptr s)
  | .invite chptr who =>
    if (s.channels chptr).isSome ∧ (s.clients who).isSome then addInvite chptr who s else some s
  | .join chptr who =>
    if (s.channels chptr).isSome ∧ (s.clients who).isSome then some (delInvite chptr who s)
    else some s
  | .loseTs chptr => some (clearInvites chptr s)
  | .destroyChannel chptr => some (destroyChannel chptr s)
  | .exit who => some (exitClient who s)
  | .rehash maxChannels => some { s with maxChannels := maxChannels }

def start (maxChannels : ℕ) : State := ⟨fun _ => none, fun _ => none, maxChannels⟩

/-- A run, as long as it does not end in a list without a tail. -/
def run (maxChannels : ℕ) (ops : List Op) : Option State := ops.foldlM step (start maxChannels)

/-- The two sides of the invitations. -/
def Linked (s : State) : Prop := Paired s.invited s.invites

/-- An invitation has room, or something to take away. -/
def HasRoom (s : State) : Op → Prop
  | .invite chptr who => (s.channels chptr).isSome → (s.clients who).isSome →
    0 < s.maxChannels ∨ ∃ other ∈ s.invited who, other ≠ chptr
  | _ => True

section

variable (chptr : ChannelPtr) (who : ClientPtr) (s : State)

theorem delInvite_invited :
    (delInvite chptr who s).invited = unlinked s.invited who chptr := by
  funext c
  unfold State.invited unlinked delInvite
  by_cases hc : c = who
  · subst hc
    dsimp only
    rw [update_self, update_self]
    cases s.clients c <;> rfl
  · dsimp only
    rw [update_of_ne hc, update_of_ne hc]

theorem delInvite_invites :
    (delInvite chptr who s).invites = unlinked s.invites chptr who := by
  funext k
  unfold State.invites unlinked delInvite
  by_cases hk : k = chptr
  · subst hk
    dsimp only
    rw [update_self, update_self]
    cases s.channels k <;> rfl
  · dsimp only
    rw [update_of_ne hk, update_of_ne hk]

theorem noteInvite_invited (hwho : (s.clients who).isSome = true) :
    (noteInvite chptr who s).invited = linked s.invited who chptr := by
  funext c
  unfold State.invited linked noteInvite
  by_cases hc : c = who
  · subst hc
    obtain ⟨invited, heq⟩ := Option.isSome_iff_exists.mp hwho
    dsimp only
    rw [update_self, update_self, heq]
    rfl
  · dsimp only
    rw [update_of_ne hc, update_of_ne hc]

theorem noteInvite_invites (hchptr : (s.channels chptr).isSome = true) :
    (noteInvite chptr who s).invites = linked s.invites chptr who := by
  funext k
  unfold State.invites linked noteInvite
  by_cases hk : k = chptr
  · subst hk
    obtain ⟨invites, heq⟩ := Option.isSome_iff_exists.mp hchptr
    dsimp only
    rw [update_self, update_self, heq]
    rfl
  · dsimp only
    rw [update_of_ne hk, update_of_ne hk]

theorem delInvite_linked (h : Linked s) :
    Linked (delInvite chptr who s) := by
  unfold Linked
  rw [delInvite_invited, delInvite_invites]
  exact h.unlink who chptr

end

theorem delInvite_clients (chptr : ChannelPtr) (who c : ClientPtr) (s : State) :
    ((delInvite chptr who s).clients c).isSome = (s.clients c).isSome := by
  unfold delInvite
  by_cases hc : c = who
  · subst hc
    dsimp only
    rw [update_self, Option.isSome_map]
  · dsimp only
    rw [update_of_ne hc]

theorem delInvite_channels (chptr k : ChannelPtr) (who : ClientPtr) (s : State) :
    ((delInvite chptr who s).channels k).isSome = (s.channels k).isSome := by
  unfold delInvite
  by_cases hk : k = chptr
  · subst hk
    dsimp only
    rw [update_self, Option.isSome_map]
  · dsimp only
    rw [update_of_ne hk]

section Steps

variable (s : State) (h : Linked s)

include h

theorem makeRoom_linked (who : ClientPtr) (s' : State) (hroom : makeRoom who s = some s') :
    Linked s' ∧ (∀ c, (s'.clients c).isSome = (s.clients c).isSome) ∧
      (∀ k, (s'.channels k).isSome = (s.channels k).isSome) ∧
      (∀ k, k ∉ s.invited who → k ∉ s'.invited who) ∧
      (s'.invited who).length + 1 ≤ max s.maxChannels (s.invited who).length := by
  unfold makeRoom at hroom
  split at hroom
  · next hfull =>
    cases hlast : (s.invited who).getLast? with
    | none =>
      rw [hlast] at hroom
      simp at hroom
    | some oldest =>
      rw [hlast] at hroom
      obtain rfl := Option.some.inj hroom
      have hmem : oldest ∈ s.invited who := List.mem_of_getLast? hlast
      refine ⟨delInvite_linked oldest who s h, fun c => delInvite_clients oldest who c s,
        fun k => delInvite_channels oldest k who s, ?_, ?_⟩
      · intro k hk
        rw [delInvite_invited, mem_unlinked h.left_nodup]
        exact fun hboth => hk hboth.1
      · have hpos := List.length_pos_of_mem hmem
        rw [delInvite_invited, unlinked, update_self, List.length_erase_of_mem hmem]
        omega
  · next hroomy =>
    obtain rfl := Option.some.inj hroom
    exact ⟨h, fun _ => rfl, fun _ => rfl, fun _ hk => hk, by omega⟩

/-- An invitation keeps the sides the same, and the list within the limit or its old length. -/
theorem addInvite_linked (chptr : ChannelPtr) (who : ClientPtr) (s' : State)
    (hchptr : (s.channels chptr).isSome = true) (hwho : (s.clients who).isSome = true)
    (hadd : addInvite chptr who s = some s') :
    Linked s' ∧ (s'.invited who).length ≤ max s.maxChannels (s.invited who).length := by
  unfold addInvite at hadd
  obtain ⟨t, hroom, rfl⟩ := Option.map_eq_some_iff.mp hadd
  obtain ⟨hlinked, hclients, hchannels, hnew, hlen⟩ :=
    makeRoom_linked _ (delInvite_linked chptr who s h) who t hroom
  have hwho' : (t.clients who).isSome = true := by
    rw [hclients, delInvite_clients]
    exact hwho
  have hchptr' : (t.channels chptr).isSome = true := by
    rw [hchannels, delInvite_channels]
    exact hchptr
  have hnot : chptr ∉ t.invited who := by
    apply hnew
    rw [delInvite_invited, mem_unlinked h.left_nodup]
    exact fun hboth => hboth.2 ⟨rfl, rfl⟩
  have hless : ((delInvite chptr who s).invited who).length ≤ (s.invited who).length := by
    rw [delInvite_invited, unlinked, update_self]
    exact List.length_erase_le
  refine ⟨?_, ?_⟩
  · unfold Linked
    rw [noteInvite_invited chptr who t hwho', noteInvite_invites chptr who t hchptr']
    exact hlinked.link who chptr hnot
  · rw [noteInvite_invited chptr who t hwho', linked, update_self, List.length_cons]
    have hsame : (delInvite chptr who s).maxChannels = s.maxChannels := rfl
    omega

omit h in
/-- The invitation is made exactly when there is room or something to take away. -/
theorem addInvite_isSome_iff (chptr : ChannelPtr) (who : ClientPtr) (h : Linked s) :
    (addInvite chptr who s).isSome = true ↔
      0 < s.maxChannels ∨ ∃ other ∈ s.invited who, other ≠ chptr := by
  have hmem : ∀ k, k ∈ (delInvite chptr who s).invited who ↔ k ∈ s.invited who ∧ k ≠ chptr := by
    intro k
    rw [delInvite_invited, mem_unlinked h.left_nodup]
    simp
  have hsame : (delInvite chptr who s).maxChannels = s.maxChannels := rfl
  unfold addInvite makeRoom
  rw [Option.isSome_map, hsame]
  generalize (delInvite chptr who s).invited who = l at hmem ⊢
  constructor
  · intro hsome
    by_contra hnot
    push Not at hnot
    have hnil : l = [] := List.eq_nil_iff_forall_not_mem.mpr fun k hk =>
      ((hmem k).mp hk).2 (hnot.2 k ((hmem k).mp hk).1)
    subst hnil
    rw [if_pos (by omega)] at hsome
    exact absurd hsome (by simp)
  · intro hroom
    split
    · next hfull =>
      cases hlast : l.getLast? with
      | some oldest => rfl
      | none =>
        obtain rfl := List.getLast?_eq_none_iff.mp hlast
        rcases hroom with hpos | ⟨other, hother, hne⟩
        · rw [List.length_nil] at hfull
          omega
        · exact absurd ((hmem other).mpr ⟨hother, hne⟩) List.not_mem_nil
    · rfl

end Steps

theorem foldl_delInvite (l : List (ChannelPtr × ClientPtr)) (s : State) (h : Linked s) :
    Linked (l.foldl (fun s p => delInvite p.1 p.2 s) s) ∧
      ∀ c k, k ∈ (l.foldl (fun s p => delInvite p.1 p.2 s) s).invited c ↔
        k ∈ s.invited c ∧ (k, c) ∉ l := by
  induction l generalizing s with
  | nil => exact ⟨h, fun c k => by simp⟩
  | cons p l ih =>
    obtain ⟨hlinked, hmem⟩ := ih _ (delInvite_linked p.1 p.2 s h)
    refine ⟨hlinked, fun c k => ?_⟩
    rw [List.foldl_cons, hmem, delInvite_invited, mem_unlinked h.left_nodup, List.mem_cons,
      Prod.ext_iff]
    tauto

theorem clearInvites_eq (chptr : ChannelPtr) (s : State) : clearInvites chptr s =
    ((s.invites chptr).map (fun who => (chptr, who))).foldl (fun s p => delInvite p.1 p.2 s) s := by
  rw [List.foldl_map]
  rfl

theorem clearInvites_linked (chptr : ChannelPtr) (s : State) (h : Linked s) :
    Linked (clearInvites chptr s) ∧ (clearInvites chptr s).invites chptr = [] := by
  obtain ⟨hlinked, hmem⟩ :=
    foldl_delInvite ((s.invites chptr).map (fun who => (chptr, who))) s h
  rw [clearInvites_eq]
  refine ⟨hlinked, List.eq_nil_iff_forall_not_mem.mpr fun c hc => ?_⟩
  obtain ⟨hold, hnot⟩ := (hmem c chptr).mp ((hlinked.mem_iff c chptr).mpr hc)
  exact hnot (List.mem_map.mpr ⟨c, (h.mem_iff c chptr).mp hold, rfl⟩)

/-- A place that gets a list like the one that was read there. -/
theorem getD_update {κ γ : Type} [DecidableEq κ] (f : κ → Option (List γ)) (k : κ)
    (v : Option (List γ)) (hv : v.getD [] = (f k).getD []) :
    (fun x => (update f k v x).getD []) = fun x => (f x).getD [] := by
  funext x
  by_cases hx : x = k
  · subst hx
    rw [update_self, hv]
  · rw [update_of_ne hx]

theorem linked_setChannel (chptr : ChannelPtr) (v : Option (List ClientPtr)) (s : State)
    (h : Linked s) (hv : v.getD [] = s.invites chptr) :
    Linked { s with channels := update s.channels chptr v } := by
  have hsame : State.invites { s with channels := update s.channels chptr v } = s.invites :=
    getD_update s.channels chptr v hv
  unfold Linked
  rw [hsame]
  exact h

theorem linked_setClient (who : ClientPtr) (v : Option (List ChannelPtr)) (s : State)
    (h : Linked s) (hv : v.getD [] = s.invited who) :
    Linked { s with clients := update s.clients who v } := by
  have hsame : State.invited { s with clients := update s.clients who v } = s.invited :=
    getD_update s.clients who v hv
  unfold Linked
  rw [hsame]
  exact h

theorem destroyChannel_linked (chptr : ChannelPtr) (s : State) (h : Linked s) :
    Linked (destroyChannel chptr s) := by
  obtain ⟨hlinked, hempty⟩ := clearInvites_linked chptr s h
  exact linked_setChannel chptr none _ hlinked hempty.symm

theorem exitClient_linked (who : ClientPtr) (s : State) (h : Linked s) :
    Linked (exitClient who s) := by
  obtain ⟨hlinked, hmem⟩ :=
    foldl_delInvite ((s.invited who).map (fun chptr => (chptr, who))) s h
  rw [List.foldl_map] at hlinked hmem
  refine linked_setClient who none _ hlinked
    (List.eq_nil_iff_forall_not_mem.mpr fun k hk => ?_).symm
  obtain ⟨hold, hnot⟩ := (hmem who k).mp hk
  exact hnot (List.mem_map.mpr ⟨k, hold, rfl⟩)

theorem addClient_linked (who : ClientPtr) (s : State) (h : Linked s) :
    Linked (addClient who s) := by
  unfold addClient
  split
  · exact h
  · next hnone =>
    have hnone' : s.clients who = none := by simpa using hnone
    apply linked_setClient who (some []) s h
    unfold State.invited
    rw [hnone']
    rfl

theorem addChannel_linked (chptr : ChannelPtr) (s : State) (h : Linked s) :
    Linked (addChannel chptr s) := by
  unfold addChannel
  split
  · exact h
  · next hnone =>
    have hnone' : s.channels chptr = none := by simpa using hnone
    apply linked_setChannel chptr (some []) s h
    unfold State.invites
    rw [hnone']
    rfl

theorem step_linked (s s' : State) (op : Op) (h : Linked s) (hstep : step s op = some s') :
    Linked s' := by
  cases op with
  | register who =>
    obtain rfl := Option.some.inj hstep
    exact addClient_linked who s h
  | makeChannel chptr =>
    obtain rfl := Option.some.inj hstep
    exact addChannel_linked chptr s h
  | invite chptr who =>
    unfold step at hstep
    dsimp only at hstep
    split at hstep
    · next hboth => exact (addInvite_linked s h chptr who s' hboth.1 hboth.2 hstep).1
    · obtain rfl := Option.some.inj hstep
      exact h
  | join chptr who =>
    unfold step at hstep
    dsimp only at hstep
    split at hstep
    · obtain rfl := Option.some.inj hstep
      exact delInvite_linked chptr who s h
    · obtain rfl := Option.some.inj hstep
      exact h
  | loseTs chptr =>
    obtain rfl := Option.some.inj hstep
    exact (clearInvites_linked chptr s h).1
  | destroyChannel chptr =>
    obtain rfl := Option.some.inj hstep
    exact destroyChannel_linked chptr s h
  | exit who =>
    obtain rfl := Option.some.inj hstep
    exact exitClient_linked who s h
  | rehash maxChannels =>
    obtain rfl := Option.some.inj hstep
    exact h

theorem step_isSome_iff (s : State) (op : Op) (h : Linked s) :
    (step s op).isSome = true ↔ HasRoom s op := by
  cases op with
  | invite chptr who =>
    unfold step HasRoom
    dsimp only
    by_cases hboth : (s.channels chptr).isSome = true ∧ (s.clients who).isSome = true
    · rw [if_pos hboth, addInvite_isSome_iff s chptr who h]
      exact ⟨fun hroom _ _ => hroom, fun hroom => hroom hboth.1 hboth.2⟩
    · rw [if_neg hboth]
      exact iff_of_true rfl fun hchptr hwho => absurd ⟨hchptr, hwho⟩ hboth
  | join chptr who =>
    unfold step
    dsimp only
    split
    · exact iff_of_true rfl trivial
    · exact iff_of_true rfl trivial
  | _ => exact iff_of_true rfl trivial

theorem run_concat (maxChannels : ℕ) (ops : List Op) (op : Op) :
    run maxChannels (ops ++ [op]) = (run maxChannels ops).bind (fun s => step s op) := by
  unfold run
  rw [List.foldlM_append]
  cases List.foldlM step (start maxChannels) ops with
  | none => rfl
  | some s =>
    show (step s op).bind some = step s op
    exact Option.bind_fun_some _

theorem start_linked (maxChannels : ℕ) : Linked (start maxChannels) := paired_empty

theorem run_linked (maxChannels : ℕ) (ops : List Op) (s : State)
    (hrun : run maxChannels ops = some s) : Linked s := by
  induction ops using List.reverseRecOn generalizing s with
  | nil =>
    obtain rfl := Option.some.inj hrun
    exact start_linked maxChannels
  | append_singleton ops op ih =>
    rw [run_concat] at hrun
    obtain ⟨t, ht, hstep⟩ := Option.bind_eq_some_iff.mp hrun
    exact step_linked t s op (ih t ht) hstep

/-- Invitations are as they should be in every state of a run. -/
structure Sound (maxChannels : ℕ) (ops : List Op) : Prop where
  linked : ∀ before, before <+: ops → ∃ s, run maxChannels before = some s ∧ Linked s
  bounded : ∀ before chptr who s s', before ++ [.invite chptr who] <+: ops →
    run maxChannels before = some s → step s (.invite chptr who) = some s' →
    (s'.invited who).length ≤ max s.maxChannels (s.invited who).length

/-- They are so exactly when every invitation of the run has room or something to take away. -/
theorem sound_iff (maxChannels : ℕ) (ops : List Op) : Sound maxChannels ops ↔
    ∀ before op s, before ++ [op] <+: ops → run maxChannels before = some s → HasRoom s op := by
  constructor
  · intro h before op s hprefix hrun
    obtain ⟨t, ht, -⟩ := h.linked _ hprefix
    rw [run_concat, hrun, Option.bind_some] at ht
    rw [← step_isSome_iff s op (run_linked maxChannels before s hrun), ht]
    rfl
  · intro hroom
    refine ⟨fun before hprefix => ?_, fun before chptr who s s' hprefix hrun hstep => ?_⟩
    · induction before using List.reverseRecOn with
      | nil => exact ⟨start maxChannels, rfl, start_linked maxChannels⟩
      | append_singleton before op ih =>
        obtain ⟨s, hrun, hlinked⟩ := ih ((List.prefix_append before [op]).trans hprefix)
        have hsome := (step_isSome_iff s op hlinked).mpr (hroom before op s hprefix hrun)
        obtain ⟨t, ht⟩ := Option.isSome_iff_exists.mp hsome
        refine ⟨t, ?_, step_linked s t op hlinked ht⟩
        rw [run_concat, hrun, Option.bind_some, ht]
    · unfold step at hstep
      dsimp only at hstep
      split at hstep
      · next hboth =>
        have hlinked := run_linked maxChannels before s hrun
        exact (addInvite_linked s hlinked chptr who s' hboth.1 hboth.2 hstep).2
      · obtain rfl := Option.some.inj hstep
        exact Nat.le_max_right _ _

/-- With no channels allowed, the first invitation takes the tail of an empty list. -/
theorem no_channels_no_tail : ¬ ∀ maxChannels ops, Sound maxChannels ops := by
  intro hall
  obtain ⟨s, hrun, -⟩ := (hall 0 [.register 0, .makeChannel 0, .invite 0 0]).linked _
    (List.prefix_refl _)
  have hnone : run 0 [.register 0, .makeChannel 0, .invite 0 0] = none := rfl
  rw [hnone] at hrun
  exact absurd hrun (by simp)

end IrcdHybrid.Invitations
