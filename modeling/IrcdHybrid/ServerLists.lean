import IrcdHybrid.HashChains
import Mathlib.Data.List.Perm.Subperm

/-!
The lists a tree of servers is kept in. Every client is on the list of its server and
every server on the list of the one it is behind; all of them are on the global lists,
where a server comes in front of the one it is behind. What is added keeps this, and
so does what is taken off, if nothing is behind it.
-/

namespace IrcdHybrid.ServerLists

open Index Function

variable {α : Type*}

/-- The keys are the servers that clients and servers are on. -/
structure Listed (me : α) (clientKey serverKey : α → Option α) (clientList serverList : α → List α)
    (globalClientList globalServerList : List α) : Prop where
  clients : Indexes clientKey clientList
  servers : Indexes serverKey serverList
  apart : ∀ p, clientKey p ≠ none → serverKey p = none
  root : clientKey me = none ∧ serverKey me = none
  parents : ∀ p q, clientKey p = some q ∨ serverKey p = some q → q = me ∨ serverKey q ≠ none
  global_nodup : globalClientList.Nodup
  mem_global : ∀ p, p ∈ globalClientList ↔ clientKey p ≠ none ∨ serverKey p ≠ none
  servers_nodup : globalServerList.Nodup
  mem_servers : ∀ p, p ∈ globalServerList ↔ p = me ∨ serverKey p ≠ none
  ordered : ∀ l q l', globalServerList = l ++ q :: l' → ∀ r, serverKey q = some r → r ∈ l'

section Listed

variable (me : α) (clientKey serverKey : α → Option α) (clientList serverList : α → List α)
variable (globalClientList globalServerList : List α)
variable (h : Listed me clientKey serverKey clientList serverList globalClientList globalServerList)

include h

theorem parent_mem_servers (p q : α) (hp : clientKey p = some q ∨ serverKey p = some q) :
    q ∈ globalServerList := (h.mem_servers q).mpr (h.parents p q hp)

theorem unlisted_alone (p q : α) (hne : p ≠ me) (hp : serverKey p = none) :
    clientKey q ≠ some p ∧ serverKey q ≠ some p := by
  have hnot : ¬ (p = me ∨ serverKey p ≠ none) := by
    rintro (rfl | hserver)
    · exact hne rfl
    · exact hserver hp
  exact ⟨fun hq => hnot (h.parents q p (Or.inl hq)), fun hq => hnot (h.parents q p (Or.inr hq))⟩

variable [DecidableEq α]

/-- A server is nearer to the front than the one it is behind. -/
theorem idxOf_lt (q r : α) (hq : serverKey q = some r) :
    globalServerList.idxOf q < globalServerList.idxOf r := by
  have hmem : q ∈ globalServerList := (h.mem_servers q).mpr (Or.inr (by simp [hq]))
  obtain ⟨l, l', hsplit⟩ := List.append_of_mem hmem
  have hr := h.ordered l q l' hsplit r hq
  have hnodup := h.servers_nodup
  rw [hsplit] at hnodup ⊢
  obtain ⟨-, hnodup', hdisjoint⟩ := List.nodup_append.mp hnodup
  have hql : q ∉ l := fun hmem => hdisjoint q hmem q List.mem_cons_self rfl
  have hrl : r ∉ l := fun hmem => hdisjoint r hmem r (List.mem_cons_of_mem q hr) rfl
  have hne : q ≠ r := by
    rintro rfl
    exact (List.nodup_cons.mp hnodup').1 hr
  rw [List.idxOf_append_of_notMem hql, List.idxOf_append_of_notMem hrl, List.idxOf_cons_self,
    List.idxOf_cons_ne _ hne]
  omega

theorem addClient (p q : α) (hp : clientKey p = none) (hp' : serverKey p = none) (hne : p ≠ me)
    (hq : q = me ∨ serverKey q ≠ none) :
    Listed me (update clientKey p (some q)) serverKey (update clientList q (p :: clientList q))
      serverList (p :: globalClientList) globalServerList := by
  have hmem : p ∉ globalClientList := by
    rw [h.mem_global]
    simp [hp, hp']
  refine ⟨indexes_insert clientKey clientList p q h.clients hp, h.servers, fun a ha => ?_,
    ⟨?_, h.root.2⟩, fun a b hab => ?_, List.nodup_cons.mpr ⟨hmem, h.global_nodup⟩, fun a => ?_,
    h.servers_nodup, h.mem_servers, h.ordered⟩
  · by_cases hap : a = p
    · rw [hap, hp']
    · rw [update_of_ne hap] at ha
      exact h.apart a ha
  · rw [update_of_ne (Ne.symm hne)]
    exact h.root.1
  · rcases hab with hab | hab
    · by_cases hap : a = p
      · rw [hap, update_self] at hab
        rw [← Option.some.inj hab]
        exact hq
      · rw [update_of_ne hap] at hab
        exact h.parents a b (Or.inl hab)
    · exact h.parents a b (Or.inr hab)
  · rw [List.mem_cons, h.mem_global]
    by_cases hap : a = p
    · simp [hap]
    · simp [hap]

theorem addServer (p q : α) (hp : clientKey p = none) (hp' : serverKey p = none) (hne : p ≠ me)
    (hq : q = me ∨ serverKey q ≠ none) :
    Listed me clientKey (update serverKey p (some q)) clientList
      (update serverList q (p :: serverList q)) (p :: globalClientList) (p :: globalServerList) := by
  have hmem : p ∉ globalClientList := by
    rw [h.mem_global]
    simp [hp, hp']
  have hmem' : p ∉ globalServerList := by
    rw [h.mem_servers]
    simp [hp', hne]
  refine ⟨h.clients, indexes_insert serverKey serverList p q h.servers hp', fun a ha => ?_,
    ⟨h.root.1, ?_⟩, fun a b hab => ?_, List.nodup_cons.mpr ⟨hmem, h.global_nodup⟩, fun a => ?_,
    List.nodup_cons.mpr ⟨hmem', h.servers_nodup⟩, fun a => ?_, fun l a l' hl r hr => ?_⟩
  · by_cases hap : a = p
    · rw [hap] at ha
      exact absurd hp ha
    · rw [update_of_ne hap]
      exact h.apart a ha
  · rw [update_of_ne (Ne.symm hne)]
    exact h.root.2
  · have hold : b = me ∨ serverKey b ≠ none := by
      rcases hab with hab | hab
      · exact h.parents a b (Or.inl hab)
      · by_cases hap : a = p
        · rw [hap, update_self] at hab
          rw [← Option.some.inj hab]
          exact hq
        · rw [update_of_ne hap] at hab
          exact h.parents a b (Or.inr hab)
    by_cases hbp : b = p
    · right
      rw [hbp, update_self]
      simp
    · rw [update_of_ne hbp]
      exact hold
  · rw [List.mem_cons, h.mem_global]
    by_cases hap : a = p
    · simp [hap]
    · simp [hap]
  · rw [List.mem_cons, h.mem_servers]
    by_cases hap : a = p
    · simp [hap]
    · simp [hap]
  · cases l with
    | nil =>
      obtain ⟨rfl, rfl⟩ := List.cons.inj hl
      rw [update_self] at hr
      rw [← Option.some.inj hr]
      exact (h.mem_servers q).mpr hq
    | cons b l =>
      obtain ⟨rfl, htail⟩ := List.cons.inj hl
      have hap : a ≠ p := by
        rintro rfl
        exact hmem' (by rw [htail]; simp)
      rw [update_of_ne hap] at hr
      exact h.ordered l a l' htail r hr

theorem removeClient (p q : α) (hp : clientKey p = some q) :
    Listed me (update clientKey p none) serverKey (update clientList q ((clientList q).erase p))
      serverList (globalClientList.erase p) globalServerList := by
  have hp' : serverKey p = none := h.apart p (by simp [hp])
  refine ⟨indexes_delete clientKey clientList p q h.clients hp, h.servers, fun a ha => ?_,
    ⟨?_, h.root.2⟩, fun a b hab => ?_, h.global_nodup.erase p, fun a => ?_,
    h.servers_nodup, h.mem_servers, h.ordered⟩
  · by_cases hap : a = p
    · rw [hap, hp']
    · rw [update_of_ne hap] at ha
      exact h.apart a ha
  · by_cases hap : me = p
    · rw [hap, update_self]
    · rw [update_of_ne hap]
      exact h.root.1
  · rcases hab with hab | hab
    · by_cases hap : a = p
      · rw [hap, update_self] at hab
        simp at hab
      · rw [update_of_ne hap] at hab
        exact h.parents a b (Or.inl hab)
    · exact h.parents a b (Or.inr hab)
  · rw [h.global_nodup.mem_erase_iff, h.mem_global]
    by_cases hap : a = p
    · simp [hap, hp']
    · simp [hap]

theorem removeServer (p q : α) (hp : serverKey p = some q)
    (halone : ∀ a, clientKey a ≠ some p ∧ serverKey a ≠ some p) :
    Listed me clientKey (update serverKey p none) clientList
      (update serverList q ((serverList q).erase p)) (globalClientList.erase p)
      (globalServerList.erase p) := by
  have hp' : clientKey p = none := by
    by_contra hne
    rw [h.apart p hne] at hp
    simp at hp
  have hne : me ≠ p := by
    rintro rfl
    rw [h.root.2] at hp
    simp at hp
  refine ⟨h.clients, indexes_delete serverKey serverList p q h.servers hp, fun a ha => ?_,
    ⟨h.root.1, ?_⟩, fun a b hab => ?_, h.global_nodup.erase p, fun a => ?_,
    h.servers_nodup.erase p, fun a => ?_, fun l a l' hl r hr => ?_⟩
  · by_cases hap : a = p
    · rw [hap, update_self]
    · rw [update_of_ne hap]
      exact h.apart a ha
  · rw [update_of_ne hne]
    exact h.root.2
  · have hold : b ≠ p ∧ (b = me ∨ serverKey b ≠ none) := by
      rcases hab with hab | hab
      · refine ⟨?_, h.parents a b (Or.inl hab)⟩
        rintro rfl
        exact (halone a).1 hab
      · by_cases hap : a = p
        · rw [hap, update_self] at hab
          simp at hab
        · rw [update_of_ne hap] at hab
          refine ⟨?_, h.parents a b (Or.inr hab)⟩
          rintro rfl
          exact (halone a).2 hab
    rw [update_of_ne hold.1]
    exact hold.2
  · rw [h.global_nodup.mem_erase_iff, h.mem_global]
    by_cases hap : a = p
    · simp [hap, hp']
    · simp [hap]
  · rw [h.servers_nodup.mem_erase_iff, h.mem_servers]
    by_cases hap : a = p
    · simp [hap, Ne.symm hne]
    · simp [hap]
  · rw [h.servers_nodup.erase_eq_filter] at hl
    obtain ⟨m, m', hsplit, -, hm'⟩ := List.filter_eq_append_iff.mp hl
    obtain ⟨n, n', hsplit', -, -, hn'⟩ := List.filter_eq_cons_iff.mp hm'
    have hap : a ≠ p := by
      rintro rfl
      rw [update_self] at hr
      simp at hr
    rw [update_of_ne hap] at hr
    have hmem : r ∈ n' := by
      refine h.ordered (m ++ n) a n' ?_ r hr
      rw [hsplit, hsplit', List.append_assoc]
    rw [← hn', List.mem_filter]
    have hrp : r ≠ p := by
      rintro rfl
      exact (halone a).2 hr
    exact ⟨hmem, by simpa using hrp⟩

end Listed

theorem length_le_of_nodup (l : List ℕ) (n : ℕ) (hnodup : l.Nodup) (h : ∀ a ∈ l, a < n) :
    l.length ≤ n := by
  have hsub : l ⊆ List.range n := fun a ha => List.mem_range.mpr (h a ha)
  have hle := (List.subperm_of_subset hnodup hsub).length_le
  rwa [List.length_range] at hle

end IrcdHybrid.ServerLists
