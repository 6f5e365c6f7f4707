import Mathlib.Data.List.Basic
import Mathlib.Data.List.Nodup

/-!
A log of lines sent to peers, newest first. A line may introduce an identity to
the peer, tell it that the identity is gone, or speak in an identity's name. The
log is sound when a peer only hears from identities that were introduced to it
and not withdrawn since. Lines that withdraw nothing only add to what is known.
-/

namespace IrcdHybrid.SentLog

/-- What a line means for the identities known on the link it is sent over. -/
structure Meaning (ℓ ι : Type*) where
  introduces : ℓ → Option ι
  withdraws : ℓ → Option ι
  speaker : ℓ → Option ι

variable {π ℓ ι : Type*} [DecidableEq π] [DecidableEq ι] (m : Meaning ℓ ι)

/-- The last thing the peer was told about the identity is its introduction. -/
def knows : List (π × ℓ) → π → ι → Bool
  | [], _, _ => false
  | (q, l) :: earlier, p, u =>
    if q = p ∧ m.introduces l = some u then true
    else if q = p ∧ m.withdraws l = some u then false
    else knows earlier p u

/-- Every line in the name of an identity went to a peer that knew it. -/
def Sound (sent : List (π × ℓ)) : Prop :=
  ∀ later p l earlier u, sent = later ++ (p, l) :: earlier → m.speaker l = some u →
    knows m earlier p u = true

theorem sound_nil : Sound m ([] : List (π × ℓ)) := by
  intro later p l earlier u hsplit
  simp at hsplit

theorem sound_cons (p : π) (l : ℓ) (sent : List (π × ℓ)) :
    Sound m ((p, l) :: sent) ↔
      (∀ u, m.speaker l = some u → knows m sent p u = true) ∧ Sound m sent := by
  constructor
  · intro h
    refine ⟨fun u hu => h [] p l sent u rfl hu, ?_⟩
    intro later q k earlier u hsplit hu
    exact h ((p, l) :: later) q k earlier u (by simp [hsplit]) hu
  · intro h later q k earlier u hsplit hu
    cases later with
    | nil =>
      obtain ⟨hhead, rfl⟩ := List.cons.inj hsplit
      obtain ⟨rfl, rfl⟩ := Prod.mk.inj hhead
      exact h.1 u hu
    | cons x later =>
      obtain ⟨_, rfl⟩ := List.cons.inj hsplit
      exact h.2 later q k earlier u rfl hu

theorem knows_cons_other (p q : π) (l : ℓ) (sent : List (π × ℓ)) (u : ι)
    (hi : m.introduces l ≠ some u) (hw : m.withdraws l ≠ some u) :
    knows m ((q, l) :: sent) p u = knows m sent p u := by
  simp [knows, hi, hw]

section

variable (peers : List π) (l : ℓ) (sent : List (π × ℓ))

/-- The same line to a list of peers. -/
def broadcast : List (π × ℓ) :=
  peers.map (fun p => (p, l)) ++ sent

theorem knows_broadcast_keeps (p : π) (u : ι)
    (hw : m.withdraws l ≠ some u) (h : knows m sent p u = true) :
    knows m (broadcast peers l sent) p u = true := by
  induction peers with
  | nil => exact h
  | cons q peers ih =>
    show knows m ((q, l) :: broadcast peers l sent) p u = true
    simp [knows, hw, ih]

theorem knows_broadcast_intro (p : π) (u : ι) (hi : m.introduces l = some u) (hp : p ∈ peers) :
    knows m (broadcast peers l sent) p u = true := by
  induction peers with
  | nil => simp at hp
  | cons q peers ih =>
    show knows m ((q, l) :: broadcast peers l sent) p u = true
    by_cases hq : q = p
    · simp [knows, hq, hi]
    · have htail : p ∈ peers := by
        cases hp with
        | head => exact absurd rfl hq
        | tail _ h => exact h
      simp [knows, hq, ih htail]

/-- A line about another identity leaves the peers' knowledge alone. -/
theorem knows_broadcast_other (p : π) (u : ι)
    (hi : m.introduces l ≠ some u) (hw : m.withdraws l ≠ some u) :
    knows m (broadcast peers l sent) p u = knows m sent p u := by
  induction peers with
  | nil => rfl
  | cons q peers ih =>
    show knows m ((q, l) :: broadcast peers l sent) p u = _
    rw [knows_cons_other m p q l _ u hi hw, ih]

/-- Speaking to distinct peers that all know the speaker is sound, even when the
line withdraws him. -/
theorem sound_broadcast (hnodup : peers.Nodup)
    (hspeaker : ∀ u, m.speaker l = some u → ∀ p ∈ peers, knows m sent p u = true)
    (h : Sound m sent) : Sound m (broadcast peers l sent) := by
  have hknows : ∀ peers : List π, ∀ p u, p ∉ peers →
      knows m (broadcast peers l sent) p u = knows m sent p u := by
    intro peers p u hp
    induction peers with
    | nil => rfl
    | cons q peers ih =>
      obtain ⟨hne, htail⟩ : p ≠ q ∧ p ∉ peers := by simpa only [List.mem_cons, not_or] using hp
      show knows m ((q, l) :: broadcast peers l sent) p u = _
      simp [knows, Ne.symm hne, ih htail]
  induction peers with
  | nil => exact h
  | cons q peers ih =>
    obtain ⟨hq, htail⟩ := List.nodup_cons.mp hnodup
    show Sound m ((q, l) :: broadcast peers l sent)
    rw [sound_cons]
    refine ⟨fun u hu => ?_, ih htail fun u hu p hp => hspeaker u hu p (List.mem_cons_of_mem q hp)⟩
    rw [hknows peers q u hq]
    exact hspeaker u hu q List.mem_cons_self

end

end IrcdHybrid.SentLog
