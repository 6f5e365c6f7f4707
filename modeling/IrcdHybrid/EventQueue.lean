import IrcdHybrid.SeparatedMarks
import Mathlib.Data.Int.Basic
import Mathlib.Logic.Function.Basic
import Mathlib.Tactic.Positivity

/-!
The timed events (`event.c`). The queue is kept in the order of the times the events are due.
`event_run` takes a due event out, calls its handler and puts the event back, unless it is one
that runs once. The handler may itself add and delete events. What it does to the event it was
called for is not looked at again: an event that its own handler deletes is put back.
-/

namespace IrcdHybrid.EventQueue

open SeparatedMarks Function

/-- Seconds from adding an event to its run. No event of the program has fewer than one. -/
abbrev Interval := {w : ℤ // 0 < w}

structure Event where
  when : Interval
  oneshot : Bool
  next : ℤ
  data : ℕ
  enabled : Bool

/-- What happened, for the statements only. An event is `added` and `deleted` by calls of
`event_add` and `event_delete`, not by what `event_run` does with it around its handler. -/
inductive Mark where
  | added (e : ℕ)
  | deleted (e : ℕ)
  | began
  | ran (e : ℕ) (next now : ℤ)
deriving DecidableEq

structure State where
  event : ℕ → Event
  events : List ℕ
  CurrentTime : ℤ
  last : ℤ
  log : List Mark

def State.mark (m : Mark) (s : State) : State :=
  { s with log := s.log ++ [m] }

def eventDelete (e : ℕ) (s : State) : State :=
  if (s.event e).enabled then
    { s with
      events := s.events.erase e
      event := update s.event e { s.event e with enabled := false } }
  else s

/-- Before the first event that is due later, else at the tail. -/
def insertEvent (event : ℕ → Event) (e : ℕ) : List ℕ → List ℕ
  | [] => [e]
  | n :: rest =>
    if (event n).next > (event e).next then e :: n :: rest else n :: insertEvent event e rest

def eventAdd (e data : ℕ) (s : State) : State :=
  let s := eventDelete e s
  let event := update s.event e
    { s.event e with
      data := data
      next := s.CurrentTime + (s.event e).when.1
      enabled := true }
  { s with event := event, events := insertEvent event e s.events }

theorem two_third_pos (w : ℤ) (r : ℕ) (h : 3 ≤ w) :
    0 < 2 * w / 3 + (r % 1000 : ℕ) * (2 * w / 3) / 1000 := by
  have hpos : 0 < 2 * w / 3 := by omega
  have hmore : 0 ≤ (r % 1000 : ℕ) * (2 * w / 3) / 1000 := by positivity
  omega

/-- `r` is the number `genrand_int32` gives. The shortened interval stays with the event. -/
def addishWhen (w : Interval) (r : ℕ) : Interval :=
  if h : 3 ≤ w.1 then ⟨_, two_third_pos w.1 r h⟩ else w

def setWhen (e : ℕ) (w : Interval) (s : State) : State :=
  { s with event := update s.event e { s.event e with when := w } }

def eventAddish (e data r : ℕ) (s : State) : State :=
  eventAdd e data (setWhen e (addishWhen (s.event e).when r) s)

/-- Of the queued events; the record of an event that is not enabled keeps its old time. -/
def setBackEvents (back : ℤ) (s : State) : State :=
  { s with
    event := fun e =>
      if e ∈ s.events then { s.event e with next := (s.event e).next - back } else s.event e }

/-- The clock of `set_time`. -/
def setTime (newtime : ℤ) (s : State) : State :=
  let s := if newtime < s.CurrentTime then setBackEvents (s.CurrentTime - newtime) s else s
  { s with CurrentTime := newtime }

/-- What a handler may do to the queue. -/
inductive Act where
  | add (e data : ℕ)
  | delete (e : ℕ)
deriving DecidableEq

def Act.apply : Act → State → State
  | .add e data, s => (eventAdd e data s).mark (.added e)
  | .delete e, s => (eventDelete e s).mark (.deleted e)

def applyActs (acts : List Act) (s : State) : State :=
  acts.foldl (fun s a => a.apply s) s

/-- One pass of the loop for the event at the head. -/
def runHead (handler : ℕ → ℕ → List Act) (e : ℕ) (s : State) : State :=
  let s := (eventDelete e s).mark (.ran e (s.event e).next s.CurrentTime)
  let s := applyActs (handler e (s.event e).data) s
  if (s.event e).oneshot then s else eventAdd e (s.event e).data s

def runLoop (handler : ℕ → ℕ → List Act) : ℕ → State → State
  | 0, s => s
  | len + 1, s =>
    match s.events with
    | [] => s
    | e :: _ =>
      if (s.event e).next > s.CurrentTime then s
      else runLoop handler len (runHead handler e s)

/-- `handler` says what the handlers do in this call, by the event and its data. -/
def eventRun (handler : ℕ → ℕ → List Act) (s : State) : State :=
  let s := s.mark .began
  if s.last = s.CurrentTime then s
  else runLoop handler s.events.length { s with last := s.CurrentTime }

/-- `setWhen` is what the configuration does to the event that writes the links file. -/
inductive Op where
  | add (e data : ℕ)
  | addish (e data r : ℕ)
  | delete (e : ℕ)
  | setWhen (e : ℕ) (w : Interval)
  | setBack (back : ℤ)
  | setTime (newtime : ℤ)
  | run (handler : ℕ → ℕ → List Act)

def Op.apply : Op → State → State
  | .add e data, s => (eventAdd e data s).mark (.added e)
  | .addish e data r, s => (eventAddish e data r s).mark (.added e)
  | .delete e, s => (eventDelete e s).mark (.deleted e)
  | .setWhen e w, s => EventQueue.setWhen e w s
  | .setBack back, s => setBackEvents back s
  | .setTime newtime, s => EventQueue.setTime newtime s
  | .run handler, s => eventRun handler s

def runOps (ops : List Op) (s : State) : State :=
  ops.foldl (fun s op => op.apply s) s

/-- The queue holds the enabled events, each once, by the time they are due. -/
structure Ordered (s : State) : Prop where
  sorted : s.events.Pairwise fun a b => (s.event a).next ≤ (s.event b).next
  nodup : s.events.Nodup
  mem_iff : ∀ e, e ∈ s.events ↔ (s.event e).enabled = true

def IsRan (e : ℕ) (m : Mark) : Prop :=
  ∃ next now, m = .ran e next now

/-- No handler was called before its time or twice in one call of `event_run`. -/
structure RanInTime (log : List Mark) : Prop where
  not_early : ∀ e next now, .ran e next now ∈ log → next ≤ now
  once : ∀ e, Separated (IsRan e) (IsRan e) (· = .began) log

/-- An event that was deleted did not run before it was added again. -/
def StaysDeleted (log : List Mark) : Prop :=
  ∀ e, Separated (· = .deleted e) (IsRan e) (· = .added e) log

structure Promises (s : State) : Prop where
  ordered : Ordered s
  ranInTime : RanInTime s.log
  staysDeleted : StaysDeleted s.log

section Queue

theorem insertEvent_perm (event : ℕ → Event) (e : ℕ) (l : List ℕ) :
    (insertEvent event e l).Perm (e :: l) := by
  induction l with
  | nil => exact List.Perm.refl _
  | cons n rest ih =>
    rw [insertEvent]
    split
    · exact List.Perm.refl _
    · exact (ih.cons n).trans (List.Perm.swap e n rest)

theorem insertEvent_sorted (event : ℕ → Event) (e : ℕ) (l : List ℕ)
    (h : l.Pairwise fun a b => (event a).next ≤ (event b).next) :
    (insertEvent event e l).Pairwise fun a b => (event a).next ≤ (event b).next := by
  induction l with
  | nil => simp [insertEvent]
  | cons n rest ih =>
    obtain ⟨hn, hrest⟩ := List.pairwise_cons.mp h
    rw [insertEvent]
    split
    case isTrue hlt =>
      refine List.pairwise_cons.mpr ⟨?_, h⟩
      intro x hx
      rcases List.mem_cons.mp hx with rfl | hx
      · omega
      · have hnx := hn x hx
        omega
    case isFalse hge =>
      refine List.pairwise_cons.mpr ⟨?_, ih hrest⟩
      intro x hx
      rcases List.mem_cons.mp ((insertEvent_perm event e rest).mem_iff.mp hx) with rfl | hx
      · omega
      · exact hn x hx

variable (e data : ℕ) (s : State)

@[simp] theorem eventDelete_log : (eventDelete e s).log = s.log := by
  unfold eventDelete
  split <;> rfl

@[simp] theorem eventDelete_now : (eventDelete e s).CurrentTime = s.CurrentTime := by
  unfold eventDelete
  split <;> rfl

/-- All that `event_delete` changes of the events. -/
theorem eventDelete_event (x : ℕ) :
    (eventDelete e s).event x =
      { s.event x with enabled := (s.event x).enabled && decide (x ≠ e) } := by
  unfold eventDelete
  by_cases hx : x = e
  · subst hx
    split <;> simp_all
    rename_i h
    rw [← h]
  · split <;> simp [hx]

theorem eventDelete_events (h : Ordered s) : (eventDelete e s).events = s.events.erase e := by
  unfold eventDelete
  split
  case isTrue => rfl
  case isFalse hdis =>
    rw [List.erase_of_not_mem]
    rw [h.mem_iff]
    exact hdis

theorem eventDelete_ordered (h : Ordered s) : Ordered (eventDelete e s) := by
  constructor
  · rw [eventDelete_events e s h]
    simp only [eventDelete_event]
    exact h.sorted.sublist List.erase_sublist
  · rw [eventDelete_events e s h]
    exact h.nodup.erase e
  · intro x
    rw [eventDelete_events e s h, h.nodup.mem_erase_iff, eventDelete_event, h.mem_iff]
    simp only [Bool.and_eq_true, decide_eq_true_eq]
    tauto

@[simp] theorem eventAdd_log : (eventAdd e data s).log = s.log := by
  simp [eventAdd]

@[simp] theorem eventAdd_now : (eventAdd e data s).CurrentTime = s.CurrentTime := by
  simp [eventAdd]

theorem eventAdd_event_self :
    (eventAdd e data s).event e =
      { s.event e with
        data := data
        next := s.CurrentTime + (s.event e).when.1
        enabled := true } := by
  simp [eventAdd, eventDelete_event]

theorem eventAdd_event_of_ne (x : ℕ) (hx : x ≠ e) :
    (eventAdd e data s).event x = s.event x := by
  simp [eventAdd, eventDelete_event, hx]

theorem eventAdd_ordered (h : Ordered s) : Ordered (eventAdd e data s) := by
  have hdel := eventDelete_ordered e s h
  have hout : e ∉ (eventDelete e s).events := by
    rw [hdel.mem_iff, eventDelete_event]
    simp
  have hperm := insertEvent_perm (eventAdd e data s).event e (eventDelete e s).events
  constructor
  · apply insertEvent_sorted
    apply hdel.sorted.imp_of_mem
    intro a b ha hb hab
    have hae : a ≠ e := fun heq => hout (heq ▸ ha)
    have hbe : b ≠ e := fun heq => hout (heq ▸ hb)
    simpa [eventAdd_event_of_ne, eventDelete_event, hae, hbe] using hab
  · exact hperm.nodup_iff.mpr (List.nodup_cons.mpr ⟨hout, hdel.nodup⟩)
  · intro x
    have hmem : x ∈ (eventAdd e data s).events ↔ x = e ∨ x ∈ (eventDelete e s).events := by
      rw [← List.mem_cons]
      exact hperm.mem_iff
    rw [hmem, hdel.mem_iff]
    by_cases hx : x = e
    · subst hx
      simp [eventAdd_event_self]
    · rw [eventAdd_event_of_ne e data s x hx, eventDelete_event]
      simp [hx]

end Queue

/-- The mark an act of a handler makes. -/
def Act.made : Act → Mark
  | .add e _ => .added e
  | .delete e => .deleted e

section Handlers

theorem applyActs_log (acts : List Act) (s : State) :
    (applyActs acts s).log = s.log ++ acts.map Act.made := by
  induction acts generalizing s with
  | nil => simp [applyActs]
  | cons a acts ih =>
    have ha : (a.apply s).log = s.log ++ [a.made] := by
      cases a <;> simp [Act.apply, State.mark, Act.made]
    have hrest := ih (a.apply s)
    rw [ha] at hrest
    simpa [applyActs] using hrest

theorem eventAdd_oneshot (e data : ℕ) (s : State) (x : ℕ) :
    ((eventAdd e data s).event x).oneshot = (s.event x).oneshot := by
  by_cases hx : x = e
  · subst hx
    rw [eventAdd_event_self]
  · rw [eventAdd_event_of_ne e data s x hx]

theorem eventDelete_oneshot (e : ℕ) (s : State) (x : ℕ) :
    ((eventDelete e s).event x).oneshot = (s.event x).oneshot := by
  rw [eventDelete_event]

theorem applyActs_oneshot (acts : List Act) (s : State) (x : ℕ) :
    ((applyActs acts s).event x).oneshot = (s.event x).oneshot := by
  induction acts generalizing s with
  | nil => rfl
  | cons a acts ih =>
    have ha : ((a.apply s).event x).oneshot = (s.event x).oneshot := by
      cases a with
      | add e data => exact eventAdd_oneshot e data s x
      | delete e => exact eventDelete_oneshot e s x
    exact (ih (a.apply s)).trans ha

theorem runHead_oneshot (handler : ℕ → ℕ → List Act) (e : ℕ) (s : State) (x : ℕ) :
    ((runHead handler e s).event x).oneshot = (s.event x).oneshot := by
  unfold runHead
  dsimp only
  split
  · rw [applyActs_oneshot]
    exact eventDelete_oneshot e s x
  · rw [eventAdd_oneshot, applyActs_oneshot]
    exact eventDelete_oneshot e s x

end Handlers

section Marks

theorem RanInTime.concat_other {log : List Mark} (h : RanInTime log) (m : Mark)
    (hm : ∀ e, ¬ IsRan e m) : RanInTime (log ++ [m]) := by
  constructor
  · intro e next now hmem
    rcases List.mem_append.mp hmem with hmem | hmem
    · exact h.not_early e next now hmem
    · exact absurd ⟨next, now, (List.mem_singleton.mp hmem).symm⟩ (hm e)
  · intro e
    exact separated_concat _ _ _ log m (h.once e) fun hran => absurd hran (hm e)

theorem RanInTime.concat_ran {log : List Mark} (h : RanInTime log) (e : ℕ) (next now : ℤ)
    (hdue : next ≤ now) (hfirst : ¬ Pending (IsRan e) (· = .began) log) :
    RanInTime (log ++ [.ran e next now]) := by
  constructor
  · intro x next' now' hmem
    rcases List.mem_append.mp hmem with hmem | hmem
    · exact h.not_early x next' now' hmem
    · obtain ⟨-, rfl, rfl⟩ : x = e ∧ next' = next ∧ now' = now := by simpa using hmem
      exact hdue
  · intro x
    apply separated_concat _ _ _ log _ (h.once x)
    rintro ⟨next', now', heq⟩
    obtain ⟨rfl, -, -⟩ : e = x ∧ next = next' ∧ now = now' := by simpa using heq
    exact hfirst

theorem StaysDeleted.concat_other {log : List Mark} (h : StaysDeleted log) (m : Mark)
    (hm : ∀ e, ¬ IsRan e m) : StaysDeleted (log ++ [m]) := by
  intro e
  exact separated_concat _ _ _ log m (h e) fun hran => absurd hran (hm e)

theorem not_isRan_added (e x : ℕ) : ¬ IsRan x (.added e) := by
  rintro ⟨next, now, h⟩
  cases h

theorem not_isRan_deleted (e x : ℕ) : ¬ IsRan x (.deleted e) := by
  rintro ⟨next, now, h⟩
  cases h

theorem not_isRan_began (x : ℕ) : ¬ IsRan x .began := by
  rintro ⟨next, now, h⟩
  cases h

end Marks

/-- What holds while the loop of `event_run` runs: an event that was called in it is out of the
queue, or due later. -/
structure Running (s : State) : Prop where
  ordered : Ordered s
  ranInTime : RanInTime s.log
  called : ∀ e, Pending (IsRan e) (· = .began) s.log → (s.event e).enabled = true →
    s.CurrentTime < (s.event e).next

namespace Running

variable {s : State}

theorem mark_other (h : Running s) (m : Mark) (hran : ∀ e, ¬ IsRan e m) (hm : m ≠ .began) :
    Running (s.mark m) where
  ordered := ⟨h.ordered.sorted, h.ordered.nodup, h.ordered.mem_iff⟩
  ranInTime := h.ranInTime.concat_other m hran
  called e hpend := h.called e ((pending_concat_other _ _ s.log m (hran e) hm).mp hpend)

theorem eventDelete (h : Running s) (e : ℕ) : Running (eventDelete e s) where
  ordered := eventDelete_ordered e s h.ordered
  ranInTime := by
    rw [eventDelete_log]
    exact h.ranInTime
  called x hpend hen := by
    rw [eventDelete_log] at hpend
    rw [eventDelete_event] at hen ⊢
    rw [eventDelete_now]
    exact h.called x hpend (Bool.and_eq_true_iff.mp hen).1

theorem eventAdd (h : Running s) (e data : ℕ) : Running (eventAdd e data s) where
  ordered := eventAdd_ordered e data s h.ordered
  ranInTime := by
    rw [eventAdd_log]
    exact h.ranInTime
  called x hpend hen := by
    rw [eventAdd_log] at hpend
    rw [eventAdd_now]
    by_cases hx : x = e
    · subst hx
      rw [eventAdd_event_self]
      have hpos := (s.event x).when.2
      dsimp only
      omega
    · rw [eventAdd_event_of_ne e data s x hx] at hen ⊢
      exact h.called x hpend hen

theorem act (h : Running s) (a : Act) : Running (a.apply s) := by
  cases a with
  | add e data => exact (h.eventAdd e data).mark_other _ (not_isRan_added e) nofun
  | delete e => exact (h.eventDelete e).mark_other _ (not_isRan_deleted e) nofun

theorem acts (h : Running s) (l : List Act) : Running (applyActs l s) := by
  induction l generalizing s with
  | nil => exact h
  | cons a l ih => exact ih (h.act a)

/-- The event at the head is due, so it was not called before in this loop. -/
theorem ran (h : Running s) (e : ℕ) (he : e ∈ s.events)
    (hdue : (s.event e).next ≤ s.CurrentTime) :
    Running ((EventQueue.eventDelete e s).mark (.ran e (s.event e).next s.CurrentTime)) := by
  have hdel := h.eventDelete e
  have hen := (h.ordered.mem_iff e).mp he
  have hfirst : ¬ Pending (IsRan e) (· = .began) s.log := by
    intro hpend
    have hlater := h.called e hpend hen
    omega
  constructor
  · exact ⟨hdel.ordered.sorted, hdel.ordered.nodup, hdel.ordered.mem_iff⟩
  · apply hdel.ranInTime.concat_ran e _ _ hdue
    rw [eventDelete_log]
    exact hfirst
  · intro x hpend henx
    by_cases hx : x = e
    · subst hx
      have hdis : ((EventQueue.eventDelete x s).event x).enabled = true := henx
      simp [eventDelete_event] at hdis
    · have hother : ¬ IsRan x (.ran e (s.event e).next s.CurrentTime) := by
        rintro ⟨next, now, heq⟩
        cases heq
        exact hx rfl
      exact hdel.called x ((pending_concat_other _ _ _ _ hother nofun).mp hpend) henx

theorem runHead (h : Running s) (handler : ℕ → ℕ → List Act) (e : ℕ) (he : e ∈ s.events)
    (hdue : (s.event e).next ≤ s.CurrentTime) : Running (runHead handler e s) := by
  unfold EventQueue.runHead
  have hacts := (h.ran e he hdue).acts (handler e
    (((EventQueue.eventDelete e s).mark (.ran e (s.event e).next s.CurrentTime)).event e).data)
  dsimp only
  split
  · exact hacts
  · exact hacts.eventAdd e _

theorem runLoop (h : Running s) (handler : ℕ → ℕ → List Act) (len : ℕ) :
    Running (runLoop handler len s) := by
  induction len generalizing s with
  | zero => exact h
  | succ len ih =>
    unfold EventQueue.runLoop
    split
    · exact h
    case h_2 e rest heq =>
      have he : e ∈ s.events := by simp [heq]
      split
      · exact h
      case isFalse hdue =>
        exact ih (h.runHead handler e he (by omega))

end Running

/-- What every operation keeps. -/
structure Kept (s : State) : Prop where
  ordered : Ordered s
  ranInTime : RanInTime s.log

theorem Running.kept {s : State} (h : Running s) : Kept s :=
  ⟨h.ordered, h.ranInTime⟩

namespace Kept

variable {s : State}

theorem mark_other (h : Kept s) (m : Mark) (hran : ∀ e, ¬ IsRan e m) : Kept (s.mark m) where
  ordered := ⟨h.ordered.sorted, h.ordered.nodup, h.ordered.mem_iff⟩
  ranInTime := h.ranInTime.concat_other m hran

theorem eventAdd (h : Kept s) (e data : ℕ) : Kept (eventAdd e data s) where
  ordered := eventAdd_ordered e data s h.ordered
  ranInTime := by
    rw [eventAdd_log]
    exact h.ranInTime

theorem eventDelete (h : Kept s) (e : ℕ) : Kept (eventDelete e s) where
  ordered := eventDelete_ordered e s h.ordered
  ranInTime := by
    rw [eventDelete_log]
    exact h.ranInTime

theorem setWhen (h : Kept s) (e : ℕ) (w : Interval) : Kept (setWhen e w s) where
  ordered := by
    have hnext : ∀ x, ((EventQueue.setWhen e w s).event x).next = (s.event x).next := by
      intro x
      by_cases hx : x = e <;> simp [EventQueue.setWhen, hx]
    have hen : ∀ x, ((EventQueue.setWhen e w s).event x).enabled = (s.event x).enabled := by
      intro x
      by_cases hx : x = e <;> simp [EventQueue.setWhen, hx]
    constructor
    · simp only [hnext]
      exact h.ordered.sorted
    · exact h.ordered.nodup
    · intro x
      rw [hen]
      exact h.ordered.mem_iff x
  ranInTime := h.ranInTime

/-- All queued events move by the same time, so they stay in order. -/
theorem setBackEvents (h : Kept s) (back : ℤ) : Kept (setBackEvents back s) where
  ordered := by
    constructor
    · apply h.ordered.sorted.imp_of_mem
      intro a b ha hb hab
      simp only [EventQueue.setBackEvents, ha, hb, if_true]
      omega
    · exact h.ordered.nodup
    · intro x
      have hen : ((EventQueue.setBackEvents back s).event x).enabled = (s.event x).enabled := by
        simp only [EventQueue.setBackEvents]
        split <;> rfl
      rw [hen]
      exact h.ordered.mem_iff x
  ranInTime := h.ranInTime

theorem setTime (h : Kept s) (newtime : ℤ) : Kept (setTime newtime s) := by
  unfold EventQueue.setTime
  dsimp only
  split
  · obtain ⟨ho, hr⟩ := h.setBackEvents (s.CurrentTime - newtime)
    exact ⟨⟨ho.sorted, ho.nodup, ho.mem_iff⟩, hr⟩
  · exact ⟨⟨h.ordered.sorted, h.ordered.nodup, h.ordered.mem_iff⟩, h.ranInTime⟩

/-- At its beginning no event was called in this `event_run`. -/
theorem began (h : Kept s) : Running (s.mark .began) where
  ordered := ⟨h.ordered.sorted, h.ordered.nodup, h.ordered.mem_iff⟩
  ranInTime := h.ranInTime.concat_other .began not_isRan_began
  called e hpend := by
    rcases (pending_concat _ _ _ _).mp hpend with hran | ⟨-, hnot⟩
    · exact absurd hran (not_isRan_began e)
    · exact absurd rfl hnot

theorem eventRun (h : Kept s) (handler : ℕ → ℕ → List Act) : Kept (eventRun handler s) := by
  unfold EventQueue.eventRun
  have hrun := h.began
  dsimp only
  split
  · exact hrun.kept
  · have hlast : Running { s.mark .began with last := (s.mark .began).CurrentTime } :=
      ⟨⟨hrun.ordered.sorted, hrun.ordered.nodup, hrun.ordered.mem_iff⟩, hrun.ranInTime,
        hrun.called⟩
    exact (hlast.runLoop handler _).kept

theorem apply (h : Kept s) (op : Op) : Kept (op.apply s) := by
  cases op with
  | add e data => exact (h.eventAdd e data).mark_other _ (not_isRan_added e)
  | addish e data r =>
    exact ((h.setWhen e _).eventAdd e data).mark_other _ (not_isRan_added e)
  | delete e => exact (h.eventDelete e).mark_other _ (not_isRan_deleted e)
  | setWhen e w => exact h.setWhen e w
  | setBack back => exact h.setBackEvents back
  | setTime newtime => exact h.setTime newtime
  | run handler => exact h.eventRun handler

theorem runOps (h : Kept s) (ops : List Op) : Kept (runOps ops s) := by
  induction ops generalizing s with
  | nil => exact h
  | cons op ops ih => exact ih (h.apply op)

end Kept

/-- The acts leave `e` deleted: no add of `e` follows the last delete of it. -/
def LeavesDeleted (e : ℕ) (acts : List Act) : Prop :=
  Pending (· = .delete e) (fun a => ∃ data, a = .add e data) acts

/-- No handler of a recurring event leaves the event it was called for deleted. -/
def HandlersKeep (s : State) : Op → Prop
  | .run handler =>
    ∀ e data, (s.event e).oneshot = false → ¬ LeavesDeleted e (handler e data)
  | _ => True

theorem leavesDeleted_of_made (e : ℕ) (acts : List Act)
    (h : Pending (fun a : Act => a.made = .deleted e) (fun a => a.made = .added e) acts) :
    LeavesDeleted e acts := by
  obtain ⟨before, a, after, hacts, ha, hafter⟩ := h
  refine ⟨before, a, after, hacts, ?_, ?_⟩
  · cases a with
    | add x data => cases ha
    | delete x =>
      cases ha
      rfl
  · rintro z hz ⟨data, rfl⟩
    exact hafter _ hz rfl

def AllKeep : List Op → State → Prop
  | [], _ => True
  | op :: ops, s => HandlersKeep s op ∧ AllKeep ops (op.apply s)

/-- What was deleted is out of the queue. -/
structure Deleted (s : State) : Prop where
  staysDeleted : StaysDeleted s.log
  disabled : ∀ e, Pending (· = .deleted e) (· = .added e) s.log → (s.event e).enabled = false

namespace Deleted

variable {s : State}

/-- A step that adds nothing, and makes no mark of a call or a delete. -/
theorem of_frame {t : State} (h : Deleted s) (hlog : t.log = s.log)
    (hen : ∀ e, (t.event e).enabled = true → (s.event e).enabled = true) : Deleted t where
  staysDeleted := by
    rw [hlog]
    exact h.staysDeleted
  disabled e hpend := by
    rw [hlog] at hpend
    by_contra hne
    have hon := hen e (by simpa using hne)
    rw [h.disabled e hpend] at hon
    cases hon

theorem added (h : Deleted s) (e data : ℕ) : Deleted ((eventAdd e data s).mark (.added e)) where
  staysDeleted := by
    show StaysDeleted ((eventAdd e data s).log ++ [.added e])
    rw [eventAdd_log]
    exact h.staysDeleted.concat_other _ (not_isRan_added e)
  disabled x hpend := by
    have hpend' : Pending (· = .deleted x) (· = .added x) (s.log ++ [.added e]) := by
      simpa [State.mark] using hpend
    obtain ⟨hpend', hne⟩ : Pending (· = .deleted x) (· = .added x) s.log ∧ e ≠ x := by
      simpa [pending_concat] using hpend'
    show ((eventAdd e data s).event x).enabled = false
    rw [eventAdd_event_of_ne e data s x hne.symm]
    exact h.disabled x hpend'

theorem deleted (h : Deleted s) (e : ℕ) :
    Deleted ((EventQueue.eventDelete e s).mark (.deleted e)) where
  staysDeleted := by
    show StaysDeleted ((EventQueue.eventDelete e s).log ++ [.deleted e])
    rw [eventDelete_log]
    exact h.staysDeleted.concat_other _ (not_isRan_deleted e)
  disabled x hpend := by
    have hpend' : Pending (· = .deleted x) (· = .added x) (s.log ++ [.deleted e]) := by
      simpa [State.mark] using hpend
    show ((EventQueue.eventDelete e s).event x).enabled = false
    rw [eventDelete_event]
    by_cases hx : x = e
    · simp [hx]
    · have hother : Pending (· = .deleted x) (· = .added x) s.log := by
        apply (pending_concat_other _ _ _ _ _ nofun).mp hpend'
        simpa using fun heq => hx heq.symm
      simp [h.disabled x hother]

theorem act (h : Deleted s) (a : Act) : Deleted (a.apply s) := by
  cases a with
  | add e data => exact h.added e data
  | delete e => exact h.deleted e

theorem acts (h : Deleted s) (l : List Act) : Deleted (applyActs l s) := by
  induction l generalizing s with
  | nil => exact h
  | cons a l ih => exact ih (h.act a)

theorem ran (h : Deleted s) (e : ℕ) (hen : (s.event e).enabled = true) (next now : ℤ) :
    Deleted ((EventQueue.eventDelete e s).mark (.ran e next now)) where
  staysDeleted x := by
    show Separated _ _ _ ((EventQueue.eventDelete e s).log ++ [.ran e next now])
    rw [eventDelete_log]
    apply separated_concat _ _ _ _ _ (h.staysDeleted x)
    rintro ⟨next', now', heq⟩ hpend
    cases heq
    rw [h.disabled e hpend] at hen
    cases hen
  disabled x hpend := by
    have hpend' : Pending (· = .deleted x) (· = .added x) (s.log ++ [.ran e next now]) := by
      simpa [State.mark] using hpend
    have hbefore := (pending_concat_other _ _ _ _ nofun nofun).mp hpend'
    show ((EventQueue.eventDelete e s).event x).enabled = false
    simp [eventDelete_event, h.disabled x hbefore]

/-- The event is put back only if its handler did not leave it deleted. -/
theorem runHead (h : Deleted s) (handler : ℕ → ℕ → List Act) (e : ℕ)
    (hen : (s.event e).enabled = true)
    (hkeep : ∀ data, (s.event e).oneshot = false → ¬ LeavesDeleted e (handler e data)) :
    Deleted (runHead handler e s) := by
  unfold EventQueue.runHead
  dsimp only
  have hran := h.ran e hen (s.event e).next s.CurrentTime
  generalize hs₁ : (EventQueue.eventDelete e s).mark (.ran e (s.event e).next s.CurrentTime) = s₁
    at hran
  have hacts := hran.acts (handler e (s₁.event e).data)
  have hone : (s₁.event e).oneshot = (s.event e).oneshot := by
    rw [← hs₁]
    exact eventDelete_oneshot e s e
  have hclear : ¬ Pending (· = .deleted e) (· = .added e) s₁.log := by
    have hlog : s₁.log = s.log ++ [.ran e (s.event e).next s.CurrentTime] := by
      simp [← hs₁, State.mark]
    intro hpend
    rw [hlog] at hpend
    have hbefore := (pending_concat_other _ _ _ _ nofun nofun).mp hpend
    rw [h.disabled e hbefore] at hen
    cases hen
  split
  · exact hacts
  case isFalse hrec =>
    rw [applyActs_oneshot, hone] at hrec
    have hstill : ¬ Pending (· = .deleted e) (· = .added e)
        (applyActs (handler e (s₁.event e).data) s₁).log := by
      rw [applyActs_log, pending_append, pending_map]
      rintro (hpend | ⟨hpend, -⟩)
      · exact hkeep _ (by simpa using hrec) (leavesDeleted_of_made e _ hpend)
      · exact hclear hpend
    refine ⟨?_, ?_⟩
    · rw [eventAdd_log]
      exact hacts.staysDeleted
    · intro x hpend
      rw [eventAdd_log] at hpend
      have hx : x ≠ e := fun heq => hstill (heq ▸ hpend)
      rw [eventAdd_event_of_ne e _ _ x hx]
      exact hacts.disabled x hpend

end Deleted

/-- The loop, with the queue in order so that the event at the head is an enabled one. -/
theorem runLoop_deleted (handler : ℕ → ℕ → List Act) (len : ℕ) (s : State) (hrun : Running s)
    (h : Deleted s)
    (hkeep : ∀ e data, (s.event e).oneshot = false → ¬ LeavesDeleted e (handler e data)) :
    Deleted (runLoop handler len s) := by
  induction len generalizing s with
  | zero => exact h
  | succ len ih =>
    unfold runLoop
    split
    · exact h
    case h_2 e rest heq =>
      have he : e ∈ s.events := by simp [heq]
      split
      · exact h
      case isFalse hdue =>
        apply ih _ (hrun.runHead handler e he (by omega))
        · exact h.runHead handler e ((hrun.ordered.mem_iff e).mp he) (hkeep e)
        · intro x data hx
          rw [runHead_oneshot] at hx
          exact hkeep x data hx

theorem began_deleted (s : State) (h : Deleted s) : Deleted (s.mark .began) where
  staysDeleted := h.staysDeleted.concat_other _ not_isRan_began
  disabled e hpend := h.disabled e ((pending_concat_other _ _ _ _ nofun nofun).mp hpend)

theorem eventRun_deleted (handler : ℕ → ℕ → List Act) (s : State) (hkept : Kept s)
    (h : Deleted s)
    (hkeep : ∀ e data, (s.event e).oneshot = false → ¬ LeavesDeleted e (handler e data)) :
    Deleted (eventRun handler s) := by
  unfold eventRun
  have hbegan := began_deleted s h
  have hrun := hkept.began
  dsimp only
  split
  · exact hbegan
  · apply runLoop_deleted handler
    · exact ⟨⟨hrun.ordered.sorted, hrun.ordered.nodup, hrun.ordered.mem_iff⟩, hrun.ranInTime,
        hrun.called⟩
    · exact hbegan.of_frame rfl fun e he => he
    · exact hkeep

theorem setBackEvents_deleted (back : ℤ) (s : State) (h : Deleted s) :
    Deleted (setBackEvents back s) := by
  have hlog : (setBackEvents back s).log = s.log := rfl
  apply h.of_frame hlog
  intro e he
  simp only [setBackEvents] at he
  split at he <;> exact he

theorem setWhen_deleted (e : ℕ) (w : Interval) (s : State) (h : Deleted s) :
    Deleted (setWhen e w s) := by
  have hlog : (setWhen e w s).log = s.log := rfl
  apply h.of_frame hlog
  intro x hx
  by_cases hxe : x = e <;> simpa [setWhen, hxe] using hx

theorem apply_deleted (op : Op) (s : State) (hkept : Kept s) (h : Deleted s)
    (hkeep : HandlersKeep s op) : Deleted (op.apply s) := by
  cases op with
  | add e data => exact h.added e data
  | addish e data r => exact (setWhen_deleted e _ s h).added e data
  | delete e => exact h.deleted e
  | setWhen e w => exact setWhen_deleted e w s h
  | setBack back => exact setBackEvents_deleted back s h
  | setTime newtime =>
    show Deleted (setTime newtime s)
    unfold setTime
    dsimp only
    split
    · exact (setBackEvents_deleted _ s h).of_frame rfl fun e he => he
    · exact h.of_frame rfl fun e he => he
  | run handler => exact eventRun_deleted handler s hkept h hkeep

theorem runOps_deleted (ops : List Op) (s : State) (hkept : Kept s) (h : Deleted s)
    (hkeep : AllKeep ops s) : Deleted (runOps ops s) := by
  induction ops generalizing s with
  | nil => exact h
  | cons op ops ih =>
    exact ih (op.apply s) (hkept.apply op) (apply_deleted op s hkept h hkeep.1) hkeep.2

/-- The program has started, with nothing in the queue. -/
structure Start (s : State) : Prop where
  events : s.events = []
  enabled : ∀ e, (s.event e).enabled = false
  log : s.log = []

theorem Start.kept {s : State} (h : Start s) : Kept s where
  ordered := by
    constructor
    · simp [h.events]
    · simp [h.events]
    · simp [h.events, h.enabled]
  ranInTime := by
    constructor
    · simp [h.log]
    · simp [h.log]

theorem Start.deleted {s : State} (h : Start s) : Deleted s where
  staysDeleted e := by simp [h.log]
  disabled e _ := h.enabled e

/-- Every queue is in order and no handler runs early or twice, whatever the handlers do. Where
no recurring event is left deleted by its own handler, no event that was deleted runs before it
is added again. -/
theorem event_queue (s : State) (hs : Start s) (ops : List Op) :
    Kept (runOps ops s) ∧ (AllKeep ops s → Promises (runOps ops s)) := by
  have hkept := hs.kept.runOps ops
  refine ⟨hkept, ?_⟩
  intro hkeep
  have hdel := runOps_deleted ops s hs.kept hs.deleted hkeep
  exact ⟨hkept.ordered, hkept.ranInTime, hdel.staysDeleted⟩

/-- The number of `splitmode_event`, which recurs. -/
def splitmodeEvent : ℕ := 0

structure Splitmode where
  splitchecking : Bool
  noJoinOnSplit : Bool
  noCreateOnSplit : Bool
  splitmode : Bool
  servers : ℕ
  splitServers : ℕ
  total : ℕ
  splitUsers : ℕ

/-- The new `splitmode`, and what is done to the queue. -/
def checkSplitmode (c : Splitmode) : Bool × List Act :=
  if c.splitchecking && (c.noJoinOnSplit || c.noCreateOnSplit) then
    if !c.splitmode && (c.servers < c.splitServers || c.total < c.splitUsers) then
      (true, [.add splitmodeEvent 0])
    else if c.splitmode && (c.servers ≥ c.splitServers && c.total ≥ c.splitUsers) then
      (false, [.delete splitmodeEvent])
    else (c.splitmode, [])
  else (c.splitmode, [])

/-- Every event recurs after five seconds, and none is in the queue. -/
def started : State where
  event _ := { when := ⟨5, by decide⟩, oneshot := false, next := 0, data := 0, enabled := false }
  events := []
  CurrentTime := 100
  last := 0
  log := []

/-- The network has rejoined: ten servers and a hundred users, more than the limits. -/
def rejoined : Splitmode where
  splitchecking := true
  noJoinOnSplit := true
  noCreateOnSplit := false
  splitmode := true
  servers := 10
  splitServers := 2
  total := 100
  splitUsers := 50

/-- The split mode ends when its event runs, and five seconds later the event runs again. -/
def rejoinOps : List Op :=
  [.add splitmodeEvent 0, .setTime 105, .run fun _ _ => (checkSplitmode rejoined).2,
    .setTime 110, .run fun _ _ => []]

theorem started_start : Start started :=
  ⟨rfl, fun _ => rfl, rfl⟩

theorem rejoin_runs_again : Start started ∧ ¬ Promises (runOps rejoinOps started) := by
  refine ⟨started_start, ?_⟩
  intro h
  have hlog : (runOps rejoinOps started).log =
      [.added 0, .began, .ran 0 105 105] ++ .deleted 0 :: ([.began] ++ .ran 0 110 110 :: []) := by
    decide +kernel
  obtain ⟨z, hz, hadd⟩ := h.staysDeleted 0 _ _ _ _ _ hlog rfl ⟨110, 110, rfl⟩
  rw [List.mem_singleton.mp hz] at hadd
  cases hadd

theorem event_queue_started :
    Kept (runOps [.add 1 0, .setTime 105, .run fun _ _ => []] started) ∧
      Promises (runOps [.add 1 0, .setTime 105, .run fun _ _ => []] started) := by
  have hqueue := event_queue started started_start [.add 1 0, .setTime 105, .run fun _ _ => []]
  refine ⟨hqueue.1, hqueue.2 ⟨trivial, trivial, ?_, trivial⟩⟩
  intro e data _
  exact pending_nil _ _

end IrcdHybrid.EventQueue
