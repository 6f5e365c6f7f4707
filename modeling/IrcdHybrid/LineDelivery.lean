import IrcdHybrid.MessageTable
import Mathlib.Data.List.Nodup

/-!
Every line is taken apart as the grammar says, and the handler finds everything it reads, save
for a numeric with a destination alone, and for a few messages whose `args_min` is less than
what their handlers take for granted.
-/

namespace IrcdHybrid.LineDelivery

open CString ArgumentUse LineTokens LineParser HandlerParams MessageTable
open Wire (MAXPARA)

def sub (m : Message) : Sub := (m.argsMin, (m.handlers .encap).call none)

/-- What `ms_encap` finds for parv[2]. -/
def found (findCommand : CStr → Option Message) (args : ℕ → Slot Arg) : Option Sub :=
  match args 2 with
  | .value (.text w) => (findCommand w).map sub
  | _ => none

/-- Whatever course the handler takes, every element it reads is there. -/
def Served (findCommand : CStr → Option Message) (c : Client) : Outcome → Prop
  | .command m t =>
    ((m.handlers c.handler).call (found findCommand t.args) t.parc).Safe Arg.empty t.args
      fun _ => True
  | .numeric _ fromServer t =>
    (parseHandleNumeric fromServer t.parc).Safe Arg.empty t.args fun _ => True
  | _ => True

/-- The parameters that a message has in a text. -/
def paramsOf (m : Message) (text : CStr) : List CStr :=
  params false (allowed m.extra m.argsMax) text

/-- Something that the handler takes for granted is not among the parameters. -/
def Lacks (findCommand : CStr → Option Message) (c : Client) (m : Message) (ps : List CStr) :
    Prop :=
  (m = topicMsgtab ∧ c.handler = .server ∧ ps.length = 1 ∧ ps ≠ [[]]) ∨
  (m = linksMsgtab ∧ c.handler = .server ∧ ps.length = 1 ∧ ps ≠ [[]]) ∨
  (m = broadcastMsgtab ∧ (c.handler = .server ∨ c.handler = .oper) ∧ ps = []) ∨
  (m = banMsgtab ∧ c.handler = .server ∧ ps.length < 4) ∨
  (m = encapMsgtab ∧ c.handler = .server ∧ ps.length = 4 ∧
    findCommand (ps.getD 1 []) = some unglineMsgtab)

def Lacking (findCommand : CStr → Option Message) (c : Client) : Reading → Prop
  | .nothing => False
  | .numeric n fromServer _ text =>
    fromServer = true ∧ (params (decide (n ≠ 0)) 2 text).length = 1
  | .command m _ text => Lacks findCommand c m (paramsOf m text)

def handlerTypes : List HandlerType := [.unregistered, .client, .server, .oper, .dummy]

theorem mem_handlerTypes (c : Client) : c.handler ∈ handlerTypes := by
  have hown := c.own
  revert hown
  cases c.handler <;> decide

/-- Where the handler of an unchecked message may miss something, by what it is called with. -/
def mayLack (cmd : CStr) (t : HandlerType) (parc : ℕ) : Bool :=
  (decide (cmd = "TOPIC".toList) && decide (t = .server) && decide (parc = 2)) ||
  (decide (cmd = "LINKS".toList) && decide (t = .server) && decide (parc = 2)) ||
  (decide (cmd = "BROADCAST".toList) && (decide (t = .server) || decide (t = .oper)) &&
    decide (parc = 1)) ||
  (decide (cmd = "BAN".toList) && decide (t = .server) && decide (parc < 5)) ||
  (decide (cmd = "ENCAP".toList) && decide (t = .server))

theorem messages_check : messages.all (fun m => handlerTypes.all fun t =>
    (List.range' 1 16).all fun n =>
      decide (n < m.argsMin) || mayLack m.cmd t n ||
        (((m.handlers t).call none n).check n &&
          match m.handlers t with
          | .plain _ => true
          | .encap _ => false)) = true := by
  decide +kernel

theorem encap_check : (checkedMessages ++ [encapMsgtab, linksMsgtab, topicMsgtab, broadcastMsgtab,
    banMsgtab]).all (fun m => (List.range' 1 16).all fun n =>
      decide (n < m.argsMin) || ((m.handlers .encap).call none n).check n) = true := by
  decide +kernel

theorem safe_of_mayLack (m : Message) (hm : m ∈ messages) (c : Client) (f : Option Sub)
    (args : ℕ → Slot Arg) (n : ℕ) (hargs : Filled args n) (hpos : 1 ≤ n) (hmax : n ≤ MAXPARA + 1)
    (hmin : m.argsMin ≤ n) (h : mayLack m.cmd c.handler n = false) :
    ((m.handlers c.handler).call f n).Safe Arg.empty args fun _ => True := by
  have hall := List.all_eq_true.mp (List.all_eq_true.mp (List.all_eq_true.mp messages_check m hm)
    c.handler (mem_handlerTypes c)) n (List.mem_range'_1.mpr ⟨hpos, by
      have : MAXPARA = 15 := rfl
      omega⟩)
  rw [decide_eq_false (not_lt.mpr hmin), h, Bool.false_or, Bool.false_or,
    Bool.and_eq_true] at hall
  obtain ⟨hcheck, hplain⟩ := hall
  cases hhandler : m.handlers c.handler with
  | plain g =>
    rw [hhandler] at hcheck
    exact Use.safe_of_check Arg.empty args n hargs (g n) hcheck
  | encap g =>
    rw [hhandler] at hplain
    cases hplain

section Vectors

variable (ch : CStr) (ps : List CStr)

/-- An element is there when it is not behind the last parameter. -/
theorem vector_value (i : ℕ) :
    (∃ v, vector ch false ps i = .value v) ↔ i < argCount false ps := by
  have hfilled := vector_filled ch false ps
  refine ⟨?_, hfilled.value i⟩
  rintro ⟨v, hv⟩
  by_contra hge
  have hlen : (slots ch false ps).length = argCount false ps + 1 := by
    simp [slots, argCount, Nat.add_comm]
  rcases Nat.lt_or_eq_of_le (Nat.le_of_not_lt hge) with hlt | heq
  · unfold vector at hv
    rw [List.getD_eq_default _ _ (by rw [hlen]; exact hlt)] at hv
    cases hv
  · rw [← heq, hfilled.null] at hv
    cases hv

/-- A server may ask for the topic, but not name a channel alone. -/
theorem msTopic_safe (p : CStr) (n : ℕ) :
    (msTopic n).Safe Arg.empty (vector ch false [p]) (fun _ => True) ↔ p = [] := by
  have h₁ : vector ch false [p] 1 = .value (.text p) := rfl
  have h₂ : vector ch false [p] 2 = .null := rfl
  cases p with
  | nil => simp [msTopic, isEmpty, Use.bind, Use.Safe, h₁, Arg.empty]
  | cons d p => simp [msTopic, isEmpty, deref, other, Use.bind, Use.Safe, h₁, h₂, Arg.empty]

/-- `hunt_server` asks for the server, but the mask goes along. -/
theorem msLinks_safe (p : CStr) :
    (msLinks 2).Safe Arg.empty (vector ch false [p]) (fun _ => True) ↔ p = [] := by
  have h₁ : vector ch false [p] 1 = .value (.text p) := rfl
  have h₂ : vector ch false [p] 2 = .null := rfl
  have hlinks : (mLinks 2).Safe Arg.empty (vector ch false [p]) (fun _ => True) :=
    Use.safe_of_check Arg.empty _ 2 (vector_filled ch false [p]) (mLinks 2) (by decide)
  cases p with
  | nil => simpa [msLinks, huntServer, isEmpty, Use.bind, Use.Safe, h₁, Arg.empty] using hlinks
  | cons d p =>
    have hmask : ¬ ∀ i, 1 ≤ i → i < 3 → ∃ v, vector ch false [d :: p] i = .value v := by
      intro hall
      obtain ⟨v, hv⟩ := hall 2 (by decide) (by decide)
      rw [h₂] at hv
      cases hv
    simp [msLinks, huntServer, isEmpty, deref, other, Use.bind, Use.Safe, Use.safe_bind,
      Use.safe_derefs, h₁, Arg.empty, hmask]

theorem mBroadcast_safe (n : ℕ) :
    ¬ (mBroadcast n).Safe Arg.empty (vector ch false []) (fun _ => True) := by
  have h₁ : vector ch false [] 1 = .null := rfl
  simp [mBroadcast, deref, Use.Safe, h₁]

/-- On a message from a server the fourth parameter is copied without a question. -/
theorem mBan_safe (h : ps.length < 4) :
    ¬ (mBan (argCount false ps)).Safe Arg.empty (vector ch false ps) (fun _ => True) := by
  have hcount : argCount false ps = 1 + ps.length := rfl
  intro hsafe
  simp only [mBan, Use.bind_eq, deref, other, Use.bind] at hsafe
  have hchannel := hsafe.2 false
  simp only [Bool.false_eq_true, if_false] at hchannel
  have hcopy : ((derefs [2, 4]).bind fun _ => Pure.pure ()).Safe Arg.empty (vector ch false ps)
      (fun _ => True) := by
    by_cases hfour : 4 ≤ argCount false ps
    · rw [if_pos hfour] at hchannel
      exact hchannel.2 true
    · rw [if_neg hfour] at hchannel
      exact hchannel true
  have hvalue := ((Use.safe_derefs _ _ _ _).mp ((Use.safe_bind _ _ _ _ _).mp hcopy)).1 4 (by simp)
  have hlt := (vector_value ch ps 4).mp hvalue
  omega

/-- All the elements that `ms_encap` reads itself are there. -/
theorem msEncap_safe (f : Option Sub) (h : 3 ≤ argCount false ps) :
    (msEncap f (argCount false ps)).Safe Arg.empty (vector ch false ps) (fun _ => True) ↔
      ∀ a g, f = some (a, g) → a ≤ argCount false ps - 2 →
        (g (argCount false ps - 2)).Safe Arg.empty (fun i => vector ch false ps (i + 2))
          fun _ => True := by
  have hvalue := vector_value ch ps
  generalize argCount false ps = n at h hvalue ⊢
  have hloop : ∀ i ∈ List.range' 1 (n - 2), ∃ v, vector ch false ps i = .value v := by
    intro i hi
    have := List.mem_range'_1.mp hi
    exact (hvalue i).mpr (by omega)
  have hlast : ∃ v, vector ch false ps (if n = 3 then 2 else n - 1) = .value v := by
    apply (hvalue _).mpr
    split <;> omega
  have hone := (hvalue 1).mpr (by omega)
  have htwo := (hvalue 2).mpr (by omega)
  have hcalled : (callSub f n).Safe Arg.empty (vector ch false ps) (fun _ => True) ↔
      ∀ a g, f = some (a, g) → a ≤ n - 2 →
        (g (n - 2)).Safe Arg.empty (fun i => vector ch false ps (i + 2)) fun _ => True := by
    unfold callSub
    cases f with
    | none => simp
    | some f =>
      obtain ⟨a, g⟩ := f
      by_cases hmin : a ≤ n - 2
      · simp only [if_pos hmin, Use.safe_shift]
        refine ⟨?_, fun hall => hall a g rfl hmin⟩
        rintro hsafe a' g' heq _
        cases heq
        exact hsafe
      · simp only [if_neg hmin]
        refine ⟨?_, fun _ => trivial⟩
        rintro _ a' g' heq hmin'
        cases heq
        exact absurd hmin' hmin
  unfold msEncap
  rw [Use.bind_eq, Use.safe_bind, Use.safe_derefs, ← hcalled]
  simp only [Use.bind_eq, deref, other, Use.bind]
  refine ⟨?_, ?_⟩
  · rintro ⟨_, hsafe⟩
    split at hsafe
    · exact (hsafe.2.2 false).2
    · exact (hsafe.2.2 false).2
  · intro hsafe
    have htail : (Use.deref 1 (Use.other fun b => if b = true then Pure.pure ()
        else Use.deref 2 (callSub f n))).Safe Arg.empty (vector ch false ps) fun _ => True := by
      refine ⟨hone, ?_⟩
      intro b
      cases b with
      | true => trivial
      | false => exact ⟨htwo, hsafe⟩
    refine ⟨hloop, ?_⟩
    split
    · next heq =>
      rw [if_pos heq] at hlast
      exact ⟨hlast, htail⟩
    · next hne =>
      rw [if_neg hne] at hlast
      exact ⟨hlast, htail⟩

end Vectors

theorem messages_nodup : (messages.map Message.cmd).Nodup := by decide +kernel

theorem messages_extra : messages.all (fun m => !m.extra) = true := by decide +kernel

theorem pseudo_check : handlerTypes.all (fun t => [2, 3].all fun n =>
    (((pseudoMsg []).handlers t).call none n).check n) = true := by
  decide +kernel

section Delivery

variable (findCommand : CStr → Option {m : Message // Registered m})

/-- What `find_command` finds, without what is known of it. -/
def plainly (w : CStr) : Option Message := (findCommand w).map Subtype.val

theorem plainly_registered (w : CStr) (m : Message) (h : plainly findCommand w = some m) :
    Registered m := by
  obtain ⟨found, _, hfound⟩ := Option.map_eq_some_iff.mp h
  exact hfound ▸ found.property

/-- `GUNGLINE` reads three parameters, and wants two. -/
theorem unglineSub_safe (args : ℕ → Slot Arg) (n : ℕ) (hargs : Filled args n) (hmin : 3 ≤ n) :
    (((unglineMsgtab.handlers .encap).call none n).Safe Arg.empty args fun _ => True) ↔ n ≠ 3 := by
  have hreads : (((unglineMsgtab.handlers .encap).call none n).Safe Arg.empty args fun _ => True) ↔
      ∀ i ∈ [1, 2, 3], ∃ v, args i = .value v := by
    show (meGungline n).Safe Arg.empty args (fun _ => True) ↔ _
    unfold meGungline
    rw [Use.bind_eq, Use.safe_bind]
    refine ⟨fun hsafe => ?_, fun hall b => ?_⟩
    · exact ((Use.safe_derefs _ _ _ _).mp (hsafe true)).1
    · cases b with
      | true => exact (Use.safe_derefs _ _ _ _).mpr ⟨hall, trivial⟩
      | false => trivial
  rw [hreads]
  constructor
  · rintro hall rfl
    obtain ⟨v, hv⟩ := hall 3 (by simp)
    rw [hargs.null] at hv
    cases hv
  · intro hne i hi
    apply hargs.value i
    have : i ≤ 3 := by
      revert i
      decide
    omega

/-- The other commands ask, in the handlers that `ENCAP` calls. -/
theorem sub_safe (m : Message) (hm : Registered m) (hne : m ≠ unglineMsgtab)
    (args : ℕ → Slot Arg) (n : ℕ) (hargs : Filled args n) (hpos : 1 ≤ n) (hmax : n ≤ MAXPARA + 1)
    (hmin : m.argsMin ≤ n) :
    ((m.handlers .encap).call none n).Safe Arg.empty args fun _ => True := by
  rcases hm with hm | ⟨command, rfl⟩
  · have hmem : m ∈ checkedMessages ++ [encapMsgtab, linksMsgtab, topicMsgtab, broadcastMsgtab,
        banMsgtab] := by
      rcases List.mem_append.mp hm with hm | hm
      · exact List.mem_append_left _ hm
      · simp only [uncheckedMessages, List.mem_cons, List.not_mem_nil, or_false, hne,
          false_or] at hm
        simp only [List.mem_append, List.mem_cons, List.not_mem_nil, or_false]
        exact .inr hm
    have hall := List.all_eq_true.mp (List.all_eq_true.mp encap_check m hmem) n
      (List.mem_range'_1.mpr ⟨hpos, by
        have : MAXPARA = 15 := rfl
        omega⟩)
    rw [decide_eq_false (not_lt.mpr hmin), Bool.false_or] at hall
    exact Use.safe_of_check Arg.empty args n hargs _ hall
  · trivial

theorem encap_served (ch : CStr) (ps : List CStr) (h : 3 ≤ argCount false ps)
    (hmax : ps.length ≤ MAXPARA) :
    (msEncap (found (plainly findCommand) (vector ch false ps)) (argCount false ps)).Safe
        Arg.empty (vector ch false ps) (fun _ => True) ↔
      ¬ (ps.length = 4 ∧ plainly findCommand (ps.getD 1 []) = some unglineMsgtab) := by
  rw [msEncap_safe ch ps _ h]
  have hfilled := vector_filled ch false ps
  have hcount : argCount false ps = 1 + ps.length := rfl
  have hargs : Filled (fun i => vector ch false ps (i + 2)) (argCount false ps - 2) := by
    refine ⟨fun i hi => hfilled.value (i + 2) (by omega), ?_⟩
    show vector ch false ps (argCount false ps - 2 + 2) = .null
    rw [Nat.sub_add_cancel (by omega)]
    exact hfilled.null
  have hfound : found (plainly findCommand) (vector ch false ps) =
      (plainly findCommand (ps.getD 1 [])).map sub := by
    match ps, h with
    | _ :: _ :: _, _ => rfl
  rw [hfound]
  cases hcmd : plainly findCommand (ps.getD 1 []) with
  | none => simp
  | some m =>
    have hsub : (∀ a g, Option.map sub (some m) = some (a, g) → a ≤ argCount false ps - 2 →
        (g (argCount false ps - 2)).Safe Arg.empty (fun i => vector ch false ps (i + 2))
          fun _ => True) ↔
        (m.argsMin ≤ argCount false ps - 2 →
          ((m.handlers .encap).call none (argCount false ps - 2)).Safe Arg.empty
            (fun i => vector ch false ps (i + 2)) fun _ => True) := by
      refine ⟨fun hall => hall _ _ rfl, ?_⟩
      rintro hone a g heq
      cases heq
      exact hone
    rw [hsub]
    by_cases hungline : m = unglineMsgtab
    · subst hungline
      have hmin : unglineMsgtab.argsMin = 3 := rfl
      rw [hmin]
      constructor
      · rintro hsafe ⟨hfour, _⟩
        exact (unglineSub_safe _ _ hargs (by omega)).mp (hsafe (by omega)) (by omega)
      · intro hnot hthree
        refine (unglineSub_safe _ _ hargs hthree).mpr fun heq => hnot ⟨?_, rfl⟩
        omega
    · have hsafe := sub_safe m (plainly_registered findCommand _ m hcmd) hungline _ _ hargs
        (by omega) (by omega)
      refine ⟨?_, fun _ => hsafe⟩
      rintro _ ⟨_, heq⟩
      exact hungline (Option.some.inj heq)

theorem message_of_cmd (m m' : Message) (hm : m ∈ messages) (hm' : m' ∈ messages)
    (h : m.cmd = m'.cmd) : m = m' :=
  List.inj_on_of_nodup_map messages_nodup hm hm' h

theorem lacks_unsafe (c : Client) (m : Message) (ch : CStr) (ps : List CStr)
    (hmax : ps.length ≤ MAXPARA) (h : Lacks (plainly findCommand) c m ps) :
    ¬ ((m.handlers c.handler).call (found (plainly findCommand) (vector ch false ps))
      (argCount false ps)).Safe Arg.empty (vector ch false ps) fun _ => True := by
  rcases h with ⟨rfl, hc, hone, hne⟩ | ⟨rfl, hc, hone, hne⟩ | ⟨rfl, hc, rfl⟩ | ⟨rfl, hc, hfew⟩ |
    ⟨rfl, hc, hfour, hfind⟩
  · obtain ⟨p, rfl⟩ := List.length_eq_one_iff.mp hone
    rw [hc]
    intro hsafe
    exact hne (congrArg (fun p => [p]) ((msTopic_safe ch p 2).mp hsafe))
  · obtain ⟨p, rfl⟩ := List.length_eq_one_iff.mp hone
    rw [hc]
    intro hsafe
    exact hne (congrArg (fun p => [p]) ((msLinks_safe ch p).mp hsafe))
  · rcases hc with hc | hc
    · rw [hc]
      exact mBroadcast_safe ch 1
    · rw [hc]
      exact mBroadcast_safe ch 1
  · rw [hc]
    exact mBan_safe ch ps hfew
  · have hcount : argCount false ps = 1 + ps.length := rfl
    rw [hc]
    intro hsafe
    exact (encap_served findCommand ch ps (by omega) hmax).mp hsafe ⟨hfour, hfind⟩

theorem safe_of_not_lacks (c : Client) (m : Message) (hm : m ∈ messages) (ch : CStr)
    (ps : List CStr) (hmax : ps.length ≤ MAXPARA) (hmin : m.argsMin ≤ argCount false ps)
    (h : ¬ Lacks (plainly findCommand) c m ps) :
    ((m.handlers c.handler).call (found (plainly findCommand) (vector ch false ps))
      (argCount false ps)).Safe Arg.empty (vector ch false ps) fun _ => True := by
  have hcount : argCount false ps = 1 + ps.length := rfl
  cases hlack : mayLack m.cmd c.handler (argCount false ps) with
  | false =>
    exact safe_of_mayLack m hm c _ _ _ (vector_filled ch false ps) (by omega) (by omega) hmin hlack
  | true =>
    simp only [mayLack, Bool.or_eq_true, Bool.and_eq_true, decide_eq_true_eq] at hlack
    rcases hlack with (((⟨⟨hcmd, hc⟩, hn⟩ | ⟨⟨hcmd, hc⟩, hn⟩) | ⟨⟨hcmd, hc⟩, hn⟩) |
      ⟨⟨hcmd, hc⟩, hn⟩) | ⟨hcmd, hc⟩
    · obtain rfl := message_of_cmd m topicMsgtab hm (by simp [messages, uncheckedMessages]) hcmd
      obtain ⟨p, rfl⟩ := List.length_eq_one_iff.mp (show ps.length = 1 by omega)
      have hp : [p] = [[]] := by
        by_contra hne
        exact h (.inl ⟨rfl, hc, rfl, hne⟩)
      rw [hc]
      exact (msTopic_safe ch p 2).mpr (List.cons.inj hp).1
    · obtain rfl := message_of_cmd m linksMsgtab hm (by simp [messages, uncheckedMessages]) hcmd
      obtain ⟨p, rfl⟩ := List.length_eq_one_iff.mp (show ps.length = 1 by omega)
      have hp : [p] = [[]] := by
        by_contra hne
        exact h (.inr (.inl ⟨rfl, hc, rfl, hne⟩))
      rw [hc]
      exact (msLinks_safe ch p).mpr (List.cons.inj hp).1
    · obtain rfl := message_of_cmd m broadcastMsgtab hm
        (by simp [messages, uncheckedMessages]) hcmd
      have hnil : ps = [] := List.eq_nil_of_length_eq_zero (by omega)
      exact absurd (.inr (.inr (.inl ⟨rfl, hc, hnil⟩))) h
    · obtain rfl := message_of_cmd m banMsgtab hm (by simp [messages, uncheckedMessages]) hcmd
      exact absurd (.inr (.inr (.inr (.inl ⟨rfl, hc, by omega⟩)))) h
    · obtain rfl := message_of_cmd m encapMsgtab hm (by simp [messages, uncheckedMessages]) hcmd
      rw [hc]
      refine (encap_served findCommand ch ps hmin hmax).mpr fun hungline => ?_
      exact h (.inr (.inr (.inr (.inr ⟨rfl, hc, hungline⟩))))

/-- The handler of a pseudo command asks for everything but the text of the command. -/
theorem pseudo_safe (c : Client) (command : CStr) (f : Option Sub) (ch : CStr) (ps : List CStr)
    (hmax : ps.length ≤ allowed true 2) :
    (((pseudoMsg command).handlers c.handler).call f (argCount true ps)).Safe Arg.empty
      (vector ch true ps) fun _ => True := by
  have hcount : argCount true ps = 2 + ps.length := rfl
  have hallowed : allowed true 2 = 1 := rfl
  have hmem : argCount true ps ∈ [2, 3] := by
    simp only [List.mem_cons, List.not_mem_nil, or_false]
    omega
  have hcheck := List.all_eq_true.mp (List.all_eq_true.mp pseudo_check c.handler
    (mem_handlerTypes c)) _ hmem
  have hcall : (((pseudoMsg command).handlers c.handler).call f (argCount true ps)) =
      (((pseudoMsg []).handlers c.handler).call none (argCount true ps)) := by
    cases c.handler <;> rfl
  rw [hcall]
  exact Use.safe_of_check Arg.empty _ _ (vector_filled ch true ps) _ hcheck

theorem pseudo_not_lacks (c : Client) (command : CStr) (ps : List CStr) :
    ¬ Lacks (plainly findCommand) c (pseudoMsg command) ps := by
  have hne : ∀ m : Message, m.extra = false → pseudoMsg command ≠ m := by
    rintro m hextra rfl
    cases hextra
  rintro (⟨heq, _⟩ | ⟨heq, _⟩ | ⟨heq, _⟩ | ⟨heq, _⟩ | ⟨heq, _⟩) <;> exact hne _ rfl heq

theorem command_served (c : Client) (m : Message) (hm : Registered m) (t : Tokens)
    (ch text : CStr) (hmin : m.argsMin ≤ t.parc)
    (hholds : Holds t false m.extra m.argsMax ch text) :
    Served (plainly findCommand) c (.command m t) ↔
      ¬ Lacking (plainly findCommand) c (.command m ch text) := by
  obtain ⟨ps, hgrammar, hmax, hparc, hargs⟩ := hholds
  have hps : ps = paramsOf m text := grammar_params _ _ _ _ hgrammar
  show ((m.handlers c.handler).call (found (plainly findCommand) t.args) t.parc).Safe Arg.empty
    t.args (fun _ => True) ↔ ¬ Lacks (plainly findCommand) c m (paramsOf m text)
  rw [← hps, hparc, hargs]
  rcases hm with hm | ⟨command, rfl⟩
  · have hextra : m.extra = false := by
      have := List.all_eq_true.mp messages_extra m hm
      simpa using this
    rw [hparc, hextra] at hmin
    rw [hextra]
    exact ⟨fun hsafe hlacks => lacks_unsafe findCommand c m ch ps hmax hlacks hsafe,
      safe_of_not_lacks findCommand c m hm ch ps hmax hmin⟩
  · refine iff_of_true ?_ (pseudo_not_lacks findCommand c command ps)
    apply pseudo_safe c command
    rw [hps]
    exact params_length _ _ _

/-- A server may send a numeric with one parameter, and the second is what goes on. -/
theorem parseHandleNumeric_safe (fromServer : Bool) (ch : CStr) (ps : List CStr) :
    (parseHandleNumeric fromServer (argCount false ps)).Safe Arg.empty (vector ch false ps)
        (fun _ => True) ↔ ¬ (fromServer = true ∧ ps.length = 1) := by
  have hcount : argCount false ps = 1 + ps.length := rfl
  have hvalue := vector_value ch ps
  unfold parseHandleNumeric
  by_cases hguard : argCount false ps < 2 ∨ fromServer = false
  · rw [if_pos hguard]
    refine iff_of_true trivial ?_
    rintro ⟨hserver, hone⟩
    rcases hguard with hfew | hnot
    · omega
    · rw [hserver] at hnot
      cases hnot
  · rw [if_neg hguard]
    obtain ⟨hfew, hserver⟩ := not_or.mp hguard
    have hreads : (∃ v, vector ch false ps 1 = .value v) ∧
        (∃ v, vector ch false ps 2 = .value v) ↔
        1 < argCount false ps ∧ 2 < argCount false ps := and_congr (hvalue 1) (hvalue 2)
    have hsafe : (parseHandleNumeric true 2).Safe Arg.empty (vector ch false ps) (fun _ => True) ↔
        (∃ v, vector ch false ps 1 = .value v) ∧ (∃ v, vector ch false ps 2 = .value v) := by
      show (∃ v, _) ∧ (∀ b : Bool, _) ↔ _
      refine and_congr_right fun _ => ?_
      refine ⟨fun hall => (hall false).1, ?_⟩
      rintro hdest b
      cases b with
      | true => trivial
      | false => exact ⟨hdest, trivial⟩
    refine Iff.trans hsafe (hreads.trans ?_)
    rw [Bool.not_eq_false] at hserver
    constructor
    · rintro ⟨_, htwo⟩ ⟨_, hone⟩
      omega
    · intro hnot
      have hne : ps.length ≠ 1 := fun hone => hnot ⟨hserver, hone⟩
      omega

theorem numeric_served (c : Client) (n : ℕ) (fromServer : Bool) (t : Tokens) (ch text : CStr)
    (hholds : Holds t (decide (n ≠ 0)) false 2 ch text) :
    Served (plainly findCommand) c (.numeric n fromServer t) ↔
      ¬ Lacking (plainly findCommand) c (.numeric n fromServer ch text) := by
  obtain ⟨ps, hgrammar, hmax, hparc, hargs⟩ := hholds
  have hps : ps = params (decide (n ≠ 0)) 2 text := grammar_params _ _ _ _ hgrammar
  show (parseHandleNumeric fromServer t.parc).Safe Arg.empty t.args (fun _ => True) ↔
    ¬ (fromServer = true ∧ (params (decide (n ≠ 0)) 2 text).length = 1)
  rw [← hps, hparc, hargs]
  exact parseHandleNumeric_safe fromServer ch ps

/-- A line that is refused for `args_min` lacks nothing that a handler would read. -/
theorem lacks_enough (c : Client) (m : Message) (ps : List CStr)
    (h : Lacks (plainly findCommand) c m ps) : m.argsMin ≤ argCount m.extra ps := by
  rcases h with ⟨rfl, _, hlen, _⟩ | ⟨rfl, _, hlen, _⟩ | ⟨rfl, _, rfl⟩ | ⟨rfl, _, hlen⟩ |
    ⟨rfl, _, hlen, _⟩
  · show 2 ≤ 1 + ps.length
    omega
  · exact Nat.zero_le _
  · exact Nat.zero_le _
  · exact Nat.zero_le _
  · show 3 ≤ 1 + ps.length
    omega

/-- What comes of a line is served unless the line lacks something. -/
theorem outcome_served (c : Client) (o : Outcome) (r : Reading) (hfollows : Follows o r)
    (hm : ∀ m ch text, r = .command m ch text → Registered m) :
    Served (plainly findCommand) c o ↔ ¬ Lacking (plainly findCommand) c r := by
  cases o with
  | command m t =>
    cases r with
    | command m' ch text =>
      obtain ⟨rfl, hmin, hholds⟩ := hfollows
      exact command_served findCommand c m (hm m ch text rfl) t ch text hmin hholds
    | nothing => exact hfollows.elim
    | numeric => exact hfollows.elim
  | needMoreParams m t =>
    cases r with
    | command m' ch text =>
      obtain ⟨rfl, hfew, ps, hgrammar, _, hparc, _⟩ := hfollows
      refine iff_of_true trivial ?_
      show ¬ Lacks (plainly findCommand) c m (paramsOf m text)
      rw [show paramsOf m text = ps from (grammar_params _ _ _ _ hgrammar).symm]
      intro hlacks
      have henough := lacks_enough findCommand c m ps hlacks
      omega
    | nothing => exact hfollows.elim
    | numeric => exact hfollows.elim
  | numeric n fromServer t =>
    cases r with
    | numeric n' fromServer' ch text =>
      obtain ⟨rfl, rfl, hholds⟩ := hfollows
      exact numeric_served findCommand c n fromServer t ch text hholds
    | nothing => exact hfollows.elim
    | command => exact hfollows.elim
  | ignored | unknownPrefix | fakeDirection | empty | unknownCommand =>
    obtain rfl : r = .nothing := hfollows
    exact iff_of_true trivial not_false

theorem readCommand_registered (fromServer : Bool) (ch : CStr) (m : Message) (w text : CStr)
    (h : readCommand (plainly findCommand) fromServer ch = .command m w text) : Registered m := by
  unfold readCommand at h
  cases hnumeric : numericAt ch with
  | some r =>
    rw [hnumeric] at h
    cases h
  | none =>
    rw [hnumeric] at h
    cases hfind : plainly findCommand (Wire.word ch) with
    | none =>
      rw [hfind] at h
      cases h
    | some m' =>
      rw [hfind] at h
      cases h
      exact plainly_registered findCommand _ m hfind

theorem readLine_registered (findSender : CStr → Option Sender) (c : Client) (line : CStr)
    (m : Message) (w text : CStr)
    (h : readLine (plainly findCommand) findSender c line = .command m w text) :
    Registered m := by
  unfold readLine at h
  dsimp only at h
  split at h
  · cases h
  · split at h
    · cases h
    · exact readCommand_registered findCommand _ _ m w text h

/-- Every line is taken apart as it stands, with any commands there may be; and everything the
handler reads is there just when the line does not lack it. -/
theorem parse_delivers (findSender : CStr → Option Sender) (c : Client)
    (line : {s : CStr // NUL ∉ s}) :
    ((∀ find : CStr → Option Message, ∃ o, parse find findSender c line = some o ∧
        Follows o (readLine find findSender c line)) ∧
      ∃ o, parse (plainly findCommand) findSender c line = some o ∧
        Served (plainly findCommand) c o) ↔
    ¬ Lacking (plainly findCommand) c (readLine (plainly findCommand) findSender c line) := by
  obtain ⟨o, ho, hfollows⟩ := parse_follows (plainly findCommand) findSender c line line.property
  have hserved := outcome_served findCommand c o _ hfollows
    (readLine_registered findCommand findSender c line)
  constructor
  · rintro ⟨_, o', ho', h⟩
    rw [ho] at ho'
    cases ho'
    exact hserved.mp h
  · intro hlack
    exact ⟨fun find => parse_follows find findSender c line line.property, o, ho,
      hserved.mpr hlack⟩

end Delivery

def fromServerLine : CStr := ":00A 001 nick".toList

/-- The server that the line is from is the one that sends it. -/
def aServer : Client := ⟨false, true, .server, by decide⟩

def theServer (w : CStr) : Option Sender := if w = "00A".toList then some ⟨true, true⟩ else none

theorem parse_undelivered : ¬ ∀ (findCommand : CStr → Option {m : Message // Registered m})
    (findSender : CStr → Option Sender) (c : Client) (line : CStr), NUL ∉ line →
    line.length ≤ 510 →
    (∀ find : CStr → Option Message, ∃ o, parse find findSender c line = some o ∧
      Follows o (readLine find findSender c line)) ∧
    ∃ o, parse (plainly findCommand) findSender c line = some o ∧
      Served (plainly findCommand) c o := by
  intro hall
  obtain ⟨_, o, ho, hserved⟩ := hall (fun _ => none) theServer aServer fromServerLine
    (by decide) (by decide)
  obtain ⟨t, ht⟩ : ∃ t, parse (plainly fun _ => none) theServer aServer fromServerLine =
      some (.numeric 1 true t) ∧ t.parc = 2 ∧ t.args 2 = .null :=
    ⟨_, rfl, rfl, rfl⟩
  rw [ht.1] at ho
  cases ho
  have hsafe : (parseHandleNumeric true t.parc).Safe Arg.empty t.args fun _ => True := hserved
  rw [ht.2.1] at hsafe
  obtain ⟨_, hdest⟩ := hsafe
  obtain ⟨v, hv⟩ := (hdest false).1
  rw [ht.2.2] at hv
  cases hv

end IrcdHybrid.LineDelivery
