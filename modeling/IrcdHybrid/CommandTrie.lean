import IrcdHybrid.CString
import IrcdHybrid.CountedTrie
import Mathlib.Data.Fin.Basic

/-!
The commands that modules register. They are kept in a trie by the low five bits of their
letters, so case does not matter. What `mod_del_cmd` takes out is whatever is there for the
name, so a module whose command was refused takes out that of another when it is unloaded.
-/

namespace IrcdHybrid.CommandTrie

open CString CountedTrie

def MAXPTRLEN : ℕ := 32

abbrev Key := Fin MAXPTRLEN

def isAlpha (c : Char) : Bool := ('a' ≤ c && c ≤ 'z') || ('A' ≤ c && c ≤ 'Z')

/-- `*cmd & (MAXPTRLEN - 1)`. -/
def key (c : Char) : Key := ⟨c.toNat % MAXPTRLEN, Nat.mod_lt _ (by decide)⟩

def IsWord (w : CStr) : Prop := w ≠ [] ∧ w.all isAlpha = true

instance (w : CStr) : Decidable (IsWord w) := inferInstanceAs (Decidable (_ ∧ _))

/-- A `struct Message`: where it is, and its name, which is made of letters. -/
structure Message where
  ptr : ℕ
  cmd : CStr
  word : IsWord cmd
  deriving DecidableEq

abbrev MessageTree := Trie Key Message

def addMsgElement (mtree : MessageTree) (msg : Message) (cmd : CStr) : MessageTree :=
  mtree.insert msg (cmd.map key)

/-- At the end of the name there is no further child, since no letter has the key zero. -/
def delMsgElement (mtree : MessageTree) (cmd : CStr) : MessageTree := mtree.remove (cmd.map key)

def msgTreeParse : MessageTree → CStr → Option Message
  | _, [] => none
  | mtree, c :: cmd =>
    if isAlpha c then
      match mtree.child (key c) with
      | none => none
      | some n => if cmd = [] then n.value else msgTreeParse n cmd
    else none

def modAddCmd (mtree : MessageTree) (msg : Message) : MessageTree :=
  if (msgTreeParse mtree msg.cmd).isSome then mtree else addMsgElement mtree msg msg.cmd

def modDelCmd (mtree : MessageTree) (msg : Message) : MessageTree :=
  if (msgTreeParse mtree msg.cmd).isNone then mtree else delMsgElement mtree msg.cmd

def findCommand (mtree : MessageTree) (cmd : CStr) : Option Message := msgTreeParse mtree cmd

inductive Op where
  | add (msg : Message)
  | del (msg : Message)

def step (mtree : MessageTree) : Op → MessageTree
  | .add msg => modAddCmd mtree msg
  | .del msg => modDelCmd mtree msg

def run (ops : List Op) : MessageTree := ops.foldl step Trie.empty

/-- The Message that has a name, up to case. -/
abbrev Held := CStr → Option Message

def name (w : CStr) : CStr := w.map toLower

/-- The first to come has the name until it is deleted. -/
def Held.step (held : Held) : Op → Held
  | .add msg =>
    if held (name msg.cmd) = none then Function.update held (name msg.cmd) (some msg) else held
  | .del msg =>
    if held (name msg.cmd) = some msg then Function.update held (name msg.cmd) none else held

def held (ops : List Op) : Held := ops.foldl Held.step (fun _ => none)

/-- The tree is the map, and its counts are exact. -/
structure Exact (mtree : MessageTree) (h : Held) : Prop where
  find : ∀ w, findCommand mtree w = if IsWord w then h (name w) else none
  counted : mtree.Counted

/-- Nobody deletes a Message that another has the name of. -/
def Own (h : Held) : Op → Prop
  | .add _ => True
  | .del msg => h (name msg.cmd) = none ∨ h (name msg.cmd) = some msg

theorem isAlpha_iff (c : Char) : isAlpha c = true ↔
    (97 ≤ c.toNat ∧ c.toNat ≤ 122) ∨ (65 ≤ c.toNat ∧ c.toNat ≤ 90) := by
  unfold isAlpha
  simp only [Bool.or_eq_true, Bool.and_eq_true, decide_eq_true_eq, char_le_iff, Char.reduceToNat]

/-- Letters have the same key when they differ in case at most. -/
theorem key_eq_iff (c d : Char) (hc : isAlpha c = true) (hd : isAlpha d = true) :
    key c = key d ↔ toLower c = toLower d := by
  rw [isAlpha_iff] at hc hd
  have hkey : key c = key d ↔ c.toNat % 32 = d.toNat % 32 :=
    ⟨congrArg Fin.val, fun h => Fin.ext h⟩
  have hlower : toLower c = toLower d ↔ (toLower c).toNat = (toLower d).toNat :=
    ⟨congrArg _, char_eq_of_toNat _ _⟩
  rw [hkey, hlower, toNat_toLower, toNat_toLower]
  split_ifs <;> omega

theorem keys_eq_iff (v w : CStr) (hv : v.all isAlpha = true) (hw : w.all isAlpha = true) :
    v.map key = w.map key ↔ name v = name w := by
  induction v generalizing w with
  | nil => cases w <;> simp [name]
  | cons c v ih =>
    cases w with
    | nil => simp [name]
    | cons d w =>
      rw [List.all_cons, Bool.and_eq_true] at hv hw
      have hrest := ih w hv.2 hw.2
      unfold name at hrest ⊢
      rw [List.map_cons, List.map_cons, List.map_cons, List.map_cons, List.cons.injEq,
        List.cons.injEq, key_eq_iff c d hv.1 hw.1, hrest]

theorem isWord_cons (c d : Char) (w : CStr) :
    IsWord (c :: d :: w) ↔ isAlpha c = true ∧ IsWord (d :: w) := by
  simp [IsWord]

theorem msgTreeParse_eq (mtree : MessageTree) (w : CStr) :
    msgTreeParse mtree w = if IsWord w then mtree.lookup (w.map key) else none := by
  induction w generalizing mtree with
  | nil => rfl
  | cons c w ih =>
    rw [msgTreeParse, List.map_cons, Trie.lookup]
    by_cases hc : isAlpha c = true
    · rw [if_pos hc]
      cases hchild : mtree.child (key c) with
      | none => simp
      | some n =>
        cases w with
        | nil =>
          have hword : IsWord [c] := ⟨List.cons_ne_nil _ _, by simp [hc]⟩
          rw [if_pos hword]
          rfl
        | cons d w =>
          have hne : ¬ d :: w = [] := List.cons_ne_nil _ _
          dsimp only
          rw [if_neg hne, ih]
          by_cases hword : IsWord (d :: w)
          · rw [if_pos hword, if_pos ((isWord_cons c d w).mpr ⟨hc, hword⟩)]
          · rw [if_neg hword, if_neg fun h => hword ((isWord_cons c d w).mp h).2]
    · have hnot : ¬ IsWord (c :: w) := fun h => by
        have hall := h.2
        rw [List.all_cons, Bool.and_eq_true] at hall
        exact hc hall.1
      rw [if_neg hc, if_neg hnot]

theorem find_word (mtree : MessageTree) (msg : Message) :
    msgTreeParse mtree msg.cmd = mtree.lookup (msg.cmd.map key) := by
  rw [msgTreeParse_eq, if_pos msg.word]

section Steps

variable {mtree : MessageTree} {h : Held} {msg : Message}

theorem Exact.find_cmd (hexact : Exact mtree h) (msg : Message) :
    msgTreeParse mtree msg.cmd = h (name msg.cmd) := by
  have hfind := hexact.find msg.cmd
  rwa [if_pos msg.word] at hfind

theorem exact_update (hexact : Exact mtree h) (mtree' : MessageTree) (value : Option Message)
    (hcounted : mtree'.Counted)
    (hlookup : ∀ ks, mtree'.lookup ks =
      if ks = msg.cmd.map key then value else mtree.lookup ks) :
    Exact mtree' (Function.update h (name msg.cmd) value) := by
  refine ⟨fun w => ?_, hcounted⟩
  have hold := hexact.find w
  unfold findCommand at hold ⊢
  rw [msgTreeParse_eq] at hold ⊢
  by_cases hword : IsWord w
  · rw [if_pos hword, if_pos hword] at hold
    rw [if_pos hword, if_pos hword, hlookup, hold]
    by_cases hname : name w = name msg.cmd
    · rw [if_pos ((keys_eq_iff w msg.cmd hword.2 msg.word.2).mpr hname), hname,
        Function.update_self]
    · rw [if_neg fun hkeys => hname ((keys_eq_iff w msg.cmd hword.2 msg.word.2).mp hkeys),
        Function.update_of_ne hname]
  · rw [if_neg hword, if_neg hword]

theorem exact_add (hexact : Exact mtree h) (msg : Message) :
    Exact (modAddCmd mtree msg) (h.step (.add msg)) := by
  have hfind := hexact.find_cmd msg
  unfold modAddCmd Held.step
  dsimp only
  rw [hfind]
  cases hheld : h (name msg.cmd) with
  | some m =>
    rw [if_pos (Option.isSome_some), if_neg (by simp)]
    exact hexact
  | none =>
    rw [hheld, find_word] at hfind
    rw [if_neg (by simp), if_pos rfl]
    exact exact_update hexact _ (some msg)
      (Trie.insert_counted msg mtree _ hexact.counted hfind)
      fun ks => Trie.lookup_insert msg mtree _ ks

theorem exact_removed (hexact : Exact mtree h) (msg : Message) :
    Exact (modDelCmd mtree msg) (Function.update h (name msg.cmd) none) := by
  have hfind := hexact.find_cmd msg
  unfold modDelCmd
  rw [hfind]
  cases hheld : h (name msg.cmd) with
  | none =>
    have hsame : Function.update h (name msg.cmd) none = h := by
      rw [← hheld, Function.update_eq_self]
    rw [hsame]
    exact hexact
  | some m =>
    exact exact_update hexact _ none (Trie.remove_counted mtree _ hexact.counted)
      fun ks => Trie.lookup_remove mtree _ ks hexact.counted

theorem exact_del (hexact : Exact mtree h) (msg : Message) (hown : Own h (.del msg)) :
    Exact (modDelCmd mtree msg) (h.step (.del msg)) := by
  have hremoved := exact_removed hexact msg
  unfold Held.step
  dsimp only
  rcases hown with hnone | hmsg
  · rw [if_neg (by rw [hnone]; simp)]
    rwa [← hnone, Function.update_eq_self] at hremoved
  · rwa [if_pos hmsg]

theorem not_exact_del (hexact : Exact mtree h) (msg : Message) (hown : ¬ Own h (.del msg)) :
    ¬ Exact (modDelCmd mtree msg) (h.step (.del msg)) := by
  intro hafter
  have hremoved := (exact_removed hexact msg).find_cmd msg
  have hkept := hafter.find_cmd msg
  unfold Own at hown
  push Not at hown
  rw [hremoved, Function.update_self, Held.step] at hkept
  rw [if_neg hown.2] at hkept
  exact hown.1 hkept.symm

end Steps

theorem run_concat (ops : List Op) (op : Op) : run (ops ++ [op]) = step (run ops) op := by
  simp [run]

theorem held_concat (ops : List Op) (op : Op) : held (ops ++ [op]) = (held ops).step op := by
  simp [held]

theorem exact_empty : Exact Trie.empty (fun _ => none) := by
  refine ⟨fun w => ?_, Trie.counted_empty⟩
  unfold findCommand
  rw [msgTreeParse_eq, Trie.lookup_empty]

/-- The commands are as they should be in every state of a run exactly when only the Message that
has a name is deleted by it, or one whose name nobody has. -/
theorem exact_iff_own (ops : List Op) :
    (∀ before, before <+: ops → Exact (run before) (held before)) ↔
      ∀ before op, before ++ [op] <+: ops → Own (held before) op := by
  constructor
  · intro hexact before op hprefix
    have hbefore := hexact before ((List.prefix_append before [op]).trans hprefix)
    have hafter := hexact _ hprefix
    rw [run_concat, held_concat] at hafter
    cases op with
    | add msg => trivial
    | del msg =>
      by_contra hown
      exact not_exact_del hbefore msg hown hafter
  · intro hown before hprefix
    induction before using List.reverseRecOn with
    | nil => exact exact_empty
    | append_singleton before op ih =>
      have hbefore := ih ((List.prefix_append before [op]).trans hprefix)
      rw [run_concat, held_concat]
      cases op with
      | add msg => exact exact_add hbefore msg
      | del msg => exact exact_del hbefore msg (hown before _ hprefix)

/-- A module that is unloaded takes the command of another with it. -/
theorem others_command_deleted : ¬ ∀ ops, Exact (run ops) (held ops) := by
  intro hall
  let first : Message := ⟨0, ['A'], by decide⟩
  let second : Message := ⟨1, ['a'], by decide⟩
  have hfind := (hall [.add first, .add second, .del second]).find ['A']
  exact absurd hfind (by decide)

end IrcdHybrid.CommandTrie
