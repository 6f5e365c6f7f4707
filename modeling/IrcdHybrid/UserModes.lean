import IrcdHybrid.ChannelMode
import IrcdHybrid.NickCollide
import IrcdHybrid.Tallies
import Mathlib.Data.BitVec
import Mathlib.Data.Finset.SDiff
import Mathlib.Tactic.LinearCombination

/-!
The modes of a user, and the counters of operators and of invisible users that go with them. MODE
and OPER compare the modes before and after for the invisible; SVSMODE counts them letter by
letter, and so misses the one who loses `+i` with the modes that only operators may have.
-/

namespace IrcdHybrid.UserModes

open CString Tallies
open BanMask (HOSTLEN NICKLEN)
open ChannelMode (Dir)
open NickCollide (validHostname)

inductive UMode
  | servnotice | cconn | rej | skill | full | spy | debug | nchange | wallop | invisible | bots
  | external | callerid | softcallerid | unauth | locops | deaf | registered | regonly | hidden
  | oper | admin | farconnect | hiddenhost | ssl | webirc | hideidle | hidechans
  deriving DecidableEq

abbrev Modes := Finset UMode

def umodeTab : List (Char × UMode) :=
  [('D', .deaf), ('F', .farconnect), ('G', .softcallerid), ('H', .hidden), ('R', .regonly),
    ('S', .ssl), ('W', .webirc), ('a', .admin), ('b', .bots), ('c', .cconn), ('d', .debug),
    ('e', .external), ('f', .full), ('g', .callerid), ('i', .invisible), ('j', .rej),
    ('k', .skill), ('l', .locops), ('n', .nchange), ('o', .oper), ('p', .hidechans),
    ('q', .hideidle), ('r', .registered), ('s', .servnotice), ('u', .unauth), ('w', .wallop),
    ('x', .hiddenhost), ('y', .spy)]

def umodeMap (c : Char) : Option UMode :=
  (umodeTab.find? fun tab => tab.1 == c).map Prod.snd

/-- The counters of `struct Counter` for users; the second is `Count.local`. -/
structure Counter where
  oper : BitVec 32
  localClients : BitVec 32
  total : BitVec 32
  invisi : BitVec 32
  deriving DecidableEq

/-- What is read and written of a user here. `operHandler` is `OPER_HANDLER`, and `adminFlag` is
`OPER_FLAG_ADMIN`. -/
structure Client where
  myConnect : Bool
  umodes : Modes
  operHandler : Bool
  adminFlag : Bool
  tsinfo : ℤ
  account : CStr
  host : CStr

/-- What is read of the configuration; no item of it stands for `UMODE_OPER`. -/
structure Conf where
  operOnlyUmodes : Modes
  operUmodes : Modes
  invisibleOnConnect : Bool
  noOper : .oper ∉ operOnlyUmodes

def Client.setMode (c : Client) (what : Dir) (flag : UMode) : Client :=
  if what = .add then { c with umodes := insert flag c.umodes }
  else { c with umodes := c.umodes.erase flag }

def setOper (c : Client) : Client :=
  { c with umodes := insert .oper c.umodes, operHandler := true }

def clearOper (c : Client) : Client :=
  { c with umodes := (c.umodes.erase .oper).erase .admin, operHandler := false }

/-- What is taken from a local operator with `+o`. -/
def detachOper (conf : Conf) (c : Client) : Client :=
  if c.myConnect then
    { clearOper c with adminFlag := false, umodes := (clearOper c).umodes \ conf.operOnlyUmodes }
  else clearOper c

/-- A client with the counters, and the direction of the letters. -/
structure Setting where
  c : Client
  count : Counter
  what : Dir

def userModeLetter (conf : Conf) (s : Setting) (m : Char) : Setting :=
  if m = '+' then { s with what := .add }
  else if m = '-' then { s with what := .del }
  else if m = 'o' then
    if s.what = .add then
      if !s.c.myConnect ∧ .oper ∉ s.c.umodes then
        { s with c := setOper s.c, count := { s.count with oper := s.count.oper + 1 } }
      else s
    else if .oper ∉ s.c.umodes then s
    else { s with c := detachOper conf s.c, count := { s.count with oper := s.count.oper - 1 } }
  else if m = 'S' ∨ m = 'W' ∨ m = 'r' ∨ m = 'x' then s
  else
    match umodeMap m with
    | some flag =>
      if s.c.myConnect ∧ .oper ∉ s.c.umodes ∧ flag ∈ conf.operOnlyUmodes then s
      else { s with c := s.c.setMode s.what flag }
    | none => s

/-- The invisible are counted by what they were and what they are. -/
def recountInvisible (setmodes umodes : Modes) (count : Counter) : Counter :=
  let count := if .invisible ∉ setmodes ∧ .invisible ∈ umodes then
      { count with invisi := count.invisi + 1 } else count
  if .invisible ∈ setmodes ∧ .invisible ∉ umodes then
    { count with invisi := count.invisi - 1 } else count

def setUserMode (conf : Conf) (c : Client) (count : Counter) (modes : CStr) : Client × Counter :=
  let s := modes.foldl (userModeLetter conf) ⟨c, count, .add⟩
  let c' := if s.c.myConnect ∧ .admin ∈ s.c.umodes ∧ !s.c.adminFlag then
      { s.c with umodes := s.c.umodes.erase .admin } else s.c
  (c', recountInvisible c.umodes c'.umodes s.count)

/-- `oper_up`, with the modes and the admin flag of the `operator` block. -/
def operUp (conf : Conf) (confModes : Modes) (admin : Bool) (c : Client) (count : Counter) :
    Client × Counter :=
  let old := c.umodes
  let count := { count with oper := count.oper + 1 }
  let c := setOper c
  let c := { c with
    umodes := c.umodes ∪ (if confModes ≠ ∅ then confModes else conf.operUmodes) }
  let count := recountInvisible old c.umodes count
  let c := { c with adminFlag := c.adminFlag || admin }
  (if c.adminFlag then { c with umodes := insert .admin c.umodes } else c, count)

/-- `user_set_hostmask`, as far as the client goes. -/
def userSetHostmask (c : Client) (hostname : CStr) (what : Dir) : Client :=
  if c.host = hostname then c
  else
    match what with
    | .add => { c with
        umodes := insert .hiddenhost c.umodes, host := strlcpy hostname (HOSTLEN + 1) }
    | .del => { c with
        umodes := c.umodes.erase .hiddenhost, host := strlcpy hostname (HOSTLEN + 1) }
    | .query => c

def svsmodeLetter (conf : Conf) (extarg : Option CStr) (s : Setting) (m : Char) : Setting :=
  if m = '+' then { s with what := .add }
  else if m = '-' then { s with what := .del }
  else if m = 'd' then
    match extarg with
    | some arg => if arg = [] then s
        else { s with c := { s.c with account := strlcpy arg (NICKLEN + 1) } }
    | none => s
  else if m = 'x' then
    match extarg with
    | some arg => if arg ≠ [] ∧ validHostname arg then
        { s with c := userSetHostmask s.c arg s.what } else s
    | none => s
  else if m = 'o' then
    if s.what = .del ∧ .oper ∈ s.c.umodes then
      { s with c := detachOper conf s.c, count := { s.count with oper := s.count.oper - 1 } }
    else s
  else if m = 'i' then
    if s.what = .add then
      if .invisible ∉ s.c.umodes then
        { s with
          c := s.c.setMode .add .invisible
          count := { s.count with invisi := s.count.invisi + 1 } }
      else s
    else if .invisible ∈ s.c.umodes then
      { s with
        c := s.c.setMode .del .invisible
        count := { s.count with invisi := s.count.invisi - 1 } }
    else s
  else if m = 'S' ∨ m = 'W' then s
  else
    match umodeMap m with
    | some flag => { s with c := s.c.setMode s.what flag }
    | none => s

/-- `ms_svsmode`, for the client that is meant. -/
def msSvsmode (conf : Conf) (c : Client) (count : Counter) (ts : ℤ) (modes : CStr)
    (extarg : Option CStr) : Client × Counter :=
  if ts ≠ 0 ∧ ts ≠ c.tsinfo then (c, count)
  else
    let s := modes.foldl (svsmodeLetter conf extarg) ⟨c, count, .add⟩
    (s.c, s.count)

def uidModeLetter (s : Modes × Counter) (m : Char) : Modes × Counter :=
  match umodeMap m with
  | none => s
  | some flag =>
    let count := if flag = .invisible ∧ .invisible ∉ s.1 then
        { s.2 with invisi := s.2.invisi + 1 } else s.2
    let count := if flag = .oper ∧ .oper ∉ s.1 then
        { count with oper := count.oper + 1 } else count
    (insert flag s.1, count)

/-- `for (m = &parv[4][1]; *m; ++m)` -/
def uidModes (umodes : CStr) (count : Counter) : Modes × Counter :=
  umodes.tail.foldl uidModeLetter (∅, count)

section Counting

def operBit (c : Client) : BitVec 32 := bit (decide (.oper ∈ c.umodes))

def invisiBit (c : Client) : BitVec 32 := bit (decide (.invisible ∈ c.umodes))

/-- The handler says whether it is an operator. -/
def Handled (c : Client) : Prop := c.operHandler = decide (.oper ∈ c.umodes)

/-- What every handler does: the counter of operators goes along with the user. -/
structure Turned (c c' : Client) (count count' : Counter) : Prop where
  myConnect : c'.myConnect = c.myConnect
  handled : Handled c → Handled c'
  total : count'.total = count.total
  localClients : count'.localClients = count.localClients
  oper : count'.oper + operBit c = count.oper + operBit c'

/-- So does the counter of the invisible. -/
def Seen (c c' : Client) (count count' : Counter) : Prop :=
  count'.invisi + invisiBit c = count.invisi + invisiBit c'

theorem Turned.refl (c : Client) (count : Counter) : Turned c c count count :=
  ⟨rfl, id, rfl, rfl, rfl⟩

theorem Turned.trans {c c' c'' : Client} {count count' count'' : Counter}
    (h : Turned c c' count count') (h' : Turned c' c'' count' count'') :
    Turned c c'' count count'' where
  myConnect := h'.myConnect.trans h.myConnect
  handled hc := h'.handled (h.handled hc)
  total := h'.total.trans h.total
  localClients := h'.localClients.trans h.localClients
  oper := by
    have hfirst := h.oper
    have hsecond := h'.oper
    linear_combination hfirst + hsecond

theorem Seen.trans {c c' c'' : Client} {count count' count'' : Counter}
    (h : Seen c c' count count') (h' : Seen c' c'' count' count'') : Seen c c'' count count'' := by
  unfold Seen at h h' ⊢
  linear_combination h + h'

theorem umodeMap_mem (m : Char) (flag : UMode) (h : umodeMap m = some flag) :
    (m, flag) ∈ umodeTab := by
  obtain ⟨tab, hfind, rfl⟩ := Option.map_eq_some_iff.mp h
  have hmem := List.mem_of_find?_eq_some hfind
  have hm := List.find?_some hfind
  rwa [← eq_of_beq hm]

/-- One letter is for operators, and one for the invisible. -/
theorem umodeMap_oper (m : Char) (h : umodeMap m = some .oper) : m = 'o' := by
  have htab : ∀ tab ∈ umodeTab, tab.2 = .oper → tab.1 = 'o' := by decide
  exact htab _ (umodeMap_mem m _ h) rfl

theorem umodeMap_invisible (m : Char) (h : umodeMap m = some .invisible) : m = 'i' := by
  have htab : ∀ tab ∈ umodeTab, tab.2 = .invisible → tab.1 = 'i' := by decide
  exact htab _ (umodeMap_mem m _ h) rfl

theorem setMode_mem (c : Client) (what : Dir) (flag other : UMode) (h : other ≠ flag) :
    other ∈ (c.setMode what flag).umodes ↔ other ∈ c.umodes := by
  unfold Client.setMode
  split
  · simp [h]
  · simp [h]

theorem setMode_turned (c : Client) (what : Dir) (flag : UMode) (count count' : Counter)
    (hflag : flag ≠ .oper) (htotal : count'.total = count.total)
    (hlocal : count'.localClients = count.localClients) (hoper : count'.oper = count.oper) :
    Turned c (c.setMode what flag) count count' where
  myConnect := by
    unfold Client.setMode
    split <;> rfl
  handled hc := by
    have hmem := setMode_mem c what flag .oper hflag.symm
    have hhandler : (c.setMode what flag).operHandler = c.operHandler := by
      unfold Client.setMode
      split <;> rfl
    unfold Handled at hc ⊢
    rw [hhandler, hc]
    simp only [hmem]
  total := htotal
  localClients := hlocal
  oper := by
    unfold operBit
    simp only [hoper, setMode_mem c what flag .oper hflag.symm]

theorem setMode_seen (c : Client) (what : Dir) (flag : UMode) (count : Counter)
    (hflag : flag ≠ .invisible) : Seen c (c.setMode what flag) count count := by
  unfold Seen invisiBit
  simp only [setMode_mem c what flag .invisible hflag.symm]

/-- A change that is neither of `+o` nor of `+i`. -/
theorem turned_of_same (c c' : Client) (count : Counter) (hmy : c'.myConnect = c.myConnect)
    (hhandler : c'.operHandler = c.operHandler) (hoper : .oper ∈ c'.umodes ↔ .oper ∈ c.umodes) :
    Turned c c' count count where
  myConnect := hmy
  handled hc := by
    unfold Handled at hc ⊢
    rw [hhandler, hc]
    simp only [hoper]
  total := rfl
  localClients := rfl
  oper := by
    unfold operBit
    simp only [hoper]

theorem detachOper_oper (conf : Conf) (c : Client) : .oper ∉ (detachOper conf c).umodes := by
  unfold detachOper clearOper
  split <;> simp

/-- It may take away `+i` too, when that is for operators only. -/
theorem detachOper_invisible (conf : Conf) (c : Client) :
    .invisible ∈ (detachOper conf c).umodes ↔ .invisible ∈ c.umodes ∧
      ¬ (c.myConnect = true ∧ .invisible ∈ conf.operOnlyUmodes) := by
  unfold detachOper clearOper
  by_cases hmy : c.myConnect = true
  · rw [if_pos hmy]
    simp [hmy]
  · rw [if_neg hmy]
    simp [hmy]

/-- Whoever is no operator any more is counted no more as one. -/
theorem detachOper_turned (conf : Conf) (c : Client) (count : Counter)
    (hoper : .oper ∈ c.umodes) :
    Turned c (detachOper conf c) count { count with oper := count.oper - 1 } where
  myConnect := by
    unfold detachOper clearOper
    split <;> rfl
  handled _ := by
    unfold Handled
    rw [decide_eq_false (detachOper_oper conf c)]
    unfold detachOper clearOper
    split <;> rfl
  total := rfl
  localClients := rfl
  oper := by
    unfold operBit
    rw [decide_eq_true hoper, decide_eq_false (detachOper_oper conf c)]
    simp [bit]

theorem setOper_turned (c : Client) (count : Counter) (hoper : .oper ∉ c.umodes) :
    Turned c (setOper c) count { count with oper := count.oper + 1 } where
  myConnect := rfl
  handled _ := by simp [Handled, setOper]
  total := rfl
  localClients := rfl
  oper := by
    unfold operBit
    rw [decide_eq_false hoper]
    simp [bit, setOper]

end Counting

section Mode

theorem userModeLetter_spec (conf : Conf) (s : Setting) (m : Char) :
    Turned s.c (userModeLetter conf s m).c s.count (userModeLetter conf s m).count ∧
      (userModeLetter conf s m).count.invisi = s.count.invisi := by
  unfold userModeLetter
  split
  · exact ⟨Turned.refl s.c s.count, rfl⟩
  split
  · exact ⟨Turned.refl s.c s.count, rfl⟩
  split
  · split
    · split
      · next hremote => exact ⟨setOper_turned s.c s.count hremote.2, rfl⟩
      · exact ⟨Turned.refl s.c s.count, rfl⟩
    · split
      · exact ⟨Turned.refl s.c s.count, rfl⟩
      · next hoper => exact ⟨detachOper_turned conf s.c s.count (not_not.mp hoper), rfl⟩
  next hm =>
  split
  · exact ⟨Turned.refl s.c s.count, rfl⟩
  · split
    · next flag hflag =>
      have hne : flag ≠ .oper := by
        rintro rfl
        exact hm (umodeMap_oper m hflag)
      split
      · exact ⟨Turned.refl s.c s.count, rfl⟩
      · exact ⟨setMode_turned s.c s.what flag s.count s.count hne rfl rfl rfl, rfl⟩
    · exact ⟨Turned.refl s.c s.count, rfl⟩

theorem foldl_userModeLetter (conf : Conf) (modes : CStr) (s : Setting) :
    Turned s.c (modes.foldl (userModeLetter conf) s).c s.count
        (modes.foldl (userModeLetter conf) s).count ∧
      (modes.foldl (userModeLetter conf) s).count.invisi = s.count.invisi := by
  induction modes generalizing s with
  | nil => exact ⟨Turned.refl s.c s.count, rfl⟩
  | cons m modes ih =>
    obtain ⟨hturned, hinvisi⟩ := userModeLetter_spec conf s m
    obtain ⟨hrest, hsame⟩ := ih (userModeLetter conf s m)
    exact ⟨hturned.trans hrest, hsame.trans hinvisi⟩

theorem recountInvisible_seen (c c' : Client) (count : Counter) :
    Seen c c' count (recountInvisible c.umodes c'.umodes count) := by
  unfold Seen invisiBit recountInvisible
  by_cases hbefore : .invisible ∈ c.umodes
  · by_cases hafter : .invisible ∈ c'.umodes
    · simp [hbefore, hafter]
    · simp [hbefore, hafter, bit]
  · by_cases hafter : .invisible ∈ c'.umodes
    · simp [hbefore, hafter, bit]
    · simp [hbefore, hafter]

theorem recountInvisible_other (setmodes umodes : Modes) (count : Counter) :
    (recountInvisible setmodes umodes count).total = count.total ∧
      (recountInvisible setmodes umodes count).localClients = count.localClients ∧
      (recountInvisible setmodes umodes count).oper = count.oper := by
  unfold recountInvisible
  dsimp only
  split
  · split <;> exact ⟨rfl, rfl, rfl⟩
  · split <;> exact ⟨rfl, rfl, rfl⟩

/-- The counters are right behind the comparison where all but the invisible were before it. -/
theorem recount (c c' : Client) (count count' : Counter) (h : Turned c c' count count')
    (hinvisi : count'.invisi = count.invisi) :
    Turned c c' count (recountInvisible c.umodes c'.umodes count') ∧
      Seen c c' count (recountInvisible c.umodes c'.umodes count') := by
  obtain ⟨htotal, hlocal, hoper⟩ := recountInvisible_other c.umodes c'.umodes count'
  have hseen := recountInvisible_seen c c' count'
  refine ⟨⟨h.myConnect, h.handled, htotal.trans h.total, hlocal.trans h.localClients, ?_⟩, ?_⟩
  · rw [hoper]
    exact h.oper
  · unfold Seen at hseen ⊢
    rw [← hinvisi]
    exact hseen

theorem setUserMode_spec (conf : Conf) (c : Client) (count : Counter) (modes : CStr) :
    Turned c (setUserMode conf c count modes).1 count (setUserMode conf c count modes).2 ∧
      Seen c (setUserMode conf c count modes).1 count (setUserMode conf c count modes).2 := by
  obtain ⟨hturned, hinvisi⟩ := foldl_userModeLetter conf modes ⟨c, count, .add⟩
  unfold setUserMode
  generalize modes.foldl (userModeLetter conf) ⟨c, count, .add⟩ = s at hturned hinvisi ⊢
  dsimp only at hturned hinvisi ⊢
  split
  · have hadmin : Turned s.c { s.c with umodes := s.c.umodes.erase .admin } s.count s.count :=
      turned_of_same _ _ _ rfl rfl (by simp)
    exact recount c _ count s.count (hturned.trans hadmin) hinvisi
  · exact recount c s.c count s.count hturned hinvisi

/-- `oper_up` is for one who is no operator yet. -/
theorem operUp_spec (conf : Conf) (confModes : Modes) (admin : Bool) (c : Client)
    (count : Counter) (hoper : .oper ∉ c.umodes) :
    Turned c (operUp conf confModes admin c count).1 count
        (operUp conf confModes admin c count).2 ∧
      Seen c (operUp conf confModes admin c count).1 count
        (operUp conf confModes admin c count).2 := by
  have hset := setOper_turned c count hoper
  unfold operUp
  dsimp only
  generalize (if confModes ≠ ∅ then confModes else conf.operUmodes) = more
  have hmore : Turned (setOper c) { setOper c with umodes := (setOper c).umodes ∪ more }
      { count with oper := count.oper + 1 } { count with oper := count.oper + 1 } :=
    turned_of_same _ _ _ rfl rfl (by simp [setOper])
  obtain ⟨hturned, hseen⟩ := recount c { setOper c with umodes := (setOper c).umodes ∪ more } count
    { count with oper := count.oper + 1 } (hset.trans hmore) rfl
  have hflag : ∀ c' : Client, c'.myConnect = (setOper c).myConnect →
      c'.operHandler = (setOper c).operHandler →
      (.oper ∈ c'.umodes ↔ .oper ∈ (setOper c).umodes ∪ more) →
      (.invisible ∈ c'.umodes ↔ .invisible ∈ (setOper c).umodes ∪ more) →
      Turned c c' count (recountInvisible c.umodes ((setOper c).umodes ∪ more)
          { count with oper := count.oper + 1 }) ∧
        Seen c c' count (recountInvisible c.umodes ((setOper c).umodes ∪ more)
          { count with oper := count.oper + 1 }) := by
    intro c' hmy hhandler hop hinv
    refine ⟨hturned.trans (turned_of_same _ _ _ hmy hhandler hop), ?_⟩
    unfold Seen invisiBit at hseen ⊢
    simp only [hinv]
    exact hseen
  split
  · exact hflag _ rfl rfl (by simp) (by simp)
  · exact hflag _ rfl rfl Iff.rfl Iff.rfl

end Mode

section Svsmode

theorem userSetHostmask_spec (c : Client) (hostname : CStr) (what : Dir) (count : Counter) :
    Turned c (userSetHostmask c hostname what) count count ∧
      Seen c (userSetHostmask c hostname what) count count := by
  have hmode : ∀ c' : Client, c'.myConnect = c.myConnect → c'.operHandler = c.operHandler →
      (.oper ∈ c'.umodes ↔ .oper ∈ c.umodes) → (.invisible ∈ c'.umodes ↔ .invisible ∈ c.umodes) →
      Turned c c' count count ∧ Seen c c' count count := by
    intro c' hmy hhandler hoper hinvisi
    refine ⟨turned_of_same c c' count hmy hhandler hoper, ?_⟩
    unfold Seen invisiBit
    simp only [hinvisi]
  unfold userSetHostmask
  split
  · exact hmode c rfl rfl Iff.rfl Iff.rfl
  · cases what with
    | add => exact hmode _ rfl rfl (by simp) (by simp)
    | del => exact hmode _ rfl rfl (by simp) (by simp)
    | query => exact hmode c rfl rfl Iff.rfl Iff.rfl

/-- A letter takes `+o` from a local operator and does not count that `+i` goes with it. -/
def slip (conf : Conf) (s : Setting) (m : Char) : Prop :=
  m = 'o' ∧ s.what = .del ∧ .oper ∈ s.c.umodes ∧ .invisible ∈ s.c.umodes ∧
    s.c.myConnect = true ∧ .invisible ∈ conf.operOnlyUmodes

theorem svsInvisible_spec (c : Client) (count : Counter) (what : Dir) :
    Turned c (c.setMode what .invisible) count count ∧
      (.invisible ∉ c.umodes → what = .add →
        Seen c (c.setMode what .invisible) count { count with invisi := count.invisi + 1 }) ∧
      (.invisible ∈ c.umodes → what ≠ .add →
        Seen c (c.setMode what .invisible) count { count with invisi := count.invisi - 1 }) := by
  refine ⟨setMode_turned c what .invisible count count (by simp) rfl rfl rfl, ?_, ?_⟩
  · intro hno hwhat
    unfold Seen invisiBit Client.setMode
    rw [if_pos hwhat]
    simp [hno, bit]
  · intro hyes hwhat
    unfold Seen invisiBit Client.setMode
    rw [if_neg hwhat]
    simp [hyes, bit]

theorem svsmodeLetter_turned (conf : Conf) (extarg : Option CStr) (s : Setting) (m : Char) :
    Turned s.c (svsmodeLetter conf extarg s m).c s.count (svsmodeLetter conf extarg s m).count ∧
      (¬ slip conf s m →
        Seen s.c (svsmodeLetter conf extarg s m).c s.count (svsmodeLetter conf extarg s m).count) := by
  have hnothing : Turned s.c s.c s.count s.count ∧ (¬ slip conf s m → Seen s.c s.c s.count s.count) :=
    ⟨Turned.refl s.c s.count, fun _ => rfl⟩
  unfold svsmodeLetter
  split
  · exact hnothing
  split
  · exact hnothing
  split
  · cases extarg with
    | none => exact hnothing
    | some arg =>
      dsimp only
      split
      · exact hnothing
      · exact ⟨turned_of_same _ _ _ rfl rfl Iff.rfl, fun _ => rfl⟩
  split
  · cases extarg with
    | none => exact hnothing
    | some arg =>
      dsimp only
      split
      · obtain ⟨hturned, hseen⟩ := userSetHostmask_spec s.c arg s.what s.count
        exact ⟨hturned, fun _ => hseen⟩
      · exact hnothing
  split
  · next hm =>
    split
    · next hdel =>
      refine ⟨detachOper_turned conf s.c s.count hdel.2, fun hkeeps => ?_⟩
      have hsame : .invisible ∈ (detachOper conf s.c).umodes ↔ .invisible ∈ s.c.umodes := by
        rw [detachOper_invisible]
        refine and_iff_left_of_imp fun hinvisi hlost => hkeeps ?_
        exact ⟨hm, hdel.1, hdel.2, hinvisi, hlost⟩
      unfold Seen invisiBit
      simp only [hsame]
    · exact hnothing
  next hm =>
  split
  · obtain ⟨hturned, hadd, hdel⟩ := svsInvisible_spec s.c s.count s.what
    split
    · next hwhat =>
      split
      · next hno =>
        rw [hwhat] at hturned hadd
        exact ⟨⟨hturned.myConnect, hturned.handled, rfl, rfl, hturned.oper⟩,
          fun _ => hadd hno rfl⟩
      · exact hnothing
    · next hwhat =>
      split
      · next hyes =>
        have hset : s.c.setMode s.what .invisible = s.c.setMode .del .invisible := by
          unfold Client.setMode
          rw [if_neg hwhat, if_neg (by simp)]
        rw [hset] at hturned hdel
        exact ⟨⟨hturned.myConnect, hturned.handled, rfl, rfl, hturned.oper⟩,
          fun _ => hdel hyes hwhat⟩
      · exact hnothing
  next hi =>
  split
  · exact hnothing
  · split
    · next flag hflag =>
      have hoper : flag ≠ .oper := by
        rintro rfl
        exact hm (umodeMap_oper m hflag)
      have hinvisi : flag ≠ .invisible := by
        rintro rfl
        exact hi (umodeMap_invisible m hflag)
      exact ⟨setMode_turned s.c s.what flag s.count s.count hoper rfl rfl rfl,
        fun _ => setMode_seen s.c s.what flag s.count hinvisi⟩
    · exact hnothing

end Svsmode

section Strips

/-- In `modes`, the first `-o` comes while the user is invisible. -/
def strips : Dir → Bool → CStr → Bool
  | _, _, [] => false
  | what, invisible, m :: modes =>
    if m = '+' then strips .add invisible modes
    else if m = '-' then strips .del invisible modes
    else if m = 'o' ∧ what = .del then invisible
    else if m = 'i' then strips what (decide (what = .add)) modes
    else strips what invisible modes

/-- What the letters before the first `-o` change of what it goes by. -/
theorem svsmodeLetter_reads (conf : Conf) (extarg : Option CStr) (s : Setting) (m : Char) :
    (svsmodeLetter conf extarg s m).what =
        (if m = '+' then .add else if m = '-' then .del else s.what) ∧
      (.oper ∈ (svsmodeLetter conf extarg s m).c.umodes →
        .oper ∈ s.c.umodes ∧ ¬ (m = 'o' ∧ s.what = .del)) ∧
      (¬ (m = 'o' ∧ s.what = .del) →
        (.invisible ∈ (svsmodeLetter conf extarg s m).c.umodes ↔
          if m = 'i' then s.what = .add else .invisible ∈ s.c.umodes)) := by
  have hmask : ∀ arg, (.oper ∈ (userSetHostmask s.c arg s.what).umodes ↔ .oper ∈ s.c.umodes) ∧
      (.invisible ∈ (userSetHostmask s.c arg s.what).umodes ↔ .invisible ∈ s.c.umodes) := by
    intro arg
    unfold userSetHostmask
    split
    · exact ⟨Iff.rfl, Iff.rfl⟩
    · cases s.what <;> simp
  unfold svsmodeLetter
  split
  · next hm => simp [hm]
  split
  · next hm => simp [hm]
  split
  · next hm =>
    cases extarg with
    | none => simp [hm]
    | some arg =>
      dsimp only
      split <;> simp [hm]
  split
  · next hm =>
    cases extarg with
    | none => simp [hm]
    | some arg =>
      dsimp only
      split <;> simp [hm, hmask]
  split
  · next hm =>
    split
    · next hdel => simp [hm, hdel, detachOper_oper]
    · next hdel =>
      refine ⟨by simp, fun hoper => ⟨hoper, fun h => hdel ⟨h.2, hoper⟩⟩, fun _ => by simp [hm]⟩
  next hm =>
  split
  · next hi =>
    have hset : ∀ what, .oper ∈ (s.c.setMode what .invisible).umodes → .oper ∈ s.c.umodes :=
      fun what => (setMode_mem s.c what .invisible .oper (by simp)).mp
    split
    · next hwhat =>
      split
      · refine ⟨by simp, fun h => ⟨hset _ h, fun hdel => hm hdel.1⟩, fun _ => ?_⟩
        simp [hwhat, Client.setMode]
      · next hyes =>
        refine ⟨by simp, fun h => ⟨h, fun hdel => hm hdel.1⟩, fun _ => ?_⟩
        simp [hwhat, not_not.mp hyes]
    · next hwhat =>
      split
      · refine ⟨by simp, fun h => ⟨hset _ h, fun hdel => hm hdel.1⟩, fun _ => ?_⟩
        simp [hwhat, Client.setMode]
      · next hno =>
        refine ⟨by simp, fun h => ⟨h, fun hdel => hm hdel.1⟩, fun _ => ?_⟩
        simp [hwhat, hno]
  next hi =>
  split
  · simp_all
  · split
    · next flag hflag =>
      have hoper : flag ≠ .oper := by
        rintro rfl
        exact hm (umodeMap_oper m hflag)
      have hinvisi : flag ≠ .invisible := by
        rintro rfl
        exact hi (umodeMap_invisible m hflag)
      simp_all [setMode_mem s.c s.what flag _ hoper.symm, setMode_mem s.c s.what flag _ hinvisi.symm]
    · simp_all

/-- The condition on the letters that are left. -/
def Lost (conf : Conf) (s : Setting) (modes : CStr) : Prop :=
  s.c.myConnect = true ∧ .oper ∈ s.c.umodes ∧ .invisible ∈ conf.operOnlyUmodes ∧
    strips s.what (decide (.invisible ∈ s.c.umodes)) modes = true

theorem lost_of_slip (conf : Conf) (s : Setting) (m : Char) (modes : CStr) (h : slip conf s m) :
    Lost conf s (m :: modes) := by
  obtain ⟨rfl, hdel, hoper, hinvisi, hmy, honly⟩ := h
  refine ⟨hmy, hoper, honly, ?_⟩
  simp [strips, hdel, hinvisi]

theorem lost_of_rest (conf : Conf) (extarg : Option CStr) (s : Setting) (m : Char) (modes : CStr)
    (h : Lost conf (svsmodeLetter conf extarg s m) modes) : Lost conf s (m :: modes) := by
  obtain ⟨hmy, hoper, honly, hstrips⟩ := h
  obtain ⟨hwhat, hleft, hinvisi⟩ := svsmodeLetter_reads conf extarg s m
  obtain ⟨hbefore, hdel⟩ := hleft hoper
  rw [(svsmodeLetter_turned conf extarg s m).1.myConnect] at hmy
  refine ⟨hmy, hbefore, honly, ?_⟩
  rw [hwhat] at hstrips
  simp only [hinvisi hdel] at hstrips
  unfold strips
  split
  · next hm => simpa [hm] using hstrips
  split
  · next hm => simpa [hm] using hstrips
  split
  · next hm => simpa [hm] using hstrips
  · next hplus hminus hi => simpa [hplus, hminus, hi] using hstrips

theorem foldl_svsmodeLetter (conf : Conf) (extarg : Option CStr) (modes : CStr) (s : Setting) :
    Turned s.c (modes.foldl (svsmodeLetter conf extarg) s).c s.count
        (modes.foldl (svsmodeLetter conf extarg) s).count ∧
      (¬ Lost conf s modes → Seen s.c (modes.foldl (svsmodeLetter conf extarg) s).c s.count
        (modes.foldl (svsmodeLetter conf extarg) s).count) := by
  induction modes generalizing s with
  | nil => exact ⟨Turned.refl s.c s.count, fun _ => rfl⟩
  | cons m modes ih =>
    obtain ⟨hturned, hseen⟩ := svsmodeLetter_turned conf extarg s m
    obtain ⟨hrest, hkept⟩ := ih (svsmodeLetter conf extarg s m)
    refine ⟨hturned.trans hrest, fun hkeeps => ?_⟩
    have hfirst := hseen fun h => hkeeps (lost_of_slip conf s m modes h)
    exact hfirst.trans (hkept fun h => hkeeps (lost_of_rest conf extarg s m modes h))

/-- The modes are taken at once, and one of them that the counter does not follow is among them. -/
def slips (conf : Conf) (c : Client) (ts : ℤ) (modes : CStr) : Prop :=
  (ts = 0 ∨ ts = c.tsinfo) ∧ c.myConnect = true ∧ .oper ∈ c.umodes ∧
    .invisible ∈ conf.operOnlyUmodes ∧ strips .add (decide (.invisible ∈ c.umodes)) modes = true

theorem msSvsmode_spec (conf : Conf) (c : Client) (count : Counter) (ts : ℤ) (modes : CStr)
    (extarg : Option CStr) :
    Turned c (msSvsmode conf c count ts modes extarg).1 count
        (msSvsmode conf c count ts modes extarg).2 ∧
      (¬ slips conf c ts modes → Seen c (msSvsmode conf c count ts modes extarg).1 count
        (msSvsmode conf c count ts modes extarg).2) := by
  unfold msSvsmode
  split
  · exact ⟨Turned.refl c count, fun _ => rfl⟩
  · next hts =>
    obtain ⟨hturned, hseen⟩ := foldl_svsmodeLetter conf extarg modes ⟨c, count, .add⟩
    refine ⟨hturned, fun hkeeps => hseen fun hlost => hkeeps ⟨?_, hlost⟩⟩
    by_contra hne
    rw [not_or] at hne
    exact hts hne

end Strips

section Uid

/-- The modes that are set so far are counted. -/
def Introduced (count : Counter) (s : Modes × Counter) : Prop :=
  s.2.total = count.total ∧ s.2.localClients = count.localClients ∧
    s.2.oper = count.oper + bit (decide (.oper ∈ s.1)) ∧
    s.2.invisi = count.invisi + bit (decide (.invisible ∈ s.1))

theorem uidModeLetter_introduced (count : Counter) (s : Modes × Counter) (m : Char)
    (h : Introduced count s) : Introduced count (uidModeLetter s m) := by
  obtain ⟨modes, now⟩ := s
  obtain ⟨htotal, hlocal, hoper, hinvisi⟩ := h
  dsimp only at htotal hlocal hoper hinvisi
  unfold uidModeLetter
  split
  · exact ⟨htotal, hlocal, hoper, hinvisi⟩
  · next flag hflag =>
    dsimp only
    by_cases hi : flag = .invisible ∧ .invisible ∉ modes
    · obtain ⟨rfl, hno⟩ := hi
      refine ⟨?_, ?_, ?_, ?_⟩ <;> simp_all [bit]
    · rw [if_neg hi]
      by_cases ho : flag = .oper ∧ .oper ∉ modes
      · obtain ⟨rfl, hno⟩ := ho
        refine ⟨?_, ?_, ?_, ?_⟩ <;> simp_all [bit]
      · rw [if_neg ho]
        have hmem : ∀ other, ¬ (flag = other ∧ other ∉ modes) → (other ∈ insert flag modes ↔ other ∈ modes) := by
          intro other hnot
          rw [Finset.mem_insert]
          refine or_iff_right_of_imp ?_
          rintro rfl
          by_contra hno
          exact hnot ⟨rfl, hno⟩
        refine ⟨htotal, hlocal, ?_, ?_⟩
        · simp only [hmem _ ho]
          exact hoper
        · simp only [hmem _ hi]
          exact hinvisi

theorem uidModes_introduced (umodes : CStr) (count : Counter) :
    Introduced count (uidModes umodes count) := by
  unfold uidModes
  refine List.foldlRecOn (motive := Introduced count) _ _ ?_ fun s hs m _ =>
    uidModeLetter_introduced count s m hs
  simp [Introduced, bit]

end Uid

end IrcdHybrid.UserModes
