import IrcdHybrid.IpCache

/-!
Connects from one address, one soon after the other. What the cache keeps of an address is
enough to refuse the next connect as long as one would be too many; an entry is dropped only
when it would not be asked for that any more. It counts the clients that hold it.
-/

namespace IrcdHybrid.ConnectThrottle

open CidrLimits Entries IpCache

/-- A local client; `ipHash` is `FLAGS_IPHASH`. -/
structure Client where
  ptr : ℕ
  ip : Ip
  registered : Bool
  ipHash : Bool

structure World where
  currentTime : ℕ
  clients : List Client
  table : Table

def start : World := ⟨0, [], fun _ => []⟩

inductive Op
  | tick (seconds : ℕ)
  | accept (ptr : ℕ) (addr : Ip) (conf : Option Dline)
  | webirc (ptr : ℕ) (addr : Ip)
  | register (ptr : ℕ) (admitted : Bool)
  | exit (ptr : ℕ)
  | removeExpired

/-- A connect from an address that is not exempt. -/
structure Attempt where
  time : ℕ
  accepted : Bool

section Runs

variable (throttleTime throttleCount : ℕ)

/-- `attach_iline`, up to its limits. -/
def attachIline (t : Table) (c : Client) : Client × Table :=
  ({ c with ipHash := true },
    write (findOrAddAddress t c.ip).2 c.ip fun e => { e with count := e.count + 1 })

/-- `exit_client`, as far as the cache goes. -/
def exitClient (now : ℕ) (t : Table) (c : Client) : Option Client × Table :=
  (none, if c.ipHash then removeAddress throttleTime now t c.ip else t)

/-- `register_local_user`: whoever is not admitted, by the limits or later, exits. -/
def registerLocalUser (now : ℕ) (t : Table) (c : Client) (admitted : Bool) :
    Option Client × Table :=
  let (c, t) := attachIline t c
  if admitted then (some { c with registered := true }, t) else exitClient throttleTime now t c

def react (now : ℕ) (t : Table) (c : Client) : Op → Option Client × Table
  | .webirc _ addr => if c.registered then (some c, t) else (some { c with ip := addr }, t)
  | .register _ admitted =>
    if c.registered then (some c, t) else registerLocalUser throttleTime now t c admitted
  | .exit _ => exitClient throttleTime now t c
  | _ => (some c, t)

def onClient (w : World) (ptr : ℕ) (op : Op) : World :=
  match lookup Client.ptr ptr w.clients with
  | none => w
  | some c =>
    { w with
      clients := (change (fun c => decide (c.ptr = ptr))
        (fun c => (react throttleTime w.currentTime w.table c op).1) w.clients).getD w.clients
      table := (react throttleTime w.currentTime w.table c op).2 }

/-- `listener_accept_connection`. -/
def acceptConnection (w : World) (ptr : ℕ) (addr : Ip) (conf : Option Dline) : World :=
  let (verdict, t) := confConnectAllowed throttleTime throttleCount w.currentTime w.table addr conf
  { w with
    clients := if verdict = .allowed then ⟨ptr, addr, false, false⟩ :: w.clients else w.clients
    table := t }

def step (w : World) : Op → World
  | .tick seconds => { w with currentTime := w.currentTime + seconds }
  | .accept ptr addr conf =>
    if (lookup Client.ptr ptr w.clients).isSome then w
    else acceptConnection throttleTime throttleCount w ptr addr conf
  | .webirc ptr addr => onClient throttleTime w ptr (.webirc ptr addr)
  | .register ptr admitted => onClient throttleTime w ptr (.register ptr admitted)
  | .exit ptr => onClient throttleTime w ptr (.exit ptr)
  | .removeExpired =>
    { w with table := removeExpiredEntries throttleTime w.currentTime w.table }

def run (w : World) (ops : List Op) : World := ops.foldl (step throttleTime throttleCount) w

/-- The attempt from an address that an operation is, if it is one. -/
def attemptOf (w : World) (addr : Ip) : Op → List Attempt
  | .accept ptr addr' conf =>
    if (lookup Client.ptr ptr w.clients).isSome ∨ addr' ≠ addr ∨ conf = some .exempt then []
    else
      [⟨w.currentTime, decide ((confConnectAllowed throttleTime throttleCount w.currentTime
        w.table addr' conf).1 = .allowed)⟩]
  | _ => []

/-- All attempts from an address in a run. -/
def attempts (addr : Ip) (w : World) : List Op → List Attempt
  | [] => []
  | op :: ops => attemptOf throttleTime throttleCount w addr op ++
      attempts addr (step throttleTime throttleCount w op) ops

end Runs

/-- Each attempt comes less than the throttle time after the accepted one before it. -/
def Within (throttleTime : ℕ) : Option ℕ → List Attempt → Prop
  | _, [] => True
  | last, a :: as => (∀ s, last = some s → a.time < s + throttleTime) ∧
      Within throttleTime (if a.accepted then some a.time else last) as

/-- The client holds the entry of the address. -/
def holds (addr : Ip) (c : Client) : Bool := c.ipHash && decide (c.ip = addr)

/-- How many accepted attempts there were, each soon after the one before, and when the last of
them was. -/
structure Chain where
  length : ℕ
  last : Option ℕ

def Chain.next (throttleTime : ℕ) (chain : Chain) (a : Attempt) : Chain :=
  if a.accepted then
    if chain.last.any (fun s => decide (a.time < s + throttleTime)) then
      ⟨chain.length + 1, some a.time⟩
    else ⟨1, some a.time⟩
  else chain

section Chains

variable (throttleTime throttleCount : ℕ)

theorem within_chain (as : List Attempt) (chain : Chain) (last : Option ℕ) (n : ℕ)
    (hwithin : Within throttleTime last as) (hlast : last = none ∨ last = chain.last)
    (hzero : last = none → n = 0) (hle : n ≤ chain.length) :
    n + (as.filter Attempt.accepted).length ≤
      (as.foldl (Chain.next throttleTime) chain).length := by
  induction as generalizing chain last n with
  | nil => simpa using hle
  | cons a as ih =>
    obtain ⟨hsoon, hrest⟩ := hwithin
    rw [List.foldl_cons]
    cases haccepted : a.accepted with
    | false =>
      have hsame : chain.next throttleTime a = chain := by
        unfold Chain.next
        rw [haccepted]
        rfl
      rw [haccepted] at hrest
      rw [hsame, List.filter_cons_of_neg (by simp [haccepted])]
      exact ih chain last n hrest hlast hzero hle
    | true =>
      rw [haccepted, if_pos rfl] at hrest
      rw [List.filter_cons_of_pos haccepted, List.length_cons]
      have hnext : (chain.next throttleTime a).last = some a.time ∧
          n + 1 ≤ (chain.next throttleTime a).length := by
        unfold Chain.next
        rw [haccepted, if_pos rfl]
        split
        · exact ⟨rfl, Nat.succ_le_succ hle⟩
        · next hlate =>
          refine ⟨rfl, ?_⟩
          rcases hlast with hnone | hsame
          · rw [hzero hnone]
          · cases hs : last with
            | none => rw [hzero hs]
            | some s =>
              rw [← hsame, hs] at hlate
              exact absurd (hsoon s hs) (by simpa using hlate)
      have htail := ih (chain.next throttleTime a) (some a.time) (n + 1) hrest
        (Or.inr hnext.1.symm) (by simp) hnext.2
      omega

/-- A chain that is never too long bounds every run of attempts within the time. -/
theorem accepted_le (as seg : List Attempt)
    (hchain : ∀ front behind, as = front ++ behind →
      (front.foldl (Chain.next throttleTime) ⟨0, none⟩).length ≤ throttleCount)
    (hseg : seg <:+: as) (hwithin : Within throttleTime none seg) :
    (seg.filter Attempt.accepted).length ≤ throttleCount := by
  obtain ⟨front, behind, rfl⟩ := hseg
  have hbound := hchain (front ++ seg) behind rfl
  rw [List.foldl_append] at hbound
  have hle := within_chain throttleTime seg (front.foldl (Chain.next throttleTime) ⟨0, none⟩) none 0
    hwithin (Or.inl rfl) (fun _ => rfl) (Nat.zero_le _)
  omega

end Chains

/-- An entry that no connect was counted on. -/
def Unused (e : IpEntry) : Prop := e.connectionCount = 0 ∧ e.lastAttempt = 0

/-- The entry has the chain, or nothing of it matters any more. -/
def Linked (throttleTime now : ℕ) (o : Option IpEntry) (chain : Chain) : Prop :=
  (∃ e s, o = some e ∧ chain.last = some s ∧ e.lastAttempt = s ∧
    e.connectionCount = chain.length ∧ s ≤ now) ∨
  ((∀ e, o = some e → Unused e) ∧ ∀ s, chain.last = some s → s + throttleTime ≤ now)

/-- Whatever chain there was, the entry still has it. -/
def Keeps (throttleTime now : ℕ) (o o' : Option IpEntry) : Prop :=
  ∀ chain, Linked throttleTime now o chain → Linked throttleTime now o' chain

section Links

variable (throttleTime throttleCount now : ℕ)

theorem keeps_refl (o : Option IpEntry) : Keeps throttleTime now o o := fun _ h => h

theorem keeps_trans {o o' o'' : Option IpEntry} (h : Keeps throttleTime now o o')
    (h' : Keeps throttleTime now o' o'') : Keeps throttleTime now o o'' :=
  fun chain hchain => h' chain (h chain hchain)

theorem keeps_new (o : Option IpEntry) (addr : Ip) :
    Keeps throttleTime now o (some (o.getD (newEntry addr))) := by
  rintro chain (⟨e, s, rfl, h⟩ | ⟨hunused, hlate⟩)
  · exact Or.inl ⟨e, s, rfl, h⟩
  · refine Or.inr ⟨?_, hlate⟩
    intro e he
    cases o with
    | none =>
      rw [← Option.some.inj he]
      exact ⟨rfl, rfl⟩
    | some d =>
      rw [← Option.some.inj he]
      exact hunused d rfl

theorem keeps_count (e : IpEntry) (n : ℕ) :
    Keeps throttleTime now (some e) (some { e with count := n }) := by
  rintro chain (⟨d, s, hd, hlast, htime, hcount, hle⟩ | ⟨hunused, hlate⟩)
  · obtain rfl := Option.some.inj hd
    exact Or.inl ⟨_, s, rfl, hlast, htime, hcount, hle⟩
  · refine Or.inr ⟨?_, hlate⟩
    intro d hd
    rw [← Option.some.inj hd]
    exact hunused e rfl

theorem keeps_none (e : IpEntry) (h : idle throttleTime now e = true) :
    Keeps throttleTime now (some e) none := by
  have hidle : (throttleTime : ℤ) ≤ (now : ℤ) - e.lastAttempt := by simpa [idle] using h
  rintro chain (⟨d, s, hd, hlast, htime, _, _⟩ | ⟨_, hlate⟩)
  · obtain rfl := Option.some.inj hd
    refine Or.inr ⟨by simp, ?_⟩
    intro s' hs'
    obtain rfl : s = s' := Option.some.inj (hlast.symm.trans hs')
    omega
  · exact Or.inr ⟨by simp, hlate⟩

theorem keeps_release (e : IpEntry) :
    Keeps throttleTime now (some e) (release throttleTime now e) := by
  unfold release
  split
  · next hlast => exact keeps_none throttleTime now e hlast.2
  · exact keeps_count throttleTime now e (e.count - 1)

theorem keeps_expired (o : Option IpEntry) : Keeps throttleTime now o
    (o.filter fun e => !(decide (e.count = 0) && idle throttleTime now e)) := by
  cases o with
  | none => exact keeps_refl throttleTime now none
  | some e =>
    rw [Option.filter_some]
    split
    · exact keeps_refl throttleTime now (some e)
    · next hgone =>
      rw [Bool.not_eq_true, Bool.not_eq_false', Bool.and_eq_true] at hgone
      exact keeps_none throttleTime now e hgone.2

theorem linked_later (o : Option IpEntry) (chain : Chain) (n : ℕ)
    (h : Linked throttleTime now o chain) : Linked throttleTime (now + n) o chain := by
  rcases h with ⟨e, s, ho, hlast, htime, hcount, hle⟩ | ⟨hunused, hlate⟩
  · exact Or.inl ⟨e, s, ho, hlast, htime, hcount, by omega⟩
  · refine Or.inr ⟨hunused, ?_⟩
    intro s hs
    have := hlate s hs
    omega

/-- What the connect of an address makes of its entry. -/
def connected (e : IpEntry) : IpEntry :=
  if (now : ℤ) - e.lastAttempt < throttleTime then
    if throttleCount ≤ e.connectionCount then e
    else { e with connectionCount := e.connectionCount + 1, lastAttempt := now }
  else { e with connectionCount := 1, lastAttempt := now }

def taken (e : IpEntry) : Bool :=
  !(decide ((now : ℤ) - e.lastAttempt < throttleTime) && decide (throttleCount ≤ e.connectionCount))

/-- An attempt goes on with the chain where the cache counts it up, and not beyond the limit. -/
theorem linked_attempt (hcount : 1 ≤ throttleCount) (e : IpEntry) (chain : Chain)
    (h : Linked throttleTime now (some e) chain) (hle : chain.length ≤ throttleCount) :
    Linked throttleTime now (some (connected throttleTime throttleCount now e))
        (chain.next throttleTime ⟨now, taken throttleTime throttleCount now e⟩) ∧
      (chain.next throttleTime ⟨now, taken throttleTime throttleCount now e⟩).length ≤
        throttleCount := by
  unfold connected taken Chain.next
  by_cases hsoon : (now : ℤ) - e.lastAttempt < throttleTime
  · by_cases hfull : throttleCount ≤ e.connectionCount
    · rw [if_pos hsoon, if_pos hfull]
      simp only [hsoon, hfull, decide_true, Bool.and_self, Bool.not_true, Bool.false_eq_true,
        if_false]
      exact ⟨h, hle⟩
    · rw [if_pos hsoon, if_neg hfull]
      simp only [hfull, decide_false, Bool.and_false, Bool.not_false, if_true]
      rcases h with ⟨d, s, hd, hlast, htime, hnumber, _⟩ | ⟨hunused, hlate⟩
      · obtain rfl := Option.some.inj hd
        have hnear : chain.last.any (fun s => decide (now < s + throttleTime)) = true := by
          rw [hlast, Option.any_some, decide_eq_true_eq]
          omega
        rw [if_pos hnear]
        exact ⟨Or.inl ⟨_, now, rfl, rfl, rfl, by rw [hnumber], le_refl _⟩, by
          dsimp only
          omega⟩
      · have hfar : ¬ chain.last.any (fun s => decide (now < s + throttleTime)) = true := by
          cases hs : chain.last with
          | none => simp
          | some s =>
            rw [Option.any_some, decide_eq_true_eq]
            have := hlate s hs
            omega
        rw [if_neg hfar]
        exact ⟨Or.inl ⟨_, now, rfl, rfl, rfl, by rw [(hunused e rfl).1], le_refl _⟩, hcount⟩
  · rw [if_neg hsoon]
    simp only [hsoon, decide_false, Bool.false_and, Bool.not_false, if_true]
    have hfar : ¬ chain.last.any (fun s => decide (now < s + throttleTime)) = true := by
      cases hs : chain.last with
      | none => simp
      | some s =>
        rw [Option.any_some, decide_eq_true_eq]
        rcases h with ⟨d, s', hd, hlast, htime, _, _⟩ | ⟨_, hlate⟩
        · obtain rfl := Option.some.inj hd
          obtain rfl : s' = s := Option.some.inj (hlast.symm.trans hs)
          omega
        · have := hlate s hs
          omega
    rw [if_neg hfar]
    exact ⟨Or.inl ⟨_, now, rfl, rfl, rfl, rfl, le_refl _⟩, hcount⟩

end Links

def counted (o : Option IpEntry) : ℕ := (o.map IpEntry.count).getD 0

def tally (clients : List Client) (addr : Ip) : ℕ := clients.countP (holds addr)

/-- What becomes of the cache while one client becomes another, or goes: its count goes along,
and no chain is lost. -/
structure Follows (throttleTime now : ℕ) (t t' : Table) (o o' : Option Client) : Prop where
  wf : Wf t'
  keeps : ∀ addr, Keeps throttleTime now (entry t addr) (entry t' addr)
  count : ∀ addr rest, counted (entry t addr) = rest + tally o.toList addr →
    counted (entry t' addr) = rest + tally o'.toList addr

section Clients

variable (throttleTime now : ℕ)

theorem follows_refl (t : Table) (ht : Wf t) (o o' : Option Client)
    (h : ∀ addr, tally o'.toList addr = tally o.toList addr) :
    Follows throttleTime now t t o o' :=
  ⟨ht, fun addr => keeps_refl throttleTime now _, fun addr rest hrest => by rw [h]; exact hrest⟩

theorem Follows.trans {t t' t'' : Table} {o o' o'' : Option Client}
    (h : Follows throttleTime now t t' o o') (h' : Follows throttleTime now t' t'' o' o'') :
    Follows throttleTime now t t'' o o'' :=
  ⟨h'.wf, fun addr => keeps_trans throttleTime now (h.keeps addr) (h'.keeps addr),
    fun addr rest hrest => h'.count addr rest (h.count addr rest hrest)⟩

theorem tally_some (c : Client) (addr : Ip) :
    tally (some c).toList addr = if holds addr c then 1 else 0 := by
  unfold tally
  rw [Option.toList_some, List.countP_singleton]

theorem tally_unheld (c : Client) (addr : Ip) (h : c.ipHash = false) :
    tally (some c).toList addr = 0 := by
  rw [tally_some]
  simp [holds, h]

theorem attachIline_follows (t : Table) (ht : Wf t) (c : Client) (h : c.ipHash = false) :
    Follows throttleTime now t (attachIline t c).2 (some c) (some (attachIline t c).1) := by
  obtain ⟨hwf, _, hentry⟩ := findOrAdd_entry t ht c.ip
  have hown := hentry c.ip
  rw [if_pos rfl] at hown
  obtain ⟨hwf', hentry'⟩ := write_entry _ hwf c.ip (fun e => { e with count := e.count + 1 }) _
    (fun _ => rfl) hown
  refine ⟨hwf', ?_, ?_⟩
  · intro addr
    unfold attachIline
    dsimp only
    rw [hentry']
    by_cases haddr : addr = c.ip
    · rw [if_pos haddr, haddr]
      exact keeps_trans throttleTime now (keeps_new throttleTime now _ c.ip)
        (keeps_count throttleTime now _ _)
    · rw [if_neg haddr, hentry, if_neg haddr]
      exact keeps_refl throttleTime now _
  · intro addr rest hrest
    rw [tally_unheld c addr h] at hrest
    rw [tally_some]
    unfold attachIline holds
    dsimp only
    rw [hentry']
    by_cases haddr : addr = c.ip
    · rw [if_pos haddr]
      rw [haddr] at hrest ⊢
      simp only [Bool.true_and, decide_true, if_true]
      rw [show rest = counted (entry t c.ip) from by omega]
      cases entry t c.ip <;> rfl
    · rw [if_neg haddr, hentry, if_neg haddr, hrest]
      simp [Ne.symm haddr]

/-- An exit gives back what the client holds, which is there to be given back. -/
theorem exitClient_follows (t : Table) (ht : Wf t) (c : Client)
    (hheld : c.ipHash = true → 0 < counted (entry t c.ip)) :
    Follows throttleTime now t (exitClient throttleTime now t c).2 (some c)
      (exitClient throttleTime now t c).1 := by
  unfold exitClient
  dsimp only
  cases h : c.ipHash with
  | false =>
    apply follows_refl throttleTime now t ht
    intro addr
    rw [tally_unheld c addr h]
    rfl
  | true =>
    rw [if_pos rfl]
    cases hfind : entry t c.ip with
    | none =>
      have hpos := hheld h
      rw [hfind] at hpos
      exact absurd hpos (by simp [counted])
    | some e =>
      have hpos := hheld h
      rw [hfind] at hpos
      obtain ⟨hwf, hentry⟩ := removeAddress_entry t ht throttleTime now c.ip e hfind
      refine ⟨hwf, ?_, ?_⟩
      · intro addr
        rw [hentry]
        by_cases haddr : addr = c.ip
        · rw [if_pos haddr, haddr, hfind]
          exact keeps_release throttleTime now e
        · rw [if_neg haddr]
          exact keeps_refl throttleTime now _
      · intro addr rest hrest
        rw [hentry]
        rw [tally_some] at hrest
        unfold holds at hrest
        by_cases haddr : addr = c.ip
        · rw [if_pos haddr]
          rw [haddr, hfind, h] at hrest
          simp only [Bool.true_and, decide_true, if_true] at hrest
          have hone : counted (release throttleTime now e) = e.count - 1 := by
            unfold release
            split
            · next hlast => exact hlast.1.symm
            · rfl
          have hcount : e.count = rest + 1 := hrest
          rw [hone, hcount]
          rfl
        · rw [if_neg haddr, hrest]
          simp [Ne.symm haddr, tally]

/-- Only registered clients hold an entry. -/
def Proper (c : Client) : Prop := c.ipHash = true → c.registered = true

theorem react_ptr (t : Table) (c c' : Client) (op : Op)
    (h : (react throttleTime now t c op).1 = some c') : c'.ptr = c.ptr := by
  cases op with
  | tick seconds => rw [← Option.some.inj h]
  | accept ptr addr conf => rw [← Option.some.inj h]
  | removeExpired => rw [← Option.some.inj h]
  | exit ptr => cases h
  | webirc ptr addr =>
    unfold react at h
    dsimp only at h
    split at h
    · rw [← Option.some.inj h]
    · rw [← Option.some.inj h]
  | register ptr admitted =>
    unfold react registerLocalUser exitClient at h
    dsimp only at h
    split at h
    · rw [← Option.some.inj h]
    · split at h
      · rw [← Option.some.inj h]
        rfl
      · cases h

theorem react_follows (t : Table) (ht : Wf t) (c : Client) (op : Op) (hc : Proper c)
    (hheld : c.ipHash = true → 0 < counted (entry t c.ip)) :
    Follows throttleTime now t (react throttleTime now t c op).2 (some c)
        (react throttleTime now t c op).1 ∧
      ∀ c', (react throttleTime now t c op).1 = some c' → Proper c' := by
  have hnot : ¬ c.registered = true → c.ipHash = false := by
    intro hreg
    by_contra hhash
    exact hreg (hc (by simpa using hhash))
  have hstay : Follows throttleTime now t t (some c) (some c) ∧
      ∀ c', some c = some c' → Proper c' :=
    ⟨follows_refl throttleTime now t ht _ _ (fun _ => rfl),
      fun c' h => Option.some.inj h ▸ hc⟩
  cases op with
  | tick seconds => exact hstay
  | accept ptr addr conf => exact hstay
  | removeExpired => exact hstay
  | exit ptr =>
    refine ⟨exitClient_follows throttleTime now t ht c hheld, ?_⟩
    intro c' h
    cases h
  | webirc ptr addr =>
    by_cases hreg : c.registered = true
    · rw [show react throttleTime now t c (.webirc ptr addr) = (some c, t) from if_pos hreg]
      exact hstay
    · rw [show react throttleTime now t c (.webirc ptr addr) = (some { c with ip := addr }, t) from
        if_neg hreg]
      have hhash := hnot hreg
      refine ⟨follows_refl throttleTime now t ht _ _ (fun a => ?_), ?_⟩
      · rw [tally_unheld c a hhash, tally_unheld { c with ip := addr } a hhash]
      · intro c' h
        rw [← Option.some.inj h]
        exact hc
  | register ptr admitted =>
    by_cases hreg : c.registered = true
    · rw [show react throttleTime now t c (.register ptr admitted) = (some c, t) from if_pos hreg]
      exact hstay
    · rw [show react throttleTime now t c (.register ptr admitted) =
        registerLocalUser throttleTime now t c admitted from if_neg hreg]
      have hattach := attachIline_follows throttleTime now t ht c (hnot hreg)
      unfold registerLocalUser
      dsimp only
      cases admitted with
      | true =>
        refine ⟨⟨hattach.wf, hattach.keeps, hattach.count⟩, ?_⟩
        intro c' h
        rw [if_pos rfl] at h
        rw [← Option.some.inj h]
        exact fun _ => rfl
      | false =>
        have hexit := exitClient_follows throttleTime now _ hattach.wf (attachIline t c).1
          (fun _ => by
            have hcount := hattach.count c.ip (counted (entry t c.ip)) (by
              rw [tally_unheld c _ (hnot hreg)]
              rfl)
            rw [tally_some] at hcount
            simp only [attachIline, holds, Bool.true_and, decide_true, if_true] at hcount ⊢
            rw [hcount]
            exact Nat.succ_pos _)
        refine ⟨hattach.trans throttleTime now hexit, ?_⟩
        intro c' h
        cases h

end Clients

/-- Every entry counts the clients that hold it. -/
structure Inv (w : World) : Prop where
  keyed : Keyed Client.ptr w.clients
  proper : ∀ c ∈ w.clients, Proper c
  wf : Wf w.table
  count : ∀ addr, counted (entry w.table addr) = tally w.clients addr

theorem inv_start : Inv start := ⟨List.nodup_nil, by simp [start], wf_empty, fun _ => rfl⟩

theorem tally_split (l₁ l₂ : List Client) (o : Option Client) (addr : Ip) :
    tally (l₁ ++ (o.toList ++ l₂)) addr = tally (l₁ ++ l₂) addr + tally o.toList addr := by
  unfold tally
  rw [List.countP_append, List.countP_append, List.countP_append]
  omega

theorem held_counted (w : World) (h : Inv w) (c : Client) (hc : c ∈ w.clients)
    (hheld : c.ipHash = true) : 0 < counted (entry w.table c.ip) := by
  rw [h.count]
  apply List.countP_pos_iff.mpr
  exact ⟨c, hc, by simp [holds, hheld]⟩

section Steps

variable (throttleTime throttleCount : ℕ)

theorem onClient_inv (w : World) (ptr : ℕ) (op : Op) (h : Inv w) :
    Inv (onClient throttleTime w ptr op) ∧
      (onClient throttleTime w ptr op).currentTime = w.currentTime ∧
      ∀ addr, Keeps throttleTime w.currentTime (entry w.table addr)
        (entry (onClient throttleTime w ptr op).table addr) := by
  unfold onClient
  cases hfind : lookup Client.ptr ptr w.clients with
  | none => exact ⟨h, rfl, fun addr => keeps_refl throttleTime _ _⟩
  | some c =>
    have hmem := lookup_mem Client.ptr ptr _ c hfind
    obtain ⟨hfollows, hreact⟩ := react_follows throttleTime w.currentTime w.table h.wf c op
      (h.proper c hmem) (held_counted w h c hmem)
    dsimp only
    refine ⟨?_, rfl, hfollows.keeps⟩
    cases hchange : change (fun c => decide (c.ptr = ptr))
        (fun c => (react throttleTime w.currentTime w.table c op).1) w.clients with
    | none =>
      have hnone := (change_eq_none Client.ptr ptr _ w.clients).mp hchange
      rw [hfind] at hnone
      cases hnone
    | some clients =>
      obtain ⟨c₀, hchanged⟩ := change_some Client.ptr ptr _ w.clients clients h.keyed
        (fun a b hab => react_ptr throttleTime w.currentTime w.table a b op hab) hchange
      obtain rfl : c = c₀ := Option.some.inj (hfind.symm.trans hchanged.entry)
      obtain ⟨l₁, c₁, l₂, hold, hc₁, _, hnew⟩ := change_split _ _ w.clients clients hchange
      have hfirst : c₁ = c := by
        have hlook := lookup_of_mem Client.ptr _ h.keyed c₁ (by simp [hold])
        rw [show c₁.ptr = ptr by simpa using hc₁, hfind] at hlook
        exact (Option.some.inj hlook).symm
      rw [hfirst] at hold hnew
      refine ⟨hchanged.keyed, ?_, hfollows.wf, ?_⟩
      · intro d hd
        rcases hchanged.mem d hd with heq | ⟨hd, _⟩
        · exact hreact d heq
        · exact h.proper d hd
      · intro addr
        have hcount := h.count addr
        rw [hold] at hcount
        have hafter := hfollows.count addr (tally (l₁ ++ l₂) addr)
          (hcount.trans (tally_split l₁ l₂ (some c) addr))
        rw [Option.getD_some, hnew, tally_split]
        exact hafter

theorem confConnectAllowed_entry (w : World) (h : Inv w) (addr : Ip) :
    Wf (confConnectAllowed throttleTime throttleCount w.currentTime w.table addr none).2 ∧
      ((confConnectAllowed throttleTime throttleCount w.currentTime w.table addr none).1 =
        if taken throttleTime throttleCount w.currentTime
          ((entry w.table addr).getD (newEntry addr)) then .allowed else .tooFast) ∧
      ∀ a, entry (confConnectAllowed throttleTime throttleCount w.currentTime w.table addr none).2 a
        = if a = addr then some (connected throttleTime throttleCount w.currentTime
            ((entry w.table addr).getD (newEntry addr)))
          else entry w.table a := by
  obtain ⟨hwf, hfound, hentry⟩ := findOrAdd_entry w.table h.wf addr
  have hown := hentry addr
  rw [if_pos rfl] at hown
  unfold confConnectAllowed taken connected
  dsimp only
  rw [hfound]
  generalize (entry w.table addr).getD (newEntry addr) = e at hown hentry
  by_cases hsoon : (w.currentTime : ℤ) - e.lastAttempt < throttleTime
  · by_cases hfull : throttleCount ≤ e.connectionCount
    · rw [if_pos hsoon, if_pos hfull, if_pos hsoon, if_pos hfull]
      refine ⟨hwf, by simp [hsoon, hfull], ?_⟩
      intro a
      exact hentry a
    · obtain ⟨hwf', hentry'⟩ := write_entry _ hwf addr (fun e =>
        { e with connectionCount := e.connectionCount + 1, lastAttempt := w.currentTime }) e
        (fun _ => rfl) hown
      rw [if_pos hsoon, if_neg hfull, if_pos hsoon, if_neg hfull]
      refine ⟨hwf', by simp [hfull], ?_⟩
      intro a
      rw [hentry', hentry]
      by_cases ha : a = addr
      · rw [if_pos ha, if_pos ha]
      · rw [if_neg ha, if_neg ha, if_neg ha]
  · obtain ⟨hwf', hentry'⟩ := write_entry _ hwf addr (fun e =>
      { e with connectionCount := 1, lastAttempt := w.currentTime }) e (fun _ => rfl) hown
    rw [if_neg hsoon, if_neg hsoon]
    refine ⟨hwf', by simp [hsoon], ?_⟩
    intro a
    rw [hentry', hentry]
    by_cases ha : a = addr
    · rw [if_pos ha, if_pos ha]
    · rw [if_neg ha, if_neg ha, if_neg ha]

theorem connected_count (now : ℕ) (e : IpEntry) :
    (connected throttleTime throttleCount now e).count = e.count := by
  unfold connected
  split
  · split <;> rfl
  · rfl

theorem inv_accepted (w : World) (h : Inv w) (t : Table) (c : Client) (clients : List Client)
    (hnew : lookup Client.ptr c.ptr w.clients = none) (hhash : c.ipHash = false) (hwf : Wf t)
    (hcount : ∀ addr, counted (entry t addr) = counted (entry w.table addr))
    (hclients : clients = c :: w.clients ∨ clients = w.clients) :
    Inv { w with clients := clients, table := t } := by
  rcases hclients with rfl | rfl
  · refine ⟨keyed_cons Client.ptr c w.clients h.keyed hnew, ?_, hwf, ?_⟩
    · intro d hd
      rcases List.mem_cons.mp hd with rfl | hd
      · intro hheld
        rw [hhash] at hheld
        cases hheld
      · exact h.proper d hd
    · intro addr
      show counted (entry t addr) = tally (c :: w.clients) addr
      rw [hcount, h.count]
      unfold tally
      rw [List.countP_cons_of_neg (by simp [holds, hhash])]
  · exact ⟨h.keyed, h.proper, hwf, fun addr => (hcount addr).trans (h.count addr)⟩

theorem accept_step (w : World) (h : Inv w) (ptr : ℕ) (addr : Ip) (conf : Option Dline)
    (hnew : lookup Client.ptr ptr w.clients = none) :
    Inv (acceptConnection throttleTime throttleCount w ptr addr conf) := by
  have hclients : ∀ verdict : Verdict,
      (if verdict = .allowed then (⟨ptr, addr, false, false⟩ : Client) :: w.clients
        else w.clients) = ⟨ptr, addr, false, false⟩ :: w.clients ∨
      (if verdict = .allowed then (⟨ptr, addr, false, false⟩ : Client) :: w.clients
        else w.clients) = w.clients := by
    intro verdict
    split
    · exact Or.inl rfl
    · exact Or.inr rfl
  unfold acceptConnection
  dsimp only
  cases conf with
  | some conf =>
    have htable : (confConnectAllowed throttleTime throttleCount w.currentTime w.table addr
        (some conf)).2 = w.table := by
      cases conf <;> rfl
    rw [htable]
    exact inv_accepted w h w.table ⟨ptr, addr, false, false⟩ _ hnew rfl h.wf (fun _ => rfl)
      (hclients _)
  | none =>
    obtain ⟨hwf, _, hentry⟩ := confConnectAllowed_entry throttleTime throttleCount w h addr
    apply inv_accepted w h _ ⟨ptr, addr, false, false⟩ _ hnew rfl hwf _ (hclients _)
    intro a
    rw [hentry]
    by_cases ha : a = addr
    · rw [if_pos ha, ha]
      unfold counted
      rw [Option.map_some, Option.getD_some, connected_count]
      cases entry w.table addr <;> rfl
    · rw [if_neg ha]

theorem expired_count (now : ℕ) (o : Option IpEntry) :
    counted (o.filter fun e => !(decide (e.count = 0) && idle throttleTime now e)) = counted o := by
  cases o with
  | none => rfl
  | some e =>
    rw [Option.filter_some]
    split
    · rfl
    · next hgone =>
      rw [Bool.not_eq_true, Bool.not_eq_false', Bool.and_eq_true, decide_eq_true_eq] at hgone
      exact hgone.1.symm

theorem step_inv (w : World) (op : Op) (h : Inv w) :
    Inv (step throttleTime throttleCount w op) := by
  cases op with
  | tick seconds => exact ⟨h.keyed, h.proper, h.wf, h.count⟩
  | accept ptr addr conf =>
    by_cases hold : (lookup Client.ptr ptr w.clients).isSome = true
    · rw [show step throttleTime throttleCount w (.accept ptr addr conf) = w from if_pos hold]
      exact h
    · rw [show step throttleTime throttleCount w (.accept ptr addr conf) =
        acceptConnection throttleTime throttleCount w ptr addr conf from if_neg hold]
      exact accept_step throttleTime throttleCount w h ptr addr conf (by simpa using hold)
  | webirc ptr addr => exact (onClient_inv throttleTime w ptr _ h).1
  | register ptr admitted => exact (onClient_inv throttleTime w ptr _ h).1
  | exit ptr => exact (onClient_inv throttleTime w ptr _ h).1
  | removeExpired =>
    obtain ⟨hwf, hentry⟩ := removeExpired_entry w.table h.wf throttleTime w.currentTime
    refine ⟨h.keyed, h.proper, hwf, ?_⟩
    intro addr
    show counted (entry (removeExpiredEntries throttleTime w.currentTime w.table) addr) = _
    rw [hentry, expired_count]
    exact h.count addr

/-- The chain of an address, with the attempt that the operation may be. -/
theorem step_linked (w : World) (op : Op) (h : Inv w) (hcount : 1 ≤ throttleCount) (addr : Ip)
    (chain : Chain) (hlinked : Linked throttleTime w.currentTime (entry w.table addr) chain)
    (hle : chain.length ≤ throttleCount) :
    Linked throttleTime (step throttleTime throttleCount w op).currentTime
        (entry (step throttleTime throttleCount w op).table addr)
        ((attemptOf throttleTime throttleCount w addr op).foldl (Chain.next throttleTime) chain) ∧
      ((attemptOf throttleTime throttleCount w addr op).foldl (Chain.next throttleTime)
        chain).length ≤ throttleCount := by
  have hclient : ∀ ptr op, Linked throttleTime (onClient throttleTime w ptr op).currentTime
      (entry (onClient throttleTime w ptr op).table addr) chain := by
    intro ptr op
    obtain ⟨_, htime, hkeeps⟩ := onClient_inv throttleTime w ptr op h
    rw [htime]
    exact hkeeps addr chain hlinked
  cases op with
  | tick seconds => exact ⟨linked_later throttleTime w.currentTime _ chain seconds hlinked, hle⟩
  | webirc ptr addr' => exact ⟨hclient ptr _, hle⟩
  | register ptr admitted => exact ⟨hclient ptr _, hle⟩
  | exit ptr => exact ⟨hclient ptr _, hle⟩
  | removeExpired =>
    refine ⟨?_, hle⟩
    show Linked throttleTime w.currentTime
      (entry (removeExpiredEntries throttleTime w.currentTime w.table) addr) chain
    rw [(removeExpired_entry w.table h.wf throttleTime w.currentTime).2]
    exact keeps_expired throttleTime w.currentTime _ chain hlinked
  | accept ptr addr' conf =>
    by_cases hold : (lookup Client.ptr ptr w.clients).isSome = true
    · rw [show step throttleTime throttleCount w (.accept ptr addr' conf) = w from if_pos hold,
        show attemptOf throttleTime throttleCount w addr (.accept ptr addr' conf) = [] from
          if_pos (Or.inl hold)]
      exact ⟨hlinked, hle⟩
    rw [show step throttleTime throttleCount w (.accept ptr addr' conf) =
      acceptConnection throttleTime throttleCount w ptr addr' conf from if_neg hold]
    unfold acceptConnection
    dsimp only
    cases conf with
    | some conf =>
      have htable : (confConnectAllowed throttleTime throttleCount w.currentTime w.table addr'
          (some conf)).2 = w.table := by
        cases conf <;> rfl
      rw [htable]
      have hchain : (attemptOf throttleTime throttleCount w addr
          (.accept ptr addr' (some conf))).foldl (Chain.next throttleTime) chain = chain := by
        unfold attemptOf
        dsimp only
        split
        · rfl
        · -- a D-line refuses, and what is refused leaves the chain as it is
          cases conf with
          | exempt => simp_all
          | dline => rfl
      rw [hchain]
      exact ⟨hlinked, hle⟩
    | none =>
      obtain ⟨_, hverdict, hentry⟩ :=
        confConnectAllowed_entry throttleTime throttleCount w h addr'
      rw [hentry]
      by_cases haddr : addr' = addr
      · have hattempt : attemptOf throttleTime throttleCount w addr (.accept ptr addr' none) =
            [⟨w.currentTime, taken throttleTime throttleCount w.currentTime
              ((entry w.table addr').getD (newEntry addr'))⟩] := by
          unfold attemptOf
          dsimp only
          rw [if_neg (by simp [hold, haddr]), hverdict]
          cases taken throttleTime throttleCount w.currentTime
            ((entry w.table addr').getD (newEntry addr')) <;> rfl
        rw [hattempt, if_pos haddr.symm, haddr]
        exact linked_attempt throttleTime throttleCount w.currentTime hcount _ chain
          (keeps_new throttleTime w.currentTime _ addr chain hlinked) hle
      · rw [show attemptOf throttleTime throttleCount w addr (.accept ptr addr' none) = [] from
          if_pos (Or.inr (Or.inl haddr)), if_neg (Ne.symm haddr)]
        exact ⟨hlinked, hle⟩

theorem attemptOf_short (w : World) (addr : Ip) (op : Op) :
    attemptOf throttleTime throttleCount w addr op = [] ∨
      ∃ a, attemptOf throttleTime throttleCount w addr op = [a] := by
  cases op with
  | accept ptr addr' conf =>
    unfold attemptOf
    dsimp only
    split
    · exact Or.inl rfl
    · exact Or.inr ⟨_, rfl⟩
  | _ => exact Or.inl rfl

theorem run_inv (ops : List Op) (w : World) (h : Inv w) :
    Inv (run throttleTime throttleCount w ops) := by
  induction ops generalizing w with
  | nil => exact h
  | cons op ops ih => exact ih _ (step_inv throttleTime throttleCount w op h)

/-- However the attempts of a run are cut off, the chain is not too long there. -/
theorem run_chain (hcount : 1 ≤ throttleCount) (addr : Ip) (ops : List Op) (w : World)
    (chain : Chain) (h : Inv w)
    (hlinked : Linked throttleTime w.currentTime (entry w.table addr) chain)
    (hle : chain.length ≤ throttleCount) (front behind : List Attempt)
    (hsplit : attempts throttleTime throttleCount addr w ops = front ++ behind) :
    (front.foldl (Chain.next throttleTime) chain).length ≤ throttleCount := by
  induction ops generalizing w chain front with
  | nil =>
    obtain rfl := (List.append_eq_nil_iff.mp hsplit.symm).1
    exact hle
  | cons op ops ih =>
    obtain ⟨hlinked', hle'⟩ := step_linked throttleTime throttleCount w op h hcount addr chain
      hlinked hle
    rcases attemptOf_short throttleTime throttleCount w addr op with hnone | ⟨a, hone⟩
    · rw [hnone] at hlinked' hle'
      exact ih _ chain (step_inv throttleTime throttleCount w op h) hlinked' hle' front (by
        rw [← hsplit, attempts, hnone]
        rfl)
    · cases front with
      | nil => exact hle
      | cons b front =>
        rw [hone] at hlinked' hle'
        rw [attempts, hone] at hsplit
        obtain ⟨rfl, hrest⟩ := List.cons.inj hsplit
        exact ih _ _ (step_inv throttleTime throttleCount w op h) hlinked' hle' front hrest

end Steps

/-- In no run of attempts from one address, each less than the throttle time after the accepted
one before it, more connects are accepted than the limit. Every entry counts the clients that
hold it, so that none is taken off a count of zero. -/
theorem throttle_holds (throttleTime throttleCount : ℕ) (hcount : 1 ≤ throttleCount)
    (ops : List Op) :
    (∀ addr, ∀ seg, seg <:+: attempts throttleTime throttleCount addr start ops →
      Within throttleTime none seg →
        (seg.filter Attempt.accepted).length ≤ throttleCount) ∧
    (∀ k, ∀ e ∈ (run throttleTime throttleCount start ops).table k,
      e.count = (run throttleTime throttleCount start ops).clients.countP (holds e.ip)) ∧
    ∀ c ∈ (run throttleTime throttleCount start ops).clients, c.ipHash = true →
      ∃ e, entry (run throttleTime throttleCount start ops).table c.ip = some e ∧ 0 < e.count := by
  have hinv := run_inv throttleTime throttleCount ops start inv_start
  refine ⟨?_, ?_, ?_⟩
  · intro addr seg hseg hwithin
    have hfirst : Linked throttleTime start.currentTime (entry start.table addr)
        ⟨0, none⟩ := by
      refine Or.inr ⟨?_, ?_⟩
      · intro e he
        cases he
      · intro s hs
        cases hs
    apply accepted_le throttleTime throttleCount _ seg _ hseg hwithin
    intro front behind hsplit
    exact run_chain throttleTime throttleCount hcount addr ops start ⟨0, none⟩ inv_start
      hfirst (Nat.zero_le _) front behind hsplit
  · intro k e he
    have hentry := entry_of_mem _ hinv.wf k e he
    have hc := hinv.count e.ip
    rw [hentry] at hc
    exact hc
  · intro c hc hheld
    have hpos := held_counted _ hinv c hc hheld
    cases hentry : entry (run throttleTime throttleCount start ops).table c.ip with
    | none =>
      rw [hentry] at hpos
      exact absurd hpos (by decide)
    | some e =>
      rw [hentry] at hpos
      exact ⟨e, rfl, hpos⟩

/-- The entry is kept past the exit of the only client, and gone after the throttle time. -/
def comeAndGo : List Op :=
  [.tick 100, .accept 1 (.v4 0x7F000001#32) none, .register 1 true, .tick 10, .exit 1,
    .removeExpired, .accept 2 (.v4 0x7F000001#32) none, .tick 60, .removeExpired,
    .accept 3 (.v4 0x7F000001#32) none]

theorem throttle_holds_comeAndGo :
    1 ≤ 1 ∧
    (attempts 60 1 (.v4 0x7F000001#32) start comeAndGo).map Attempt.accepted =
      [true, false, true] ∧
    (∀ seg, seg <:+: attempts 60 1 (.v4 0x7F000001#32) start comeAndGo →
      Within 60 none seg → (seg.filter Attempt.accepted).length ≤ 1) ∧
    (∀ k, ∀ e ∈ (run 60 1 start comeAndGo).table k,
      e.count = (run 60 1 start comeAndGo).clients.countP (holds e.ip)) :=
  ⟨le_refl 1, rfl, (throttle_holds 60 1 (le_refl 1) comeAndGo).1 _,
    (throttle_holds 60 1 (le_refl 1) comeAndGo).2.1⟩

end IrcdHybrid.ConnectThrottle
