import IrcdHybrid.ChannelMode
import IrcdHybrid.UserHostHash

/-!
Who is counted in the hash of users and hosts. A client is counted when it is registered, under
another host when its host is changed, and no more when it exits. Every call that counts one
down is for the user and host that it was counted up for.
-/

namespace IrcdHybrid.UserHosts

open CString BanMask Entries UserHostHash
open ChannelMode (Dir)
open Sjoin (fold)

/-- What of a client the hash depends on; `userHost` is `FLAGS_USERHOST`. -/
structure Client where
  ptr : ℕ
  username : CStr
  host : CStr
  myConnect : Bool
  registered : Bool
  userHost : Bool
  username_le : username.length ≤ USERLEN
  host_le : host.length ≤ HOSTLEN

inductive Act
  | add
  | delete
  deriving DecidableEq

/-- The arguments of `add_user_host` and `delete_user_host`. -/
structure Args where
  user : CStr
  host : CStr
  global : Bool
  deriving DecidableEq

/-- A call of one of them, for a client. -/
structure Call where
  act : Act
  ptr : ℕ
  args : Args

theorem strlcpy_le (s : CStr) (n : ℕ) : (strlcpy s (n + 1)).length ≤ n := by
  unfold strlcpy
  rw [List.length_take]
  omega

def Client.withHost (c : Client) (hostname : CStr) : Client :=
  { c with host := strlcpy hostname (HOSTLEN + 1), host_le := strlcpy_le hostname HOSTLEN }

def Client.withUsername (c : Client) (username : CStr) : Client :=
  { c with
    username := strlcpy username (USERLEN + 1), username_le := strlcpy_le username USERLEN }

def Client.args (c : Client) : Args := ⟨c.username, c.host, !c.myConnect⟩

def callAdd (c : Client) : Call := ⟨.add, c.ptr, c.args⟩

def callDelete (c : Client) : Call := ⟨.delete, c.ptr, c.args⟩

/-- The name that `register_local_user` gives a client without an ident. -/
def tildeName (gotId noTilde : Bool) (username : CStr) : CStr :=
  if gotId then username else if noTilde then username else '~' :: username

/-- `exit_one_client`. -/
def exitOneClient (c : Client) : Option Client × List Call :=
  (none, if c.userHost then [callDelete c] else [])

/-- `register_local_user`; it is accepted, or exits on the way. -/
def registerLocalUser (c : Client) (gotId noTilde accepted : Bool) : Option Client × List Call :=
  let c := { c.withUsername (tildeName gotId noTilde c.username) with registered := true }
  if accepted then (some { c with userHost := true }, [callAdd c]) else exitOneClient c

def userSetHostmask (c : Client) (hostname : CStr) (what : Dir) : Option Client × List Call :=
  if c.host = hostname then (some c, [])
  else if what = .query then (some c, [])
  else
    let changed := c.withHost hostname
    (some { changed with userHost := true },
      (if c.userHost then [callDelete c] else []) ++ [callAdd changed])

inductive Op
  | connect (ptr : ℕ) (host : CStr)
  | identify (ptr : ℕ) (username host : CStr)
  | register (ptr : ℕ) (gotId noTilde accepted : Bool)
  | introduce (ptr : ℕ) (username host : CStr) (wrongDirection : Bool)
  | hostmask (ptr : ℕ) (hostname : CStr) (what : Dir)
  | exit (ptr : ℕ)
  | count (user host : CStr)

/-- What a client that is there does. Its name and host may be set while it is unknown. -/
def react (c : Client) : Op → Option Client × List Call
  | .identify _ username host =>
    if c.registered then (some c, []) else (some ((c.withUsername username).withHost host), [])
  | .register _ gotId noTilde accepted =>
    if c.registered ∨ !c.myConnect then (some c, [])
    else registerLocalUser c gotId noTilde accepted
  | .hostmask _ hostname what =>
    if c.registered then userSetHostmask c hostname what else (some c, [])
  | .exit _ => exitOneClient c
  | _ => (some c, [])

def onClient (clients : List Client) (ptr : ℕ) (op : Op) : List Client × List Call :=
  match lookup Client.ptr ptr clients with
  | none => (clients, [])
  | some c =>
    ((change (fun c => decide (c.ptr = ptr)) (fun c => (react c op).1) clients).getD clients,
      (react c op).2)

/-- A new local connection. -/
def newConnection (ptr : ℕ) (host : CStr) : Client :=
  ⟨ptr, "unknown".toList, strlcpy host (HOSTLEN + 1), true, false, false, by decide,
    strlcpy_le host HOSTLEN⟩

/-- Whom another server introduces. -/
def newRemote (ptr : ℕ) (username host : CStr) : Client :=
  ⟨ptr, strlcpy username (USERLEN + 1), strlcpy host (HOSTLEN + 1), false, true, true,
    strlcpy_le username USERLEN, strlcpy_le host HOSTLEN⟩

/-- The clients behind an operation, and the calls it makes. -/
def outcome (clients : List Client) : Op → List Client × List Call
  | .connect ptr host =>
    if (lookup Client.ptr ptr clients).isSome then (clients, [])
    else (newConnection ptr host :: clients, [])
  | .introduce ptr username host wrongDirection =>
    if (lookup Client.ptr ptr clients).isSome ∨ wrongDirection then (clients, [])
    else (newRemote ptr username host :: clients, [callAdd (newRemote ptr username host)])
  | .count _ _ => (clients, [])
  | .identify ptr username host => onClient clients ptr (.identify ptr username host)
  | .register ptr gotId noTilde accepted =>
    onClient clients ptr (.register ptr gotId noTilde accepted)
  | .hostmask ptr hostname what => onClient clients ptr (.hostmask ptr hostname what)
  | .exit ptr => onClient clients ptr (.exit ptr)

structure World where
  clients : List Client
  table : Table

def start : World := ⟨[], fun _ => []⟩

section Runs

variable (hashfXorKey : BitVec 32)

def perform (t : Table) (call : Call) : Table :=
  match call.act with
  | .add => addUserHost hashfXorKey t call.args.user call.args.host call.args.global
  | .delete => deleteUserHost hashfXorKey t call.args.user call.args.host call.args.global

def step (w : World) (op : Op) : World :=
  let (clients, calls) := outcome w.clients op
  let table := match op with
    | .count user host => (countUserHost hashfXorKey w.table user host 0).2
    | _ => w.table
  ⟨clients, calls.foldl (perform hashfXorKey) table⟩

def run (w : World) (ops : List Op) : World := ops.foldl (step hashfXorKey) w

/-- All calls of a run. -/
def trace (w : World) : List Op → List Call
  | [] => []
  | op :: ops => (outcome w.clients op).2 ++ trace (step hashfXorKey w op) ops

end Runs

/-- The client is counted under that user and host. -/
def under (user host : CStr) (c : Client) : Bool :=
  c.userHost && decide (irccmp host c.host = 0) && decide (irccmp user (withoutTilde c.username) = 0)

/-- The calls for one client: each that counts down is for what was counted up before. -/
def replay : Option Args → List Call → Option (Option Args)
  | owed, [] => some owed
  | none, call :: calls => if call.act = .add then replay (some call.args) calls else none
  | some args, call :: calls =>
    if call.act = .delete ∧ call.args = args then replay none calls else none

/-- What a client is counted under. -/
def owed (clients : List Client) (ptr : ℕ) : Option Args :=
  (lookup Client.ptr ptr clients).bind fun c => if c.userHost then some c.args else none

/-- Nothing is taken from a count that is not there. -/
def Covered (hashfXorKey : BitVec 32) : Table → List Call → Prop
  | _, [] => True
  | t, call :: calls =>
    (call.act = .delete → weight (hasIdent call.args.user) call.args.global ≤
      read hashfXorKey t (withoutTilde call.args.user) call.args.host) ∧
    Covered hashfXorKey (perform hashfXorKey t call) calls

/-- What the hash is told of a client. -/
def Client.told (c : Client) : Option Args := if c.userHost then some c.args else none

/-- What that adds to the counts of a user and host. -/
def share (o : Option Args) (user host : CStr) : Counts :=
  match o with
  | none => 0
  | some a =>
    if fold host = fold a.host ∧ fold user = fold (withoutTilde a.user) then
      weight (hasIdent a.user) a.global
    else 0

def total (clients : List Client) (user host : CStr) : Counts :=
  (clients.map fun c => share c.told user host).sum

/-- Where there is no client at all there is no local one. -/
def Sane (c : Counts) : Prop := c.1 = 0 → c = 0

theorem sane_add (c d : Counts) (hc : Sane c) (hd : Sane d) : Sane (c + d) := by
  intro h
  have hsum : c.1 + d.1 = 0 := h
  rw [hc (by omega), hd (by omega), add_zero]

theorem share_sane (o : Option Args) (user host : CStr) : Sane (share o user host) := by
  intro h
  unfold share at h ⊢
  cases o with
  | none => rfl
  | some a =>
    dsimp only at h ⊢
    by_cases hmatch : fold host = fold a.host ∧ fold user = fold (withoutTilde a.user)
    · rw [if_pos hmatch] at h
      cases h
    · rw [if_neg hmatch]

theorem total_sane (clients : List Client) (user host : CStr) : Sane (total clients user host) := by
  induction clients with
  | nil => exact fun _ => rfl
  | cons c clients ih =>
    unfold total at ih ⊢
    rw [List.map_cons, List.sum_cons]
    exact sane_add _ _ (share_sane c.told user host) ih

theorem total_append (l₁ l₂ : List Client) (user host : CStr) :
    total (l₁ ++ l₂) user host = total l₁ user host + total l₂ user host := by
  unfold total
  rw [List.map_append, List.sum_append]

theorem total_toList (o : Option Client) (user host : CStr) :
    total o.toList user host = share (o.bind Client.told) user host := by
  cases o with
  | none => rfl
  | some c => simp [total]

/-- What is told of a client is as long as what is kept of it. -/
def Fits (a : Args) : Prop := (withoutTilde a.user).length ≤ USERLEN ∧ a.host.length ≤ HOSTLEN

theorem withoutTilde_le (user : CStr) : (withoutTilde user).length ≤ user.length := by
  unfold withoutTilde
  split
  · exact le_refl _
  · split
    · exact Nat.le_succ _
    · exact le_refl _

theorem told_fits (c : Client) (a : Args) (h : c.told = some a) : Fits a := by
  unfold Client.told at h
  split at h
  · rw [← Option.some.inj h]
    exact ⟨le_trans (withoutTilde_le c.username) c.username_le, c.host_le⟩
  · cases h

/-- The calls that take one thing told back and tell another. -/
def Moves (ptr : ℕ) (o o' : Option Args) (calls : List Call) : Prop :=
  (calls = [] ∧ o = o') ∨
    calls = o.toList.map (fun a => ⟨.delete, ptr, a⟩) ++ o'.toList.map (fun a => ⟨.add, ptr, a⟩)

theorem moves_stay (ptr : ℕ) (o : Option Args) : Moves ptr o o [] := Or.inl ⟨rfl, rfl⟩

/-- Whatever a client does, what was told of it is taken back before more is told. -/
theorem exitOneClient_moves (c : Client) :
    Moves c.ptr c.told ((exitOneClient c).1.bind Client.told) (exitOneClient c).2 := by
  refine Or.inr ?_
  unfold exitOneClient Client.told
  cases c.userHost <;> rfl

theorem registerLocalUser_moves (c : Client) (gotId noTilde accepted : Bool)
    (hnot : c.userHost = false) : Moves c.ptr c.told
      ((registerLocalUser c gotId noTilde accepted).1.bind Client.told)
      (registerLocalUser c gotId noTilde accepted).2 := by
  have htold : c.told = none := by
    unfold Client.told
    rw [hnot]
    rfl
  rw [htold]
  unfold registerLocalUser
  cases accepted with
  | true => exact Or.inr rfl
  | false =>
    refine Or.inl ⟨?_, rfl⟩
    show (if c.userHost then _ else _) = _
    rw [hnot]
    rfl

theorem userSetHostmask_moves (c : Client) (hostname : CStr) (what : Dir) :
    Moves c.ptr c.told ((userSetHostmask c hostname what).1.bind Client.told)
      (userSetHostmask c hostname what).2 := by
  unfold userSetHostmask
  split
  · exact moves_stay c.ptr c.told
  split
  · exact moves_stay c.ptr c.told
  · refine Or.inr ?_
    unfold Client.told
    cases c.userHost <;> rfl

/-- Only registered clients are counted. -/
def Proper (c : Client) : Prop := c.userHost = true → c.registered = true

theorem react_moves (c : Client) (op : Op) (h : Proper c) :
    Moves c.ptr c.told ((react c op).1.bind Client.told) (react c op).2 := by
  have hnot : ¬ c.registered = true → c.userHost = false := by
    intro hreg
    by_contra huser
    exact hreg (h (by simpa using huser))
  cases op with
  | identify ptr username host =>
    unfold react
    dsimp only
    split
    · exact moves_stay c.ptr c.told
    · next hreg =>
      refine Or.inl ⟨rfl, ?_⟩
      unfold Client.told
      rw [hnot hreg]
      show none = if c.userHost = true then _ else _
      rw [hnot hreg]
      rfl
  | register ptr gotId noTilde accepted =>
    unfold react
    dsimp only
    split
    · exact moves_stay c.ptr c.told
    · next hreg => exact registerLocalUser_moves c gotId noTilde accepted (hnot (by tauto))
  | hostmask ptr hostname what =>
    unfold react
    dsimp only
    split
    · exact userSetHostmask_moves c hostname what
    · exact moves_stay c.ptr c.told
  | exit ptr => exact exitOneClient_moves c
  | connect ptr host => exact moves_stay c.ptr c.told
  | introduce ptr username host wrongDirection => exact moves_stay c.ptr c.told
  | count user host => exact moves_stay c.ptr c.told

theorem react_ptr (c c' : Client) (op : Op) (h : (react c op).1 = some c') : c'.ptr = c.ptr := by
  cases op with
  | identify ptr username host =>
    unfold react at h
    dsimp only at h
    split at h
    · rw [← Option.some.inj h]
    · rw [← Option.some.inj h]
      rfl
  | register ptr gotId noTilde accepted =>
    unfold react registerLocalUser exitOneClient at h
    dsimp only at h
    split at h
    · rw [← Option.some.inj h]
    · split at h
      · rw [← Option.some.inj h]
        rfl
      · cases h
  | hostmask ptr hostname what =>
    unfold react userSetHostmask at h
    dsimp only at h
    split at h
    · split at h
      · rw [← Option.some.inj h]
      · split at h
        · rw [← Option.some.inj h]
        · rw [← Option.some.inj h]
          rfl
    · rw [← Option.some.inj h]
  | exit ptr => cases h
  | connect ptr host => rw [← Option.some.inj h]
  | introduce ptr username host wrongDirection => rw [← Option.some.inj h]
  | count user host => rw [← Option.some.inj h]

theorem react_proper (c c' : Client) (op : Op) (hc : Proper c) (h : (react c op).1 = some c') :
    Proper c' := by
  cases op with
  | identify ptr username host =>
    unfold react at h
    dsimp only at h
    split at h
    · rw [← Option.some.inj h]
      exact hc
    · rw [← Option.some.inj h]
      exact hc
  | register ptr gotId noTilde accepted =>
    unfold react registerLocalUser exitOneClient at h
    dsimp only at h
    split at h
    · rw [← Option.some.inj h]
      exact hc
    · split at h
      · rw [← Option.some.inj h]
        exact fun _ => rfl
      · cases h
  | hostmask ptr hostname what =>
    unfold react userSetHostmask at h
    dsimp only at h
    split at h
    · next hreg =>
      split at h
      · rw [← Option.some.inj h]
        exact hc
      · split at h
        · rw [← Option.some.inj h]
          exact hc
        · rw [← Option.some.inj h]
          exact fun _ => hreg
    · rw [← Option.some.inj h]
      exact hc
  | exit ptr => cases h
  | connect ptr host => exact Option.some.inj h ▸ hc
  | introduce ptr username host wrongDirection => exact Option.some.inj h ▸ hc
  | count user host => exact Option.some.inj h ▸ hc

section Table

variable (hashfXorKey : BitVec 32) (t : Table) (rest : CStr → CStr → Counts)

theorem delete_told (ptr : ℕ) (a : Args) (ht : Wf hashfXorKey t)
    (hread : ∀ user host, read hashfXorKey t user host = share (some a) user host + rest user host)
    (hrest : ∀ user host, Sane (rest user host)) :
    Wf hashfXorKey (perform hashfXorKey t ⟨.delete, ptr, a⟩) ∧
      (∀ user host,
        read hashfXorKey (perform hashfXorKey t ⟨.delete, ptr, a⟩) user host = rest user host) ∧
      weight (hasIdent a.user) a.global ≤ read hashfXorKey t (withoutTilde a.user) a.host := by
  have hown : share (some a) (withoutTilde a.user) a.host = weight (hasIdent a.user) a.global :=
    if_pos ⟨rfl, rfl⟩
  have hback : ∀ c d : Counts, c + d - c = d := by
    intro c d
    ext
    · exact Nat.add_sub_cancel_left _ _
    · exact Nat.add_sub_cancel_left _ _
    · exact Nat.add_sub_cancel_left _ _
  have hle : weight (hasIdent a.user) a.global ≤
      read hashfXorKey t (withoutTilde a.user) a.host := by
    rw [hread, hown]
    exact ⟨Nat.le_add_right _ _, Nat.le_add_right _ _, Nat.le_add_right _ _⟩
  obtain ⟨hwf, hnew⟩ := deleteUserHost_read hashfXorKey t ht a.user a.host a.global hle (by
    rw [hread, hown, hback]
    exact hrest _ _)
  refine ⟨hwf, ?_, hle⟩
  intro user host
  show read hashfXorKey (deleteUserHost hashfXorKey t a.user a.host a.global) user host = _
  rw [hnew, hread]
  unfold share
  dsimp only
  by_cases hmatch : fold host = fold a.host ∧ fold user = fold (withoutTilde a.user)
  · rw [if_pos hmatch, if_pos hmatch, hback]
  · rw [if_neg hmatch, if_neg hmatch, zero_add]

theorem add_told (ptr : ℕ) (a : Args) (ha : Fits a) (ht : Wf hashfXorKey t)
    (hread : ∀ user host, read hashfXorKey t user host = rest user host) :
    Wf hashfXorKey (perform hashfXorKey t ⟨.add, ptr, a⟩) ∧
      ∀ user host, read hashfXorKey (perform hashfXorKey t ⟨.add, ptr, a⟩) user host =
        share (some a) user host + rest user host := by
  obtain ⟨hwf, hnew⟩ := addUserHost_read hashfXorKey t ht a.user a.host a.global ha.1 ha.2
  refine ⟨hwf, ?_⟩
  intro user host
  show read hashfXorKey (addUserHost hashfXorKey t a.user a.host a.global) user host = _
  rw [hnew, hread, add_comm]
  rfl

/-- Behind the calls of a client the hash has what is told of it now. -/
theorem moves_table (ptr : ℕ) (o o' : Option Args) (calls : List Call) (h : Moves ptr o o' calls)
    (hfits : ∀ a, o' = some a → Fits a) (ht : Wf hashfXorKey t)
    (hread : ∀ user host, read hashfXorKey t user host = share o user host + rest user host)
    (hrest : ∀ user host, Sane (rest user host)) :
    Wf hashfXorKey (calls.foldl (perform hashfXorKey) t) ∧
      (∀ user host, read hashfXorKey (calls.foldl (perform hashfXorKey) t) user host =
        share o' user host + rest user host) ∧
      Covered hashfXorKey t calls := by
  rcases h with ⟨rfl, rfl⟩ | rfl
  · exact ⟨ht, hread, trivial⟩
  have hadd : ∀ t, Wf hashfXorKey t → (∀ user host, read hashfXorKey t user host = rest user host) →
      Wf hashfXorKey ((o'.toList.map fun a => (⟨.add, ptr, a⟩ : Call)).foldl
        (perform hashfXorKey) t) ∧
      (∀ user host, read hashfXorKey ((o'.toList.map fun a => (⟨.add, ptr, a⟩ : Call)).foldl
        (perform hashfXorKey) t) user host = share o' user host + rest user host) ∧
      Covered hashfXorKey t (o'.toList.map fun a => ⟨.add, ptr, a⟩) := by
    intro t ht hread
    cases o' with
    | none => exact ⟨ht, fun user host => (hread user host).trans (zero_add _).symm, trivial⟩
    | some a =>
      obtain ⟨hwf, hnew⟩ := add_told hashfXorKey t rest ptr a (hfits a rfl) ht hread
      exact ⟨hwf, hnew, fun h => absurd h (by simp), trivial⟩
  cases o with
  | none => exact hadd t ht (fun user host => (hread user host).trans (zero_add _))
  | some a =>
    obtain ⟨hwf, hless, hle⟩ := delete_told hashfXorKey t rest ptr a ht hread hrest
    obtain ⟨hwf', hnew, hcovered⟩ := hadd _ hwf hless
    exact ⟨hwf', hnew, fun _ => hle, hcovered⟩

end Table

/-- One client moves, and the others stay as they are. -/
structure Turn (clients clients' : List Client) (calls : List Call) : Prop where
  keyed : Keyed Client.ptr clients'
  proper : ∀ c ∈ clients', Proper c
  moves : ∃ ptr o o', Moves ptr o o' calls ∧ (∀ a, o' = some a → Fits a) ∧
    owed clients ptr = o ∧ owed clients' ptr = o' ∧
    (∀ p, p ≠ ptr → owed clients' p = owed clients p) ∧
    ∃ rest : CStr → CStr → Counts, (∀ user host, Sane (rest user host)) ∧
      (∀ user host, total clients user host = share o user host + rest user host) ∧
      ∀ user host, total clients' user host = share o' user host + rest user host

theorem owed_eq (clients : List Client) (ptr : ℕ) :
    owed clients ptr = (lookup Client.ptr ptr clients).bind Client.told := rfl

theorem turn_stay (clients : List Client) (hkeyed : Keyed Client.ptr clients)
    (hproper : ∀ c ∈ clients, Proper c) : Turn clients clients [] := by
  refine ⟨hkeyed, hproper, 0, owed clients 0, owed clients 0, moves_stay 0 _, ?_, rfl, rfl,
    fun _ _ => rfl, ?_⟩
  · intro a ha
    rw [owed_eq] at ha
    obtain ⟨c, _, hc⟩ := Option.bind_eq_some_iff.mp ha
    exact told_fits c a hc
  · cases hfind : lookup Client.ptr 0 clients with
    | none =>
      have hnone : owed clients 0 = none := by rw [owed_eq, hfind]; rfl
      rw [hnone]
      exact ⟨total clients, total_sane clients, fun _ _ => (zero_add _).symm,
        fun _ _ => (zero_add _).symm⟩
    | some c =>
      have hsome : owed clients 0 = c.told := by rw [owed_eq, hfind]; rfl
      obtain ⟨l₁, l₂, rfl⟩ := List.append_of_mem (lookup_mem Client.ptr 0 clients c hfind)
      have hsplit : ∀ user host, total (l₁ ++ c :: l₂) user host =
          share c.told user host + total (l₁ ++ l₂) user host := by
        intro user host
        unfold total
        rw [(List.perm_middle.map _).sum_eq, List.map_cons, List.sum_cons]
      rw [hsome]
      exact ⟨total (l₁ ++ l₂), total_sane _, hsplit, hsplit⟩

theorem turn_onClient (clients : List Client) (ptr : ℕ) (op : Op)
    (hkeyed : Keyed Client.ptr clients) (hproper : ∀ c ∈ clients, Proper c) :
    Turn clients (onClient clients ptr op).1 (onClient clients ptr op).2 := by
  unfold onClient
  cases hfind : lookup Client.ptr ptr clients with
  | none => exact turn_stay clients hkeyed hproper
  | some c =>
    dsimp only
    cases hchange : change (fun c => decide (c.ptr = ptr)) (fun c => (react c op).1) clients with
    | none =>
      have hnone := (change_eq_none Client.ptr ptr _ clients).mp hchange
      rw [hfind] at hnone
      cases hnone
    | some clients' =>
      obtain ⟨c₀, hchanged⟩ := change_some Client.ptr ptr _ clients clients' hkeyed
        (fun a b hab => react_ptr a b op hab) hchange
      obtain rfl : c = c₀ := Option.some.inj (hfind.symm.trans hchanged.entry)
      obtain ⟨l₁, c₁, l₂, rfl, hc₁, hbefore, rfl⟩ := change_split _ _ clients clients' hchange
      have hfirst : c₁ = c := by
        have hlook := lookup_of_mem Client.ptr _ hkeyed c₁ (by simp)
        rw [show c₁.ptr = ptr by simpa using hc₁, hfind] at hlook
        exact (Option.some.inj hlook).symm
      subst hfirst
      obtain rfl : c₁.ptr = ptr := by simpa using hc₁
      have hc := hproper c₁ (by simp)
      refine ⟨hchanged.keyed, ?_, c₁.ptr, c₁.told, (react c₁ op).1.bind Client.told,
        react_moves c₁ op hc, ?_, ?_, ?_, ?_, total (l₁ ++ l₂), total_sane _, ?_, ?_⟩
      · intro d hd
        rcases hchanged.mem d hd with heq | ⟨hd, _⟩
        · exact react_proper c₁ d op hc heq
        · exact hproper d hd
      · intro a ha
        obtain ⟨d, _, hd⟩ := Option.bind_eq_some_iff.mp ha
        exact told_fits d a hd
      · rw [owed_eq, hfind]
        rfl
      · rw [owed_eq, Option.getD_some, hchanged.lookup_eq, if_pos rfl]
      · intro p hp
        rw [owed_eq, owed_eq, Option.getD_some, hchanged.lookup_eq, if_neg hp]
      · intro user host
        unfold total
        rw [(List.perm_middle.map _).sum_eq, List.map_cons, List.sum_cons]
      · intro user host
        rw [Option.getD_some, total_append, total_append, total_append, total_toList,
          add_left_comm]

theorem turn_new (clients : List Client) (c : Client) (calls : List Call)
    (hkeyed : Keyed Client.ptr clients) (hproper : ∀ c ∈ clients, Proper c)
    (hnew : lookup Client.ptr c.ptr clients = none) (hc : Proper c)
    (hmoves : Moves c.ptr none c.told calls) : Turn clients (c :: clients) calls := by
  refine ⟨keyed_cons Client.ptr c clients hkeyed hnew, ?_, c.ptr, none, c.told, hmoves,
    told_fits c, ?_, ?_, ?_, total clients, total_sane clients, ?_, ?_⟩
  · intro d hd
    rcases List.mem_cons.mp hd with rfl | hd
    · exact hc
    · exact hproper d hd
  · rw [owed_eq, hnew]
    rfl
  · rw [owed_eq, lookup_cons, if_pos rfl]
    rfl
  · intro p hp
    rw [owed_eq, owed_eq, lookup_cons, if_neg hp.symm]
  · intro user host
    exact (zero_add _).symm
  · intro user host
    unfold total
    rw [List.map_cons, List.sum_cons]

theorem turn_outcome (clients : List Client) (op : Op) (hkeyed : Keyed Client.ptr clients)
    (hproper : ∀ c ∈ clients, Proper c) :
    Turn clients (outcome clients op).1 (outcome clients op).2 := by
  cases op with
  | connect ptr host =>
    by_cases hold : (lookup Client.ptr ptr clients).isSome = true
    · rw [show outcome clients (.connect ptr host) = (clients, []) from if_pos hold]
      exact turn_stay clients hkeyed hproper
    · rw [show outcome clients (.connect ptr host) = (newConnection ptr host :: clients, []) from
        if_neg hold]
      have hnew : lookup Client.ptr ptr clients = none := by simpa using hold
      apply turn_new clients (newConnection ptr host) [] hkeyed hproper hnew
      · intro h
        cases h
      · exact moves_stay ptr none
  | introduce ptr username host wrongDirection =>
    by_cases hold : (lookup Client.ptr ptr clients).isSome = true ∨ wrongDirection = true
    · rw [show outcome clients (.introduce ptr username host wrongDirection) = (clients, []) from
        if_pos hold]
      exact turn_stay clients hkeyed hproper
    · rw [show outcome clients (.introduce ptr username host wrongDirection) =
        (newRemote ptr username host :: clients, [callAdd (newRemote ptr username host)]) from
        if_neg hold]
      rw [not_or] at hold
      have hnew : lookup Client.ptr ptr clients = none := by simpa using hold.1
      apply turn_new clients (newRemote ptr username host) _ hkeyed hproper hnew
      · exact fun _ => rfl
      · exact Or.inr rfl
  | count user host => exact turn_stay clients hkeyed hproper
  | identify ptr username host => exact turn_onClient clients ptr _ hkeyed hproper
  | register ptr gotId noTilde accepted => exact turn_onClient clients ptr _ hkeyed hproper
  | hostmask ptr hostname what => exact turn_onClient clients ptr _ hkeyed hproper
  | exit ptr => exact turn_onClient clients ptr _ hkeyed hproper

/-- The hash has what the clients add up to. -/
structure Exact (hashfXorKey : BitVec 32) (w : World) : Prop where
  keyed : Keyed Client.ptr w.clients
  proper : ∀ c ∈ w.clients, Proper c
  wf : Wf hashfXorKey w.table
  read_eq : ∀ user host, read hashfXorKey w.table user host = total w.clients user host

section Runs

variable (hashfXorKey : BitVec 32)

theorem exact_start : Exact hashfXorKey start :=
  ⟨List.nodup_nil, by simp [start], wf_empty hashfXorKey, fun _ _ => rfl⟩

/-- Looking at the counts before an operation makes no difference. -/
theorem tableOf_wf (w : World) (op : Op) (h : Exact hashfXorKey w) :
    ∃ t, Wf hashfXorKey t ∧ (∀ user host, read hashfXorKey t user host =
        total w.clients user host) ∧
      (step hashfXorKey w op).table = (outcome w.clients op).2.foldl (perform hashfXorKey) t ∧
      ((outcome w.clients op).2 ≠ [] → t = w.table) := by
  cases op with
  | count user host =>
    obtain ⟨hwf, hread⟩ := countUserHost_table hashfXorKey w.table h.wf user host 0
    exact ⟨_, hwf, fun user' host' => (hread user' host').trans (h.read_eq user' host'), rfl,
      fun hne => absurd rfl hne⟩
  | connect ptr host => exact ⟨w.table, h.wf, h.read_eq, rfl, fun _ => rfl⟩
  | introduce ptr username host wrongDirection =>
    exact ⟨w.table, h.wf, h.read_eq, rfl, fun _ => rfl⟩
  | identify ptr username host => exact ⟨w.table, h.wf, h.read_eq, rfl, fun _ => rfl⟩
  | register ptr gotId noTilde accepted => exact ⟨w.table, h.wf, h.read_eq, rfl, fun _ => rfl⟩
  | hostmask ptr hostname what => exact ⟨w.table, h.wf, h.read_eq, rfl, fun _ => rfl⟩
  | exit ptr => exact ⟨w.table, h.wf, h.read_eq, rfl, fun _ => rfl⟩

theorem exact_step (w : World) (op : Op) (h : Exact hashfXorKey w) :
    Exact hashfXorKey (step hashfXorKey w op) ∧
      Covered hashfXorKey w.table (outcome w.clients op).2 := by
  obtain ⟨hkeyed, hproper, ptr, o, o', hmoves, hfits, _, _, _, rest, hrest, hold, hnew⟩ :=
    turn_outcome w.clients op h.keyed h.proper
  obtain ⟨t, hwf, hread, htable, hsame⟩ := tableOf_wf hashfXorKey w op h
  obtain ⟨hwf', hread', hcovered⟩ := moves_table hashfXorKey t rest ptr o o' _ hmoves hfits hwf
    (fun user host => (hread user host).trans (hold user host)) hrest
  refine ⟨⟨hkeyed, hproper, htable ▸ hwf', ?_⟩, ?_⟩
  · intro user host
    rw [htable, hread']
    exact (hnew user host).symm
  · by_cases hnil : (outcome w.clients op).2 = []
    · rw [hnil]
      trivial
    · rw [← hsame hnil]
      exact hcovered

theorem exact_run (w : World) (ops : List Op) (h : Exact hashfXorKey w) :
    Exact hashfXorKey (run hashfXorKey w ops) := by
  induction ops generalizing w with
  | nil => exact h
  | cons op ops ih => exact ih _ (exact_step hashfXorKey w op h).1

theorem replay_none (call : Call) (calls : List Call) : replay none (call :: calls) =
    if call.act = .add then replay (some call.args) calls else none := rfl

theorem replay_some (a : Args) (call : Call) (calls : List Call) :
    replay (some a) (call :: calls) =
      if call.act = .delete ∧ call.args = a then replay none calls else none := rfl

theorem replay_append (o : Option Args) (calls calls' : List Call) :
    replay o (calls ++ calls') = (replay o calls).bind fun o => replay o calls' := by
  induction calls generalizing o with
  | nil => cases o <;> rfl
  | cons call calls ih =>
    rw [List.cons_append]
    cases o with
    | none =>
      rw [replay_none, replay_none]
      split
      · exact ih _
      · rfl
    | some a =>
      rw [replay_some, replay_some]
      split
      · exact ih _
      · rfl

theorem moves_ptr (ptr : ℕ) (o o' : Option Args) (calls : List Call) (h : Moves ptr o o' calls) :
    ∀ call ∈ calls, call.ptr = ptr := by
  intro call hcall
  rcases h with ⟨rfl, _⟩ | rfl
  · cases hcall
  · rcases List.mem_append.mp hcall with hcall | hcall
    · obtain ⟨a, _, rfl⟩ := List.mem_map.mp hcall
      rfl
    · obtain ⟨a, _, rfl⟩ := List.mem_map.mp hcall
      rfl

theorem moves_replay (ptr : ℕ) (o o' : Option Args) (calls : List Call)
    (h : Moves ptr o o' calls) : replay o calls = some o' := by
  rcases h with ⟨rfl, rfl⟩ | rfl
  · cases o <;> rfl
  · cases o with
    | none => cases o' <;> simp [replay]
    | some a => cases o' <;> simp [replay]

theorem turn_replay (clients clients' : List Client) (calls : List Call)
    (h : Turn clients clients' calls) (p : ℕ) :
    replay (owed clients p) (calls.filter fun call => decide (call.ptr = p)) =
      some (owed clients' p) := by
  obtain ⟨ptr, o, o', hmoves, _, hold, hnew, hothers, _⟩ := h.moves
  have hptr := moves_ptr ptr o o' calls hmoves
  by_cases hp : p = ptr
  · have hall : calls.filter (fun call => decide (call.ptr = p)) = calls := by
      apply List.filter_eq_self.mpr
      intro call hcall
      rw [hptr call hcall, hp]
      exact decide_eq_true rfl
    rw [hall, hp, hold, hnew]
    exact moves_replay ptr o o' calls hmoves
  · have hnone : calls.filter (fun call => decide (call.ptr = p)) = [] := by
      apply List.filter_eq_nil_iff.mpr
      intro call hcall heq
      exact hp ((of_decide_eq_true heq).symm.trans (hptr call hcall))
    rw [hnone, hothers p hp]
    cases owed clients p <;> rfl

theorem trace_replay (w : World) (ops : List Op) (h : Exact hashfXorKey w) (p : ℕ) :
    replay (owed w.clients p) ((trace hashfXorKey w ops).filter fun call => decide (call.ptr = p)) =
      some (owed (run hashfXorKey w ops).clients p) := by
  induction ops generalizing w with
  | nil =>
    show replay (owed w.clients p) [] = some (owed w.clients p)
    cases owed w.clients p <;> rfl
  | cons op ops ih =>
    unfold trace
    rw [List.filter_append, replay_append,
      turn_replay _ _ _ (turn_outcome w.clients op h.keyed h.proper) p, Option.bind_some]
    exact ih _ (exact_step hashfXorKey w op h).1

end Runs

section Counters

variable (hashfXorKey : BitVec 32)

theorem share_told (c : Client) (user host : CStr) : share c.told user host =
    (if under user host c then 1 else 0,
      if under user host c && c.myConnect then 1 else 0,
      if under user host c && c.myConnect && hasIdent c.username then 1 else 0) := by
  have hmatch : under user host c = (c.userHost &&
      decide (fold host = fold c.host ∧ fold user = fold (withoutTilde c.username))) := by
    unfold under fold
    rw [Bool.and_assoc, Bool.decide_and, decide_eq_decide.mpr (irccmp_eq_zero_iff host c.host),
      decide_eq_decide.mpr (irccmp_eq_zero_iff user (withoutTilde c.username))]
  rw [hmatch]
  unfold share Client.told Client.args weight
  by_cases h : fold host = fold c.host ∧ fold user = fold (withoutTilde c.username)
  · cases c.userHost <;> cases c.myConnect <;> cases hident : hasIdent c.username <;>
      simp [h, hident] <;> rfl
  · cases c.userHost <;> simp [h] <;> rfl

theorem total_count (clients : List Client) (user host : CStr) : total clients user host =
    (clients.countP (under user host),
      clients.countP (fun c => under user host c && c.myConnect),
      clients.countP (fun c => under user host c && c.myConnect && hasIdent c.username)) := by
  induction clients with
  | nil => rfl
  | cons c clients ih =>
    unfold total at ih ⊢
    rw [List.map_cons, List.sum_cons, ih, share_told, List.countP_cons, List.countP_cons,
      List.countP_cons]
    ext
    · exact add_comm _ _
    · exact add_comm _ _
    · exact add_comm _ _

theorem entry_client (w : World) (h : Exact hashfXorKey w) (k : ℕ) (u : UserHost)
    (hu : u ∈ w.table k) (n : NameHost) (hn : n ∈ u.list) :
    ∃ c ∈ w.clients, under n.name u.host c = true := by
  have hgood := h.wf.good k u hu
  have hread : read hashfXorKey w.table n.name u.host = n.counts := by
    unfold UserHostHash.read
    rw [h.wf.hash k u hu, show fold u.host = hostKey u from rfl,
      lookup_of_mem hostKey _ (h.wf.keyed k) u hu]
    show readName u.list (fold n.name) = n.counts
    unfold readName
    rw [show fold n.name = nameKey n from rfl, lookup_of_mem nameKey _ hgood.1.keyed n hn]
    rfl
  have hpos : 0 < w.clients.countP (under n.name u.host) := by
    have hcount := (hread.symm.trans (h.read_eq n.name u.host)).trans (total_count _ _ _)
    have hfirst : n.gcount = w.clients.countP (under n.name u.host) := congrArg Prod.fst hcount
    rw [← hfirst]
    exact hgood.1.pos n hn
  exact List.countP_pos_iff.mp hpos

theorem counters_exact (ops : List Op) :
    (∀ user host,
      (countUserHost hashfXorKey (run hashfXorKey start ops).table user host 0).1 =
        ((run hashfXorKey start ops).clients.countP (under user host),
          (run hashfXorKey start ops).clients.countP (fun c => under user host c && c.myConnect),
          (run hashfXorKey start ops).clients.countP
            (fun c => under user host c && c.myConnect && hasIdent c.username))) ∧
    (∀ k, ∀ u ∈ (run hashfXorKey start ops).table k, u.list ≠ [] ∧ ∀ n ∈ u.list,
      ∃ c ∈ (run hashfXorKey start ops).clients, under n.name u.host c = true) ∧
    (∀ ptr, replay none
        ((trace hashfXorKey start ops).filter fun call => decide (call.ptr = ptr)) =
      some (owed (run hashfXorKey start ops).clients ptr)) ∧
    (∀ before op behind, ops = before ++ op :: behind →
      Covered hashfXorKey (run hashfXorKey start before).table
        (outcome (run hashfXorKey start before).clients op).2) := by
  have hexact := exact_run hashfXorKey start ops (exact_start hashfXorKey)
  refine ⟨?_, ?_, ?_, ?_⟩
  · intro user host
    rw [countUserHost_read, hexact.read_eq, total_count]
  · intro k u hu
    exact ⟨(hexact.wf.good k u hu).2, entry_client hashfXorKey _ hexact k u hu⟩
  · intro ptr
    exact trace_replay hashfXorKey start ops (exact_start hashfXorKey) ptr
  · intro before op behind _
    exact (exact_step hashfXorKey _ op
      (exact_run hashfXorKey start before (exact_start hashfXorKey))).2

end Counters

end IrcdHybrid.UserHosts
