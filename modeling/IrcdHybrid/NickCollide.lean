import IrcdHybrid.CString
import IrcdHybrid.Delivery

/-!
Nick collisions between two linked servers. A server sees the clients behind
the link through UID, NICK and KILL. When both sides take a nick at once, each
runs its own collision rule with the roles of target and newcomer exchanged.
The rules are mirror images except for one comparison: a UID looks only at the
target's address to decide whether hosts or addresses tell users apart.
-/

namespace IrcdHybrid.NickCollide

open CString Delivery

def nickLen : ℕ := 12
def userLen : ℕ := 40
def hostLen : ℕ := 63
def hostIpLen : ℕ := 45
def idLen : ℕ := 12

/-- `valid_nickname` for a remote nick. -/
def validNickname (nick : CStr) : Bool :=
  !nick.isEmpty && nick.head? != some '-' && nick.all isNickChar && nick.length ≤ nickLen

def validHostname (host : CStr) : Bool :=
  !host.isEmpty && host.head? != some '.' && host.head? != some ':' && host.all isHostChar &&
    host.length ≤ hostLen

/-- A registered client as one server knows it; `viaLink` when it lives on the
other side of the link. -/
structure Client where
  id : CStr
  name : CStr
  username : CStr
  host : CStr
  sockhost : CStr
  tsinfo : ℕ
  viaLink : Bool

/-- What registration has checked and the sizes of the fields. -/
structure Client.WellFormed (c : Client) : Prop where
  id_digit : c.id.head?.any isDigit = true
  id_len : c.id.length ≤ idLen
  name_valid : validNickname c.name = true
  username_len : c.username.length ≤ userLen
  host_valid : validHostname c.host = true
  sockhost_len : c.sockhost.length ≤ hostIpLen
  tsinfo_pos : 0 < c.tsinfo

/-- The client hash: registered clients, and the nicks of local connections that
have not registered yet. -/
structure Table where
  clients : List Client
  unknown : List CStr

inductive Found where
  | client (c : Client)
  | unknown (nick : CStr)

def hashFindClient (t : Table) (nick : CStr) : Option Found :=
  match t.clients.find? fun c => irccmp nick c.name = 0 with
  | some c => some (.client c)
  | none => (t.unknown.find? fun n => irccmp nick n = 0).map .unknown

def hashFindId (t : Table) (id : CStr) : Option Client := t.clients.find? fun c => c.id = id

/-- The parameters of a UID message that are kept. -/
structure UidParams where
  nick : CStr
  ts : ℕ
  username : CStr
  host : CStr
  ip : CStr
  uid : CStr

/-- Messages over the link; NICK carries the prefix of its sender. -/
inductive Msg where
  | uid (p : UidParams)
  | nick (source nick : CStr) (ts : ℕ)
  | kill (victim : CStr)

/-- `exit_client` of a client marked killed: no QUIT is sent. -/
def exitClient (t : Table) (c : Client) : Table :=
  { t with clients := t.clients.filter fun d => d.id ≠ c.id }

def exitUnknown (t : Table) (nick : CStr) : Table :=
  { t with unknown := t.unknown.filter fun n => n ≠ nick }

/-- Whether target and newcomer of a UID are the same user. -/
def uidSameUser (target : Client) (p : UidParams) : Bool :=
  if target.sockhost = ['0'] then
    irccmp target.username p.username = 0 && irccmp target.host p.host = 0
  else irccmp target.username p.username = 0 && irccmp target.sockhost p.ip = 0

def nickSameUser (target source : Client) : Bool :=
  if target.sockhost = ['0'] ∨ source.sockhost = ['0'] then
    irccmp target.username source.username = 0 && irccmp target.host source.host = 0
  else irccmp target.username source.username = 0 && irccmp target.sockhost source.sockhost = 0

/-- `perform_uid_introduction_collides`; the flag tells whether the newcomer is
to be introduced. -/
def performUidIntroductionCollides (t : Table) (target : Client) (p : UidParams) :
    Table × List Msg × Bool :=
  if p.ts = 0 ∨ target.tsinfo = 0 ∨ p.ts = target.tsinfo then
    (exitClient t target, [.kill p.uid, .kill target.id], false)
  else
    let sameuser := uidSameUser target p
    if (sameuser ∧ p.ts < target.tsinfo) ∨ (¬ sameuser ∧ p.ts > target.tsinfo) then
      (t, [.kill p.uid], false)
    else (exitClient t target, [.kill target.id], true)

/-- `perform_nick_change_collides`. -/
def performNickChangeCollides (t : Table) (source target : Client) (newts : ℕ) :
    Table × List Msg × Bool :=
  if newts = 0 ∨ target.tsinfo = 0 ∨ newts = target.tsinfo then
    (exitClient (exitClient t source) target, [.kill source.id, .kill target.id], false)
  else
    let sameuser := nickSameUser target source
    if (sameuser ∧ newts < target.tsinfo) ∨ (¬ sameuser ∧ newts > target.tsinfo) then
      (exitClient t source, [.kill source.id], false)
    else (exitClient t target, [.kill target.id], true)

/-- `uid_from_server` -/
def uidFromServer (t : Table) (p : UidParams) : Table :=
  { t with clients :=
      { id := strlcpy p.uid (idLen + 1)
        name := strlcpy p.nick (nickLen + 1)
        username := strlcpy p.username (userLen + 1)
        host := strlcpy p.host (hostLen + 1)
        sockhost := strlcpy p.ip (hostIpLen + 1)
        tsinfo := p.ts
        viaLink := true } :: t.clients }

/-- The client under its new nick; a change of case alone keeps the timestamp. -/
def renamed (source : Client) (nick : CStr) (newts : ℕ) : Client :=
  { source with
    name := strlcpy nick (nickLen + 1)
    tsinfo := if irccmp source.name nick = 0 then source.tsinfo else newts }

/-- `change_remote_nick` -/
def changeRemoteNick (t : Table) (source : Client) (nick : CStr) (newts : ℕ) : Table :=
  { t with clients :=
      t.clients.map fun d => if d.id = source.id then renamed source nick newts else d }

def msUid (t : Table) (p : UidParams) : Table × List Msg :=
  -- check_clean_nick and check_clean_host; check_clean_user lets everything pass
  if !validNickname p.nick || !validHostname p.host then (t, [.kill p.nick])
  else
    match hashFindId t p.uid with
    | some target => (exitClient t target, [.kill target.id])
    | none =>
      match hashFindClient t p.nick with
      | none => (uidFromServer t p, [])
      | some (.unknown nick) => (uidFromServer (exitUnknown t nick) p, [])
      | some (.client target) =>
        match performUidIntroductionCollides t target p with
        | (t', replies, true) => (uidFromServer t' p, replies)
        | (t', replies, false) => (t', replies)

def msNick (t : Table) (source : Client) (nick : CStr) (newts : ℕ) : Table × List Msg :=
  if !validNickname nick then
    -- check_clean_nick
    (if source.viaLink then exitClient t source else t, [.kill nick])
  else
    match hashFindClient t nick with
    | none => (changeRemoteNick t source nick newts, [])
    | some (.unknown nick') => (changeRemoteNick (exitUnknown t nick') source nick newts, [])
    | some (.client target) =>
      if target.id = source.id then
        (if target.name ≠ nick then changeRemoteNick t source nick newts else t, [])
      else
        match performNickChangeCollides t source target newts with
        | (t', replies, true) => (changeRemoteNick t' source nick newts, replies)
        | (t', replies, false) => (t', replies)

/-- `find_person` for a message from a server. -/
def findPerson (t : Table) (name : CStr) : Option Client :=
  if name.head?.any isDigit then hashFindId t name
  else
    match hashFindClient t name with
    | some (.client c) => some c
    | _ => none

def msKill (t : Table) (victim : CStr) : Table × List Msg :=
  match findPerson t victim with
  | none => (t, [])
  | some target => (exitClient t target, [])

/-- `parse` finds the client a message comes from; one that is not behind the
link is a fake direction, and an unknown one is killed. -/
def handle (t : Table) : Msg → Table × List Msg
  | .uid p => msUid t p
  | .kill victim => msKill t victim
  | .nick source nick ts =>
    match hashFindId t source with
    | none => (t, [.kill source])
    | some c => if c.viaLink then msNick t c nick ts else (t, [])

/-- How a server tells its peer that a client has the nick. -/
inductive Announce where
  | uid
  | nick
  deriving DecidableEq, Repr

/-- `introduce_client` and the NICK line of `change_local_nick`. -/
def announce : Announce → Client → Msg
  | .uid, c => .uid ⟨c.name, c.tsinfo, c.username, c.host, c.sockhost, c.id⟩
  | .nick, c => .nick c.id c.name c.tsinfo

/-- What the receiver of the announcement knows of the client: nothing, or the
same user under another nick. -/
def Known (t : Table) (c : Client) : Announce → Prop
  | .uid => ∀ d ∈ t.clients, d.id ≠ c.id
  | .nick => ∃ old ∈ t.clients, old.id = c.id ∧ old.viaLink = true ∧
      old.username = c.username ∧ old.host = c.host ∧ old.sockhost = c.sockhost ∧
      irccmp c.name old.name ≠ 0 ∧ ∀ d ∈ t.clients, d.id = c.id → d = old

/-- One side of a collision: `c` holds its nick alone, and `other` is about to
be announced with the same nick. -/
structure Side (t : Table) (c other : Client) (way : Announce) : Prop where
  mem : c ∈ t.clients
  id_unique : ∀ d ∈ t.clients, d.id = c.id → d = c
  nick_unique : ∀ d ∈ t.clients, irccmp c.name d.name = 0 → d = c
  no_unknown : ∀ n ∈ t.unknown, irccmp c.name n ≠ 0
  known : Known t other way

/-- Both servers have given the nick away and not yet heard of the other's client. -/
structure Contest (tA tB : Table) (a b : Client) (wayA wayB : Announce) : Prop where
  a_wf : a.WellFormed
  b_wf : b.WellFormed
  ids_ne : a.id ≠ b.id
  same_nick : irccmp a.name b.name = 0
  sideA : Side tA a b wayB
  sideB : Side tB b a wayA

/-- User and address match: hosts count where an address is hidden behind "0". -/
def SameUser (a b : Client) : Prop :=
  irccmp a.username b.username = 0 ∧
    if a.sockhost = ['0'] ∨ b.sockhost = ['0'] then irccmp a.host b.host = 0
    else irccmp a.sockhost b.sockhost = 0

instance (a b : Client) : Decidable (SameUser a b) := inferInstanceAs (Decidable (_ ∧ _))

def Present (t : Table) (c : Client) : Prop := ∃ d ∈ t.clients, d.id = c.id

/-- The nick belongs to `c` and to nobody else. -/
def Owns (t : Table) (c : Client) (nick : CStr) : Prop :=
  (∃ d ∈ t.clients, d.id = c.id ∧ irccmp nick d.name = 0) ∧
    ∀ d ∈ t.clients, irccmp nick d.name = 0 → d.id = c.id

def Unowned (t : Table) (nick : CStr) : Prop := ∀ d ∈ t.clients, irccmp nick d.name ≠ 0

/-- The client that is to keep the nick. -/
def winner (a b : Client) : Client :=
  if SameUser a b then if a.tsinfo < b.tsinfo then b else a
  else if a.tsinfo < b.tsinfo then a else b

/-- The servers agree on the owner of the nick: nobody for equal timestamps, else
the winner, and the other client is gone. -/
def Agreed (a b : Client) (t : Table) : Prop :=
  if a.tsinfo = b.tsinfo then ¬ Present t a ∧ ¬ Present t b ∧ Unowned t a.name
  else Owns t (winner a b) a.name ∧
    (a.id ≠ (winner a b).id → ¬ Present t a) ∧ (b.id ≠ (winner a b).id → ¬ Present t b)

/-- A client announced by UID hides its address while the target shows its own. -/
def HidesAddress (way : Announce) (target newcomer : Client) : Prop :=
  way = .uid ∧ newcomer.sockhost = ['0'] ∧ target.sockhost ≠ ['0']

theorem irccmp_congr (a b c : CStr) (h : irccmp a b = 0) : irccmp a c = 0 ↔ irccmp b c = 0 := by
  simp only [irccmp_eq_zero_iff] at h ⊢
  rw [h]

theorem sameUser_comm (a b : Client) : SameUser a b ↔ SameUser b a := by
  have hor : (a.sockhost = ['0'] ∨ b.sockhost = ['0']) ↔
      (b.sockhost = ['0'] ∨ a.sockhost = ['0']) := or_comm
  simp only [SameUser, irccmp_comm_zero a.username, irccmp_comm_zero a.host,
    irccmp_comm_zero a.sockhost, hor]

/-- The comparison a server makes when the announcement arrives. -/
def sameAt (way : Announce) (target newcomer : Client) : Bool :=
  match way with
  | .uid => uidSameUser target ⟨newcomer.name, newcomer.tsinfo, newcomer.username, newcomer.host,
      newcomer.sockhost, newcomer.id⟩
  | .nick => nickSameUser target newcomer

theorem sameAt_iff (way : Announce) (target newcomer : Client) :
    sameAt way target newcomer = true ↔
      SameUser target newcomer ∧ ¬ HidesAddress way target newcomer := by
  cases way with
  | nick =>
    simp only [sameAt, nickSameUser, SameUser, HidesAddress]
    split <;> simp
  | uid =>
    simp only [sameAt, uidSameUser, SameUser, HidesAddress]
    by_cases ht : target.sockhost = ['0']
    · simp [ht]
    · by_cases hn : newcomer.sockhost = ['0']
      · -- the digit has no letter case, so "0" compares equal to itself only
        have hzero : irccmp target.sockhost ['0'] ≠ 0 := by
          rw [ne_eq, irccmp_zero_of_unfolded ['0'] _ (List.forall_mem_singleton.mpr (by decide))]
          exact ht
        simp [ht, hn, hzero]
      · simp [ht, hn]

/-- Who keeps the nick on the server where the announcement arrives: nobody, the
target or the newcomer. -/
def holder (way : Announce) (target newcomer : Client) : Option Client :=
  if newcomer.tsinfo = target.tsinfo then none
  else
    if (sameAt way target newcomer ∧ newcomer.tsinfo < target.tsinfo) ∨
        (¬ sameAt way target newcomer ∧ newcomer.tsinfo > target.tsinfo) then some target
    else some newcomer

/-- What the receiver of the announcement is left with, and whom it kills. -/
structure Settles (t : Table) (replies : List Msg) (c o : Client) (keeps : Option Client) :
    Prop where
  gone : ∀ x, x = c ∨ x = o → keeps ≠ some x → ¬ Present t x
  owns : ∀ w, keeps = some w → Owns t w c.name
  unowned : keeps = none → Unowned t c.name
  kills : ∀ m ∈ replies, ∃ x, (x = c ∨ x = o) ∧ m = .kill x.id
  killed : ∀ x, x = c ∨ x = o → (.kill x.id ∈ replies ↔ keeps ≠ some x)

theorem mem_exitClient (t : Table) (c d : Client) :
    d ∈ (exitClient t c).clients ↔ d ∈ t.clients ∧ d.id ≠ c.id := by
  simp [exitClient]

theorem mem_changeRemoteNick (t : Table) (source : Client) (nick : CStr) (newts : ℕ) (d : Client) :
    d ∈ (changeRemoteNick t source nick newts).clients ↔
      (d ∈ t.clients ∧ d.id ≠ source.id) ∨
        ∃ e ∈ t.clients, e.id = source.id ∧ d = renamed source nick newts := by
  simp only [changeRemoteNick, List.mem_map]
  constructor
  · rintro ⟨e, he, rfl⟩
    by_cases heid : e.id = source.id
    · exact Or.inr ⟨e, he, heid, by simp [heid]⟩
    · exact Or.inl (by simpa [heid] using he)
  · rintro (⟨hd, hdid⟩ | ⟨e, he, heid, rfl⟩)
    · exact ⟨d, hd, by simp [hdid]⟩
    · exact ⟨e, he, by simp [heid]⟩

theorem find_unique (l : List Client) (p : Client → Bool) (c : Client) (hc : c ∈ l)
    (hp : p c = true) (hunique : ∀ d ∈ l, p d = true → d = c) : l.find? p = some c := by
  cases h : l.find? p with
  | none => exact absurd hp (List.find?_eq_none.mp h c hc)
  | some d => rw [hunique d (List.mem_of_find?_eq_some h) (List.find?_some h)]

theorem Side.hashFindClient_eq (t : Table) (c o : Client) (way : Announce) (h : Side t c o way)
    (nick : CStr) (hnick : irccmp c.name nick = 0) :
    hashFindClient t nick = some (.client c) := by
  have hfind : t.clients.find? (fun d => irccmp nick d.name = 0) = some c := by
    refine find_unique t.clients _ c h.mem ?_ ?_
    · simpa using (irccmp_comm_zero c.name nick).mp hnick
    · intro d hd hdn
      refine h.nick_unique d hd ?_
      rw [irccmp_congr c.name nick d.name hnick]
      simpa using hdn
  simp [hashFindClient, hfind]

theorem validNickname_length (nick : CStr) (h : validNickname nick = true) :
    nick.length ≤ nickLen := by
  simp only [validNickname, Bool.and_eq_true, decide_eq_true_eq] at h
  exact h.2

theorem uidFromServer_eq (t : Table) (o : Client) (h : o.WellFormed) :
    uidFromServer t ⟨o.name, o.tsinfo, o.username, o.host, o.sockhost, o.id⟩ =
      { t with clients := { o with viaLink := true } :: t.clients } := by
  have hname := validNickname_length o.name h.name_valid
  have hhost : o.host.length ≤ hostLen := by
    have := h.host_valid
    simp only [validHostname, Bool.and_eq_true, decide_eq_true_eq] at this
    exact this.2
  simp [uidFromServer, strlcpy_of_le o.name nickLen hname, strlcpy_of_le o.host hostLen hhost,
    strlcpy_of_le o.id idLen h.id_len, strlcpy_of_le o.username userLen h.username_len,
    strlcpy_of_le o.sockhost hostIpLen h.sockhost_len]

theorem settles_none (t : Table) (c o : Client) (hc : ¬ Present t c) (ho : ¬ Present t o)
    (hnick : Unowned t c.name) : Settles t [.kill o.id, .kill c.id] c o none where
  gone := by
    rintro x (rfl | rfl) _
    exacts [hc, ho]
  owns := by simp
  unowned := fun _ => hnick
  kills := by
    intro m hm
    rcases List.mem_cons.mp hm with rfl | hm
    · exact ⟨o, Or.inr rfl, rfl⟩
    · exact ⟨c, Or.inl rfl, List.mem_singleton.mp hm⟩
  killed := by rintro x (rfl | rfl) <;> simp

theorem settles_some (t : Table) (c o keeps loses : Client) (hids : c.id ≠ o.id)
    (hcases : (keeps = c ∧ loses = o) ∨ (keeps = o ∧ loses = c)) (howns : Owns t keeps c.name)
    (hloses : ¬ Present t loses) : Settles t [.kill loses.id] c o (some keeps) where
  gone := by
    rcases hcases with ⟨rfl, rfl⟩ | ⟨rfl, rfl⟩ <;> rintro x (rfl | rfl) hx <;>
      first | exact hloses | exact absurd rfl hx
  owns := by
    rintro w ⟨⟩
    exact howns
  unowned := by simp
  kills := by
    intro m hm
    refine ⟨loses, ?_, List.mem_singleton.mp hm⟩
    rcases hcases with ⟨_, h⟩ | ⟨_, h⟩ <;> simp [h]
  killed := by
    have hne : c ≠ o := fun h => hids (congrArg Client.id h)
    rcases hcases with ⟨rfl, rfl⟩ | ⟨rfl, rfl⟩ <;> rintro x (rfl | rfl) <;>
      simp [hids, hids.symm, hne, hne.symm]

/-- What the two collision rules leave of the target's table. -/
theorem Side.exit_target (t : Table) (c o : Client) (way : Announce) (h : Side t c o way) :
    ¬ Present (exitClient t c) c ∧ Unowned (exitClient t c) c.name := by
  constructor
  · rintro ⟨d, hd, hdid⟩
    exact ((mem_exitClient t c d).mp hd).2 hdid
  · intro d hd hdn
    obtain ⟨hd, hdid⟩ := (mem_exitClient t c d).mp hd
    exact hdid (congrArg Client.id (h.nick_unique d hd hdn))

theorem Side.owns_target (t : Table) (c o : Client) (way : Announce) (h : Side t c o way) :
    Owns t c c.name :=
  ⟨⟨c, h.mem, rfl, irccmp_self _⟩, fun d hd hdn => congrArg Client.id (h.nick_unique d hd hdn)⟩

/-- The UID of a client that collides with `c`. -/
theorem handle_uid_settles (t : Table) (c o : Client) (h : Side t c o .uid) (hc : c.WellFormed)
    (ho : o.WellFormed) (hids : c.id ≠ o.id) (hnick : irccmp c.name o.name = 0) :
    Settles (handle t (announce .uid o)).1 (handle t (announce .uid o)).2 c o
      (holder .uid c o) := by
  have hknown : ∀ d ∈ t.clients, d.id ≠ o.id := h.known
  have hid : hashFindId t o.id = none := by simpa [hashFindId] using hknown
  have hfind := h.hashFindClient_eq t c o .uid o.name hnick
  have hvalid : (!validNickname o.name || !validHostname o.host) = false := by
    simp [ho.name_valid, ho.host_valid]
  have hto : o.tsinfo ≠ 0 := ho.tsinfo_pos.ne'
  have htc : c.tsinfo ≠ 0 := hc.tsinfo_pos.ne'
  have hsame : uidSameUser c ⟨o.name, o.tsinfo, o.username, o.host, o.sockhost, o.id⟩ =
      sameAt .uid c o := rfl
  obtain ⟨hgone, hunowned⟩ := h.exit_target t c o .uid
  simp only [announce, handle, msUid, hvalid, Bool.false_eq_true, ↓reduceIte, hid, hfind,
    performUidIntroductionCollides, holder, hsame, hto, htc, false_or]
  by_cases heq : o.tsinfo = c.tsinfo
  · simp only [heq, ↓reduceIte]
    refine settles_none _ c o hgone ?_ hunowned
    rintro ⟨d, hd, hdid⟩
    exact hknown d ((mem_exitClient t c d).mp hd).1 hdid
  · simp only [heq, ↓reduceIte]
    by_cases hkeep : (sameAt .uid c o = true ∧ o.tsinfo < c.tsinfo) ∨
        (¬ sameAt .uid c o = true ∧ o.tsinfo > c.tsinfo)
    · simp only [if_pos hkeep]
      refine settles_some t c o c o hids (Or.inl ⟨rfl, rfl⟩) (h.owns_target t c o .uid) ?_
      rintro ⟨d, hd, hdid⟩
      exact hknown d hd hdid
    · simp only [if_neg hkeep, uidFromServer_eq _ o ho]
      refine settles_some _ c o o c hids (Or.inr ⟨rfl, rfl⟩) ⟨⟨_, List.mem_cons_self, rfl, hnick⟩,
        ?_⟩ ?_
      · intro d hd hdn
        rcases List.mem_cons.mp hd with rfl | hd
        · rfl
        · exact absurd hdn (hunowned d hd)
      · rintro ⟨d, hd, hdid⟩
        rcases List.mem_cons.mp hd with rfl | hd
        · exact hids hdid.symm
        · exact hgone ⟨d, hd, hdid⟩

/-- The NICK of a known client that collides with `c`. -/
theorem handle_nick_settles (t : Table) (c o : Client) (h : Side t c o .nick) (hc : c.WellFormed)
    (ho : o.WellFormed) (hids : c.id ≠ o.id) (hnick : irccmp c.name o.name = 0) :
    Settles (handle t (announce .nick o)).1 (handle t (announce .nick o)).2 c o
      (holder .nick c o) := by
  obtain ⟨old, hmem, holdid, hvia, huser, hhost, hsock, hother, hunique⟩ := h.known
  have hid : hashFindId t o.id = some old :=
    find_unique t.clients _ old hmem (by simpa using holdid) fun d hd hdid =>
      hunique d hd (by simpa using hdid)
  have hfind := h.hashFindClient_eq t c o .nick o.name hnick
  have hto : o.tsinfo ≠ 0 := ho.tsinfo_pos.ne'
  have htc : c.tsinfo ≠ 0 := hc.tsinfo_pos.ne'
  have hids' : c.id ≠ old.id := holdid ▸ hids
  have hsame : nickSameUser c old = sameAt .nick c o := by
    simp [sameAt, nickSameUser, huser, hhost, hsock]
  obtain ⟨hgone, hunowned⟩ := h.exit_target t c o .nick
  have hgoneO : ¬ Present (exitClient t old) o := by
    rintro ⟨d, hd, hdid⟩
    exact ((mem_exitClient t old d).mp hd).2 (hdid.trans holdid.symm)
  simp only [announce, handle, hid, hvia, ↓reduceIte, msNick, ho.name_valid, Bool.not_true,
    Bool.false_eq_true, hfind, hids', performNickChangeCollides, hsame, holder, hto, htc,
    false_or]
  by_cases heq : o.tsinfo = c.tsinfo
  · simp only [heq, ↓reduceIte, holdid]
    refine settles_none _ c o ?_ ?_ ?_
    · rintro ⟨d, hd, hdid⟩
      exact ((mem_exitClient _ c d).mp hd).2 hdid
    · rintro ⟨d, hd, hdid⟩
      exact hgoneO ⟨d, ((mem_exitClient _ c d).mp hd).1, hdid⟩
    · intro d hd
      obtain ⟨hd, hdid⟩ := (mem_exitClient _ c d).mp hd
      exact hunowned d ((mem_exitClient t c d).mpr ⟨((mem_exitClient t old d).mp hd).1, hdid⟩)
  · simp only [heq, ↓reduceIte]
    by_cases hkeep : (sameAt .nick c o = true ∧ o.tsinfo < c.tsinfo) ∨
        (¬ sameAt .nick c o = true ∧ o.tsinfo > c.tsinfo)
    · simp only [if_pos hkeep, holdid]
      refine settles_some _ c o c o hids (Or.inl ⟨rfl, rfl⟩) ⟨⟨c, ?_, rfl, irccmp_self _⟩, ?_⟩
        hgoneO
      · exact (mem_exitClient t old c).mpr ⟨h.mem, hids'⟩
      · intro d hd hdn
        exact congrArg Client.id (h.nick_unique d ((mem_exitClient t old d).mp hd).1 hdn)
    · have hname : strlcpy o.name (nickLen + 1) = o.name :=
        strlcpy_of_le o.name nickLen (validNickname_length o.name ho.name_valid)
      simp only [if_neg hkeep]
      refine settles_some _ c o o c hids (Or.inr ⟨rfl, rfl⟩)
        ⟨⟨renamed old o.name o.tsinfo, ?_, holdid, ?_⟩, ?_⟩ ?_
      · refine (mem_changeRemoteNick _ old o.name o.tsinfo _).mpr (Or.inr ⟨old, ?_, rfl, rfl⟩)
        exact (mem_exitClient t c old).mpr ⟨hmem, hids'.symm⟩
      · change irccmp c.name (strlcpy o.name (nickLen + 1)) = 0
        rwa [hname]
      · intro d hd hdn
        rcases (mem_changeRemoteNick _ old o.name o.tsinfo d).mp hd with ⟨hd, _⟩ | ⟨_, _, _, rfl⟩
        · exact absurd hdn (hunowned d hd)
        · exact holdid
      · rintro ⟨d, hd, hdid⟩
        rcases (mem_changeRemoteNick _ old o.name o.tsinfo d).mp hd with ⟨hd, _⟩ | ⟨_, _, _, rfl⟩
        · exact hgone ⟨d, hd, hdid⟩
        · exact hids' hdid.symm

/-- The announcement of a client that collides with `c`. -/
theorem handle_announce_settles (t : Table) (c o : Client) (way : Announce) (h : Side t c o way)
    (hc : c.WellFormed) (ho : o.WellFormed) (hids : c.id ≠ o.id)
    (hnick : irccmp c.name o.name = 0) :
    Settles (handle t (announce way o)).1 (handle t (announce way o)).2 c o
      (holder way c o) := by
  cases way with
  | uid => exact handle_uid_settles t c o h hc ho hids hnick
  | nick => exact handle_nick_settles t c o h hc ho hids hnick

/-- The KILL of a UID takes that client away, where it is known, and is not answered. -/
theorem handle_kill (t : Table) (victim : CStr) (hdigit : victim.head?.any isDigit = true) :
    (handle t (.kill victim)).2 = [] ∧
      ∀ d, d ∈ (handle t (.kill victim)).1.clients ↔ d ∈ t.clients ∧ d.id ≠ victim := by
  simp only [handle, msKill, findPerson, hdigit, ↓reduceIte]
  cases hfind : hashFindId t victim with
  | none =>
    have hnone : ∀ d ∈ t.clients, d.id ≠ victim := by simpa [hashFindId] using hfind
    exact ⟨rfl, fun d => ⟨fun hd => ⟨hd, hnone d hd⟩, And.left⟩⟩
  | some c =>
    have hc : c.id = victim := by simpa using List.find?_some hfind
    refine ⟨rfl, fun d => ?_⟩
    rw [← hc]
    exact mem_exitClient t c d

theorem mem_kills (t : Table) (kills : List Msg)
    (h : ∀ m ∈ kills, ∃ x : Client, x.WellFormed ∧ m = .kill x.id) (d : Client) :
    d ∈ (kills.foldl (fun t m => (handle t m).1) t).clients ↔
      d ∈ t.clients ∧ .kill d.id ∉ kills := by
  induction kills generalizing t with
  | nil => simp
  | cons m kills ih =>
    obtain ⟨x, hx, rfl⟩ := h _ List.mem_cons_self
    rw [List.foldl_cons, ih _ fun m hm => h m (List.mem_cons_of_mem _ hm),
      (handle_kill t x.id hx.id_digit).2, List.mem_cons, not_or, Msg.kill.injEq, and_assoc]

/-- Both rules in one: a server keeps the client that its own comparison favours. -/
def favoured (same : Bool) (a b : Client) : Client :=
  if same then if a.tsinfo < b.tsinfo then b else a
  else if a.tsinfo < b.tsinfo then a else b

theorem holder_left (way : Announce) (a b : Client) (h : a.tsinfo ≠ b.tsinfo) :
    holder way a b = some (favoured (sameAt way a b) a b) := by
  rw [holder, if_neg h.symm]
  cases sameAt way a b <;> rcases Nat.lt_or_gt_of_ne h with hlt | hlt <;>
    simp [favoured, hlt, Nat.lt_asymm hlt]

theorem holder_right (way : Announce) (a b : Client) (h : a.tsinfo ≠ b.tsinfo) :
    holder way b a = some (favoured (sameAt way b a) a b) := by
  rw [holder, if_neg h]
  cases sameAt way b a <;> rcases Nat.lt_or_gt_of_ne h with hlt | hlt <;>
    simp [favoured, hlt, Nat.lt_asymm hlt]

theorem favoured_not_inj (a b : Client) (hids : a.id ≠ b.id) (s s' : Bool)
    (h : favoured s a b = favoured s' a b) : s = s' := by
  have hne : a ≠ b := fun heq => hids (congrArg Client.id heq)
  cases s <;> cases s' <;> by_cases hlt : a.tsinfo < b.tsinfo <;>
    simp_all [favoured, hne.symm]

theorem favoured_mem (s : Bool) (a b : Client) : favoured s a b = a ∨ favoured s a b = b := by
  unfold favoured
  split_ifs <;> simp

/-- One server after its own verdict and the KILLs that follow from the other's. -/
theorem after_kills (t : Table) (r r' : List Msg) (c o : Client) (k k' : Option Client)
    (hc : c.WellFormed) (ho : o.WellFormed) (h : Settles t r c o k)
    (hkills : ∀ m ∈ r', ∃ x, (x = c ∨ x = o) ∧ m = .kill x.id)
    (hkilled : ∀ x, x = c ∨ x = o → (.kill x.id ∈ r' ↔ k' ≠ some x)) :
    let t' := r'.foldl (fun t m => (handle t m).1) t
    (∀ x, x = c ∨ x = o → k ≠ some x ∨ k' ≠ some x → ¬ Present t' x) ∧
      (k = none → Unowned t' c.name) ∧
      (∀ w, w = c ∨ w = o → k = some w → k' = some w → Owns t' w c.name) := by
  have hmem : ∀ d, d ∈ (r'.foldl (fun t m => (handle t m).1) t).clients ↔
      d ∈ t.clients ∧ .kill d.id ∉ r' := by
    refine mem_kills t r' fun m hm => ?_
    obtain ⟨x, hx, rfl⟩ := hkills m hm
    refine ⟨x, ?_, rfl⟩
    rcases hx with rfl | rfl <;> assumption
  refine ⟨?_, ?_, ?_⟩
  · rintro x hx hno ⟨d, hd, hdid⟩
    obtain ⟨hd, hkill⟩ := (hmem d).mp hd
    rcases hno with hno | hno
    · exact h.gone x hx hno ⟨d, hd, hdid⟩
    · rw [hdid] at hkill
      exact hkill ((hkilled x hx).mpr hno)
  · intro hk d hd
    exact h.unowned hk d ((hmem d).mp hd).1
  · intro w hw hk hk'
    obtain ⟨⟨d, hd, hdid, hdn⟩, honly⟩ := h.owns w hk
    refine ⟨⟨d, (hmem d).mpr ⟨hd, ?_⟩, hdid, hdn⟩, fun e he => honly e ((hmem e).mp he).1⟩
    rw [hdid, hkilled w hw]
    simpa using hk'

theorem Owns.congr (t : Table) (c : Client) (n n' : CStr) (hn : irccmp n n' = 0)
    (h : Owns t c n) : Owns t c n' := by
  obtain ⟨⟨d, hd, hdid, hdn⟩, honly⟩ := h
  exact ⟨⟨d, hd, hdid, (irccmp_congr n n' d.name hn).mp hdn⟩,
    fun e he hen => honly e he ((irccmp_congr n n' e.name hn).mpr hen)⟩

theorem winner_eq (a b : Client) : winner a b = favoured (decide (SameUser a b)) a b := by
  by_cases h : SameUser a b <;> simp [winner, favoured, h]

/-- The two comparisons come out alike exactly when no UID hides its address
from a matching user who shows his own; and then they are the right ones. -/
theorem sameAt_agree_iff (a b : Client) (wayA wayB : Announce) :
    sameAt wayB a b = sameAt wayA b a ↔
      ¬ SameUser a b ∨ (¬ HidesAddress wayA b a ∧ ¬ HidesAddress wayB a b) := by
  have hA := sameAt_iff wayB a b
  have hB := sameAt_iff wayA b a
  rw [sameUser_comm b a] at hB
  have hexclusive : ¬ (HidesAddress wayA b a ∧ HidesAddress wayB a b) := by
    rintro ⟨⟨_, h1, _⟩, ⟨_, _, h2⟩⟩
    exact h2 h1
  by_cases hsame : SameUser a b <;> by_cases h1 : HidesAddress wayA b a <;>
    by_cases h2 : HidesAddress wayB a b <;> simp_all

theorem sameAt_eq_of_agree (a b : Client) (wayA wayB : Announce)
    (h : sameAt wayB a b = sameAt wayA b a) : sameAt wayB a b = decide (SameUser a b) := by
  have hA := sameAt_iff wayB a b
  rcases (sameAt_agree_iff a b wayA wayB).mp h with hno | ⟨_, hB⟩
  · simp_all
  · by_cases hsame : SameUser a b <;> simp_all

/-- Every order of deliveries ends in one configuration; there the servers agree
unless their comparisons of the users differ. -/
theorem contest_ends (tA tB : Table) (a b : Client) (wayA wayB : Announce)
    (h : Contest tA tB a b wayA wayB) :
    ∃ d, Completes handle handle ⟨tA, tB, [announce wayB b], [announce wayA a]⟩ d ∧
      ((Agreed a b d.left ∧ Agreed a b d.right) ↔
        a.tsinfo = b.tsinfo ∨ sameAt wayB a b = sameAt wayA b a) := by
  have hnick' := (irccmp_comm_zero a.name b.name).mp h.same_nick
  have hA := handle_announce_settles tA a b wayB h.sideA h.a_wf h.b_wf h.ids_ne h.same_nick
  have hB := handle_announce_settles tB b a wayA h.sideB h.b_wf h.a_wf h.ids_ne.symm hnick'
  have hsilent : ∀ (r : List Msg) (c o : Client), c.WellFormed → o.WellFormed →
      (∀ m ∈ r, ∃ x, (x = c ∨ x = o) ∧ m = .kill x.id) →
      ∀ t, ∀ m ∈ r, (handle t m).2 = [] := by
    intro r c o hc ho hr t m hm
    obtain ⟨x, hx, rfl⟩ := hr m hm
    refine (handle_kill t x.id ?_).1
    rcases hx with rfl | rfl
    · exact hc.id_digit
    · exact ho.id_digit
  refine ⟨_, completes_crossing handle handle tA tB (announce wayB b) (announce wayA a)
    (hsilent _ b a h.b_wf h.a_wf hB.kills) (hsilent _ a b h.a_wf h.b_wf hA.kills), ?_⟩
  obtain ⟨hgoneA, hunA, hownA⟩ := after_kills _ _ _ a b _ _ h.a_wf h.b_wf hA
    (fun m hm => (hB.kills m hm).imp fun x hx => ⟨hx.1.symm, hx.2⟩)
    (fun x hx => hB.killed x hx.symm)
  obtain ⟨hgoneB, hunB, hownB⟩ := after_kills _ _ _ b a _ _ h.b_wf h.a_wf hB
    (fun m hm => (hA.kills m hm).imp fun x hx => ⟨hx.1.symm, hx.2⟩)
    (fun x hx => hA.killed x hx.symm)
  by_cases hts : a.tsinfo = b.tsinfo
  · have hkA : holder wayB a b = none := if_pos hts.symm
    have hkB : holder wayA b a = none := if_pos hts
    simp only [hts, true_or, iff_true, Agreed, ↓reduceIte]
    refine ⟨⟨hgoneA a (Or.inl rfl) (by simp [hkA]), hgoneA b (Or.inr rfl) (by simp [hkA]),
      hunA hkA⟩, hgoneB a (Or.inr rfl) (by simp [hkB]), hgoneB b (Or.inl rfl) (by simp [hkB]), ?_⟩
    intro d hd hdn
    exact hunB hkB d hd ((irccmp_congr a.name b.name d.name h.same_nick).mp hdn)
  · have hkA := holder_left wayB a b hts
    have hkB := holder_right wayA a b hts
    simp only [hts, false_or, Agreed, ↓reduceIte]
    constructor
    · rintro ⟨⟨⟨⟨d, hd, hdid, _⟩, _⟩, _⟩, _⟩
      by_contra hne
      refine hgoneA (winner a b) ?_ ?_ ⟨d, hd, hdid⟩
      · rw [winner_eq]
        exact favoured_mem _ a b
      · by_contra hboth
        obtain ⟨h1, h2⟩ := not_or.mp hboth
        rw [hkA, not_not, Option.some.injEq] at h1
        rw [hkB, not_not, Option.some.injEq] at h2
        exact hne (favoured_not_inj a b h.ids_ne _ _ (h1.trans h2.symm))
    · intro hsame
      have hw : winner a b = favoured (sameAt wayB a b) a b := by
        rw [winner_eq, sameAt_eq_of_agree a b wayA wayB hsame]
      rw [← hsame] at hkB
      rw [← hw] at hkA hkB
      have hmem : winner a b = a ∨ winner a b = b := hw ▸ favoured_mem _ a b
      have hlost : ∀ x : Client, x.id ≠ (winner a b).id → some (winner a b) ≠ some x := by
        rintro x hx heq
        rw [Option.some.injEq] at heq
        exact hx (congrArg Client.id heq.symm)
      refine ⟨⟨hownA _ hmem hkA hkB, fun hx => ?_, fun hx => ?_⟩,
        ⟨?_, fun hx => ?_, fun hx => ?_⟩⟩
      · exact hgoneA a (Or.inl rfl) (Or.inl (hkA ▸ hlost a hx))
      · exact hgoneA b (Or.inr rfl) (Or.inl (hkA ▸ hlost b hx))
      · exact Owns.congr _ _ b.name a.name hnick' (hownB _ hmem.symm hkB hkA)
      · exact hgoneB a (Or.inr rfl) (Or.inl (hkB ▸ hlost a hx))
      · exact hgoneB b (Or.inl rfl) (Or.inl (hkB ▸ hlost b hx))

/-- However the messages are delivered, both servers end with the same owner of
the nick exactly when the timestamps are equal, the users differ, or no UID
hides its address from a client that shows its own. -/
theorem collision_agreed_iff (tA tB : Table) (a b : Client) (wayA wayB : Announce)
    (h : Contest tA tB a b wayA wayB) :
    (∀ d, Completes handle handle ⟨tA, tB, [announce wayB b], [announce wayA a]⟩ d →
        Agreed a b d.left ∧ Agreed a b d.right) ↔
      a.tsinfo = b.tsinfo ∨ ¬ SameUser a b ∨
        (¬ HidesAddress wayA b a ∧ ¬ HidesAddress wayB a b) := by
  obtain ⟨d, hd, hiff⟩ := contest_ends tA tB a b wayA wayB h
  rw [← sameAt_agree_iff, ← hiff]
  constructor
  · exact fun hall => hall d hd
  · intro hagreed e he
    rwa [completes_unique handle handle _ e d he hd]

/-- The same user on two servers, once behind "0" and once with the address. -/
def hidden : Client :=
  ⟨"1AAAAAAAA".toList, "nick".toList, "user".toList, "a.net".toList, "0".toList, 10, false⟩

def shown : Client :=
  ⟨"2AAAAAAAA".toList, "Nick".toList, "user".toList, "a.net".toList, "10.1.2.3".toList, 20, false⟩

theorem contest_hidden_shown :
    Contest ⟨[hidden], []⟩ ⟨[shown], []⟩ hidden shown .uid .uid where
  a_wf := ⟨by decide, by decide, by decide, by decide, by decide, by decide, by decide⟩
  b_wf := ⟨by decide, by decide, by decide, by decide, by decide, by decide, by decide⟩
  ids_ne := by decide
  same_nick := by decide
  sideA := ⟨by simp, by simp, by simp, by simp, fun d hd => by
    rw [List.mem_singleton.mp hd]
    decide⟩
  sideB := ⟨by simp, by simp, by simp, by simp, fun d hd => by
    rw [List.mem_singleton.mp hd]
    decide⟩

theorem collision_agreed_hidden_shown :
    (∀ d, Completes handle handle
        ⟨⟨[hidden], []⟩, ⟨[shown], []⟩, [announce .uid shown], [announce .uid hidden]⟩ d →
          Agreed hidden shown d.left ∧ Agreed hidden shown d.right) ↔
      hidden.tsinfo = shown.tsinfo ∨ ¬ SameUser hidden shown ∨
        (¬ HidesAddress .uid shown hidden ∧ ¬ HidesAddress .uid hidden shown) :=
  collision_agreed_iff _ _ _ _ _ _ contest_hidden_shown

/-- Both servers lose the client: the hosts agree on one side, "0" and the
address differ on the other. -/
theorem collision_kills_both :
    ¬ ∀ (tA tB : Table) (a b : Client) (wayA wayB : Announce), Contest tA tB a b wayA wayB →
      ∀ d, Completes handle handle ⟨tA, tB, [announce wayB b], [announce wayA a]⟩ d →
        Agreed a b d.left ∧ Agreed a b d.right := by
  intro hall
  obtain ⟨d, hd, hiff⟩ := contest_ends _ _ hidden shown .uid .uid contest_hidden_shown
  have hagree := hiff.mp (hall _ _ _ _ _ _ contest_hidden_shown d hd)
  revert hagree
  decide

end IrcdHybrid.NickCollide
