import IrcdHybrid.Hostmask

/-!
Bans on clients that are already connected. `check_conf_klines` looks for a D-,
G-, K- and X-line in this order and leaves a client alone as soon as it has found
one, also when `conf_try_ban` has over-ruled it because the client is exempt from
bans of that kind.
-/

namespace IrcdHybrid.BanEnforcement

open CString Netmask BestScan Match Hostmask

/-- What the check reads of a connected client. -/
structure Client where
  dead : Bool
  host : CStr
  username : CStr
  info : CStr
  ip : SsAddr
  aftype : Family
  exemptKline : Bool
  exemptGline : Bool

/-- An entry of `xconf_items`; `ptr` is its address, `count` how often it has banned. -/
structure Xline where
  ptr : ℕ
  name : CStr
  count : ℕ
  deriving DecidableEq

/-- `find_matching_name_conf` for X-lines, without a user and a host. -/
def findMatchingNameConf (xconfItems : List Xline) (name : CStr) : Option Xline :=
  xconfItems.find? (fun conf => conf.name ≠ [] && matchMask conf.name name == 0)

inductive BanType where
  | dline
  | gline
  | kline
  | xline
  deriving DecidableEq, Repr

section Check

variable (crypt : CStr → CStr → Option CStr)

/-- The lookup of an address entry; D-lines and exemptions go by the address alone. -/
def addrQuery (client : Client) (type : MaskitemType) : Query :=
  ⟨none, some client.ip, type, client.aftype, none, none⟩

def userQuery (client : Client) (type : MaskitemType) : Query :=
  ⟨some client.host, some client.ip, type, client.aftype, some client.username, none⟩

def findConf (t : Atable) (q : Query) : Bool := (findConfByAddress crypt t q true).isSome

/-- `conf_try_ban` for the D-, G- and K-lines: whether the client is exited. -/
def confTryBan (t : Atable) (client : Client) : BanType → Bool
  | .kline => !client.exemptKline
  | .dline => !findConf crypt t (addrQuery client .exempt)
  | .gline => !(client.exemptKline || client.exemptGline)
  | .xline => true

/-- `++conf->count`. -/
def countXline (conf : Xline) (xconfItems : List Xline) : List Xline :=
  xconfItems.map (fun x => if x.ptr = conf.ptr then { x with count := x.count + 1 } else x)

/-- The body of the loop over the local clients: whether the client is exited, and the X-lines. -/
def checkClient (t : Atable) (glines : Bool) (client : Client) (xconfItems : List Xline) :
    Bool × List Xline :=
  if client.dead then (false, xconfItems)
  else if findConf crypt t (addrQuery client .dline) then
    (confTryBan crypt t client .dline, xconfItems)
  else if glines && findConf crypt t (userQuery client .gline) then
    (confTryBan crypt t client .gline, xconfItems)
  else if findConf crypt t (userQuery client .kline) then
    (confTryBan crypt t client .kline, xconfItems)
  else
    match findMatchingNameConf xconfItems client.info with
    | some conf => (confTryBan crypt t client .xline, countXline conf xconfItems)
    | none => (false, xconfItems)

/-- The loop over `local_client_list`; a client that is exited leaves the list. -/
def checkLocalClients (t : Atable) (glines : Bool) :
    List Client → List Xline → List Client × List Xline
  | [], xconfItems => ([], xconfItems)
  | client :: rest, xconfItems =>
    let (exited, counted) := checkClient crypt t glines client xconfItems
    let (kept, final) := checkLocalClients t glines rest counted
    (if exited then kept else client :: kept, final)

/-- The loop over `unknown_list`, for D-lines only. -/
def checkUnknowns (t : Atable) (unknownList : List Client) : List Client :=
  unknownList.filter (fun client => !(findConf crypt t (addrQuery client .dline) &&
    confTryBan crypt t client .dline))

structure Lists where
  localClientList : List Client
  unknownList : List Client
  xconfItems : List Xline

def checkConfKlines (t : Atable) (glines : Bool) (l : Lists) : Lists :=
  let (kept, xconfItems) := checkLocalClients crypt t glines l.localClientList l.xconfItems
  ⟨kept, checkUnknowns crypt t l.unknownList, xconfItems⟩

/-- Some active ban of this type matches the client. -/
def Banned (l : AccessList) (glines : Bool) (xconfItems : List Xline) (client : Client) :
    BanType → Prop
  | .dline => ∃ r ∈ l.entries, accepts crypt (addrQuery client .dline) true r = true
  | .gline => glines = true ∧
      ∃ r ∈ l.entries, accepts crypt (userQuery client .gline) true r = true
  | .kline => ∃ r ∈ l.entries, accepts crypt (userQuery client .kline) true r = true
  | .xline => ∃ conf ∈ xconfItems, conf.name ≠ [] ∧ matchMask conf.name client.info = 0

/-- The client is exempt from bans of this type; nobody is exempt from X-lines. -/
def Exempt (l : AccessList) (client : Client) : BanType → Prop
  | .dline => ∃ r ∈ l.entries, accepts crypt (addrQuery client .exempt) true r = true
  | .gline => client.exemptKline = true ∨ client.exemptGline = true
  | .kline => client.exemptKline = true
  | .xline => False

/-- The first type of which the lookup finds a ban. -/
def firstBan (t : Atable) (glines : Bool) (xconfItems : List Xline) (client : Client) :
    Option BanType :=
  if findConf crypt t (addrQuery client .dline) then some .dline
  else if glines && findConf crypt t (userQuery client .gline) then some .gline
  else if findConf crypt t (userQuery client .kline) then some .kline
  else if (findMatchingNameConf xconfItems client.info).isSome then some .xline
  else none

/-- When the check does right by a client: the ban that it finds first is carried out, or
there is no other ban that he is not exempt from. -/
def RightlyTreated (t : Atable) (l : AccessList) (glines : Bool) (xconfItems : List Xline)
    (client : Client) : Prop :=
  match firstBan crypt t glines xconfItems client with
  | some type => confTryBan crypt t client type = true ∨ ∀ other, other ≠ type →
      Exempt crypt l client other ∨ ¬ Banned crypt l glines xconfItems client other
  | none => ∀ other, Exempt crypt l client other ∨ ¬ Banned crypt l glines xconfItems client other

theorem findMatchingNameConf_names (xs ys : List Xline) (name : CStr)
    (h : xs.map Xline.name = ys.map Xline.name) :
    (findMatchingNameConf xs name).isSome = (findMatchingNameConf ys name).isSome := by
  have hany : ∀ zs : List Xline, (findMatchingNameConf zs name).isSome =
      (zs.map Xline.name).any (fun mask => mask ≠ [] && matchMask mask name == 0) := by
    intro zs
    unfold findMatchingNameConf
    rw [Bool.eq_iff_iff, List.find?_isSome, List.any_map, List.any_eq_true]
    rfl
  rw [hany, hany, h]

theorem countXline_names (conf : Xline) (xs : List Xline) :
    (countXline conf xs).map Xline.name = xs.map Xline.name := by
  unfold countXline
  rw [List.map_map]
  apply List.map_congr_left
  intro x _
  dsimp only [Function.comp]
  split <;> rfl

theorem checkClient_names (t : Atable) (glines : Bool) (client : Client) (xs : List Xline) :
    (checkClient crypt t glines client xs).2.map Xline.name = xs.map Xline.name := by
  unfold checkClient
  split_ifs
  · rfl
  · rfl
  · rfl
  · rfl
  · split
    · exact countXline_names _ xs
    · rfl

/-- Who is exited in the walk. -/
def exits (t : Atable) (glines : Bool) (xs : List Xline) (client : Client) : Bool :=
  !client.dead && (firstBan crypt t glines xs client).any (confTryBan crypt t client)

theorem checkClient_exits (t : Atable) (glines : Bool) (client : Client) (xs : List Xline) :
    (checkClient crypt t glines client xs).1 = exits crypt t glines xs client := by
  unfold checkClient exits firstBan
  cases client.dead
  · simp only [Bool.false_eq_true, if_false, Bool.not_false, Bool.true_and]
    split_ifs with hd hg hk hx
    · rfl
    · rfl
    · rfl
    · obtain ⟨conf, hconf⟩ := Option.isSome_iff_exists.mp hx
      rw [hconf]
      rfl
    · rw [Option.not_isSome_iff_eq_none.mp hx]
      rfl
  · rfl

theorem exits_names (t : Atable) (glines : Bool) (xs ys : List Xline) (client : Client)
    (h : xs.map Xline.name = ys.map Xline.name) :
    exits crypt t glines xs client = exits crypt t glines ys client := by
  unfold exits firstBan
  rw [findMatchingNameConf_names xs ys client.info h]

theorem checkLocalClients_eq (t : Atable) (glines : Bool) (clients : List Client)
    (xs ys : List Xline) (h : xs.map Xline.name = ys.map Xline.name) :
    (checkLocalClients crypt t glines clients xs).1 =
      clients.filter (fun client => !exits crypt t glines ys client) := by
  induction clients generalizing xs with
  | nil => rfl
  | cons client rest ih =>
    have hnames := checkClient_names crypt t glines client xs
    have hrest := ih (checkClient crypt t glines client xs).2 (hnames.trans h)
    have hexits := (checkClient_exits crypt t glines client xs).trans
      (exits_names crypt t glines xs ys client h)
    unfold checkLocalClients
    dsimp only
    rw [hrest, hexits, List.filter_cons]
    cases exits crypt t glines ys client <;> rfl

theorem checkConfKlines_localClientList (t : Atable) (glines : Bool) (l : Lists) :
    (checkConfKlines crypt t glines l).localClientList =
      l.localClientList.filter (fun client => !exits crypt t glines l.xconfItems client) :=
  checkLocalClients_eq crypt t glines l.localClientList l.xconfItems l.xconfItems rfl

theorem findConf_sound (t : Atable) (l : AccessList) (h : Holds t l) (q : Query)
    (hfind : findConf crypt t q = true) : ∃ r ∈ l.entries, accepts crypt q true r = true := by
  unfold findConf findConfByAddress at hfind
  obtain ⟨r, hr⟩ := Option.isSome_iff_exists.mp hfind
  have hmem := (isBest_find crypt t q).item_mem r hr
  obtain ⟨hentry, hacc, _⟩ := candidates_sound crypt t l h q r hmem
  exact ⟨r, hentry, hacc⟩

/-- A ban that is over-ruled is of a type the client is exempt from. -/
theorem exempt_of_not_tried (t : Atable) (l : AccessList) (h : Holds t l) (client : Client)
    (type : BanType) (htry : ¬ confTryBan crypt t client type = true) :
    Exempt crypt l client type := by
  cases type with
  | dline => exact findConf_sound crypt t l h _ (by simpa [confTryBan] using htry)
  | gline =>
    by_contra hnot
    obtain ⟨hk, hg⟩ := not_or.mp hnot
    exact htry (by simp [confTryBan, hk, hg])
  | kline => simpa [confTryBan, Exempt] using htry
  | xline => exact absurd rfl htry

/-- Nobody who stays is banned by something he is not exempt from, exactly when the ban that is
found first never hides another one. -/
theorem bans_enforced_iff (ops : List Op) (glines : Bool) (l : Lists) :
    (∀ client ∈ (checkConfKlines crypt (Atable.run ops) glines l).localClientList,
      client.dead = false → ∀ type, ¬ Exempt crypt (AccessList.run ops) client type →
        ¬ Banned crypt (AccessList.run ops) glines l.xconfItems client type) ↔
    ∀ client ∈ l.localClientList, client.dead = false →
      RightlyTreated crypt (Atable.run ops) (AccessList.run ops) glines l.xconfItems client := by
  have hold := holds_run ops
  rw [checkConfKlines_localClientList]
  have hone : ∀ client : Client, client.dead = false →
      ((exits crypt (Atable.run ops) glines l.xconfItems client = false → ∀ type,
        ¬ Exempt crypt (AccessList.run ops) client type →
          ¬ Banned crypt (AccessList.run ops) glines l.xconfItems client type) ↔
        RightlyTreated crypt (Atable.run ops) (AccessList.run ops) glines l.xconfItems client) := by
    intro client hdead
    unfold RightlyTreated exits
    rw [hdead]
    cases hfirst : firstBan crypt (Atable.run ops) glines l.xconfItems client with
    | none =>
      constructor
      · intro hall other
        by_cases hex : Exempt crypt (AccessList.run ops) client other
        · exact Or.inl hex
        · exact Or.inr (hall rfl other hex)
      · intro hright _ type hnot
        exact (hright type).resolve_left hnot
    | some first =>
      dsimp only
      by_cases htry : confTryBan crypt (Atable.run ops) client first = true
      · constructor
        · exact fun _ => Or.inl htry
        · intro _ hstays
          rw [Option.any_some, htry] at hstays
          exact absurd hstays (by decide)
      · have hstays : (!false && (some first).any (confTryBan crypt (Atable.run ops) client)) =
            false := by
          simpa using htry
        have hex := exempt_of_not_tried crypt (Atable.run ops) (AccessList.run ops) hold client
          first htry
        constructor
        · intro hall
          refine Or.inr fun other hne => ?_
          by_cases hother : Exempt crypt (AccessList.run ops) client other
          · exact Or.inl hother
          · exact Or.inr (hall hstays other hother)
        · intro hright _ type hnot
          have hne : type ≠ first := fun heq => hnot (heq ▸ hex)
          exact ((hright.resolve_left htry) type hne).resolve_left hnot
  constructor
  · intro hall client hmem hdead
    apply (hone client hdead).mp
    intro hstays
    exact hall client (List.mem_filter.mpr ⟨hmem, by rw [hstays]; rfl⟩) hdead
  · intro hall client hmem hdead
    obtain ⟨hclient, hstays⟩ := List.mem_filter.mp hmem
    exact (hone client hdead).mpr (hall client hclient hdead) (by simpa using hstays)

end Check

def sampleOps : List Op :=
  [.add .exempt ⟨1, "10.0.0.5".toList, none, none, false, false⟩,
    .add .dline ⟨2, "10.0.0.0/24".toList, none, none, false, false⟩,
    .add .kline ⟨3, "*".toList, some "*".toList, none, false, false⟩]

def sampleClient : Client :=
  ⟨false, "a.example.net".toList, "user".toList, "info".toList, ⟨0x0A000005, fun _ => 0⟩, .inet,
    false, false⟩

/-- The D-line is found first and over-ruled, and the K-line is not looked for. -/
theorem kline_not_enforced :
    ¬ ∀ client ∈ (checkConfKlines (fun _ _ => none) (Atable.run sampleOps) true
        ⟨[sampleClient], [], []⟩).localClientList,
      client.dead = false → ∀ type,
        ¬ Exempt (fun _ _ => none) (AccessList.run sampleOps) client type →
        ¬ Banned (fun _ _ => none) (AccessList.run sampleOps) true [] client type := by
  have hstays : exits (fun _ _ => none) (Atable.run sampleOps) true [] sampleClient = false := by
    decide +kernel
  have haccept : accepts (fun _ _ => none) (userQuery sampleClient .kline) true
      (addressRec .kline ⟨3, "*".toList, some "*".toList, none, false, false⟩ 0xFFFFFFFD) = true := by
    decide +kernel
  intro h
  rw [checkConfKlines_localClientList] at h
  have hmem : sampleClient ∈ [sampleClient].filter
      (fun client => !exits (fun _ _ => none) (Atable.run sampleOps) true [] client) := by
    rw [List.filter_cons, hstays]
    exact List.mem_cons_self
  exact h sampleClient hmem rfl .kline (by simp [Exempt, sampleClient])
    ⟨_, List.mem_cons_self, haccept⟩

end IrcdHybrid.BanEnforcement
