import IrcdHybrid.BanEnforcement

/-!
A new K-line. `check_kline` walks the clients and tests the new entry on each;
whoever connects later is tested through `find_conf_by_address`. The two agree on
address masks. A host mask is also tested on the text of the address by the first
and not by the second, which in turn only sees what it is filed under.
-/

namespace IrcdHybrid.KlineCheck

open CString Netmask BestScan Match Hostmask BanEnforcement

/-- A client of this server with the text of its address. -/
structure LocalClient extends Client where
  sockhost : CStr

/-- A K-line; it has no password. -/
def klineConf (ptr : ℕ) (user host : CStr) : MaskItem := ⟨ptr, host, some user, none, false, false⟩

/-- The test of `check_kline`. -/
def selects (arec : AddressRec) (client : LocalClient) : Bool :=
  !client.dead && (match arec.conf.user with
    | some username => matchMask username client.username == 0
    | none => false) &&
  match arec.mask with
  | .ipv4 mask bits => decide (client.aftype = .inet) && matchIpv4 client.ip.sin mask bits
  | .ipv6 mask bits => decide (client.aftype = .inet6) && matchIpv6 client.ip.sin6 mask bits
  | .host => matchMask arec.conf.host client.host == 0 || matchMask arec.conf.host client.sockhost == 0

section Check

variable (crypt : CStr → CStr → Option CStr)

/-- What `find_conf_by_address` answers at connect when this is the only K-line. -/
def refused (conf : MaskItem) (client : LocalClient) : Option AddressRec :=
  findConfByAddress crypt (Atable.run [.add .kline conf]) (userQuery client.toClient .kline) true

/-- The host mask matches the host if it matches the text of the address, and is filed where
the lookup looks for the host if it matches that. -/
def AgreesOnHost (host : CStr) (client : LocalClient) : Prop :=
  (matchMask host client.sockhost = 0 → matchMask host client.host = 0) ∧
    (matchMask host client.host = 0 → getMaskHash host ∈ hostProbes client.host)

/-- Where the two tests agree. -/
def TestsAgree (user host : CStr) (client : LocalClient) : Prop :=
  match parseNetmask host with
  | .host => matchMask user client.username = 0 → AgreesOnHost host client
  | _ => True

theorem refused_eq_some_iff (conf : MaskItem) (client : LocalClient) :
    refused crypt conf client = some (addressRec .kline conf 0xFFFFFFFF) ↔
      addressRec .kline conf 0xFFFFFFFF ∈
        candidates crypt (Atable.run [.add .kline conf]) (userQuery client.toClient .kline) := by
  have hbest := isBest_find crypt (Atable.run [.add .kline conf])
    (userQuery client.toClient .kline)
  have hsound := candidates_sound crypt _ _ (holds_run [.add .kline conf])
    (userQuery client.toClient .kline)
  constructor
  · exact fun h => hbest.item_mem _ h
  · intro hmem
    have hprec : (addressRec .kline conf 0xFFFFFFFF).precedence ≠ 0 := by
      show 0xFFFFFFFF ≠ 0
      omega
    obtain ⟨y, hy, hycand, _⟩ := hbest.result _ _ _ _ hmem hprec
    have hentry : y ∈ [addressRec .kline conf 0xFFFFFFFF] := (hsound y hycand).1
    rw [List.mem_singleton.mp hentry] at hy
    exact hy

theorem mem_candidates_iff (ops : List Op) (q : Query) (r : AddressRec) :
    r ∈ candidates crypt (Atable.run ops) q ↔
      r ∈ (AccessList.run ops).entries ∧ accepts crypt q true r = true ∧ Findable q r :=
  ⟨candidates_sound crypt _ _ (holds_run ops) q r, fun h =>
    candidates_complete crypt _ _ (holds_run ops) q r h.1 h.2.1 h.2.2⟩

theorem condTest_kline (ptr : ℕ) (user host : CStr) (client : LocalClient) :
    condTest crypt (userQuery client.toClient .kline) true
        (addressRec .kline (klineConf ptr user host) 0xFFFFFFFF) =
      (matchMask user client.username == 0) := by
  unfold condTest
  simp [userQuery, addressRec, klineConf, cmpfunc]

theorem findable_iff_probed (q : Query) (r : AddressRec) (name : CStr) (hname : q.name = some name)
    (hhost : r.mask = .host) (hmatch : matchMask r.conf.host name = 0) :
    Findable q r ↔ getMaskHash r.conf.host ∈ hostProbes name := by
  constructor
  · intro h
    rcases h with hip | hesc | ⟨name', hname', hprobe⟩
    · rw [hhost] at hip
      exact absurd hip (by decide)
    · exact getMaskHash_mem_hostProbes r.conf.host name hesc hmatch
    · rw [hname] at hname'
      rwa [Option.some.inj hname']
  · exact fun h => Or.inr (Or.inr ⟨name, hname, h⟩)

theorem refused_iff (ptr : ℕ) (user host : CStr) (client : LocalClient) :
    refused crypt (klineConf ptr user host) client =
        some (addressRec .kline (klineConf ptr user host) 0xFFFFFFFF) ↔
      matchMask user client.username = 0 ∧
        match parseNetmask host with
        | .ipv4 mask bits => client.aftype = .inet ∧ matchIpv4 client.ip.sin mask bits = true
        | .ipv6 mask bits => client.aftype = .inet6 ∧ matchIpv6 client.ip.sin6 mask bits = true
        | .host => matchMask host client.host = 0 ∧ getMaskHash host ∈ hostProbes client.host := by
  have hentry : addressRec .kline (klineConf ptr user host) 0xFFFFFFFF ∈
      (AccessList.run [.add .kline (klineConf ptr user host)]).entries := List.mem_singleton.mpr rfl
  have hmask : (addressRec .kline (klineConf ptr user host) 0xFFFFFFFF).mask = parseNetmask host :=
    rfl
  have hcond := condTest_kline crypt ptr user host client
  rw [refused_eq_some_iff, mem_candidates_iff]
  unfold accepts
  rw [hcond, hmask]
  cases hparse : parseNetmask host with
  | ipv4 mask bits =>
    have hfind : Findable (userQuery client.toClient .kline)
        (addressRec .kline (klineConf ptr user host) 0xFFFFFFFF) := by
      left
      rw [hmask, hparse]
      rfl
    rw [and_iff_right hentry, and_iff_left hfind]
    simp [userQuery]
    exact fun _ _ => decide_eq_true_iff
  | ipv6 mask bits =>
    have hfind : Findable (userQuery client.toClient .kline)
        (addressRec .kline (klineConf ptr user host) 0xFFFFFFFF) := by
      left
      rw [hmask, hparse]
      rfl
    rw [and_iff_right hentry, and_iff_left hfind]
    simp [userQuery]
    exact fun _ _ => decide_eq_true_iff
  | host =>
    have hfind := fun hmatch => findable_iff_probed (userQuery client.toClient .kline)
      (addressRec .kline (klineConf ptr user host) 0xFFFFFFFF) client.host rfl
      (by rw [hmask, hparse]) hmatch
    have hany : (userQuery client.toClient .kline).name.any (fun name => cmpfunc true
        (addressRec .kline (klineConf ptr user host) 0xFFFFFFFF).conf.host name == 0) =
        (matchMask host client.host == 0) := rfl
    dsimp only
    rw [hany, Bool.and_eq_true, beq_iff_eq, beq_iff_eq]
    constructor
    · intro ⟨_, ⟨huser, hmatch⟩, hfound⟩
      exact ⟨huser, hmatch, (hfind hmatch).mp hfound⟩
    · intro ⟨huser, hmatch, hprobe⟩
      exact ⟨hentry, ⟨huser, hmatch⟩, (hfind hmatch).mpr hprobe⟩

theorem selects_iff (ptr : ℕ) (user host : CStr) (client : LocalClient)
    (hdead : client.dead = false) :
    selects (addressRec .kline (klineConf ptr user host) 0xFFFFFFFF) client = true ↔
      matchMask user client.username = 0 ∧
        match parseNetmask host with
        | .ipv4 mask bits => client.aftype = .inet ∧ matchIpv4 client.ip.sin mask bits = true
        | .ipv6 mask bits => client.aftype = .inet6 ∧ matchIpv6 client.ip.sin6 mask bits = true
        | .host => matchMask host client.host = 0 ∨ matchMask host client.sockhost = 0 := by
  have hmask : (addressRec .kline (klineConf ptr user host) 0xFFFFFFFF).mask = parseNetmask host :=
    rfl
  unfold selects
  rw [hmask, hdead]
  cases hparse : parseNetmask host with
  | ipv4 mask bits => simp [addressRec, klineConf]
  | ipv6 mask bits => simp [addressRec, klineConf]
  | host => simp [addressRec, klineConf]

/-- The client is selected by the new K-line exactly if it would be refused with it. -/
theorem kline_tests_agree_iff (ptr : ℕ) (user host : CStr) (client : LocalClient)
    (hdead : client.dead = false) :
    (selects (addressRec .kline (klineConf ptr user host) 0xFFFFFFFF) client = true ↔
      refused crypt (klineConf ptr user host) client =
        some (addressRec .kline (klineConf ptr user host) 0xFFFFFFFF)) ↔
      TestsAgree user host client := by
  rw [selects_iff ptr user host client hdead, refused_iff crypt ptr user host client]
  unfold TestsAgree AgreesOnHost
  cases hparse : parseNetmask host with
  | ipv4 mask bits => simp
  | ipv6 mask bits => simp
  | host =>
    dsimp only
    by_cases huser : matchMask user client.username = 0
    · simp only [huser, true_and, true_implies]
      constructor
      · intro hiff
        constructor
        · exact fun hsock => (hiff.mp (Or.inr hsock)).1
        · exact fun hmatch => (hiff.mp (Or.inl hmatch)).2
      · intro ⟨hsock, hprobe⟩
        constructor
        · intro hor
          have hmatch := hor.elim id hsock
          exact ⟨hmatch, hprobe hmatch⟩
        · exact fun hand => Or.inl hand.1
    · simp [huser]

end Check

/-- A client with a host name of its own. -/
def namedClient : LocalClient where
  dead := false
  host := "a.example.net".toList
  username := "user".toList
  info := []
  ip := ⟨0x0A000005, fun _ => 0⟩
  aftype := .inet
  exemptKline := false
  exemptGline := false
  sockhost := "10.0.0.5".toList

theorem kline_tests_agree_named :
    (selects (addressRec .kline (klineConf 1 "*".toList "10.0.0.0/24".toList) 0xFFFFFFFF)
        namedClient = true ↔
      refused (fun _ _ => none) (klineConf 1 "*".toList "10.0.0.0/24".toList) namedClient =
        some (addressRec .kline (klineConf 1 "*".toList "10.0.0.0/24".toList) 0xFFFFFFFF)) ↔
      TestsAgree "*".toList "10.0.0.0/24".toList namedClient :=
  kline_tests_agree_iff (fun _ _ => none) 1 "*".toList "10.0.0.0/24".toList namedClient rfl

/-- The mask matches the text of the address, and the lookup has only the name to go by. -/
theorem kline_not_refused :
    namedClient.dead = false ∧
      selects (addressRec .kline (klineConf 1 "*".toList "10.?.0.5".toList) 0xFFFFFFFF)
        namedClient = true ∧
      refused (fun _ _ => none) (klineConf 1 "*".toList "10.?.0.5".toList) namedClient = none := by
  refine ⟨rfl, by decide +kernel, ?_⟩
  apply Option.isNone_iff_eq_none.mp
  decide +kernel

end IrcdHybrid.KlineCheck
