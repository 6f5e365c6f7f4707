import IrcdHybrid.BanCache
import Mathlib.Tactic.Tauto

/-!
The reason of a `PART`. A local client's is shown where `can_send` does not give zero and the
client is no longer too new; the codes that `can_send` does give, of leave and of refusal, are
all other than zero.
-/

namespace IrcdHybrid.PartReason

open CString Channels Burst Sjoin ChannelMode BanCache
open ChannelTable hiding Step Reachable

/-- What `can_send` returns: `CAN_SEND_OPV`, `CAN_SEND_NONOP` or a numeric. -/
def code : Answer → ℤ
  | .opv => -2
  | .nonop => -1
  | .cannotSendToChan => 404
  | .noCtrlsOnChan => 408
  | .needReggedNick => 477
  | .noCtcp => 492

/-- How `msg_channel` asks. -/
def permits (answer : Answer) : Bool := decide (code answer < 0)

inductive Audience
  | servers
  | members
  deriving DecidableEq

/-- A `PART` on its way. -/
structure PartLine where
  audience : Audience
  origin : CStr
  chan : CStr
  reason : Option CStr
  deriving DecidableEq

inductive Out
  | noSuchChannel (name : CStr)
  | notOnChannel (name : CStr)
  | part (line : PartLine)

structure PartConf extends SendConf where
  currentTime : ℤ
  antiSpamExitMessageTime : ℤ

/-- What a member parts with, the client having come at `firsttime`. -/
def shownReason (conf : PartConf) (c : Client) (firsttime : ℤ) (chptr : Channel) (fl : Flags)
    (cache : Cache) (reason : CStr) : Option CStr :=
  if reason ≠ [] ∧ (c.myConnect = false ∨
      (code (canSend conf.toSendConf chptr c (some (fl, cache)) reason).1 ≠ 0 ∧
        firsttime + conf.antiSpamExitMessageTime < conf.currentTime)) then
    some reason
  else none

/-- The two lines, to the other servers and to the members on this one. -/
def partLines (c : Client) (id chan : CStr) (reason : Option CStr) : List Out :=
  [.part ⟨.servers, id, chan, reason⟩,
    .part ⟨.members, c.name ++ '!' :: c.username ++ '@' :: c.host, chan, reason⟩]

/-- `channel_part_one_client`. What `can_send` keeps in the cache goes with the membership. -/
def channelPartOneClient (conf : PartConf) (w : World) (id : CStr) (c : Client) (firsttime : ℤ)
    (name reason : CStr) : List Out × World :=
  match hashFindChannel w.table name with
  | none => ([.noSuchChannel name], w)
  | some chptr =>
    match findChannelLink chptr id with
    | none => ([.notOnChannel chptr.name], w)
    | some member =>
      (partLines c id chptr.name
        (shownReason conf c firsttime chptr member.flags (w.cache (fold name) id) reason),
        withTable w (setChannel w.table name (removeUser chptr id)) (fun _ => false))

/-- A `resv` on the channel that the client is not exempt from. -/
def Reserved (conf : SendConf) (chptr : Channel) (c : Client) : Prop :=
  c.myClient = true ∧ (!c.exemptResv) = true ∧ (!(c.oper && conf.operPassResv)) = true ∧
    conf.reserved chptr.name c = true

/-- The text has what the channel does not take: control codes, or a CTCP but for an action. -/
def Unfit (chptr : Channel) (message : CStr) : Prop :=
  (.noctrl ∈ chptr.mode.mode ∧ msgHasCtrls message = true) ∨
    (.noctcp ∈ chptr.mode.mode ∧ message.head? = some (Char.ofNat 1) ∧
      message.tail.take 7 ≠ "ACTION ".toList)

def HasStatus (fl : Flags) : Prop := fl.chanop = true ∨ fl.halfop = true ∨ fl.voice = true

/-- A local client that the cache, or else the lists, say is banned. -/
def Silenced (chptr : Channel) (c : Client) (cache : Cache) : Prop :=
  c.myClient = true ∧
    (cache.silenced = true ∨ (cache.checked = false ∧ isBanned chptr c = true))

/-- None of the refusals meets the client. -/
def MaySpeak (conf : SendConf) (chptr : Channel) (c : Client) (fl : Flags) (cache : Cache)
    (message : CStr) : Prop :=
  (c.status = .server ∨ c.service = true) ∨
    (¬ Reserved conf chptr c ∧ ¬ Unfit chptr message ∧
      (HasStatus fl ∨ (.moderated ∉ chptr.mode.mode ∧
        (.modreg ∈ chptr.mode.mode → c.registered = true) ∧ ¬ Silenced chptr c cache)))

theorem code_ne_zero (answer : Answer) : code answer ≠ 0 := by cases answer <;> decide

theorem permits_iff (answer : Answer) : permits answer = true ↔ answer = .opv ∨ answer = .nonop := by
  cases answer <;> decide

section

variable (conf : SendConf) (chptr : Channel) (c : Client) (fl : Flags)

theorem canSend_before (cache : Cache) (message : CStr) (answer : Answer)
    (h : beforeBans conf chptr c (some fl) message = some answer) :
    (canSend conf chptr c (some (fl, cache)) message).1 = answer := by
  unfold canSend
  rw [Option.map_some, h]

theorem canSend_bans (cache : Cache) (message : CStr)
    (h : beforeBans conf chptr c (some fl) message = none) :
    permits (canSend conf chptr c (some (fl, cache)) message).1 = true ↔
      ¬ Silenced chptr c cache := by
  unfold canSend Silenced
  rw [Option.map_some, h]
  dsimp only
  cases c.myClient <;> cases cache.silenced <;> cases cache.checked <;>
    cases isBanned chptr c <;> simp [permits_iff]

theorem refused (cache : Cache) (message : CStr) (answer : Answer) (hcode : permits answer = false)
    (hbefore : beforeBans conf chptr c (some fl) message = some answer)
    (hnot : ¬ MaySpeak conf chptr c fl cache message) :
    permits (canSend conf chptr c (some (fl, cache)) message).1 = true ↔
      MaySpeak conf chptr c fl cache message := by
  rw [canSend_before conf chptr c fl cache message answer hbefore, hcode]
  simp [hnot]

/-- What is asked of a client without privileges on a channel that is not reserved. -/
theorem beforeBans_plain (message : CStr) (hserver : ¬ (c.status = .server ∨ c.service = true))
    (hresv : ¬ Reserved conf chptr c) :
    beforeBans conf chptr c (some fl) message =
      if .noctrl ∈ chptr.mode.mode ∧ msgHasCtrls message then some .noCtrlsOnChan
      else if .noctcp ∈ chptr.mode.mode ∧ message.head? = some (Char.ofNat 1) ∧
          message.tail.take 7 ≠ "ACTION ".toList then some .noCtcp
      else if (fl.chanop || fl.halfop || fl.voice) = true then some .opv
      else if .moderated ∈ chptr.mode.mode then some .cannotSendToChan
      else if .modreg ∈ chptr.mode.mode ∧ (!c.registered) = true then some .needReggedNick
      else none := by
  have hopen : ¬ (c.myClient = true ∧ (!c.exemptResv) = true ∧
    (!(c.oper && conf.operPassResv)) = true ∧ conf.reserved chptr.name c = true) := hresv
  unfold beforeBans
  rw [if_neg hserver, if_neg hopen]
  rfl

theorem permits_canSend (cache : Cache) (message : CStr) :
    permits (canSend conf chptr c (some (fl, cache)) message).1 = true ↔
      MaySpeak conf chptr c fl cache message := by
  -- the branches in the order of the source, each with those before it not taken
  by_cases hserver : c.status = .server ∨ c.service = true
  · rw [canSend_before conf chptr c fl cache message .opv (if_pos hserver)]
    exact ⟨fun _ => Or.inl hserver, fun _ => rfl⟩
  by_cases hresv : Reserved conf chptr c
  · apply refused conf chptr c fl cache message .cannotSendToChan rfl
    · unfold beforeBans
      rw [if_neg hserver]
      exact if_pos hresv
    · unfold MaySpeak
      tauto
  have hkeep := beforeBans_plain conf chptr c fl message hserver hresv
  by_cases hctrls : .noctrl ∈ chptr.mode.mode ∧ msgHasCtrls message = true
  · apply refused conf chptr c fl cache message .noCtrlsOnChan rfl
    · rw [hkeep, if_pos hctrls]
    · unfold MaySpeak Unfit
      tauto
  rw [if_neg hctrls] at hkeep
  by_cases hctcp : .noctcp ∈ chptr.mode.mode ∧ message.head? = some (Char.ofNat 1) ∧
      message.tail.take 7 ≠ "ACTION ".toList
  · apply refused conf chptr c fl cache message .noCtcp rfl
    · rw [hkeep, if_pos hctcp]
    · unfold MaySpeak Unfit
      tauto
  rw [if_neg hctcp] at hkeep
  have hfit : ¬ Unfit chptr message := by
    rintro (h | h)
    · exact hctrls h
    · exact hctcp h
  by_cases hstatus : (fl.chanop || fl.halfop || fl.voice) = true
  · rw [if_pos hstatus] at hkeep
    rw [canSend_before conf chptr c fl cache message .opv hkeep]
    have hflags : HasStatus fl := by
      unfold HasStatus
      rw [Bool.or_eq_true, Bool.or_eq_true] at hstatus
      tauto
    exact ⟨fun _ => Or.inr ⟨hresv, hfit, Or.inl hflags⟩, fun _ => rfl⟩
  rw [if_neg hstatus] at hkeep
  have hnone : ¬ HasStatus fl := by
    intro h
    apply hstatus
    rw [Bool.or_eq_true, Bool.or_eq_true]
    unfold HasStatus at h
    tauto
  by_cases hmoderated : .moderated ∈ chptr.mode.mode
  · apply refused conf chptr c fl cache message .cannotSendToChan rfl
    · rw [hkeep, if_pos hmoderated]
    · unfold MaySpeak
      tauto
  rw [if_neg hmoderated] at hkeep
  by_cases hmodreg : .modreg ∈ chptr.mode.mode ∧ (!c.registered) = true
  · apply refused conf chptr c fl cache message .needReggedNick rfl
    · rw [hkeep, if_pos hmodreg]
    · have hout : c.registered = false := by simpa using hmodreg.2
      have hin := hmodreg.1
      rintro (h | ⟨_, _, h | ⟨_, h, _⟩⟩)
      · exact hserver h
      · exact hnone h
      · rw [h hin] at hout
        cases hout
  rw [if_neg hmodreg] at hkeep
  have hregged : .modreg ∈ chptr.mode.mode → c.registered = true := by
    intro h
    by_contra hout
    exact hmodreg ⟨h, by simpa using hout⟩
  rw [canSend_bans conf chptr c fl cache message hkeep]
  unfold MaySpeak
  tauto

end

/-- The text of the reason is in a line only if the member could have said it, and has been
here for long enough; else the member parts without it. -/
def Muted (conf : PartConf) (w : World) (id : CStr) (c : Client) (firsttime : ℤ)
    (name reason : CStr) : Prop :=
  ∀ chptr member, hashFindChannel w.table name = some chptr →
    findChannelLink chptr id = some member →
    let answer := (canSend conf.toSendConf chptr c
      (some (member.flags, w.cache (fold name) id)) reason).1
    let free := permits answer = true ∧
      firsttime + conf.antiSpamExitMessageTime < conf.currentTime
    (∀ line, Out.part line ∈ (channelPartOneClient conf w id c firsttime name reason).1 →
      line.reason ≠ none → free) ∧
    (¬ free → (channelPartOneClient conf w id c firsttime name reason).1 =
      partLines c id chptr.name none)

/-- There is no reason, the client is too new, or it may speak. -/
def Harmless (conf : PartConf) (w : World) (id : CStr) (c : Client) (firsttime : ℤ)
    (name reason : CStr) : Prop :=
  ∀ chptr member, hashFindChannel w.table name = some chptr →
    findChannelLink chptr id = some member →
    reason = [] ∨ conf.currentTime ≤ firsttime + conf.antiSpamExitMessageTime ∨
      MaySpeak conf.toSendConf chptr c member.flags (w.cache (fold name) id) reason

theorem channelPartOneClient_member (conf : PartConf) (w : World) (id : CStr) (c : Client)
    (firsttime : ℤ) (name reason : CStr) (chptr : Channel) (member : Channels.Membership)
    (hchan : hashFindChannel w.table name = some chptr)
    (hmember : findChannelLink chptr id = some member) :
    (channelPartOneClient conf w id c firsttime name reason).1 = partLines c id chptr.name
      (shownReason conf c firsttime chptr member.flags (w.cache (fold name) id) reason) := by
  unfold channelPartOneClient
  rw [hchan]
  dsimp only
  rw [hmember]

/-- A local client's reason is shown whatever `can_send` says. -/
theorem shownReason_local (conf : PartConf) (c : Client) (firsttime : ℤ) (chptr : Channel)
    (fl : Flags) (cache : Cache) (reason : CStr) (hlocal : c.myConnect = true) :
    shownReason conf c firsttime chptr fl cache reason =
      if reason ≠ [] ∧ firsttime + conf.antiSpamExitMessageTime < conf.currentTime then some reason
      else none := by
  unfold shownReason
  simp [hlocal, code_ne_zero]

theorem muted_iff (conf : PartConf) (w : World) (id : CStr) (c : Client) (firsttime : ℤ)
    (name reason : CStr) (hlocal : c.myConnect = true) :
    Muted conf w id c firsttime name reason ↔ Harmless conf w id c firsttime name reason := by
  unfold Muted Harmless
  apply forall_congr'
  intro chptr
  apply forall_congr'
  intro member
  apply imp_congr_right
  intro hchan
  apply imp_congr_right
  intro hmember
  have hlines := channelPartOneClient_member conf w id c firsttime name reason chptr member hchan
    hmember
  dsimp only
  rw [hlines, shownReason_local conf c firsttime chptr member.flags _ reason hlocal,
    permits_canSend]
  by_cases hshown : reason ≠ [] ∧ firsttime + conf.antiSpamExitMessageTime < conf.currentTime
  · rw [if_pos hshown]
    constructor
    · rintro ⟨hline, _⟩
      have hfree := hline ⟨.servers, id, chptr.name, some reason⟩ (by simp [partLines]) (by simp)
      exact Or.inr (Or.inr hfree.1)
    · rintro (hnil | hnew | hspeak)
      · exact absurd hnil hshown.1
      · omega
      · exact ⟨fun _ _ _ => ⟨hspeak, hshown.2⟩, fun h => absurd ⟨hspeak, hshown.2⟩ h⟩
  · rw [if_neg hshown]
    constructor
    · intro _
      by_cases hnil : reason = []
      · exact Or.inl hnil
      · refine Or.inr (Or.inl ?_)
        by_contra hlate
        exact hshown ⟨hnil, by omega⟩
    · intro _
      refine ⟨?_, fun _ => rfl⟩
      intro line hline hreason
      simp only [partLines, List.mem_cons, List.not_mem_nil, or_false, Out.part.injEq] at hline
      rcases hline with rfl | rfl <;> exact absurd rfl hreason

def guest : Client :=
  ⟨"anna".toList, "user".toList, "example.net".toList, "192.0.2.7".toList, .inet,
    ⟨0xc0000207, fun _ => 0⟩, .client, true, false, false, false, false, false, false, 0, 0, 0⟩

/-- One member, with these flags. -/
def moderatedRoom (fl : Flags) : Channel :=
  ⟨"#a".toList, 1000000000, ⟨{.moderated}, 0, []⟩, [⟨"1AAAAAAAB".toList, fl⟩], [], [], []⟩

def moderatedWorld (fl : Flags) : World :=
  ⟨fun _ => some guest, fun _ => some (moderatedRoom fl), fun _ _ => cleared⟩

def openConf : PartConf := ⟨⟨false, fun _ _ => false⟩, 1000000600, 0⟩

theorem moderatedRoom_member (fl : Flags) :
    findChannelLink (moderatedRoom fl) "1AAAAAAAB".toList = some ⟨"1AAAAAAAB".toList, fl⟩ :=
  List.find?_cons_of_pos (beq_self_eq_true _)

/-- With a voice she may say it. -/
theorem voiced_muted :
    Muted openConf (moderatedWorld ⟨false, false, true⟩) "1AAAAAAAB".toList guest 1000000000
      "#a".toList "bye".toList := by
  apply (muted_iff _ _ _ _ _ _ _ rfl).mpr
  intro chptr member hchan hmember
  obtain rfl : moderatedRoom ⟨false, false, true⟩ = chptr := Option.some.inj hchan
  rw [moderatedRoom_member] at hmember
  obtain rfl := Option.some.inj hmember
  refine Or.inr (Or.inr (Or.inr ⟨?_, ?_, Or.inl (Or.inr (Or.inr rfl))⟩))
  · rintro ⟨_, _, _, hreserved⟩
    exact absurd hreserved (by decide)
  · rintro (⟨hmode, _⟩ | ⟨hmode, _⟩)
    · exact absurd hmode (by decide)
    · exact absurd hmode (by decide)

/-- Without one she may not, and it is shown all the same. -/
theorem moderated_shown :
    ¬ Muted openConf (moderatedWorld noFlags) "1AAAAAAAB".toList guest 1000000000 "#a".toList
      "bye".toList := by
  intro h
  have hmuted := h (moderatedRoom noFlags) ⟨"1AAAAAAAB".toList, noFlags⟩ rfl
    (moderatedRoom_member noFlags)
  have hline : Out.part ⟨.servers, "1AAAAAAAB".toList, "#a".toList, some "bye".toList⟩ ∈
      (channelPartOneClient openConf (moderatedWorld noFlags) "1AAAAAAAB".toList guest 1000000000
        "#a".toList "bye".toList).1 := by
    rw [channelPartOneClient_member _ _ _ _ _ _ _ _ _ rfl (moderatedRoom_member noFlags)]
    exact List.mem_cons_self
  exact absurd (hmuted.1 _ hline (by simp)).1 (by decide)

end IrcdHybrid.PartReason
