import IrcdHybrid.RelayLines

/-!
The relayed lines as steps on the next server's channel. With the timestamp that is sent
on that server decides as the relaying one, so the first line settles its channel in the
same way, and the others find it settled.
-/

namespace IrcdHybrid.RelaySteps

open CString Numeral Channels Burst Sjoin BurstLines BurstRun

theorem bogusTs_cases (link : Link) (n oldts : ℤ) :
    (link.ignoreBogusTs = false ∧ bogusTs link n oldts = n) ∨
      (link.ignoreBogusTs = true ∧ ((800000000 ≤ n ∧ bogusTs link n oldts = n) ∨
        (n < 800000000 ∧ oldts = 0 ∧ bogusTs link n oldts = 0) ∨
        (n < 800000000 ∧ oldts ≠ 0 ∧ bogusTs link n oldts = 800000000))) := by
  unfold bogusTs
  cases link.ignoreBogusTs with
  | false => exact Or.inl ⟨rfl, if_neg (by simp)⟩
  | true =>
    refine Or.inr ⟨rfl, ?_⟩
    by_cases hlow : n < 800000000
    · rw [if_pos ⟨rfl, hlow⟩]
      by_cases hold : oldts = 0
      · exact Or.inr (Or.inl ⟨hlow, hold, if_pos hold⟩)
      · exact Or.inr (Or.inr ⟨hlow, hold, if_neg hold⟩)
    · exact Or.inl ⟨by omega, if_neg (by simp [hlow])⟩

theorem decideTs_cases (n oldts : ℤ) :
    ((n = 0 ∨ oldts = 0) ∧ decideTs false n oldts = ⟨0, true, true⟩) ∨
      (n ≠ 0 ∧ oldts ≠ 0 ∧ ((n = oldts ∧ decideTs false n oldts = ⟨oldts, true, true⟩) ∨
        (n < oldts ∧ decideTs false n oldts = ⟨n, false, true⟩) ∨
        (oldts < n ∧ decideTs false n oldts = ⟨oldts, true, false⟩))) := by
  unfold decideTs
  by_cases hzero : n = 0 ∨ oldts = 0
  · exact Or.inl ⟨hzero, by simp [hzero]⟩
  · refine Or.inr ⟨by tauto, by tauto, ?_⟩
    rcases lt_trichotomy n oldts with hlt | heq | hgt
    · exact Or.inr (Or.inl ⟨hlt, by simp [hzero, hlt, hlt.ne]⟩)
    · refine Or.inl ⟨heq, ?_⟩
      rw [if_neg (by decide), if_neg hzero, if_pos heq]
    · exact Or.inr (Or.inr ⟨hgt, by simp [hzero, hgt.ne', not_lt.mpr hgt.le]⟩)

/-- A timestamp that is believed is believed again, when it has become the channel's. -/
theorem bogusTs_own (c : Link) (n oldts : ℤ) (h : bogusTs c n oldts = n) : bogusTs c n n = n := by
  have hc := bogusTs_cases c n oldts
  have hown := bogusTs_cases c n n
  cases hcase : c.ignoreBogusTs <;> simp only [hcase, reduceCtorEq, true_and, false_and, or_false,
    false_or] at hc hown <;> omega

theorem decideTs_zero (n : ℤ) : decideTs false n 0 = ⟨0, true, true⟩ := by simp [decideTs]

theorem decideTs_same (n : ℤ) (hne : n ≠ 0) : decideTs false n n = ⟨n, true, true⟩ := by
  simp [decideTs, hne]

/-- The channel's own timestamp, printed and read: it is not taken for an older one. -/
theorem decide_kept (c : Link) (oldts : ℤ) (hne : oldts ≠ 0) (hge : -2 ^ 63 ≤ oldts)
    (hlt : oldts < 2 ^ 63) :
    decideTs false (bogusTs c (strtol (formatTime oldts)) oldts) oldts = ⟨oldts, true, true⟩ ∨
      decideTs false (bogusTs c (strtol (formatTime oldts)) oldts) oldts =
        ⟨oldts, true, false⟩ := by
  have hread := strtol_formatTime_cases oldts hge hlt
  have hc := bogusTs_cases c (strtol (formatTime oldts)) oldts
  rcases decideTs_cases (bogusTs c (strtol (formatTime oldts)) oldts) oldts with
    ⟨hzero, _⟩ | ⟨_, _, ⟨_, hd⟩ | ⟨hbelow, _⟩ | ⟨_, hd⟩⟩
  · omega
  · exact Or.inl hd
  · omega
  · exact Or.inr hd

/-- The decision for a channel that was there, with the timestamp that is sent on. -/
theorem decide_cases (b c : Link) (n oldts : ℤ) (hn : n < 2 ^ 63) (hge : -2 ^ 63 ≤ oldts)
    (hlt : oldts < 2 ^ 63) (htime : 0 ≤ bogusTs b n oldts ∨ oldts = 0 ∨ oldts < bogusTs b n oldts)
    (hbelieved : let d := decideTs false (bogusTs b n oldts) oldts
      d.keepNewModes = true → bogusTs c d.creationtime oldts = d.creationtime) :
    let d := decideTs false (bogusTs b n oldts) oldts
    let r := strtol (formatTime d.creationtime)
    (d.keepNewModes = true ∧ decideTs false (bogusTs c r oldts) oldts = d ∧
        decideTs false (bogusTs c r d.creationtime) d.creationtime =
          ⟨d.creationtime, true, true⟩) ∨
      (d = ⟨oldts, true, false⟩ ∧
        (decideTs false (bogusTs c r oldts) oldts = ⟨oldts, true, true⟩ ∨
          decideTs false (bogusTs c r oldts) oldts = ⟨oldts, true, false⟩)) := by
  intro d r
  have hbelieved : d.keepNewModes = true → bogusTs c d.creationtime oldts = d.creationtime :=
    hbelieved
  have hlow := bogusTs_lt b n oldts hn
  rcases decideTs_cases (bogusTs b n oldts) oldts with
    ⟨hzero, hd⟩ | ⟨hne, hold, ⟨heq, hd⟩ | ⟨hbelow, hd⟩ | ⟨habove, hd⟩⟩
  · have hd : d = ⟨0, true, true⟩ := hd
    have hr : r = 0 := by
      show strtol (formatTime d.creationtime) = 0
      rw [hd]
      rfl
    have hread : bogusTs c d.creationtime oldts = d.creationtime := hbelieved (by rw [hd])
    rw [hd] at hread
    rw [hd, hr]
    refine Or.inl ⟨rfl, ?_, decideTs_zero _⟩
    rw [hread]
    simp [decideTs]
  · have hd : d = ⟨oldts, true, true⟩ := hd
    have hr : r = oldts := by
      show strtol (formatTime d.creationtime) = oldts
      rw [hd]
      exact (strtol_formatTime_cases oldts hge hlt).elim And.right (by omega)
    have hread : bogusTs c d.creationtime oldts = d.creationtime := hbelieved (by rw [hd])
    rw [hd] at hread
    rw [hd, hr]
    dsimp only at hread ⊢
    rw [hread, decideTs_same oldts hold]
    exact Or.inl ⟨rfl, rfl, rfl⟩
  · have hd : d = ⟨bogusTs b n oldts, false, true⟩ := hd
    have hr : r = bogusTs b n oldts := by
      show strtol (formatTime d.creationtime) = bogusTs b n oldts
      rw [hd]
      exact (strtol_formatTime_cases _ (by omega) hlow).elim And.right (by omega)
    have hread : bogusTs c d.creationtime oldts = d.creationtime := hbelieved (by rw [hd])
    rw [hd] at hread
    dsimp only at hread
    rw [hr, hread, hd]
    dsimp only
    rw [bogusTs_own c _ oldts hread, decideTs_same _ hne]
    exact Or.inl ⟨rfl, hd, rfl⟩
  · have hd : d = ⟨oldts, true, false⟩ := hd
    have hr : r = strtol (formatTime oldts) := by
      show strtol (formatTime d.creationtime) = _
      rw [hd]
    rw [hr]
    exact Or.inr ⟨hd, decide_kept c oldts hold hge hlt⟩

theorem joinOne_settled (keep : Bool) (chptr : Channel) (member : Membership) :
    (joinOne keep chptr member).name = chptr.name ∧
      (joinOne keep chptr member).creationtime = chptr.creationtime ∧
      (joinOne keep chptr member).mode = chptr.mode := by
  unfold joinOne addUserToChannel
  split <;> exact ⟨rfl, rfl, rfl⟩

theorem foldl_joinOne_settled (keep : Bool) (g : List Membership) (chptr : Channel) :
    (g.foldl (joinOne keep) chptr).name = chptr.name ∧
      (g.foldl (joinOne keep) chptr).creationtime = chptr.creationtime ∧
      (g.foldl (joinOne keep) chptr).mode = chptr.mode := by
  induction g generalizing chptr with
  | nil => exact ⟨rfl, rfl, rfl⟩
  | cons member g ih =>
    obtain ⟨hname, htime, hmode⟩ := joinOne_settled keep chptr member
    obtain ⟨hname', htime', hmode'⟩ := ih (joinOne keep chptr member)
    exact ⟨hname'.trans hname, htime'.trans htime, hmode'.trans hmode⟩

theorem foldl_joinOne_ne_nil (keep : Bool) (g : List Membership) (chptr : Channel) (h : g ≠ []) :
    (g.foldl (joinOne keep) chptr).members ≠ [] := by
  have hmono : ∀ (g : List Membership) (chptr : Channel), chptr.members ≠ [] →
      (g.foldl (joinOne keep) chptr).members ≠ [] := by
    intro g
    induction g with
    | nil => exact fun _ hne => hne
    | cons member g ih =>
      intro chptr hne
      refine ih _ ?_
      unfold joinOne addUserToChannel
      split
      · exact hne
      · simp
  obtain ⟨member, g, rfl⟩ := List.exists_cons_of_ne_nil h
  refine hmono g _ ?_
  unfold joinOne addUserToChannel
  split
  · next hmember =>
    intro hnil
    simp [Channel.isMember, hnil] at hmember
  · simp

/-- Without a status it does not matter whether the statuses of the line count. -/
theorem foldl_joinOne_noFlags (keep : Bool) (g : List Membership) (chptr : Channel)
    (h : keep = false → ∀ member ∈ g, member.flags = noFlags) :
    g.foldl (joinOne keep) chptr = g.foldl (joinOne true) chptr := by
  cases keep with
  | true => rfl
  | false =>
    induction g generalizing chptr with
    | nil => rfl
    | cons member g ih =>
      have hone : joinOne false chptr member = joinOne true chptr member := by
        unfold joinOne
        rw [h rfl member List.mem_cons_self]
        rfl
      rw [List.foldl_cons, List.foldl_cons, hone]
      exact ih _ (fun _ m hm => h rfl m (List.mem_cons_of_mem member hm))

/-- The channel as a relayed line describes it. -/
def described (a : Channel) (mode : Mode) : Channel :=
  { a with creationtime := strtol (formatTime a.creationtime), mode := mode }

theorem applyTs_creationtime (d : Decision) (mode : Mode) (isnew : Bool) (name : CStr)
    (chptr : Channel) : (applyTs d mode isnew name chptr).creationtime = d.creationtime := by
  unfold applyTs
  dsimp only
  split <;> rfl

theorem applyTs_mode (d : Decision) (mode : Mode) (isnew : Bool) (name : CStr)
    (chptr : Channel) : (applyTs d mode isnew name chptr).mode = finalMode d mode chptr.mode := by
  unfold applyTs
  dsimp only
  split <;> rfl

/-- A later line finds the channel settled, whatever is left of its modes. -/
theorem sjoinStep_settled (c : Link) (a b : Channel) (mode : Mode) (g : List Membership)
    (htime : b.creationtime = a.creationtime) (hmode : b.mode = a.mode)
    (hmerge : mergeModes mode a.mode = a.mode)
    (hdecide : decideTs false (bogusTs c (strtol (formatTime a.creationtime)) a.creationtime)
        a.creationtime = ⟨a.creationtime, true, true⟩ ∨
      ((∀ member ∈ g, member.flags = noFlags) ∧
        decideTs false (bogusTs c (strtol (formatTime a.creationtime)) a.creationtime)
          a.creationtime = ⟨a.creationtime, true, false⟩)) :
    sjoinStep c (described a mode) (some b) g = some (g.foldl (joinOne true) b) := by
  have happly : ∀ keep, applyTs ⟨a.creationtime, true, keep⟩ mode false a.name b = b := by
    intro keep
    have hfinal : finalMode ⟨a.creationtime, true, keep⟩ mode b.mode = b.mode := by
      cases keep with
      | true => simp [finalMode, hmode, hmerge]
      | false => rfl
    unfold applyTs
    dsimp only
    rw [if_pos rfl, hfinal, ← htime]
  unfold sjoinStep described
  dsimp only [Option.getD_some, Option.isNone_some]
  rw [htime]
  rcases hdecide with hd | ⟨hflags, hd⟩
  · rw [hd, happly]
    simp
  · rw [hd, happly, foldl_joinOne_noFlags false g b (fun _ => hflags)]
    simp

/-- The first line on the channel as the relaying server had it, if new modes count. -/
theorem sjoinStep_first (c : Link) (d : Decision) (mode mode' : Mode) (name : CStr) (old : Channel)
    (g : List Membership) (hname : checkChannelName name = true) (hkeep : d.keepNewModes = true)
    (hmode : finalMode d mode' old.mode = finalMode d mode old.mode)
    (hdecide : decideTs false (bogusTs c (strtol (formatTime d.creationtime)) old.creationtime)
      old.creationtime = d) :
    sjoinStep c (described (applyTs d mode false name old) mode') (some old) g =
      some (g.foldl (joinOne true) (applyTs d mode false name old)) := by
  have hsame : applyTs d mode' false (applyTs d mode false name old).name old =
      applyTs d mode false name old := by
    have hlost : strlcpy (strlcpy name (CHANNELLEN + 1)) (CHANNELLEN + 1) =
        strlcpy name (CHANNELLEN + 1) := by rw [strlcpy_name name hname, strlcpy_name name hname]
    unfold applyTs
    dsimp only
    rw [hmode]
    split
    · rfl
    · unfold loseTs
      simp only [Bool.false_eq_true, if_false, hlost]
  unfold sjoinStep described
  dsimp only [Option.getD_some, Option.isNone_some]
  rw [applyTs_creationtime, hdecide, hsame, hkeep]
  simp

theorem sjoinStep_none (b c : Link) (n : ℤ) (mode : Mode) (name : CStr) (g : List Membership)
    (hname : checkChannelName name = true) (hn : n < 2 ^ 63)
    (hpos : 0 ≤ bogusTs b n b.currentTime)
    (hbelieved : bogusTs c (bogusTs b n b.currentTime) c.currentTime = bogusTs b n b.currentTime)
    (hg : g ≠ []) :
    sjoinStep c (described (applyTs ⟨bogusTs b n b.currentTime, true, true⟩ mode true name
        (makeChannel b.currentTime name)) mode) none g =
      some (g.foldl (joinOne true) (applyTs ⟨bogusTs b n b.currentTime, true, true⟩ mode true name
        (makeChannel b.currentTime name))) := by
  have hlow := bogusTs_lt b n b.currentTime hn
  have hread : strtol (formatTime (bogusTs b n b.currentTime)) = bogusTs b n b.currentTime :=
    (strtol_formatTime_cases _ (by omega) hlow).elim And.right (by omega)
  have hstr := strlcpy_name name hname
  have hne := foldl_joinOne_ne_nil true g
    (applyTs ⟨bogusTs b n b.currentTime, true, true⟩ mode true name
      (makeChannel b.currentTime name)) hg
  have hsame : applyTs ⟨bogusTs b n b.currentTime, true, true⟩ mode true name
      (makeChannel c.currentTime name) =
      applyTs ⟨bogusTs b n b.currentTime, true, true⟩ mode true name
        (makeChannel b.currentTime name) := by
    simp [applyTs, makeChannel]
  have hcalled : (applyTs ⟨bogusTs b n b.currentTime, true, true⟩ mode true name
      (makeChannel b.currentTime name)).name = name := by
    simp [applyTs, makeChannel, hstr]
  unfold sjoinStep described
  dsimp only [Option.getD_none, Option.isNone_none]
  rw [applyTs_creationtime, hcalled]
  dsimp only
  have htime : (makeChannel c.currentTime name).creationtime = c.currentTime := rfl
  have hdecide : decideTs true (bogusTs b n b.currentTime) c.currentTime =
      ⟨bogusTs b n b.currentTime, true, true⟩ := rfl
  rw [hread, htime, hbelieved, hdecide]
  dsimp only
  rw [hsame, if_neg (fun h => hne h.1)]

end IrcdHybrid.RelaySteps
