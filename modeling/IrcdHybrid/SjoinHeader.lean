import IrcdHybrid.Sjoin

/-!
The header of the line that `ms_sjoin` sends on. The modes in it are all the channel's,
or a zero; the parameters behind a zero are those that `set_final_mode` has left in the
buffer. Whatever they are, there is room for members behind the header.
-/

namespace IrcdHybrid.SjoinHeader

open CString Numeral BanMask Channels Wire Burst Sjoin

/-- The letters of `chan_modes` that are in one set and not in the other. -/
def letters (mode oldmode : Mode) : CStr :=
  (chanModes.filter (fun tab => decide (tab.1 ∈ mode.mode) && !decide (tab.1 ∈ oldmode.mode))).map
    Prod.snd

/-- `set_final_mode`: the mode buffer and the parameter buffer. -/
def setFinalMode (mode oldmode : Mode) : CStr × CStr :=
  let limitGone := decide (oldmode.limit ≠ 0) && decide (mode.limit = 0)
  let keyGone := decide (oldmode.key ≠ []) && decide (mode.key = [])
  let limitNew := decide (mode.limit ≠ 0) && decide (oldmode.limit ≠ mode.limit)
  let keyNew := decide (mode.key ≠ []) && decide (oldmode.key ≠ mode.key)
  let gone := letters oldmode mode ++ ((if limitGone then ['l'] else []) ++
    (if keyGone then ['k'] else []))
  let new := letters mode oldmode ++ ((if limitNew then ['l'] else []) ++
    (if keyNew then ['k'] else []))
  ((if gone = [] then [] else '-' :: gone) ++ (if new = [] then [] else '+' :: new),
    (if keyGone then oldmode.key ++ [' '] else []) ++
      ((if limitNew then signedDecimal mode.limit.toInt ++ [' '] else []) ++
        (if keyNew then mode.key ++ [' '] else [])))

/-- The two buffers when the header is printed; `modes` are those of the line that came in. -/
def relayBufs (modes : CStr) (keepNewModes : Bool) (mode oldmode : Mode) : CStr × CStr :=
  if modes.head? ≠ some '0' ∧ keepNewModes then channelModes mode
  else (['0'], (setFinalMode mode oldmode).2)

def relayHeader (id : CStr) (tstosend : ℤ) (name modebuf parabuf : CStr) : CStr :=
  [':'] ++ id ++ " SJOIN ".toList ++ formatTime tstosend ++ [' '] ++ name ++ [' '] ++ modebuf ++
    [' '] ++ parabuf ++ [':']

/-- Long SJOIN, which is ignored: there must be room for an identifier with its prefix. -/
def tooLong (header : CStr) : Bool := decide (IRCD_BUFSIZE - IDLEN - 2 - 3 - 1 ≤ header.length)

theorem setFinalMode_params (mode oldmode : Mode) (h : mode.key.length ≤ KEYLEN)
    (hold : oldmode.key.length ≤ KEYLEN) : (setFinalMode mode oldmode).2.length ≤ 60 := by
  have hlimit := signedDecimal_length mode.limit
  simp only [KEYLEN] at h hold
  unfold setFinalMode
  dsimp only
  simp only [List.length_append]
  split_ifs <;> simp <;> omega

theorem channelModes_length (mode : Mode) (h : mode.key.length ≤ KEYLEN) :
    (channelModes mode).1.length ≤ 16 ∧ (channelModes mode).2.length ≤ 60 := by
  have hlimit := signedDecimal_length mode.limit
  simp only [KEYLEN] at h
  refine ⟨modeLetters_length mode, ?_⟩
  unfold channelModes
  dsimp only
  simp only [List.length_append]
  split_ifs <;> simp <;> omega

theorem relayBufs_length (modes : CStr) (keepNewModes : Bool) (mode oldmode : Mode)
    (h : mode.key.length ≤ KEYLEN) (hold : oldmode.key.length ≤ KEYLEN) :
    (relayBufs modes keepNewModes mode oldmode).1.length ≤ 16 ∧
      (relayBufs modes keepNewModes mode oldmode).2.length ≤ 60 := by
  unfold relayBufs
  split
  · exact channelModes_length mode h
  · exact ⟨by simp, setFinalMode_params mode oldmode h hold⟩

theorem tooLong_relayHeader (id : CStr) (tstosend : ℤ) (name modes : CStr) (keepNewModes : Bool)
    (mode oldmode : Mode) (hid : id.length ≤ IDLEN) (hname : name.length ≤ CHANNELLEN)
    (h : mode.key.length ≤ KEYLEN) (hold : oldmode.key.length ≤ KEYLEN) :
    tooLong (relayHeader id tstosend name (relayBufs modes keepNewModes mode oldmode).1
      (relayBufs modes keepNewModes mode oldmode).2) = false := by
  have htime := formatTime_length tstosend
  obtain ⟨hmodes, hparams⟩ := relayBufs_length modes keepNewModes mode oldmode h hold
  have hcommand : " SJOIN ".toList.length = 7 := rfl
  have hsize : IRCD_BUFSIZE = 512 := rfl
  simp only [IDLEN, CHANNELLEN] at hid hname
  unfold tooLong relayHeader
  simp only [List.length_append, List.length_singleton, hcommand, IDLEN, hsize]
  exact decide_eq_false (by omega)

end IrcdHybrid.SjoinHeader
