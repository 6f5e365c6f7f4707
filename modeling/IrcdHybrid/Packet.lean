import IrcdHybrid.Dbuf
import IrcdHybrid.Segments
import Mathlib.Data.List.Induction

/-!
From the receive queue to lines. `extract_one_line` scans the blocks for a line
and up to two end-of-line bytes; `parse_client_queued` hands lines on until the
extraction returns zero. An empty line also returns zero, so on a server link
the loop can stop with complete lines still queued. It never does exactly when
every empty line that a chunk closes is the last line waiting.
-/

namespace IrcdHybrid.Packet

open CString Dbuf Segments

def ircdBufsize : ℕ := 512

def maxFlood : ℕ := 5

/-- The local variables of `extract_one_line`. -/
structure Scan where
  lineBytes : ℕ
  eolBytes : ℕ
  buffer : CStr
  deriving DecidableEq, Repr

/-- The loop over the bytes of one block; the flag is `goto out`. -/
def scanBytes : CStr → Scan → Scan × Bool
  | [], s => (s, false)
  | c :: cs, s =>
    if isEol c then
      if s.eolBytes + 1 = 2 then ({ s with eolBytes := s.eolBytes + 1 }, true)
      else scanBytes cs { s with eolBytes := s.eolBytes + 1 }
    else if s.eolBytes ≠ 0 then (s, true)
    else
      scanBytes cs { s with
        lineBytes := s.lineBytes + 1
        buffer := if s.lineBytes < ircdBufsize - 2 then s.buffer ++ [c] else s.buffer }

/-- The loop over the blocks; only the first one is read from `idx`. -/
def scanBlocks : List DbufBlock → ℕ → Scan → Scan
  | [], _, s => s
  | b :: bs, idx, s =>
    match scanBytes (b.data.drop idx) s with
    | (s', true) => s'
    | (s', false) => scanBlocks bs 0 s'

/-- `extract_one_line`: the returned length, the buffer and the queue. -/
def extractOneLine (q : DbufQueue) : ℕ × CStr × DbufQueue :=
  let s := scanBlocks q.blocks q.pos ⟨0, 0, []⟩
  -- without an end of line the bytes read are a partial line and stay
  let lineBytes := if s.eolBytes ≠ 0 then s.lineBytes else 0
  (min lineBytes (ircdBufsize - 2), s.buffer, dbufDelete q (lineBytes + s.eolBytes))

inductive Status where
  | connecting
  | handshake
  | me
  | unknown
  | server
  | client
  deriving DecidableEq, Repr

/-- What `parse_client_queued` reads of a client, and what the handlers keep. `canFlood` stands
for `IsCanFlood` and for an operator under `no_oper_flood`. -/
structure Conn (γ : Type) where
  status : Status
  defunct : Bool
  floodDone : Bool
  sentParsed : ℕ
  allowRead : ℕ
  canFlood : Bool
  kept : γ
  deriving DecidableEq, Repr

/-- A local client with its receive queue and the lines handed to `client_dopacket`. -/
structure Link (γ : Type) where
  conn : Conn γ
  recvq : DbufQueue
  handed : List CStr

variable {γ : Type}

section

variable (parse : Conn γ → CStr → Conn γ)

def clientDopacket (l : Link γ) (line : CStr) : Link γ :=
  { l with conn := parse l.conn line, handed := l.handed ++ [line] }

/-- One line off the queue, or `none` when the extraction returns zero; the queue
is changed in both cases. -/
def nextLine (l : Link γ) : Link γ × Option CStr :=
  let (dolen, buffer, q) := extractOneLine l.recvq
  ({ l with recvq := q }, if dolen = 0 then none else some (buffer.take dolen))

def unknownLoop : ℕ → ℕ → Link γ → Link γ
  | 0, _, l => l
  | fuel + 1, i, l =>
    if l.conn.defunct then l
    else if maxFlood ≤ i then l
    else
      match nextLine l with
      | (l', none) => l'
      | (l', some line) =>
        let l'' := clientDopacket parse l' line
        if l''.conn.status ≠ .unknown then l'' else unknownLoop fuel (i + 1) l''

/-- The loops for servers and for clients, which differ in what ends them. -/
def lineLoop (stop : Conn γ → Bool) : ℕ → Link γ → Link γ
  | 0, l => l
  | fuel + 1, l =>
    if stop l.conn then l
    else
      match nextLine l with
      | (l', none) => l'
      | (l', some line) => lineLoop stop fuel (clientDopacket parse l' line)

def serverLoop : ℕ → Link γ → Link γ := lineLoop parse Conn.defunct

/-- Behind each line of a client comes `++sent_parsed`. -/
def counted (c : Conn γ) (line : CStr) : Conn γ :=
  { parse c line with sentParsed := (parse c line).sentParsed + 1 }

def clientLoop (checkflood : Bool) : ℕ → Link γ → Link γ :=
  lineLoop (counted parse) fun c => c.defunct || (checkflood && c.allowRead ≤ c.sentParsed)

/-- Every pass takes bytes off the queue, so its length bounds the loops. -/
def loopFuel (l : Link γ) : ℕ := l.recvq.totalSize + 1

def isServerLink (c : Conn γ) : Bool :=
  c.status = .server || c.status = .connecting || c.status = .handshake

def parseClientQueued (l : Link γ) : Link γ :=
  let l := if l.conn.status = .unknown then unknownLoop parse (loopFuel l) 0 l else l
  if isServerLink l.conn then serverLoop parse (loopFuel l) l
  else if l.conn.status = .client then clientLoop parse (!l.conn.canFlood) (loopFuel l) l
  else l

/-- `read_packet` on one chunk from the socket. -/
def readPacket (recvqLimit : ℕ) (l : Link γ) (chunk : CStr) : Link γ :=
  if l.conn.defunct then l
  else
    let l := parseClientQueued parse { l with recvq := dbufPut l.recvq chunk }
    if l.conn.defunct then l
    else if !isServerLink l.conn && recvqLimit < l.recvq.totalSize then
      { l with conn := { l.conn with defunct := true } }
    else l

def readPackets (recvqLimit : ℕ) (l : Link γ) (chunks : List CStr) : Link γ :=
  chunks.foldl (readPacket parse recvqLimit) l

end

/-- A line as it reaches `client_dopacket`. -/
def cutLine (line : CStr) : CStr := line.take (ircdBufsize - 2)

theorem scanBytes_append (a b : CStr) (s : Scan) :
    scanBytes (a ++ b) s =
      if (scanBytes a s).2 then scanBytes a s else scanBytes b (scanBytes a s).1 := by
  induction a generalizing s with
  | nil => simp [scanBytes]
  | cons c a ih =>
    simp only [List.cons_append, scanBytes]
    split
    · split
      · simp
      · exact ih _
    · split
      · simp
      · exact ih _

theorem scanBlocks_eq (bs : List DbufBlock) (idx : ℕ) (s : Scan)
    (hidx : ∀ b bs', bs = b :: bs' → idx ≤ b.data.length) :
    scanBlocks bs idx s = (scanBytes ((bs.flatMap DbufBlock.data).drop idx) s).1 := by
  induction bs generalizing idx s with
  | nil => simp [scanBlocks, scanBytes]
  | cons b bs ih =>
    have hle := hidx b bs rfl
    rw [List.flatMap_cons, List.drop_append_of_le_length hle, scanBytes_append, scanBlocks]
    cases hb : scanBytes (b.data.drop idx) s with
    | mk s' out =>
      cases out with
      | true => simp
      | false => simpa using ih 0 s' (by simp)

theorem scanBytes_line (read l rest : CStr) (hl : Free isEol l) :
    scanBytes (l ++ rest) ⟨read.length, 0, cutLine read⟩ =
      scanBytes rest ⟨(read ++ l).length, 0, cutLine (read ++ l)⟩ := by
  induction l generalizing read with
  | nil => simp
  | cons c l ih =>
    have hc : isEol c = false := hl c List.mem_cons_self
    have htail : Free isEol l := fun d hd => hl d (List.mem_cons_of_mem c hd)
    have hbuf : (if read.length < ircdBufsize - 2 then cutLine read ++ [c] else cutLine read) =
        cutLine (read ++ [c]) := by
      by_cases hlt : read.length < ircdBufsize - 2
      · have h1 : read.length ≤ ircdBufsize - 2 := hlt.le
        have h2 : (read ++ [c]).length ≤ ircdBufsize - 2 := by
          rw [List.length_append, List.length_singleton]
          omega
        rw [if_pos hlt, cutLine, cutLine, List.take_of_length_le h1, List.take_of_length_le h2]
      · rw [if_neg hlt, cutLine, cutLine, List.take_append_of_le_length (by omega)]
    have hstep := ih (read ++ [c]) htail
    simp only [List.length_append, List.length_singleton, List.append_assoc,
      List.singleton_append] at hstep
    simp only [List.cons_append, scanBytes, hc, Bool.false_eq_true, ↓reduceIte, ne_eq,
      not_true_eq_false, hbuf]
    rw [hstep]
    simp

theorem extractOneLine_free (q : DbufQueue) (h : WellFormed q) (hq : Free isEol (bytes q)) :
    (extractOneLine q).1 = 0 ∧ (extractOneLine q).2.2 = dbufDelete q 0 := by
  have hscan : scanBlocks q.blocks q.pos ⟨0, 0, []⟩ =
      ⟨(bytes q).length, 0, cutLine (bytes q)⟩ := by
    rw [scanBlocks_eq _ _ _ fun b bs hb => (h.pos_lt b bs hb).le]
    have hline := scanBytes_line [] (bytes q) [] hq
    simp only [List.append_nil, List.nil_append] at hline
    exact congrArg Prod.fst hline
  simp [extractOneLine, hscan]

theorem extractOneLine_line (q : DbufQueue) (h : WellFormed q) (l r : CStr) (e : Char)
    (hq : bytes q = l ++ e :: r) (hl : Free isEol l) (he : isEol e = true) :
    (extractOneLine q).1 = min l.length (ircdBufsize - 2) ∧
      (extractOneLine q).2.1 = cutLine l ∧
      bytes (extractOneLine q).2.2 = dropSep isEol r := by
  have hscan : scanBlocks q.blocks q.pos ⟨0, 0, []⟩ =
      (scanBytes r ⟨l.length, 1, cutLine l⟩).1 := by
    rw [scanBlocks_eq _ _ _ fun b bs hb => (h.pos_lt b bs hb).le]
    have hline := scanBytes_line [] l (e :: r) hl
    rw [List.nil_append] at hline
    change (scanBytes (bytes q) _).1 = _
    rw [hq]
    refine (congrArg Prod.fst hline).trans ?_
    simp [scanBytes, he]
  have hdrop : ∀ n, (l ++ e :: r).drop (l.length + (n + 1)) = r.drop n := by
    intro n
    rw [List.drop_append]
    simp
  cases r with
  | nil =>
    simp only [extractOneLine, hscan, scanBytes]
    refine ⟨by simp, by simp, ?_⟩
    rw [bytes_dbufDelete q _ h, hq]
    exact hdrop 0
  | cons c r =>
    cases hc : isEol c with
    | true =>
      simp only [extractOneLine, hscan, scanBytes, hc]
      refine ⟨by simp, by simp, ?_⟩
      rw [bytes_dbufDelete q _ h, hq]
      simp [dropSep, hc, hdrop 1]
    | false =>
      simp only [extractOneLine, hscan, scanBytes, hc]
      refine ⟨by simp, by simp, ?_⟩
      rw [bytes_dbufDelete q _ h, hq]
      simp [dropSep, hc, hdrop 0]

/-- A server link that has not been closed. -/
def Live (c : Conn γ) : Prop := isServerLink c = true ∧ c.defunct = false

/-- What a call of the loop keeps: lines handed and lines still queued are the
same segments, and the partial line at the end stays. -/
structure Keeps (P : Conn γ → Prop) (l l' : Link γ) : Prop where
  live : P l'.conn
  wellFormed : WellFormed l'.recvq
  lines : l'.handed ++ (segments isEol (bytes l'.recvq)).map cutLine =
    l.handed ++ (segments isEol (bytes l.recvq)).map cutLine
  partialLine : pending isEol (bytes l'.recvq) = pending isEol (bytes l.recvq)

theorem nextLine_line (l : Link γ) (h : WellFormed l.recvq) (line r : CStr) (e : Char)
    (hq : bytes l.recvq = line ++ e :: r) (hline : Free isEol line) (he : isEol e = true) :
    (nextLine l).2 = (if line = [] then none else some (cutLine line)) ∧
      (nextLine l).1.conn = l.conn ∧ (nextLine l).1.handed = l.handed ∧
      WellFormed (nextLine l).1.recvq ∧ bytes (nextLine l).1.recvq = dropSep isEol r := by
  obtain ⟨hlen, hbuf, hbytes⟩ := extractOneLine_line l.recvq h line r e hq hline he
  refine ⟨?_, rfl, rfl, dbufDelete_wellFormed _ _ h, hbytes⟩
  simp only [nextLine, hlen, hbuf]
  cases line with
  | nil => simp
  | cons c line =>
    have htake : (cutLine (c :: line)).length ≤ min (line.length + 1) (ircdBufsize - 2) := by
      simp only [cutLine, List.length_take, List.length_cons]
      omega
    have hpos : min (line.length + 1) (ircdBufsize - 2) ≠ 0 := by simp [ircdBufsize]
    simp only [List.length_cons, hpos, ↓reduceIte, reduceCtorEq,
      List.take_of_length_le htake]

theorem lineLoop_spec (parse : Conn γ → CStr → Conn γ) (stop : Conn γ → Bool) (P : Conn γ → Prop)
    (hstop : ∀ c, P c → stop c = false) (fuel : ℕ) (l : Link γ)
    (hparse : ∀ line ∈ segments isEol (bytes l.recvq), ∀ c, P c → P (parse c (cutLine line)))
    (hlive : P l.conn) (h : WellFormed l.recvq) (hfuel : (bytes l.recvq).length < fuel) :
    Keeps P l (lineLoop parse stop fuel l) ∧
      (Free isEol (bytes (lineLoop parse stop fuel l).recvq) ↔
        EmptyLineLast isEol 2 (bytes l.recvq)) := by
  induction fuel generalizing l with
  | zero => omega
  | succ fuel ih =>
    rw [lineLoop, if_neg (by simp [hstop _ hlive])]
    by_cases hfree : Free isEol (bytes l.recvq)
    · -- no complete line: the queue stays as it is
      obtain ⟨hlen, hq⟩ := extractOneLine_free l.recvq h hfree
      have hbytes : bytes (dbufDelete l.recvq 0) = bytes l.recvq := by
        rw [bytes_dbufDelete _ _ h, List.drop_zero]
      have hnext : nextLine l = ({ l with recvq := dbufDelete l.recvq 0 }, none) := by
        simp [nextLine, hlen, hq]
      rw [hnext]
      refine ⟨⟨hlive, dbufDelete_wellFormed _ _ h, by rw [hbytes], by rw [hbytes]⟩, ?_⟩
      simp only [hbytes, hfree, emptyLineLast_free isEol 2 _ hfree]
    · obtain ⟨line, e, r, hq, hline, he⟩ := exists_line_of_not_free isEol _ hfree
      obtain ⟨hsome, hconn, hhanded, hwf, hbytes⟩ := nextLine_line l h line r e hq hline he
      have hsegs := segments_line isEol line r e hline he
      have hpend := pending_line isEol line r e hline he
      have hdropped := length_dropSep_le isEol r
      cases hnext : nextLine l with
      | mk l' out =>
        rw [hnext] at hsome hconn hhanded hwf hbytes
        cases line with
        | nil =>
          obtain rfl : out = none := hsome
          refine ⟨⟨hconn ▸ hlive, hwf, ?_, ?_⟩, ?_⟩
          · rw [hhanded, hbytes, hq, hsegs, segments_dropSep]
            simp
          · rw [hbytes, hq, hpend, pending_dropSep]
          · rw [hbytes, hq, List.nil_append, emptyLineLast_empty isEol r e he]
        | cons c line =>
          obtain rfl : out = some (cutLine (c :: line)) := hsome
          have hlen : (bytes l'.recvq).length < fuel := by
            rw [hq] at hfuel
            simp only [List.length_append, List.length_cons] at hfuel
            rw [hbytes]
            omega
          rw [hq, hsegs] at hparse
          obtain ⟨hfirst, hrest⟩ := List.forall_mem_cons.mp hparse
          obtain ⟨hkeeps, hiff⟩ := ih (clientDopacket parse l' (cutLine (c :: line)))
            (by rwa [clientDopacket, hbytes, segments_dropSep]) (hfirst _ (hconn ▸ hlive)) hwf hlen
          refine ⟨⟨hkeeps.live, hkeeps.wellFormed, hkeeps.lines.trans ?_,
            hkeeps.partialLine.trans ?_⟩, hiff.trans ?_⟩
          · change (l'.handed ++ _) ++ (segments isEol (bytes l'.recvq)).map cutLine = _
            rw [hhanded, hbytes, hq, hsegs, segments_dropSep]
            simp
          · change pending isEol (bytes l'.recvq) = _
            rw [hbytes, hq, hpend, pending_dropSep]
          · change EmptyLineLast isEol 2 (bytes l'.recvq) ↔ _
            rw [hbytes, hq, emptyLineLast_line isEol (c :: line) r e hline (by simp) he]

theorem parseClientQueued_live (parse : Conn γ → CStr → Conn γ) (l : Link γ) (h : Live l.conn) :
    parseClientQueued parse l = serverLoop parse (loopFuel l) l := by
  have hstatus : l.conn.status ≠ .unknown := by
    intro hs
    simp [Live, isServerLink, hs] at h
  simp [parseClientQueued, hstatus, h.1]

theorem readPacket_spec (parse : Conn γ → CStr → Conn γ) (recvqLimit : ℕ)
    (hparse : ∀ c line, Live c → Live (parse c line)) (l : Link γ) (chunk : CStr)
    (hlive : Live l.conn) (h : WellFormed l.recvq) :
    Live (readPacket parse recvqLimit l chunk).conn ∧ WellFormed (readPacket parse recvqLimit l chunk).recvq ∧
      (readPacket parse recvqLimit l chunk).handed ++
          (segments isEol (bytes (readPacket parse recvqLimit l chunk).recvq)).map cutLine =
        l.handed ++ (segments isEol (bytes l.recvq ++ chunk)).map cutLine ∧
      pending isEol (bytes (readPacket parse recvqLimit l chunk).recvq) =
        pending isEol (bytes l.recvq ++ chunk) ∧
      (Free isEol (bytes (readPacket parse recvqLimit l chunk).recvq) ↔
        EmptyLineLast isEol 2 (bytes l.recvq ++ chunk)) := by
  have hput := dbufPut_wellFormed l.recvq chunk h
  have hbytes := bytes_dbufPut l.recvq chunk h
  obtain ⟨hkeeps, hiff⟩ := lineLoop_spec parse Conn.defunct Live (fun _ hc => hc.2)
    (loopFuel { l with recvq := dbufPut l.recvq chunk }) { l with recvq := dbufPut l.recvq chunk }
    (fun _ _ c => hparse c _) hlive hput (by simp only [loopFuel, hput.total]; omega)
  rw [← serverLoop, ← parseClientQueued_live parse { l with recvq := dbufPut l.recvq chunk } hlive] at hkeeps hiff
  have hread : readPacket parse recvqLimit l chunk =
      parseClientQueued parse { l with recvq := dbufPut l.recvq chunk } := by
    unfold readPacket
    dsimp only
    rw [if_neg (by simp [hlive.2]), if_neg (by simp [hkeeps.live.2]), if_neg (by simp [hkeeps.live.1])]
  rw [hread, ← hbytes]
  exact ⟨hkeeps.live, hkeeps.wellFormed, hkeeps.lines, hkeeps.partialLine, hiff⟩

/-- A new connection: nothing queued and nothing handed on. -/
def Link.fresh (c : Conn γ) : Link γ := ⟨c, Dbuf.empty, []⟩

/-- After any chunks the lines handed on and the complete lines still queued are
the complete lines of the stream, whatever the chunks were. -/
theorem readPackets_keeps (parse : Conn γ → CStr → Conn γ) (recvqLimit : ℕ)
    (hparse : ∀ c line, Live c → Live (parse c line)) (c : Conn γ) (hlive : Live c)
    (chunks : List CStr) :
    let l := readPackets parse recvqLimit (Link.fresh c) chunks
    Live l.conn ∧ WellFormed l.recvq ∧
      l.handed ++ (segments isEol (bytes l.recvq)).map cutLine =
        (segments isEol chunks.flatten).map cutLine ∧
      pending isEol (bytes l.recvq) = pending isEol chunks.flatten := by
  induction chunks using List.reverseRecOn with
  | nil => exact ⟨hlive, wellFormed_empty, by simp [readPackets, Link.fresh, Dbuf.empty, bytes],
      by simp [readPackets, Link.fresh, Dbuf.empty, bytes]⟩
  | append_singleton chunks chunk ih =>
    obtain ⟨hlive', hwf, hlines, hpend⟩ := ih
    have hstep := readPacket_spec parse recvqLimit hparse _ chunk hlive' hwf
    simp only [readPackets, List.foldl_append, List.foldl_cons, List.foldl_nil] at hlines hpend hstep ⊢
    obtain ⟨h1, h2, h3, h4, _⟩ := hstep
    refine ⟨h1, h2, ?_, ?_⟩
    · rw [h3, segments_append, List.map_append, ← List.append_assoc, hlines, hpend,
        List.flatten_append, segments_append isEol chunks.flatten, List.map_append]
      simp
    · rw [h4, pending_append, hpend, List.flatten_append, pending_append isEol chunks.flatten]
      simp

/-- Nothing complete waits in the queue after any of the chunks, and the lines
handed on are the complete nonempty lines of the stream. -/
def LinesDelivered (parse : Conn γ → CStr → Conn γ) (recvqLimit : ℕ) (c : Conn γ) (chunks : List CStr) : Prop :=
  (∀ pre post, chunks = pre ++ post →
    Free isEol (bytes (readPackets parse recvqLimit (Link.fresh c) pre).recvq)) ∧
  (readPackets parse recvqLimit (Link.fresh c) chunks).handed = (segments isEol chunks.flatten).map cutLine

theorem readPackets_free_iff (parse : Conn γ → CStr → Conn γ) (recvqLimit : ℕ)
    (hparse : ∀ c line, Live c → Live (parse c line)) (c : Conn γ) (hlive : Live c)
    (chunks : List CStr) (chunk : CStr)
    (hfree : Free isEol (bytes (readPackets parse recvqLimit (Link.fresh c) chunks).recvq)) :
    Free isEol (bytes (readPackets parse recvqLimit (Link.fresh c) (chunks ++ [chunk])).recvq) ↔
      EmptyLineLast isEol 2 (pending isEol chunks.flatten ++ chunk) := by
  obtain ⟨hlive', hwf, _, hpend⟩ := readPackets_keeps parse recvqLimit hparse c hlive chunks
  rw [← hpend, pending_of_free isEol _ hfree]
  have hstep := (readPacket_spec parse recvqLimit hparse _ chunk hlive' hwf).2.2.2.2
  simpa [readPackets] using hstep

/-- On a live server link every chunking delivers the same lines and leaves none
waiting exactly when no chunk closes an empty line with a complete line after it. -/
theorem linesDelivered_iff (parse : Conn γ → CStr → Conn γ) (recvqLimit : ℕ)
    (hparse : ∀ c line, Live c → Live (parse c line)) (c : Conn γ) (hlive : Live c)
    (chunks : List CStr) :
    LinesDelivered parse recvqLimit c chunks ↔
      ∀ pre chunk post, chunks = pre ++ chunk :: post →
        EmptyLineLast isEol 2 (pending isEol pre.flatten ++ chunk) := by
  constructor
  · rintro ⟨hfree, _⟩ pre chunk post rfl
    rw [← readPackets_free_iff parse recvqLimit hparse c hlive pre chunk (hfree pre (chunk :: post) rfl)]
    exact hfree (pre ++ [chunk]) post (by simp)
  · intro hempty
    have hfree : ∀ pre post, chunks = pre ++ post →
        Free isEol (bytes (readPackets parse recvqLimit (Link.fresh c) pre).recvq) := by
      intro pre
      induction pre using List.reverseRecOn with
      | nil => exact fun _ _ => by simp [readPackets, Link.fresh, Dbuf.empty, bytes, Free]
      | append_singleton pre chunk ih =>
        intro post hsplit
        have hsplit' : chunks = pre ++ chunk :: post := by simpa using hsplit
        rw [readPackets_free_iff parse recvqLimit hparse c hlive pre chunk (ih (chunk :: post) hsplit')]
        exact hempty pre chunk post hsplit'
    refine ⟨hfree, ?_⟩
    have hlines := (readPackets_keeps parse recvqLimit hparse c hlive chunks).2.2.1
    rw [segments_of_free isEol _ (hfree chunks [] (by simp))] at hlines
    simpa using hlines

/-- Two chunks that meet inside a line. -/
theorem linesDelivered_midLine :
    LinesDelivered (fun c _ => c) 2560 ⟨.server, false, false, 0, 0, false, ()⟩
        ["PING a\r\nPI".toList, "NG b\r\n".toList] ↔
      ∀ pre chunk post, ["PING a\r\nPI".toList, "NG b\r\n".toList] = pre ++ chunk :: post →
        EmptyLineLast isEol 2 (pending isEol pre.flatten ++ chunk) :=
  linesDelivered_iff (fun c _ => c) 2560 (fun _ _ h => h) _ ⟨rfl, rfl⟩ _

/-- A CR LF pair cut in two: its LF closes an empty line, and the next PING waits. -/
theorem linesDelivered_splitCrLf :
    ¬ ∀ (parse : Conn Unit → CStr → Conn Unit) (recvqLimit : ℕ) (c : Conn Unit),
      (∀ c line, Live c → Live (parse c line)) → Live c →
        ∀ chunks, LinesDelivered parse recvqLimit c chunks := by
  intro hall
  have hfree := (hall (fun c _ => c) 2560 ⟨.server, false, false, 0, 0, false, ()⟩ (fun _ _ h => h)
    ⟨rfl, rfl⟩ ["PING a\r".toList, "\nPING b\r\n".toList]).1 _ [] (List.append_nil _).symm
  have hwaits : '\r' ∈ bytes (readPackets (fun c _ => c) 2560
      (Link.fresh ⟨.server, false, false, 0, 0, false, ()⟩)
      ["PING a\r".toList, "\nPING b\r\n".toList]).recvq := by decide
  simpa [isEol] using hfree '\r' hwaits

end IrcdHybrid.Packet
