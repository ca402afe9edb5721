import LearnCpp.Receive
import LearnCpp.Lib.Scanner

/-!
# The frames found do not depend on the reads

`Frame.scan` is one left-to-right scan of a whole stream, by offset. `Frame.scanner` is the decision the
inner loop makes about its queue, as a scanner: what `Frame.Local` says of the three functions makes its
decisions final. The inner loop runs that scanner (`drain_eq_run`), and what it leaves is shorter than the
longest frame, so the next read fits into the buffer (`wait_length`): the rounds feed the scanner the reads
one after the other (`rounds_eq_feed`), and that is one scan of them all.
-/

namespace LearnCpp

namespace Frame

variable (fr : Frame) {q b : Bytes}

/-- The scan of `stream` from offset `p`: the frames found, and the offset it stops at. -/
def scan (stream : Bytes) (p : ℕ) : List Packet × ℕ :=
  let rest := stream.drop p
  let len := (fr.getLength rest).toNat
  if _hwait : rest.length ≤ fr.frameHeadPacketLenSize then ([], p)
  else if _hskip : fr.getType rest = .Invalid ∨ ¬ fr.ValidLength len then scan stream (p + 1)
  else if rest.length < len then ([], p)
  else if fr.judgeCheckSum rest len then
    let (ps, e) := scan stream (p + len)
    (⟨fr.getType rest, rest.take len⟩ :: ps, e)
  else scan stream (p + 1)
termination_by stream.length - p
decreasing_by
  all_goals
    have hrest : rest.length = stream.length - p := List.length_drop
    have hmin := fr.min_pos
  · omega
  · have hlen := (not_or.1 _hskip).2
    unfold ValidLength at hlen
    change stream.length - (p + (fr.getLength rest).toNat) < stream.length - p
    omega
  · omega

/-- The frames found in a whole stream, and the suffix not consumed. -/
def scanned (stream : Bytes) : List Packet × Bytes :=
  ((fr.scan stream 0).1, stream.drop (fr.scan stream 0).2)

/-- The decision on a queue: wait, drop a byte, or take a frame. -/
def decision (q : Bytes) : Option (Option Packet × ℕ) :=
  let len := (fr.getLength q).toNat
  if q.length ≤ fr.frameHeadPacketLenSize then none
  else if fr.getType q = .Invalid ∨ ¬ fr.ValidLength len then some (none, 1)
  else if q.length < len then none
  else if fr.judgeCheckSum q len then some (some ⟨fr.getType q, q.take len⟩, len)
  else some (none, 1)

variable {fr}

theorem decision_pos {o : Option Packet} {k : ℕ} (h : fr.decision q = some (o, k)) : 0 < k ∧ k ≤ q.length := by
  have hmin := fr.min_pos
  unfold decision ValidLength at h
  dsimp only at h
  split_ifs at h with hwait hskip hshort hsum <;> cases h <;> omega

theorem decision_append (hfr : fr.Local) {r : Option Packet × ℕ} (h : fr.decision q = some r) (b : Bytes) :
    fr.decision (q ++ b) = some r := by
  have hle : q.length ≤ (q ++ b).length := by simp
  unfold decision at h ⊢
  dsimp only at h ⊢
  split_ifs at h with hwait hskip hshort hsum
  all_goals
    have htake : (q ++ b).take fr.frameHeadPacketLenSize = q.take fr.frameHeadPacketLenSize :=
      List.take_append_of_le_length (by omega)
    rw [hfr.getType (p := q) (by omega) (by omega) htake, hfr.getLength (p := q) (by omega) (by omega) htake,
      if_neg (by omega)]
  · rw [if_pos hskip, h]
  all_goals
    have hn : (q ++ b).take (fr.getLength q).toNat = q.take (fr.getLength q).toNat :=
      List.take_append_of_le_length (by omega)
    rw [if_neg hskip, if_neg (by omega), hfr.judgeCheckSum (p := q) (by omega) (by omega) hn]
  · rw [if_pos hsum, hn, h]
  · rw [if_neg hsum, h]

theorem wait_length (h : fr.decision q = none) : q.length < fr.maxSize := by
  have hhead := fr.head_lt
  unfold decision ValidLength at h
  dsimp only at h
  split_ifs at h with hwait hskip hshort hsum <;> omega

def scanner (hfr : fr.Local) : Scanner UInt8 Packet where
  step := fr.decision
  step_pos := decision_pos
  step_append := decision_append hfr

/-! ### The inner loop -/

theorem round_wait {out : List Packet} (h : fr.decision q = none) : fr.round (q, out) = .inr (q, out) := by
  unfold decision ValidLength at h
  unfold round
  dsimp only at h ⊢
  split_ifs at h ⊢ <;> first | rfl | omega | simp_all

theorem round_step {out : List Packet} {o : Option Packet} {k : ℕ} (h : fr.decision q = some (o, k)) :
    fr.round (q, out) = .inl (q.drop k, out ++ o.toList) := by
  unfold decision ValidLength at h
  unfold round CircularBuffer.popFront CircularBuffer.popFrontBlock
  dsimp only at h ⊢
  split_ifs at h ⊢ <;> cases h <;> first | omega | simp_all

theorem drain_eq_run (hfr : fr.Local) (q : Bytes) :
    fr.drain q = (((scanner hfr).run q).2, ((scanner hfr).run q).1) := by
  rw [drain, (scanner hfr).total_eq_run fr.round_lowers round_wait round_step, List.nil_append]

/-! ### The scan by offset -/

theorem scan_eq (stream : Bytes) (p : ℕ) :
    fr.scan stream p = match fr.decision (stream.drop p) with
      | none => ([], p)
      | some (o, k) => (o.toList ++ (fr.scan stream (p + k)).1, (fr.scan stream (p + k)).2) := by
  rw [scan]
  unfold decision
  dsimp only
  split_ifs <;> rfl

theorem scan_eq_run (hfr : fr.Local) (stream : Bytes) (p : ℕ) :
    ((fr.scan stream p).1, stream.drop (fr.scan stream p).2) = (scanner hfr).run (stream.drop p) := by
  induction hq : stream.drop p using Scanner.run.induct (scanner hfr) generalizing p with
  | case1 q h =>
    have hd : fr.decision (stream.drop p) = none := hq ▸ h
    rw [scan_eq, hd, Scanner.run_wait _ h, hq]
  | case2 q o k h _ _ _ ih =>
    have hd : fr.decision (stream.drop p) = some (o, k) := hq ▸ h
    have hk := ih (p + k) (by rw [← hq, List.drop_drop])
    rw [scan_eq, hd, Scanner.run_step _ h, ← hk]

theorem scanned_eq_run (hfr : fr.Local) (stream : Bytes) : fr.scanned stream = (scanner hfr).run stream := by
  rw [scanned, scan_eq_run hfr, List.drop_zero]

end Frame

/-! ### The outer loop -/

/-- A device whose reads the loop gets to see as the system call made them, in every state `ok` holds of. -/
structure ReadsThrough {δ : Type*} (read : δ → ReadResult → Int × δ) (ok : δ → Prop) : Prop where
  ret : ∀ {d} r, ok d → (read d r).1 = r.ret
  keeps : ∀ {d} r, ok d → ok (read d r).2

theorem Spi.readsThrough : ReadsThrough Spi.read fun _ => True := ⟨fun _ _ => rfl, fun _ _ => trivial⟩

theorem UdpDevice.readsThrough : ReadsThrough UdpDevice.read fun d => 0 ≤ d.broadcastSocket :=
  ⟨fun r hd => (read_open hd r).1, fun r hd => (read_open hd r).2⟩

section
variable {δ ω : Type*} {fr : Frame} {read : δ → ReadResult → Int × δ} {ok : δ → Prop}

theorem ReadResult.buff_take {r : ReadResult} (h : r.Fits) (hpos : 0 < r.ret) :
    r.buff.take r.ret.toNat = r.bytes := by
  obtain ⟨hlen, hmax⟩ := h hpos
  have hn : r.ret.toNat = r.bytes.length := by omega
  rw [buff, List.take_take, hn, Nat.min_eq_left (by omega), List.take_left]

theorem push_received {q : Bytes} (cb : CircularBuffer) (hq : q.length < fr.maxSize) {r : ReadResult} (hr : r.Fits) :
    (if r.ret > 0 then cb.pushBackBlock q (r.buff.take r.ret.toNat) else q) = q ++ r.received := by
  unfold ReadResult.received
  split_ifs with hpos
  · have hlen := hr hpos
    have hmax := fr.max_le
    rw [ReadResult.buff_take hr hpos, cb.push_fits (by omega)]
  · rw [List.append_nil]

/-- `receiveRound` with `drain` for its inner loop. -/
def receiveRoundWith (drain : Bytes → Bytes × List ω) (cb : CircularBuffer) (read : δ → ReadResult → Int × δ) :
    δ × Bytes → ReadResult → List ω × (δ × Bytes)
  | (dev, queue), r =>
    let (readLen, dev) := read dev r
    let queue := if readLen > 0 then cb.pushBackBlock queue (r.buff.take readLen.toNat) else queue
    let (queue, out) := drain queue
    (out, dev, queue)

/-- Rounds whose inner loop runs a scanner that waits only where the frame scanner does. -/
theorem rounds_eq_feed {sc : Scanner UInt8 ω} {drain : Bytes → Bytes × List ω}
    (hdrain : ∀ q, drain q = ((sc.run q).2, (sc.run q).1)) (hwait : ∀ {q}, sc.step q = none → fr.decision q = none)
    (cb : CircularBuffer) (hread : ReadsThrough read ok) {dev : δ} (hdev : ok dev) {q : Bytes}
    (hq : fr.decision q = none) {reads : List ReadResult} (hr : ∀ r ∈ reads, r.Fits) :
    ((Lts.runTotal (receiveRoundWith drain cb read) (dev, q) reads).1.flatten,
        (Lts.runTotal (receiveRoundWith drain cb read) (dev, q) reads).2.2) =
      sc.feed q (reads.map ReadResult.received) := by
  induction reads generalizing dev q with
  | nil => rfl
  | cons r reads ih =>
    have hround : receiveRoundWith drain cb read (dev, q) r =
        ((sc.run (q ++ r.received)).1, (read dev r).2, (sc.run (q ++ r.received)).2) := by
      simp only [receiveRoundWith, hread.ret r hdev, push_received cb (Frame.wait_length hq) (hr r (by simp)),
        hdrain]
    have hrest := ih (hread.keeps r hdev) (hwait (sc.step_rest (q ++ r.received)))
      fun r' h => hr r' (by simp [h])
    simp only [Lts.runTotal, hround, List.map_cons, Scanner.feed, List.flatten_cons, ← hrest]

theorem receiveLoop_eq_run (hfr : fr.Local) (cb : CircularBuffer) (hread : ReadsThrough read ok) {dev : δ}
    (hdev : ok dev) {reads : List ReadResult} (hr : ∀ r ∈ reads, r.Fits) :
    receiveLoop fr cb read dev reads = (Frame.scanner hfr).run (ReadResult.stream reads) := by
  have hnil : fr.decision [] = none := (Frame.scanner hfr).step_nil
  have hfeed := rounds_eq_feed (Frame.drain_eq_run hfr) id cb hread hdev hnil hr
  rw [receiveLoop]
  exact hfeed.trans (Scanner.feed_eq_run _ hnil _)

end

/-! ### The programs -/

variable {fr : Frame} {reads : List ReadResult}

theorem spiTest_eq (cb : CircularBuffer) {kern : Kernel} {mallocOk openOk : Bool} {o : Outcomes}
    (h : (spiTestDevice kern mallocOk openOk o).1 = true) :
    spiTest fr cb kern mallocOk openOk o reads =
      some (receiveLoop fr cb Spi.read (spiTestDevice kern mallocOk openOk o).2 reads) := by
  simp only [spiTest, h, Bool.not_true, Bool.false_eq_true, if_false]

theorem udpDeviceTest_eq (cb : CircularBuffer) {socket broadcast reuse bind : Int}
    (h : (UdpDevice.new.begin socket broadcast reuse bind).1 = true) :
    udpDeviceTest fr cb socket broadcast reuse bind reads =
      some (receiveLoop fr cb UdpDevice.read (UdpDevice.new.begin socket broadcast reuse bind).2 reads) := by
  simp only [udpDeviceTest, h, Bool.not_true, Bool.false_eq_true, if_false]

/-- Once its device is up, either program delivers what the scanner takes of all that was read. -/
theorem receive_of_run (hfr : fr.Local) (cb : CircularBuffer) (hr : ∀ r ∈ reads, r.Fits) {out : List Packet × Bytes}
    (hrun : (Frame.scanner hfr).run (ReadResult.stream reads) = out) :
    (∀ kern mallocOk openOk o, (spiTestDevice kern mallocOk openOk o).1 = true →
        spiTest fr cb kern mallocOk openOk o reads = some out) ∧
      ∀ socket broadcast reuse bind, (UdpDevice.new.begin socket broadcast reuse bind).1 = true →
        udpDeviceTest fr cb socket broadcast reuse bind reads = some out := by
  refine ⟨?_, ?_⟩
  · intro kern mallocOk openOk o hup
    rw [spiTest_eq cb hup, receiveLoop_eq_run hfr cb Spi.readsThrough trivial hr, hrun]
  · intro socket broadcast reuse bind hup
    rw [udpDeviceTest_eq cb hup,
      receiveLoop_eq_run hfr cb UdpDevice.readsThrough (UdpDevice.begin_socket hup) hr, hrun]

/-- Once its device is up, either program delivers the frames that one scan of all that was read finds, and
its queue holds what the scan has not consumed. -/
theorem receive_eq_scan (hfr : fr.Local) (cb : CircularBuffer) (hr : ∀ r ∈ reads, r.Fits) :
    (∀ kern mallocOk openOk o, (spiTestDevice kern mallocOk openOk o).1 = true →
        spiTest fr cb kern mallocOk openOk o reads = some (fr.scanned (ReadResult.stream reads))) ∧
      ∀ socket broadcast reuse bind, (UdpDevice.new.begin socket broadcast reuse bind).1 = true →
        udpDeviceTest fr cb socket broadcast reuse bind reads = some (fr.scanned (ReadResult.stream reads)) := by
  rw [Frame.scanned_eq_run hfr]
  exact receive_of_run hfr cb hr rfl

def cutReads : List ReadResult :=
  [⟨5, 0, [0, 0xf8, 0xf4, 0xf2, 0x11]⟩, ⟨-1, 11, []⟩, ⟨8, 0, [0, 12, 0x8b, 0x6e, 0xa5, 0x5a, 4, 0xf3]⟩]

def cutFrame : Packet := ⟨.Optic, [0xf8, 0xf4, 0xf2, 0x11, 0, 12, 0x8b, 0x6e, 0xa5, 0x5a, 4, 0xf3]⟩

def spiUp : Outcomes := ⟨⟨some 3, true⟩, ⟨some 8, true⟩, ⟨some 2000000, true⟩⟩

theorem receive_eq_scan_cut :
    spiTest .generated .growing ⟨0, [], ⟨0, 0, 0⟩, []⟩ true true spiUp cutReads = some ([cutFrame], []) ∧
      udpDeviceTest .generated .growing 3 0 0 0 cutReads = some ([cutFrame], []) := by
  have hr : ∀ r ∈ cutReads, r.Fits := by decide
  have h := receive_eq_scan Frame.generated_local .growing hr
  have hscan : Frame.generated.scanned (ReadResult.stream cutReads) = ([cutFrame], []) := by
    have h0 : Frame.generated.decision ((ReadResult.stream cutReads).drop 0) = some (none, 1) := by decide
    have h1 : Frame.generated.decision ((ReadResult.stream cutReads).drop 1) = some (some cutFrame, 12) := by decide
    have h2 : Frame.generated.decision ((ReadResult.stream cutReads).drop 13) = none := by decide
    simp only [Frame.scanned, Frame.scan_eq, h0, h1, h2]
    decide
  rw [hscan] at h
  exact ⟨h.1 _ _ _ _ (by decide), h.2 _ _ _ _ (by decide)⟩

end LearnCpp
