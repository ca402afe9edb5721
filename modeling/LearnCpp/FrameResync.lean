import LearnCpp.FrameScan

/-!
# Resynchronisation

Bytes that start no frame are given up one by one, so behind any garbage the loop comes to the start of a good
frame, unless a frame it takes before reaches into that one. To say where frames are taken, the loop is run with a
trace: a round notes the packet it took, if any, and how many bytes it popped (`tracedRound`), and `deliveries`
adds these up. The traced loop runs the scanner that puts out the decisions of `Frame.scanner`.
-/

namespace LearnCpp

/-! ### The loop with a trace -/

namespace Frame
variable (fr : Frame)

/-- `round`, with a note of the packet taken and of the number of bytes popped. -/
def tracedRound : Bytes × List (Option Packet × ℕ) →
    (Bytes × List (Option Packet × ℕ)) ⊕ (Bytes × List (Option Packet × ℕ))
  | (q, trace) =>
    match fr.round (q, []) with
    | .inl (q', ps) => .inl (q', trace ++ [(ps.head?, q.length - q'.length)])
    | .inr (q', _) => .inr (q', trace)

theorem tracedRound_lowers : Loop.Lowers fr.tracedRound fun s => s.1.length := by
  rintro ⟨q, trace⟩ s' h
  unfold tracedRound at h
  dsimp only at h
  split at h
  · next q' ps hround =>
    cases h
    exact fr.round_lowers (q, []) (q', ps) hround
  · cases h

def tracedDrain (q : Bytes) : Bytes × List (Option Packet × ℕ) :=
  Loop.total fr.tracedRound _ fr.tracedRound_lowers (q, [])

end Frame

/-- The rounds of the given reads, and of each frame delivered the number of bytes popped before it. -/
def deliveries {δ : Type*} (fr : Frame) (cb : CircularBuffer) (read : δ → ReadResult → Int × δ) (dev : δ)
    (reads : List ReadResult) : List (ℕ × Packet) :=
  Scanner.placed 0 (Lts.runTotal (receiveRoundWith fr.tracedDrain cb read) (dev, []) reads).1.flatten

/-- The deliveries `ds` are the result `res` of a run over `stream`, each standing where its bytes are. -/
def DeliveredAt (stream : Bytes) (res : Option (List Packet × Bytes)) (ds : List (ℕ × Packet)) : Prop :=
  (∃ queue, res = some (ds.map Prod.snd, queue)) ∧
    ∀ d ∈ ds, (stream.drop d.1).take d.2.data.length = d.2.data

namespace Frame
variable {fr : Frame} {q g f t : Bytes} {pkt : Packet} {k : ℕ}

/-- A valid type, a declared length that is its own and within the bounds, and a checksum that holds. -/
structure Good (fr : Frame) (f : Bytes) : Prop where
  getType : fr.getType f ≠ .Invalid
  getLength : (fr.getLength f).toNat = f.length
  min_le : fr.frameHeadMinLen ≤ f.length
  le_max : f.length ≤ fr.maxSize
  judgeCheckSum : fr.judgeCheckSum f f.length = true

/-- `f` is delivered from its place behind `g`, or else another checksum-valid frame is whose bytes overlap
those of `f`. -/
def Resynced (fr : Frame) (g f : Bytes) (ds : List (ℕ × Packet)) : Prop :=
  (g.length, ⟨fr.getType f, f⟩) ∈ ds ∨
    ∃ d ∈ ds, d.1 ≠ g.length ∧ d.1 < g.length + f.length ∧ g.length < d.1 + d.2.data.length ∧
      fr.judgeCheckSum d.2.data d.2.data.length = true

/-! ### What a decision says -/

theorem decision_good (hfr : fr.Local) (hf : fr.Good f) :
    fr.decision f = some (some ⟨fr.getType f, f⟩, f.length) := by
  have hhead := hfr.head_lt
  have hmin := hf.min_le
  have hmax := hf.le_max
  unfold decision ValidLength
  dsimp only
  rw [hf.getLength, if_neg (by omega), if_neg (not_or.2 ⟨hf.getType, by omega⟩), if_neg (by omega),
    if_pos hf.judgeCheckSum, List.take_length]

theorem decision_packet (hfr : fr.Local) (h : fr.decision q = some (some pkt, k)) :
    pkt.data = q.take k ∧ pkt.data.length = k ∧ fr.judgeCheckSum pkt.data k = true := by
  have hk := (decision_pos h).2
  have hlen : (q.take k).length = k := by rw [List.length_take, Nat.min_eq_left hk]
  unfold decision at h
  dsimp only at h
  split_ifs at h with hwait hskip hshort hsum
  all_goals cases h
  refine ⟨rfl, hlen, ?_⟩
  rw [← hsum]
  exact hfr.judgeCheckSum (Nat.le_of_eq hlen.symm) hk (by rw [List.take_take, Nat.min_self])

theorem decision_skip (h : fr.decision q = some (none, k)) : k = 1 := by
  unfold decision at h
  dsimp only at h
  split_ifs at h <;> cases h <;> rfl

/-! ### The traced loop runs the decisions -/

theorem tracedRound_wait {trace : List (Option Packet × ℕ)} (h : fr.decision q = none) :
    fr.tracedRound (q, trace) = .inr (q, trace) := by
  simp only [tracedRound, round_wait h]

theorem tracedRound_step {trace : List (Option Packet × ℕ)} {o : Option Packet}
    (h : fr.decision q = some (o, k)) :
    fr.tracedRound (q, trace) = .inl (q.drop k, trace ++ [(o, k)]) := by
  have hk := (decision_pos h).2
  have hpop : q.length - (q.drop k).length = k := by
    rw [List.length_drop]
    omega
  simp only [tracedRound, round_step h, List.nil_append, hpop]
  cases o <;> rfl

theorem tracedDrain_eq_run (hfr : fr.Local) (q : Bytes) :
    fr.tracedDrain q = (((scanner hfr).decisions.run q).2, ((scanner hfr).decisions.run q).1) := by
  refine ((scanner hfr).decisions.total_eq_run fr.tracedRound_lowers ?_ ?_ q []).trans (by rw [List.nil_append])
  · intro q trace h
    exact tracedRound_wait (Option.map_eq_none_iff.1 h)
  · intro q trace o k h
    obtain ⟨⟨o', k'⟩, hd, he⟩ := Option.map_eq_some_iff.1 h
    cases he
    exact tracedRound_step hd

end Frame

section
variable {δ : Type*} {fr : Frame} {read : δ → ReadResult → Int × δ} {ok : δ → Prop} {dev : δ} {g f t : Bytes}
  {reads : List ReadResult}

theorem deliveries_eq (hfr : fr.Local) (cb : CircularBuffer) (hread : ReadsThrough read ok) (hdev : ok dev)
    (hr : ∀ r ∈ reads, r.Fits) :
    deliveries fr cb read dev reads =
      Scanner.placed 0 ((Frame.scanner hfr).decisions.run (ReadResult.stream reads)).1 := by
  have hwait : ∀ {q}, (Frame.scanner hfr).decisions.step q = none → fr.decision q = none :=
    fun h => Option.map_eq_none_iff.1 h
  have hnil := (Frame.scanner hfr).decisions.step_nil
  have hfeed := rounds_eq_feed (Frame.tracedDrain_eq_run hfr) hwait cb hread hdev (hwait hnil) hr
  rw [Scanner.feed_eq_run _ hnil] at hfeed
  exact congrArg (fun r => Scanner.placed 0 r.1) hfeed

theorem deliveredAt (hfr : fr.Local) (cb : CircularBuffer) (hread : ReadsThrough read ok) (hdev : ok dev)
    (hr : ∀ r ∈ reads, r.Fits) :
    DeliveredAt (ReadResult.stream reads) (some (receiveLoop fr cb read dev reads))
      (deliveries fr cb read dev reads) := by
  rw [deliveries_eq hfr cb hread hdev hr, receiveLoop_eq_run hfr cb hread hdev hr]
  refine ⟨⟨_, congrArg some ((Frame.scanner hfr).run_eq_decisions 0 _)⟩, ?_⟩
  rintro ⟨m, pkt⟩ hd
  obtain ⟨-, k, hk⟩ := (Frame.scanner hfr).mem_placed hd
  obtain ⟨hdata, hlen, -⟩ := Frame.decision_packet hfr hk
  dsimp only
  rw [hlen, hdata, Nat.sub_zero]

theorem resynced (hfr : fr.Local) (cb : CircularBuffer) (hread : ReadsThrough read ok) (hdev : ok dev)
    (hf : fr.Good f) (ht : fr.maxSize ≤ t.length) (hr : ∀ r ∈ reads, r.Fits)
    (hstream : ReadResult.stream reads = g ++ f ++ t) :
    fr.Resynced g f (deliveries fr cb read dev reads) := by
  rw [deliveries_eq hfr cb hread hdev hr, hstream]
  -- so long as `t` is ahead there are enough bytes for the longest frame
  have hgo : ∀ i < g.length - 0, (Frame.scanner hfr).step ((g ++ f ++ t).drop i) ≠ none := by
    intro i hi hwait
    have hlen := Frame.wait_length hwait
    simp only [List.length_drop, List.length_append] at hlen
    omega
  have hgood : (Frame.scanner hfr).step ((g ++ f ++ t).drop (g.length - 0)) =
      some (some ⟨fr.getType f, f⟩, f.length) := by
    rw [Nat.sub_zero, List.append_assoc, List.drop_left]
    exact Frame.decision_append hfr (Frame.decision_good hfr hf) t
  rcases (Frame.scanner hfr).placed_or_straddled Frame.decision_skip (Nat.zero_le _) hgo hgood with
    hb | ⟨m, pkt, k, hm, hk, hb, hstep⟩
  · exact .inl hb
  · obtain ⟨-, hlen, hsum⟩ := Frame.decision_packet hfr hstep
    rw [← hlen] at hk hsum
    exact .inr ⟨(m, pkt), hb, Nat.ne_of_lt hm, Nat.lt_add_right _ hm, hk, hsum⟩

end

/-- However a stream is cut into reads in which a good frame stands behind garbage, with the longest frame's length
of bytes behind it: either program takes the good frame from its place, unless it takes another checksum-valid
frame that overlaps it. -/
theorem good_frame_delivered {fr : Frame} (hfr : fr.Local) (cb : CircularBuffer) {g f t : Bytes} (hf : fr.Good f)
    (ht : fr.maxSize ≤ t.length) {reads : List ReadResult} (hr : ∀ r ∈ reads, r.Fits)
    (hstream : ReadResult.stream reads = g ++ f ++ t) :
    (∀ kern mallocOk openOk o, (spiTestDevice kern mallocOk openOk o).1 = true →
        DeliveredAt (g ++ f ++ t) (spiTest fr cb kern mallocOk openOk o reads)
            (deliveries fr cb Spi.read (spiTestDevice kern mallocOk openOk o).2 reads) ∧
          fr.Resynced g f (deliveries fr cb Spi.read (spiTestDevice kern mallocOk openOk o).2 reads)) ∧
      ∀ socket broadcast reuse bind, (UdpDevice.new.begin socket broadcast reuse bind).1 = true →
        DeliveredAt (g ++ f ++ t) (udpDeviceTest fr cb socket broadcast reuse bind reads)
            (deliveries fr cb UdpDevice.read (UdpDevice.new.begin socket broadcast reuse bind).2 reads) ∧
          fr.Resynced g f
            (deliveries fr cb UdpDevice.read (UdpDevice.new.begin socket broadcast reuse bind).2 reads) := by
  refine ⟨?_, ?_⟩
  · intro kern mallocOk openOk o hup
    rw [spiTest_eq cb hup, ← hstream]
    exact ⟨deliveredAt hfr cb Spi.readsThrough trivial hr, resynced hfr cb Spi.readsThrough trivial hf ht hr hstream⟩
  · intro socket broadcast reuse bind hup
    have hdev := UdpDevice.begin_socket hup
    rw [udpDeviceTest_eq cb hup, ← hstream]
    exact ⟨deliveredAt hfr cb UdpDevice.readsThrough hdev hr,
      resynced hfr cb UdpDevice.readsThrough hdev hf ht hr hstream⟩

def noisyReads : List ReadResult := [⟨13, 0, 0 :: cutFrame.data⟩, ⟨2048, 0, List.replicate 2048 0⟩]

theorem good_frame_delivered_noisy :
    DeliveredAt ([0] ++ cutFrame.data ++ List.replicate 2048 0)
        (spiTest .generated .growing ⟨0, [], ⟨0, 0, 0⟩, []⟩ true true spiUp noisyReads)
        (deliveries .generated .growing Spi.read (spiTestDevice ⟨0, [], ⟨0, 0, 0⟩, []⟩ true true spiUp).2 noisyReads) ∧
      Frame.generated.Resynced [0] cutFrame.data
        (deliveries .generated .growing Spi.read (spiTestDevice ⟨0, [], ⟨0, 0, 0⟩, []⟩ true true spiUp).2
          noisyReads) := by
  have hf : Frame.generated.Good cutFrame.data := by
    refine ⟨?_, ?_, ?_, ?_, ?_⟩ <;> decide
  have ht : Frame.generated.maxSize ≤ (List.replicate 2048 (0 : UInt8)).length := by
    rw [List.length_replicate]
    exact Nat.le_refl 2048
  have hr : ∀ r ∈ noisyReads, r.Fits := by
    intro r h
    rcases List.mem_pair.1 h with rfl | rfl
    · decide
    · exact fun _ => ⟨by rw [List.length_replicate]; rfl, by decide⟩
  have hstream : ReadResult.stream noisyReads = [0] ++ cutFrame.data ++ List.replicate 2048 0 := by
    simp [ReadResult.stream, ReadResult.received, noisyReads, -List.reduceReplicate]
  exact (good_frame_delivered Frame.generated_local .growing hf ht hr hstream).1 _ _ _ _ (by decide)

end LearnCpp
