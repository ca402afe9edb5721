import LearnCpp.FrameScan

/-!
# The queue stays short

Whatever the three functions of `Frame` answer, the inner loop stops only with fewer bytes queued than the longest
frame has: either a head is not complete, or the bytes of a frame of at most `maxSize` are still to come. A read
of 2048 bytes therefore always fits behind them, and a frame taken fits into `data_buff`.
-/

namespace LearnCpp

namespace Frame
variable {fr : Frame} {q : Bytes}

theorem decision_data {pkt : Packet} {k : ℕ} (h : fr.decision q = some (some pkt, k)) :
    pkt.data.length ≤ fr.maxSize := by
  unfold decision ValidLength at h
  dsimp only at h
  split_ifs at h with hwait hskip hshort hsum
  all_goals cases h
  rw [List.length_take]
  omega

theorem drain_bounds (fr : Frame) (q : Bytes) :
    (fr.drain q).1.length < fr.maxSize ∧ ∀ p ∈ (fr.drain q).2, p.data.length ≤ fr.maxSize := by
  refine Loop.total_inv fr.round_lowers (I := fun s => ∀ p ∈ s.2, p.data.length ≤ fr.maxSize)
    (P := fun s => s.1.length < fr.maxSize ∧ ∀ p ∈ s.2, p.data.length ≤ fr.maxSize) ?_ ?_ (by simp)
  · rintro ⟨q, out⟩ s' hout hround
    cases hd : fr.decision q with
    | none =>
      rw [round_wait hd] at hround
      cases hround
    | some r =>
      rcases r with ⟨o, k⟩
      rw [round_step hd] at hround
      cases hround
      intro p hp
      rcases List.mem_append.1 hp with hp | hp
      · exact hout p hp
      · rw [Option.mem_toList] at hp
        cases hp
        exact decision_data hd
  · rintro ⟨q, out⟩ s' hout hround
    cases hd : fr.decision q with
    | none =>
      rw [round_wait hd] at hround
      cases hround
      exact ⟨wait_length hd, hout⟩
    | some r =>
      rw [round_step hd] at hround
      cases hround

end Frame

/-- The read `r` takes a program from the result `before` to the result `after`: it finds fewer bytes queued than the
longest frame has and fits into the buffer behind them, the inner loop stops with as few again, and the frames it
copies out are no longer than `data_buff`. -/
def RoundFits (fr : Frame) (cb : CircularBuffer) (r : ReadResult) (before after : Option (List Packet × Bytes)) :
    Prop :=
  ∃ out queue taken left, before = some (out, queue) ∧ after = some (out ++ taken, left) ∧
    queue.length ≤ fr.maxSize - 1 ∧ queue.length + r.received.length ≤ 4096 ∧
    cb.pushBackBlock queue r.received = queue ++ r.received ∧
    (∃ n, Loop.iter fr.round n (queue ++ r.received, []) = some (left, taken)) ∧
    left.length ≤ fr.maxSize - 1 ∧ ∀ p ∈ taken, p.data.length ≤ fr.maxSize

section
variable {δ : Type*} {fr : Frame} {read : δ → ReadResult → Int × δ} {ok : δ → Prop} {dev : δ} {q : Bytes}
  {r : ReadResult} {reads : List ReadResult}

theorem receiveRound_eq (cb : CircularBuffer) (hread : ReadsThrough read ok) (hdev : ok dev)
    (hq : q.length < fr.maxSize) (hr : r.Fits) :
    receiveRound fr cb read (dev, q) r =
      ((fr.drain (q ++ r.received)).2, (read dev r).2, (fr.drain (q ++ r.received)).1) := by
  simp only [receiveRound, hread.ret r hdev, push_received cb hq hr]

theorem receive_short (cb : CircularBuffer) (hread : ReadsThrough read ok) (hdev : ok dev)
    (hr : ∀ r ∈ reads, r.Fits) :
    ok (Lts.runTotal (receiveRound fr cb read) (dev, []) reads).2.1 ∧
      (Lts.runTotal (receiveRound fr cb read) (dev, []) reads).2.2.length < fr.maxSize := by
  have hpos : ([] : Bytes).length < fr.maxSize := Nat.lt_of_le_of_lt (Nat.zero_le _) fr.head_lt
  refine Lts.runTotal_inv (I := fun s : δ × Bytes => ok s.1 ∧ s.2.length < fr.maxSize) ReadResult.Fits ?_ hr
    ⟨hdev, hpos⟩
  rintro ⟨dev, q⟩ r hr ⟨hdev, hq⟩
  rw [receiveRound_eq cb hread hdev hq hr]
  exact ⟨hread.keeps r hdev, (fr.drain_bounds _).1⟩

theorem received_length (hr : r.Fits) : r.received.length ≤ 2048 := by
  unfold ReadResult.received
  split_ifs with hpos
  · have hlen := hr hpos
    omega
  · exact Nat.zero_le _

theorem roundFits (cb : CircularBuffer) (hread : ReadsThrough read ok) (hdev : ok dev) (hr : ∀ r ∈ reads, r.Fits)
    (hlast : r.Fits) :
    RoundFits fr cb r (some (receiveLoop fr cb read dev reads)) (some (receiveLoop fr cb read dev (reads ++ [r]))) := by
  obtain ⟨hok, hshort⟩ := receive_short cb hread hdev hr
  have hsize := received_length hlast
  have hmax := fr.max_le
  rcases hrun : Lts.runTotal (receiveRound fr cb read) (dev, []) reads with ⟨outs, dev', queue⟩
  rw [hrun] at hok hshort
  dsimp only at hok hshort
  have hleft := fr.drain_bounds (queue ++ r.received)
  refine ⟨outs.flatten, queue, _, _, by rw [receiveLoop, hrun], ?_, Nat.le_sub_one_of_lt hshort, by omega,
    cb.push_fits (by omega), ⟨_, Loop.iter_eq_total fr.round_lowers (Nat.lt_succ_self _)⟩,
    Nat.le_sub_one_of_lt hleft.1, hleft.2⟩
  rw [receiveLoop, Lts.runTotal_append, hrun]
  simp only [Lts.runTotal, receiveRound_eq cb hread hok hshort hlast, List.flatten_append, List.flatten_cons,
    List.flatten_nil, List.append_nil]
  rfl

end

/-- Once its device is up, in either program every read fits into the buffer, whatever was read before and whatever
`Frame` answers; the inner loop then ends with fewer bytes left than the longest frame has, having copied out no
frame longer than that. -/
theorem rounds_fit (fr : Frame) (cb : CircularBuffer) {reads : List ReadResult} (hr : ∀ r ∈ reads, r.Fits)
    {r : ReadResult} (hlast : r.Fits) :
    (∀ kern mallocOk openOk o, (spiTestDevice kern mallocOk openOk o).1 = true →
        RoundFits fr cb r (spiTest fr cb kern mallocOk openOk o reads)
          (spiTest fr cb kern mallocOk openOk o (reads ++ [r]))) ∧
      ∀ socket broadcast reuse bind, (UdpDevice.new.begin socket broadcast reuse bind).1 = true →
        RoundFits fr cb r (udpDeviceTest fr cb socket broadcast reuse bind reads)
          (udpDeviceTest fr cb socket broadcast reuse bind (reads ++ [r])) := by
  refine ⟨?_, ?_⟩
  · intro kern mallocOk openOk o hup
    rw [spiTest_eq cb hup, spiTest_eq cb hup]
    exact roundFits cb Spi.readsThrough trivial hr hlast
  · intro socket broadcast reuse bind hup
    rw [udpDeviceTest_eq cb hup, udpDeviceTest_eq cb hup]
    exact roundFits cb UdpDevice.readsThrough (UdpDevice.begin_socket hup) hr hlast

theorem rounds_fit_cut :
    RoundFits .generated .growing ⟨8, 0, [0, 12, 0x8b, 0x6e, 0xa5, 0x5a, 4, 0xf3]⟩
      (udpDeviceTest .generated .growing 3 0 0 0 [⟨5, 0, [0, 0xf8, 0xf4, 0xf2, 0x11]⟩])
      (udpDeviceTest .generated .growing 3 0 0 0
        [⟨5, 0, [0, 0xf8, 0xf4, 0xf2, 0x11]⟩, ⟨8, 0, [0, 12, 0x8b, 0x6e, 0xa5, 0x5a, 4, 0xf3]⟩]) :=
  (rounds_fit .generated .growing (by decide) (by decide)).2 3 0 0 0 (by decide)

end LearnCpp
