import LearnCpp.CheckData

/-!
# From `generate_data` to the sequence check

What `generate_data` sends, both programs deliver whole, and their check of it can be told from the places of the
frames: `generate_data` numbers all its frames by one counter, and the check has a number for each stream. So a frame is
passed over in silence exactly if the one before it in its stream is the one before it at all, and the counter has not
wrapped (`generated_reported`).
-/

namespace LearnCpp

/-- The frames of `generate_data` as the programs take them. -/
def generatedPackets (fr : Frame) (seq : UInt16) (rounds : List (Int × Bytes)) : List Packet :=
  (mainData seq rounds).map (FrameData.packet fr)

namespace FrameData
variable {fr : Frame} {known : UInt8 → Prop} {f : FrameData} {seq : UInt16} {rounds : List (Int × Bytes)} {i : ℕ}

theorem mainData_wellBuilt (h11 : known 0x11) (hmin : fr.frameHeadMinLen ≤ 30) (hmax : 30 ≤ fr.maxSize)
    (seq : UInt16) (h : ∀ r ∈ rounds, r.1 = 14 ∧ r.2.length = 14) :
    ∀ f ∈ mainData seq rounds, f.WellBuilt fr known := by
  induction rounds generalizing seq with
  | nil => intro f hf; cases hf
  | cons r rounds ih =>
    intro f hf
    rcases List.mem_cons.1 hf with rfl | hf
    · have hsize : r.2.length = 14 := (h r (by simp)).2
      refine ⟨h11, ?_, ?_⟩ <;> simpa [size, hsize]
    · exact ih (seq + 1) (fun r hr => h r (by simp [hr])) f hf

theorem run_generateData (hfr : fr.Local) (hfmt : fr.ReadsFormat known) (h11 : known 0x11)
    (hmin : fr.frameHeadMinLen ≤ 30) (hmax : 30 ≤ fr.maxSize) (seq : UInt16)
    (h : ∀ r ∈ rounds, r.1 = 14 ∧ r.2.length = 14) :
    (Frame.scanner hfr).run (generateData seq rounds).flatten = (generatedPackets fr seq rounds, []) := by
  rw [generateData_eq seq h]
  exact run_built hfr hfmt (mainData_wellBuilt h11 hmin hmax seq h)

theorem seqField_packet (fr : Frame) (f : FrameData) : seqField (f.packet fr).data = f.seq.toNat := by
  rw [packet, encode_eq, body, List.append_assoc, List.append_assoc]
  exact seqField_head ..

/-- The frame at place `i` has the `i`-th number from the first on. -/
theorem seq_of_mainData (h : (mainData seq rounds)[i]? = some f) : f.seq.toNat = (seq.toNat + i) % 2 ^ 16 := by
  induction rounds generalizing seq i with
  | nil => cases h
  | cons r rounds ih =>
    cases i with
    | zero =>
      cases h
      have hlt := seq.toNat_lt
      dsimp only
      omega
    | succ i =>
      have hrest : f.seq.toNat = ((seq + 1).toNat + i) % 2 ^ 16 := ih h
      rw [hrest, UInt16.toNat_add]
      simp only [UInt16.reduceToNat]
      omega

end FrameData

/-! ### Places in a stream -/

section
variable {ck : FrameChecks} {out pre mid : List Packet} {prev p : Packet} {s : SeqStream} {i j : ℕ}

/-- The frame at place `i` is the first of its stream. -/
def First (ck : FrameChecks) (out : List Packet) (i : ℕ) : Prop :=
  ∃ pre p post s, out = pre ++ p :: post ∧ pre.length = i ∧ streamOf ck p = some s ∧ ∀ q ∈ pre, streamOf ck q ≠ some s

/-- The frames at places `j` and `i` are of one stream, and none between them is. -/
def Consecutive (ck : FrameChecks) (out : List Packet) (j i : ℕ) : Prop :=
  ∃ pre prev mid p post s, out = pre ++ prev :: (mid ++ p :: post) ∧ pre.length = j ∧ j + 1 + mid.length = i ∧
    streamOf ck prev = some s ∧ streamOf ck p = some s ∧ ∀ q ∈ mid, streamOf ck q ≠ some s

theorem lastOf_eq_none (h : ∀ q ∈ pre, streamOf ck q ≠ some s) : lastOf ck s pre = none := by
  rw [lastOf, List.getLast?_eq_none_iff, List.filter_eq_nil_iff]
  intro q hq
  simpa using h q hq

theorem lastOf_eq (hprev : streamOf ck prev = some s) (h : ∀ q ∈ mid, streamOf ck q ≠ some s) :
    lastOf ck s (pre ++ prev :: mid) = some prev := by
  have hmid : mid.filter (fun q => streamOf ck q = some s) = [] :=
    List.filter_eq_nil_iff.2 fun q hq => by simpa using h q hq
  rw [lastOf, List.filter_append, List.filter_cons_of_pos (by simpa using hprev), hmid, List.getLast?_concat]

theorem old_zero (s : SeqStream) : OldSeqs.zero.old s = 0 := by
  have hzero (i : ℕ) : (List.replicate 8 (0 : Int)).getD i 0 = 0 := by
    rw [List.getD_eq_getElem?_getD, List.getElem?_replicate]
    split_ifs <;> rfl
  cases s with
  | optic i => exact hzero i.toNat
  | groove i => exact hzero i.toNat
  | imu => rfl

/-- Before the first frame of a stream its static is zero. -/
theorem old_of_lastOf_none (hck : ck.ReadsSeq) (hs : s.Valid) (h : lastOf ck s pre = none) :
    (Lts.runTotal (checkSeq ck) .zero pre).2.old s = 0 := by
  induction pre using List.reverseRecOn with
  | nil =>
    exact old_zero s
  | append_singleton pre q ih =>
    rw [lastOf_append] at h
    split_ifs at h with hq
    have hold := ih h
    rw [Lts.runTotal_append]
    change (checkSeq ck (Lts.runTotal (checkSeq ck) .zero pre).2 q).2.old s = 0
    rcases hstream : streamOf ck q with _ | t
    · rw [checkSeq_none hstream]
      exact hold
    · have hne : s ≠ t := fun heq => hq (heq ▸ hstream)
      rw [checkSeq_old hck (tracks_run hck pre).sized hstream hs, if_neg hne]
      exact hold

theorem reported_first (hck : ck.ReadsSeq) {post : List Packet} (hp : streamOf ck p = some s)
    (h : ∀ q ∈ pre, streamOf ck q ≠ some s) : Reported ck (pre ++ p :: post) pre.length ↔ seqField p.data ≠ 1 := by
  unfold Reported seqReports
  rw [Lts.runTotal_getElem]
  simp only [Option.some.injEq, ← Option.isSome_iff_exists]
  rw [checkSeq_report hck hp, old_of_lastOf_none hck (streamOf_valid hck hp) (lastOf_eq_none h)]
  omega

end

/-! ### What is reported -/

section
variable {fr : Frame} {ck : FrameChecks} {seq : UInt16} {rounds : List (Int × Bytes)} {i j : ℕ}

/-- A frame at a place of what `generate_data` sends has the number of this place. -/
theorem seqField_of_generated {pre post : List Packet} {p : Packet}
    (h : generatedPackets fr seq rounds = pre ++ p :: post) : seqField p.data = (seq.toNat + pre.length) % 2 ^ 16 := by
  have hat : (generatedPackets fr seq rounds)[pre.length]? = some p := by
    rw [h, List.getElem?_append_right (Nat.le_refl _), Nat.sub_self]
    rfl
  rw [generatedPackets, List.getElem?_map] at hat
  obtain ⟨f, hf, rfl⟩ := Option.map_eq_some_iff.1 hat
  rw [FrameData.seqField_packet, FrameData.seq_of_mainData hf]

theorem generated_first (hck : ck.ReadsSeq) (h : First ck (generatedPackets fr seq rounds) i) :
    Reported ck (generatedPackets fr seq rounds) i ↔ (seq.toNat + i) % 2 ^ 16 ≠ 1 := by
  obtain ⟨pre, p, post, s, hout, rfl, hp, hpre⟩ := h
  rw [hout, reported_first hck hp hpre, seqField_of_generated hout]

theorem generated_consecutive (hck : ck.ReadsSeq) (h : Consecutive ck (generatedPackets fr seq rounds) j i) :
    Reported ck (generatedPackets fr seq rounds) i ↔ (i - j) % 2 ^ 16 ≠ 1 ∨ (seq.toNat + i) % 2 ^ 16 = 0 := by
  obtain ⟨pre, prev, mid, p, post, s, hout, rfl, rfl, hprev, hp, hmid⟩ := h
  have hassoc : generatedPackets fr seq rounds = (pre ++ prev :: mid) ++ p :: post := by
    rw [hout, List.append_assoc, List.cons_append]
  have hlen : (pre ++ prev :: mid).length = pre.length + 1 + mid.length := by
    rw [List.length_append, List.length_cons]
    omega
  have hfollows : Follows ck (generatedPackets fr seq rounds) prev (pre.length + 1 + mid.length) p :=
    ⟨_, post, s, hassoc, hlen, hp, lastOf_eq hprev hmid⟩
  rw [reported_iff hck hfollows, seqField_of_generated hassoc, seqField_of_generated hout, hlen]
  omega

end

/-- However what `generate_data` sends is cut into reads, either program delivers its frames in order. The check reports
the first frame of a stream unless its number is 1, and a later one unless the frame before it in its stream is the one
before it at all (or 65536 frames further back, and so on) and its number is not 0. -/
theorem generated_reported {fr : Frame} (hfr : fr.Local) {known : UInt8 → Prop} (hfmt : fr.ReadsFormat known)
    (h11 : known 0x11) (hmin : fr.frameHeadMinLen ≤ 30) (hmax : 30 ≤ fr.maxSize) {ck : FrameChecks}
    (hck : ck.ReadsSeq) (cb : CircularBuffer) (seq : UInt16) {rounds : List (Int × Bytes)}
    (hrounds : ∀ r ∈ rounds, r.1 = 14 ∧ r.2.length = 14) {reads : List ReadResult} (hr : ∀ r ∈ reads, r.Fits)
    (hsent : ReadResult.stream reads = (generateData seq rounds).flatten) :
    ((∀ kern mallocOk openOk o, (spiTestDevice kern mallocOk openOk o).1 = true →
        spiTest fr cb kern mallocOk openOk o reads = some (generatedPackets fr seq rounds, [])) ∧
      ∀ socket broadcast reuse bind, (UdpDevice.new.begin socket broadcast reuse bind).1 = true →
        udpDeviceTest fr cb socket broadcast reuse bind reads = some (generatedPackets fr seq rounds, [])) ∧
      (generatedPackets fr seq rounds).map Packet.data = generateData seq rounds ∧
      (∀ i, First ck (generatedPackets fr seq rounds) i →
        (Reported ck (generatedPackets fr seq rounds) i ↔ (seq.toNat + i) % 2 ^ 16 ≠ 1)) ∧
      ∀ j i, Consecutive ck (generatedPackets fr seq rounds) j i →
        (Reported ck (generatedPackets fr seq rounds) i ↔ (i - j) % 2 ^ 16 ≠ 1 ∨ (seq.toNat + i) % 2 ^ 16 = 0) := by
  have hrun := FrameData.run_generateData hfr hfmt h11 hmin hmax seq hrounds
  rw [← hsent] at hrun
  refine ⟨receive_of_run hfr cb hr hrun, ?_, fun i => generated_first hck, fun j i => generated_consecutive hck⟩
  rw [generateData_eq seq hrounds, generatedPackets, List.map_map]
  rfl

/-- Rounds of `generate_data` for the sensors 0, 0, 1, 0 and 0. -/
def fiveRounds : List (Int × Bytes) := [0, 0, 1, 0, 0].map fun sensorId => (14, sensorId :: List.replicate 13 0)

def fiveReads : List ReadResult :=
  let sent := (generateData 65535 fiveRounds).flatten
  [⟨40, 0, sent.take 40⟩, ⟨-1, 11, []⟩, ⟨110, 0, sent.drop 40⟩]

/-- From number 65535 on: the second frame is reported as the counter wraps, and the fourth as another sensor's is
before it; the third and the fifth are not. -/
theorem switch_reported :
    ∃ out, udpDeviceTest .generated .growing 3 0 0 0 fiveReads = some (out, []) ∧ Reported generatedChecks out 1 ∧
      ¬ Reported generatedChecks out 2 ∧ Reported generatedChecks out 3 ∧ ¬ Reported generatedChecks out 4 := by
  have hrounds : ∀ r ∈ fiveRounds, r.1 = 14 ∧ r.2.length = 14 := by decide
  have hr : ∀ r ∈ fiveReads, r.Fits := by decide
  have hsent : ReadResult.stream fiveReads = (generateData 65535 fiveRounds).flatten := by
    simp [fiveReads, ReadResult.stream, ReadResult.received]
  obtain ⟨⟨-, hudp⟩, -, hfirst, hlater⟩ := generated_reported Frame.generated_local Frame.generated_readsFormat
    (.inl rfl) (by decide) (by decide) generatedChecks_readsSeq .growing 65535 hrounds hr hsent
  refine ⟨_, hudp 3 0 0 0 (by decide), ?_, ?_, ?_, ?_⟩
  · exact (hlater 0 1 ⟨[], _, [], _, _, .optic 0, rfl, rfl, rfl, by decide, by decide, by decide⟩).2 (by decide)
  · exact (hfirst 2 ⟨[_, _], _, _, .optic 1, rfl, rfl, by decide, by decide⟩).not.2 (by decide)
  · exact (hlater 1 3 ⟨[_], _, [_], _, _, .optic 0, rfl, rfl, rfl, by decide, by decide, by decide⟩).2 (by decide)
  · exact (hlater 3 4 ⟨[_, _, _], _, [], _, _, .optic 0, rfl, rfl, rfl, by decide, by decide, by decide⟩).not.2
      (by decide)

end LearnCpp
