import LearnCpp.FrameStream

/-!
# The sequence check of the receive loops

After each frame taken, `spi_test` and `UdpDevice_test` compare its sequence number with the last one of its
stream: one for each sensor of the optic and the groove frames, and one for the IMU. The numbers are kept in
statics that start at zero, and differences other than one are printed. `OpticFrame`, `GrooveFrame` and
`Frame::CheckSeq` are of another library.

The numbers on the wire are 16 bits and wrap, the difference is taken of plain `int`s: where the sender's counter
goes from 65535 to 0 a discrepancy is printed though no frame is missing (`loss_detection_iff`).
-/

namespace LearnCpp

/-- `CheckSensorId` and `CheckSeq` of `OpticFrame` and `GrooveFrame`, and `Frame::CheckSeq`, on a frame taken. -/
structure FrameChecks where
  opticSensorId : Bytes → Int
  opticSeq : Bytes → Int
  grooveSensorId : Bytes → Int
  grooveSeq : Bytes → Int
  imuSeq : Bytes → Int

/-- `(array[6] << 8) + array[7]`, as `check_data` reads the sequence number. -/
def seqField (data : Bytes) : ℕ := (data.getD 6 0).toNat * 256 + (data.getD 7 0).toNat

/-- `CheckSeq` reads the sequence number, and `CheckSensorId` answers with one of eight sensors. -/
structure FrameChecks.ReadsSeq (ck : FrameChecks) : Prop where
  opticSensorId : ∀ data, 0 ≤ ck.opticSensorId data ∧ ck.opticSensorId data < 8
  opticSeq : ∀ data, ck.opticSeq data = seqField data
  grooveSensorId : ∀ data, 0 ≤ ck.grooveSensorId data ∧ ck.grooveSensorId data < 8
  grooveSeq : ∀ data, ck.grooveSeq data = seqField data
  imuSeq : ∀ data, ck.imuSeq data = seqField data

/-- The statics `old_optic_seq` of the optic branch, `old_optic_seq` of the groove branch, and `old_imu_seq`. -/
structure OldSeqs where
  optic : List Int
  groove : List Int
  imu : Int
deriving DecidableEq, Repr

def OldSeqs.zero : OldSeqs := ⟨List.replicate 8 0, List.replicate 8 0, 0⟩

/-- The optic branch: what is printed, if anything, and the array afterwards. The groove branch has the same text,
with an array of its own. -/
def checkSensor (old : List Int) (sensorId seq : Int) : Option String × List Int :=
  let oldSeq := old.getD sensorId.toNat 0
  let diffSeq := seq - oldSeq
  (if diffSeq ≠ 1 then
    some s!"Frame::Optic seq = {seq} old_optic_seq[{sensorId}] = {oldSeq} diff_seq = {diffSeq}\n"
  else none, old.set sensorId.toNat seq)

/-- The check of a frame taken. -/
def checkSeq (ck : FrameChecks) (st : OldSeqs) (p : Packet) : Option String × OldSeqs :=
  match p.ftype with
  | .Optic =>
    let (report, optic) := checkSensor st.optic (ck.opticSensorId p.data) (ck.opticSeq p.data)
    (report, { st with optic := optic })
  | .Groove =>
    let (report, groove) := checkSensor st.groove (ck.grooveSensorId p.data) (ck.grooveSeq p.data)
    (report, { st with groove := groove })
  | .IMU =>
    let seq := ck.imuSeq p.data
    let oldSeq := st.imu
    let diffSeq := seq - oldSeq
    (if diffSeq ≠ 1 then some s!"Frame::IMU seq = {seq} old_imu_seq = {oldSeq} diff_seq = {diffSeq}\n" else none,
      { st with imu := seq })
  | _ => (none, st)

/-- What the checks of the frames taken in a run print, frame by frame. -/
def seqReports (ck : FrameChecks) (out : List Packet) : List (Option String) :=
  (Lts.runTotal (checkSeq ck) .zero out).1

/-! ### The streams -/

inductive SeqStream
  | optic (sensorId : Int)
  | groove (sensorId : Int)
  | imu
deriving DecidableEq, Repr

namespace SeqStream

def Valid : SeqStream → Prop
  | optic sensorId => 0 ≤ sensorId ∧ sensorId < 8
  | groove sensorId => 0 ≤ sensorId ∧ sensorId < 8
  | imu => True

end SeqStream

/-- The stream of a frame, if it is of one that is checked. -/
def streamOf (ck : FrameChecks) (p : Packet) : Option SeqStream :=
  match p.ftype with
  | .Optic => some (.optic (ck.opticSensorId p.data))
  | .Groove => some (.groove (ck.grooveSensorId p.data))
  | .IMU => some .imu
  | _ => none

/-- The last frame of the stream `s` among `ps`. -/
def lastOf (ck : FrameChecks) (s : SeqStream) (ps : List Packet) : Option Packet :=
  (ps.filter fun p => streamOf ck p = some s).getLast?

def OldSeqs.old (st : OldSeqs) : SeqStream → Int
  | .optic sensorId => st.optic.getD sensorId.toNat 0
  | .groove sensorId => st.groove.getD sensorId.toNat 0
  | .imu => st.imu

structure OldSeqs.Sized (st : OldSeqs) : Prop where
  optic : st.optic.length = 8
  groove : st.groove.length = 8

section
variable {ck : FrameChecks} {st : OldSeqs} {p : Packet} {ps : List Packet} {s s' : SeqStream}

theorem seqField_lt (data : Bytes) : seqField data < 65536 := by
  have hi := (data.getD 6 0).toNat_lt
  have lo := (data.getD 7 0).toNat_lt
  unfold seqField
  omega

theorem streamOf_valid (hck : ck.ReadsSeq) (h : streamOf ck p = some s) : s.Valid := by
  unfold streamOf at h
  split at h <;> cases h
  · exact hck.opticSensorId p.data
  · exact hck.grooveSensorId p.data
  · trivial

theorem lastOf_append (ck : FrameChecks) (s : SeqStream) (ps : List Packet) (p : Packet) :
    lastOf ck s (ps ++ [p]) = if streamOf ck p = some s then some p else lastOf ck s ps := by
  unfold lastOf
  rw [List.filter_append]
  split_ifs with h <;> simp [h]

theorem streamOf_lastOf (h : lastOf ck s ps = some p) : streamOf ck p = some s := by
  have hmem := List.mem_of_getLast? h
  simpa using (List.mem_filter.1 hmem).2

/-! ### What one check does -/

theorem checkSensor_report (old : List Int) (sensorId seq : Int) :
    (checkSensor old sensorId seq).1.isSome = true ↔ seq - old.getD sensorId.toNat 0 ≠ 1 := by
  unfold checkSensor
  dsimp only
  split_ifs with h
  · exact iff_of_true rfl h
  · exact iff_of_false Bool.false_ne_true h

theorem checkSensor_old {old : List Int} (hold : old.length = 8) {sensorId i seq : Int}
    (hs : 0 ≤ sensorId ∧ sensorId < 8) (hi : 0 ≤ i ∧ i < 8) :
    (checkSensor old sensorId seq).2.getD i.toNat 0 = if i = sensorId then seq else old.getD i.toNat 0 := by
  have hlt : sensorId.toNat < old.length := by omega
  unfold checkSensor
  dsimp only
  rw [List.getD_eq_getElem?_getD, List.getD_eq_getElem?_getD, List.getElem?_set]
  split_ifs with h1 h2 h2 <;> first | rfl | omega

theorem checkSeq_report (hck : ck.ReadsSeq) (hs : streamOf ck p = some s) :
    (checkSeq ck st p).1.isSome = true ↔ (seqField p.data : Int) - st.old s ≠ 1 := by
  unfold streamOf at hs
  unfold checkSeq
  split at hs <;> cases hs
  · rw [← hck.opticSeq]
    exact checkSensor_report _ _ _
  · rw [← hck.grooveSeq]
    exact checkSensor_report _ _ _
  · rw [← hck.imuSeq]
    dsimp only [OldSeqs.old]
    split_ifs with h
    · exact iff_of_true rfl h
    · exact iff_of_false Bool.false_ne_true h

theorem checkSeq_none (h : streamOf ck p = none) : checkSeq ck st p = (none, st) := by
  unfold streamOf at h
  unfold checkSeq
  split at h <;> first | rfl | cases h

theorem checkSeq_sized (hst : st.Sized) (p : Packet) : (checkSeq ck st p).2.Sized := by
  unfold checkSeq checkSensor
  split
  · exact ⟨(List.length_set ..).trans hst.optic, hst.groove⟩
  · exact ⟨hst.optic, (List.length_set ..).trans hst.groove⟩
  · exact ⟨hst.optic, hst.groove⟩
  · exact hst

/-- The check keeps the frame's number for its own stream and leaves the others alone. -/
theorem checkSeq_old (hck : ck.ReadsSeq) (hst : st.Sized) (hs : streamOf ck p = some s) (hs' : s'.Valid) :
    (checkSeq ck st p).2.old s' = if s' = s then (seqField p.data : Int) else st.old s' := by
  have hvalid := streamOf_valid hck hs
  unfold streamOf at hs
  unfold checkSeq
  split at hs <;> cases hs
  · cases s' with
    | optic i =>
      rw [← hck.opticSeq]
      simpa [OldSeqs.old] using checkSensor_old hst.optic hvalid hs'
    | groove | imu => rfl
  · cases s' with
    | groove i =>
      rw [← hck.grooveSeq]
      simpa [OldSeqs.old] using checkSensor_old hst.groove hvalid hs'
    | optic | imu => rfl
  · cases s' with
    | imu =>
      rw [← hck.imuSeq]
      rfl
    | optic | groove => rfl

/-! ### Runs -/

/-- The statics hold the number of the last frame of every stream among the frames taken. -/
structure Tracks (ck : FrameChecks) (st : OldSeqs) (ps : List Packet) : Prop where
  sized : st.Sized
  old : ∀ s p, lastOf ck s ps = some p → st.old s = seqField p.data

theorem Tracks.step (hck : ck.ReadsSeq) (h : Tracks ck st ps) (p : Packet) :
    Tracks ck (checkSeq ck st p).2 (ps ++ [p]) := by
  refine ⟨checkSeq_sized h.sized p, ?_⟩
  intro s p' hlast
  have hvalid := streamOf_valid hck (streamOf_lastOf hlast)
  rw [lastOf_append] at hlast
  cases hp : streamOf ck p with
  | none =>
    simp only [hp, reduceCtorEq, if_false] at hlast
    rw [checkSeq_none hp]
    exact h.old s p' hlast
  | some t =>
    rw [checkSeq_old hck h.sized hp hvalid]
    simp only [hp, Option.some.injEq] at hlast
    by_cases hst : s = t
    · rw [if_pos hst.symm] at hlast
      cases hlast
      rw [if_pos hst]
    · rw [if_neg fun he => hst he.symm] at hlast
      rw [if_neg hst]
      exact h.old s p' hlast

theorem tracks_run (hck : ck.ReadsSeq) (ps : List Packet) : Tracks ck (Lts.runTotal (checkSeq ck) .zero ps).2 ps := by
  induction ps using List.reverseRecOn with
  | nil => exact ⟨⟨rfl, rfl⟩, fun s p h => by simp [lastOf] at h⟩
  | append_singleton ps p ih =>
    rw [Lts.runTotal_append]
    exact ih.step hck p

end

/-- The check of the frame at place `i` of a run printed a discrepancy. -/
def Reported (ck : FrameChecks) (out : List Packet) (i : ℕ) : Prop :=
  ∃ text, (seqReports ck out)[i]? = some (some text)

/-- `p` is the frame at place `i` of a run, and `prev` the one before it in its stream. -/
def Follows (ck : FrameChecks) (out : List Packet) (prev : Packet) (i : ℕ) (p : Packet) : Prop :=
  ∃ pre post s, out = pre ++ p :: post ∧ pre.length = i ∧ streamOf ck p = some s ∧ lastOf ck s pre = some prev

section
variable {ck : FrameChecks} {out : List Packet} {prev p : Packet} {i : ℕ}

theorem reported_iff (hck : ck.ReadsSeq) (h : Follows ck out prev i p) :
    Reported ck out i ↔ seqField p.data ≠ seqField prev.data + 1 := by
  rcases h with ⟨pre, post, s, rfl, rfl, hs, hprev⟩
  unfold Reported seqReports
  rw [Lts.runTotal_getElem]
  simp only [Option.some.injEq, ← Option.isSome_iff_exists]
  rw [checkSeq_report hck hs, (tracks_run hck pre).old s prev hprev]
  omega

theorem reported_exact_iff (hck : ck.ReadsSeq) (h : Follows ck out prev i p) :
    (Reported ck out i ↔ seqField p.data ≠ (seqField prev.data + 1) % 2 ^ 16) ↔
      ¬ (seqField prev.data = 65535 ∧ seqField p.data = 0) := by
  have hlt := seqField_lt prev.data
  have hlt' := seqField_lt p.data
  rw [reported_iff hck h]
  omega

end

/-- In every run of either program, a frame with one before it in its stream is reported exactly when its number is
not that one's successor modulo `2 ^ 16`: provided, and only provided, the two are not 65535 and 0. -/
theorem loss_detection_iff {ck : FrameChecks} (hck : ck.ReadsSeq) (fr : Frame) (cb : CircularBuffer)
    (reads : List ReadResult) :
    (∀ kern mallocOk openOk o, (spiTestDevice kern mallocOk openOk o).1 = true →
        ∃ out queue, spiTest fr cb kern mallocOk openOk o reads = some (out, queue) ∧
          ∀ prev i p, Follows ck out prev i p →
            ((Reported ck out i ↔ seqField p.data ≠ (seqField prev.data + 1) % 2 ^ 16) ↔
              ¬ (seqField prev.data = 65535 ∧ seqField p.data = 0))) ∧
      ∀ socket broadcast reuse bind, (UdpDevice.new.begin socket broadcast reuse bind).1 = true →
        ∃ out queue, udpDeviceTest fr cb socket broadcast reuse bind reads = some (out, queue) ∧
          ∀ prev i p, Follows ck out prev i p →
            ((Reported ck out i ↔ seqField p.data ≠ (seqField prev.data + 1) % 2 ^ 16) ↔
              ¬ (seqField prev.data = 65535 ∧ seqField p.data = 0)) := by
  refine ⟨?_, ?_⟩
  · intro kern mallocOk openOk o hup
    exact ⟨_, _, spiTest_eq cb hup, fun prev i p h => reported_exact_iff hck h⟩
  · intro socket broadcast reuse bind hup
    exact ⟨_, _, udpDeviceTest_eq cb hup, fun prev i p h => reported_exact_iff hck h⟩

/-- The sensor in the low bits of the first payload byte. -/
def generatedChecks : FrameChecks where
  opticSensorId data := ((data.getD 8 0).toNat % 8 : ℕ)
  opticSeq data := seqField data
  grooveSensorId data := ((data.getD 8 0).toNat % 8 : ℕ)
  grooveSeq data := seqField data
  imuSeq data := seqField data

theorem generatedChecks_readsSeq : generatedChecks.ReadsSeq where
  opticSensorId data := by
    dsimp only [generatedChecks]
    omega
  opticSeq _ := rfl
  grooveSensorId data := by
    dsimp only [generatedChecks]
    omega
  grooveSeq _ := rfl
  imuSeq _ := rfl

def lossy : List FrameData := [⟨0x11, 7, [0]⟩, ⟨0x11, 8, [0]⟩, ⟨0x13, 3, []⟩, ⟨0x11, 10, [0]⟩]

def sentReads (fs : List FrameData) : List ReadResult :=
  fs.map fun f => ⟨f.encode.length, 0, f.encode⟩

theorem loss_detection_iff_lossy :
    ∃ out queue, udpDeviceTest .generated .growing 3 0 0 0 (sentReads lossy) = some (out, queue) ∧
      ∀ prev i p, Follows generatedChecks out prev i p →
        ((Reported generatedChecks out i ↔ seqField p.data ≠ (seqField prev.data + 1) % 2 ^ 16) ↔
          ¬ (seqField prev.data = 65535 ∧ seqField p.data = 0)) :=
  (loss_detection_iff generatedChecks_readsSeq .generated .growing (sentReads lossy)).2 3 0 0 0 (by decide)

def wrapping : List FrameData := [⟨0x11, 65535, [0]⟩, ⟨0x11, 0, [0]⟩]

/-- No frame is missing between number 65535 and number 0, and a discrepancy is printed. -/
theorem wrap_reported :
    udpDeviceTest .generated .growing 3 0 0 0 (sentReads wrapping) =
        some (wrapping.map (FrameData.packet .generated), []) ∧
      ∃ prev p, Follows generatedChecks (wrapping.map (FrameData.packet .generated)) prev 1 p ∧
        seqField p.data = (seqField prev.data + 1) % 2 ^ 16 ∧
        (seqReports generatedChecks (wrapping.map (FrameData.packet .generated)))[1]? =
          some (some "Frame::Optic seq = 0 old_optic_seq[0] = 65535 diff_seq = -65535\n") := by
  refine ⟨?_, ?_⟩
  · have hup : (UdpDevice.new.begin 3 0 0 0).1 = true := by decide
    have hbuilt : ∀ f ∈ wrapping, f.WellBuilt .generated Known := by
      intro f hf
      rcases List.mem_pair.1 hf with rfl | rfl <;> exact ⟨.inl rfl, by decide, by decide⟩
    have hstream : ReadResult.stream (sentReads wrapping) = (wrapping.map FrameData.encode).flatten := by decide
    rw [udpDeviceTest_eq .growing hup, receiveLoop_eq_run Frame.generated_local .growing UdpDevice.readsThrough
      (UdpDevice.begin_socket hup) (by decide), hstream,
      FrameData.run_built Frame.generated_local Frame.generated_readsFormat hbuilt]
  · refine ⟨FrameData.packet .generated ⟨0x11, 65535, [0]⟩, FrameData.packet .generated ⟨0x11, 0, [0]⟩,
      ⟨[_], [], .optic 0, rfl, rfl, ?_, ?_⟩, ?_, ?_⟩ <;> decide

end LearnCpp
