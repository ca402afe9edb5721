import LearnCpp.FrameScan
import LearnCpp.GenerateData

/-!
# Frames sent back to back

What `generate_data` writes, the receive loops take whole: on a well built frame the loop's decision is to take
it (`decision_encode`), and as decisions are final it does so whatever follows, so a stream of such frames is
taken frame by frame to the end (`receive_built`).
-/

namespace LearnCpp

/-- `Frame` reads the format of `generate_data`, with the types `known`. -/
structure Frame.ReadsFormat (fr : Frame) (known : UInt8 → Prop) : Prop where
  getType : ∀ {typ : UInt8} {rest : Bytes}, known typ → fr.frameHeadPacketLenSize < rest.length + 4 →
    fr.getType ([0xf8, 0xf4, 0xf2, typ] ++ rest) ≠ .Invalid
  getLength : ∀ {q : Bytes}, fr.frameHeadPacketLenSize < q.length → 6 ≤ q.length →
    (fr.getLength q).toNat = beNat ((q.drop 4).take 2)
  judgeCheckSum : ∀ {q : Bytes} {n : ℕ}, 2 ≤ n → n ≤ q.length →
    (fr.judgeCheckSum q n = true ↔
      ((q.take (n - 2)).map UInt8.toNat).sum % 2 ^ 16 = beNat ((q.drop (n - 2)).take 2))

def Known (typ : UInt8) : Prop := typ = 0x11 ∨ typ = 0x12 ∨ typ = 0x13

theorem Frame.generated_readsFormat : Frame.generated.ReadsFormat Known where
  getType h _ := by
    rcases h with rfl | rfl | rfl <;> simp [generated]
  getLength {q} _ hlen := by
    obtain ⟨hi, lo, hq⟩ : ∃ hi lo, (q.drop 4).take 2 = [hi, lo] :=
      List.length_eq_two.1 (by rw [List.length_take, List.length_drop]; omega)
    have hi8 := hi.toNat_lt
    have lo8 := lo.toNat_lt
    have hq' : (q.take 6).drop 4 = [hi, lo] := by rw [List.drop_take, hq]
    simp only [generated, hq', hq, beNat, List.foldl_cons, List.foldl_nil, UInt32.toNat_add, UInt32.toNat_mul,
      UInt8.toNat_toUInt32, UInt32.toNat_ofNat]
    omega
  judgeCheckSum {q n} h2 hn := by
    have hlen : ((q.drop (n - 2)).take 2).length = 2 := by rw [List.length_take, List.length_drop]; omega
    obtain ⟨hi, lo, hq⟩ := List.length_eq_two.1 hlen
    have hi8 := hi.toNat_lt
    have lo8 := lo.toNat_lt
    have hq' : (q.take n).drop (n - 2) = [hi, lo] := by
      rw [List.drop_take, show n - (n - 2) = 2 by omega, hq]
    have htake : (q.take n).take (n - 2) = q.take (n - 2) := by rw [List.take_take, Nat.min_eq_left (by omega)]
    simp only [generated, hq', htake, hq, beq_iff_eq, ← UInt16.toNat_inj, sum16_toNat, beNat, List.foldl_cons,
      List.foldl_nil, UInt16.toNat_add, UInt16.toNat_mul, UInt8.toNat_toUInt16, UInt16.toNat_ofNat]
    omega

namespace FrameData
variable {fr : Frame} {known : UInt8 → Prop} {f : FrameData} {fs : List FrameData}

/-- A known type, and a total length between the bounds. -/
structure WellBuilt (fr : Frame) (known : UInt8 → Prop) (f : FrameData) : Prop where
  typ : known f.typ
  min_le : fr.frameHeadMinLen ≤ f.size
  le_max : f.size ≤ fr.maxSize

def packet (fr : Frame) (f : FrameData) : Packet := ⟨fr.getType f.encode, f.encode⟩

theorem decision_encode (hfr : fr.Local) (hfmt : fr.ReadsFormat known) (hf : f.WellBuilt fr known) :
    fr.decision f.encode = some (some (f.packet fr), f.encode.length) := by
  have hlen := f.length_encode
  have hbody := f.length_body
  have h12 : 12 ≤ f.size := Nat.le_add_left 12 _
  have hmin := hf.min_le
  have hmax := hf.le_max
  have hhead := hfr.head_lt
  have hword := fr.max_le
  have htyp : fr.getType f.encode ≠ .Invalid := by
    have hrest : f.encode = [0xf8, 0xf4, 0xf2, f.typ] ++ f.encode.drop 4 := by
      simp [encode_eq, body, head]
    rw [hrest]
    refine hfmt.getType hf.typ ?_
    rw [List.length_drop]
    omega
  have hget : (fr.getLength f.encode).toNat = f.size := by
    rw [hfmt.getLength (by omega) (by omega)]
    have hbytes : (f.encode.drop 4).take 2 = be16 (.ofNat f.size) := by
      simp [encode_eq, body, head, be16]
    rw [hbytes, beNat_be16, UInt16.toNat_ofNat_of_lt' (by change f.size < 65536; omega)]
  have hsum : fr.judgeCheckSum f.encode f.size = true := by
    rw [hfmt.judgeCheckSum (by omega) (by omega)]
    have hn : f.size - 2 = f.body.length := by omega
    have hdrop : (f.encode.drop f.body.length).take 2 = be16 (sum16 f.body) := by
      rw [encode_eq, List.drop_left]
      rfl
    rw [hn, hdrop, beNat_be16, sum16_toNat, encode_eq, List.take_left]
  unfold Frame.decision Frame.ValidLength
  simp only [hget]
  rw [if_neg (by omega), if_neg (not_or.2 ⟨htyp, by omega⟩), if_neg (by omega), if_pos hsum, ← hlen,
    List.take_length]
  rfl

theorem run_built (hfr : fr.Local) (hfmt : fr.ReadsFormat known) (hfs : ∀ f ∈ fs, f.WellBuilt fr known) :
    (Frame.scanner hfr).run (fs.map encode).flatten = (fs.map (packet fr), []) := by
  have htaken : ∀ p ∈ fs.map (packet fr), ∀ rest,
      (Frame.scanner hfr).step (p.data ++ rest) = some (some p, p.data.length) := by
    intro p hp rest
    obtain ⟨f, hf, rfl⟩ := List.mem_map.1 hp
    exact Frame.decision_append hfr (decision_encode hfr hfmt (hfs f hf)) rest
  have h := (Frame.scanner hfr).run_flatten htaken
  rwa [List.map_map] at h

end FrameData

/-- However well built frames sent back to back are cut into reads, once its device is up either program delivers
them all in order and leaves an empty queue. -/
theorem receive_built {fr : Frame} (hfr : fr.Local) {known : UInt8 → Prop} (hfmt : fr.ReadsFormat known)
    (cb : CircularBuffer) {fs : List FrameData} (hfs : ∀ f ∈ fs, f.WellBuilt fr known) {reads : List ReadResult}
    (hr : ∀ r ∈ reads, r.Fits) (hsent : ReadResult.stream reads = (fs.map FrameData.encode).flatten) :
    (∀ kern mallocOk openOk o, (spiTestDevice kern mallocOk openOk o).1 = true →
        spiTest fr cb kern mallocOk openOk o reads = some (fs.map (FrameData.packet fr), [])) ∧
      ∀ socket broadcast reuse bind, (UdpDevice.new.begin socket broadcast reuse bind).1 = true →
        udpDeviceTest fr cb socket broadcast reuse bind reads = some (fs.map (FrameData.packet fr), []) := by
  have hrun := FrameData.run_built hfr hfmt hfs
  rw [← hsent] at hrun
  exact receive_of_run hfr cb hr hrun

def backToBack : List FrameData := [⟨0x11, 0x8b6e, []⟩, ⟨0x13, 0, [0xf8, 0xf4, 0xf2, 0x11]⟩]

def backToBackReads : List ReadResult :=
  [⟨3, 0, [0xf8, 0xf4, 0xf2]⟩, ⟨-1, 11, []⟩,
    ⟨11, 0, [0x11, 0, 12, 0x8b, 0x6e, 0xa5, 0x5a, 4, 0xf3, 0xf8, 0xf4]⟩, ⟨0, 0, []⟩,
    ⟨14, 0, [0xf2, 0x13, 0, 16, 0, 0, 0xf8, 0xf4, 0xf2, 0x11, 0xa5, 0x5a, 6, 0xef]⟩]

theorem receive_built_backToBack :
    spiTest .generated .growing ⟨0, [], ⟨0, 0, 0⟩, []⟩ true true spiUp backToBackReads =
        some (backToBack.map (FrameData.packet .generated), []) ∧
      udpDeviceTest .generated .growing 3 0 0 0 backToBackReads =
        some (backToBack.map (FrameData.packet .generated), []) := by
  have hfs : ∀ f ∈ backToBack, f.WellBuilt .generated Known := by
    intro f hf
    rcases List.mem_pair.1 hf with rfl | rfl
    · exact ⟨.inl rfl, by decide, by decide⟩
    · exact ⟨.inr (.inr rfl), by decide, by decide⟩
  have hr : ∀ r ∈ backToBackReads, r.Fits := by decide
  have h := receive_built Frame.generated_local Frame.generated_readsFormat .growing hfs hr (by decide)
  exact ⟨h.1 _ _ _ _ (by decide), h.2 _ _ _ _ (by decide)⟩

end LearnCpp
