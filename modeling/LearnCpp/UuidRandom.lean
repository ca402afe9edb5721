import LearnCpp.Lib.Loop
import LearnCpp.UuidTime
import Mathlib.Data.Nat.Bitwise

/-!
# Random UUIDs (`get_random_bytes`, `uuid_generate_random` and `uuid_generate` of `UUID/gen_uuid.c`)

`get_random_bytes` reads a device until it has what it wants or eighteen reads in a row have given nothing, and mixes
the bytes of `rand` in (`get_random_bytes_reads`). `uuid_generate` asks for the device first. The answer is kept, so all
UUIDs of a process are of one type (`uuid_generate_kind`).
-/

namespace LearnCpp

/-! ### `get_random_bytes` -/

/-- Where the loop of `get_random_bytes` is: the calls of `read` made, the bytes they gave, and `lose_counter`. -/
structure FillState where
  calls : ℕ := 0
  got : Bytes := []
  loseCounter : ℕ := 0
deriving DecidableEq, Repr

/-- One round, where the `k`-th `read` has the bytes `reads k` to give, none if it fails. -/
def fillRound (nbytes : ℕ) (reads : ℕ → Bytes) (s : FillState) : FillState ⊕ FillState :=
  let n := nbytes - s.got.length
  if n > 0 then
    let i := (reads s.calls).take n
    if i.isEmpty then
      if s.loseCounter > 16 then .inr { s with calls := s.calls + 1, loseCounter := s.loseCounter + 1 }
      else .inl { s with calls := s.calls + 1, loseCounter := s.loseCounter + 1 }
    else .inl { calls := s.calls + 1, got := s.got ++ i, loseCounter := 0 }
  else .inr s

variable {nbytes : ℕ} {reads : ℕ → Bytes} {s s' : FillState}

theorem fillRound_inl (h : fillRound nbytes reads s = .inl s') : s.got.length < nbytes ∧ s'.calls = s.calls + 1 ∧
    (reads s.calls = [] ∧ s.loseCounter ≤ 16 ∧ s'.got = s.got ∧ s'.loseCounter = s.loseCounter + 1 ∨
      reads s.calls ≠ [] ∧ s'.got = s.got ++ (reads s.calls).take (nbytes - s.got.length) ∧ s'.loseCounter = 0) := by
  simp only [fillRound, List.isEmpty_iff, List.take_eq_nil_iff] at h
  grind

theorem fillRound_inr (h : fillRound nbytes reads s = .inr s') : nbytes ≤ s.got.length ∧ s' = s ∨
    s.got.length < nbytes ∧ reads s.calls = [] ∧ 16 < s.loseCounter ∧
      s' = ⟨s.calls + 1, s.got, s.loseCounter + 1⟩ := by
  simp only [fillRound, List.isEmpty_iff, List.take_eq_nil_iff] at h
  grind

theorem fillRound_lowers (nbytes : ℕ) (reads : ℕ → Bytes) :
    Loop.Lowers (fillRound nbytes reads) fun s => 18 * (nbytes - s.got.length) + (17 - s.loseCounter) := by
  intro s s' h
  obtain ⟨hroom, -, ⟨-, hlose, hgot, hcount⟩ | ⟨hread, hgot, hcount⟩⟩ := fillRound_inl h
  · simp only [hgot, hcount]
    omega
  · have hlen := List.length_pos_iff.2 hread
    simp only [hgot, hcount, List.length_append, List.length_take]
    omega

/-- `get_random_bytes` with the descriptor `fd`, where `noise i` is `(rand() >> 7) & 0xFF` for the byte at `i`; with the
number of reads. -/
def getRandomBytes (fd : Int) (reads : ℕ → Bytes) (noise : ℕ → UInt8) (buf : Bytes) : Bytes × ℕ :=
  let s := if fd ≥ 0 then Loop.total (fillRound buf.length reads) _ (fillRound_lowers buf.length reads) {} else {}
  ((s.got ++ buf.drop s.got.length).mapIdx fun i b => b ^^^ noise i, s.calls)

/-- What the first `k` reads have to give. -/
def given (reads : ℕ → Bytes) (k : ℕ) : Bytes := (List.range k).flatMap reads

theorem given_succ (reads : ℕ → Bytes) (k : ℕ) : given reads (k + 1) = given reads k ++ reads k := by
  rw [given, List.range_succ, List.flatMap_append, ← given]
  simp

structure FillInv (nbytes : ℕ) (reads : ℕ → Bytes) (s : FillState) : Prop where
  got : s.got = (given reads s.calls).take nbytes
  calls : s.calls ≤ 18 * s.got.length + s.loseCounter
  few : s.loseCounter ≤ 17
  room : 0 < s.loseCounter → s.got.length < nbytes
  lost : s.loseCounter ≤ s.calls ∧ ∀ k, s.calls ≤ k + s.loseCounter → k < s.calls → reads k = []

theorem FillInv.round (h : FillInv nbytes reads s) (hs : fillRound nbytes reads s = .inl s') :
    FillInv nbytes reads s' := by
  obtain ⟨hgot, hcalls, hfew, hroom', hle, hlost⟩ := h
  obtain ⟨hroom, hcall, ⟨hread, hlose, hgot', hcount⟩ | ⟨hread, hgot', hcount⟩⟩ := fillRound_inl hs
  · refine ⟨?_, by rw [hgot']; omega, by omega, fun _ => hgot' ▸ hroom, by omega, fun k hk hlt => ?_⟩
    · rw [hgot', hgot, hcall, given_succ, hread, List.append_nil]
    · rcases Nat.lt_succ_iff_lt_or_eq.1 (hcall ▸ hlt) with hlt | rfl
      · exact hlost k (by omega) hlt
      · exact hread
  · have hlen := List.length_pos_iff.2 hread
    have hshort : (given reads s.calls).length < nbytes := by
      rw [hgot, List.length_take] at hroom
      omega
    have hall : s.got = given reads s.calls := by rw [hgot, List.take_of_length_le hshort.le]
    refine ⟨?_, ?_, by omega, by omega, by omega, by omega⟩
    · rw [hgot', hcall, given_succ, hall, List.take_append, List.take_of_length_le hshort.le]
    · rw [hgot', hcall, hcount, List.length_append, List.length_take]
      omega

/-- What `get_random_bytes` leaves for any device: it stops within eighteen reads a byte, the bytes are those the device
gave, as many as it gave, with `rand` mixed in, and bytes are missing only after eighteen reads in a row without any. -/
theorem get_random_bytes_reads (fd : ℕ) (reads : ℕ → Bytes) (noise : ℕ → UInt8) (buf : Bytes) :
    let out := getRandomBytes fd reads noise buf
    let got := (given reads out.2).take buf.length
    out.2 ≤ 18 * buf.length ∧
      out.1 = (got ++ buf.drop got.length).mapIdx (fun i b => b ^^^ noise i) ∧
      (got.length < buf.length → 18 ≤ out.2 ∧ ∀ k, out.2 ≤ k + 18 → k < out.2 → reads k = []) := by
  have hinit : FillInv buf.length reads {} := ⟨by simp [given], by simp, by simp, by simp, by simp⟩
  have hend : ∀ {s s'}, FillInv buf.length reads s → fillRound buf.length reads s = .inr s' →
      s'.got = (given reads s'.calls).take buf.length ∧ s'.calls ≤ 18 * buf.length ∧
        (s'.got.length < buf.length → 18 ≤ s'.calls ∧ ∀ k, s'.calls ≤ k + 18 → k < s'.calls → reads k = []) := by
    rintro s s' ⟨hgot, hcalls, hfew, hroom, hle, hlost⟩ hs
    obtain ⟨hfull, rfl⟩ | ⟨hshort, hread, hmany, rfl⟩ := fillRound_inr hs
    · have hlen : s'.got.length ≤ buf.length := by
        rw [hgot, List.length_take]
        omega
      exact ⟨hgot, by omega, by omega⟩
    · refine ⟨?_, by simp only; omega, fun _ => ⟨by simp only; omega, fun k hk hlt => ?_⟩⟩
      · rw [given_succ, hread, List.append_nil, ← hgot]
      · simp only at hk hlt
        rcases Nat.lt_succ_iff_lt_or_eq.1 hlt with hlt | rfl
        · exact hlost k (by omega) hlt
        · exact hread
  have hfill := Loop.total_inv (fillRound_lowers buf.length reads) (fun h hs => FillInv.round h hs) hend hinit
  simp only [getRandomBytes, if_pos (show (fd : Int) ≥ 0 from Int.natCast_nonneg fd)]
  generalize Loop.total _ _ _ _ = s at hfill
  obtain ⟨hgot, hcalls, hlost⟩ := hfill
  rw [← hgot]
  exact ⟨hcalls, rfl, hlost⟩

/-! ### `uuid_generate` -/

inductive RandomDevice
  | urandom
  | random
deriving DecidableEq, Repr

/-- The static variable of `get_random_fd`, and the calls of `open` made. -/
structure FdState where
  fd : Int := -2
  opens : List RandomDevice := []
deriving DecidableEq, Repr

/-- What `open` returns. -/
def descriptor (fd : Option ℕ) : Int := fd.elim (-1) (↑)

def getRandomFd (opened : RandomDevice → Option ℕ) (s : FdState) : FdState :=
  if s.fd = -2 then
    let s : FdState := ⟨descriptor (opened .urandom), s.opens ++ [.urandom]⟩
    if s.fd = -1 then ⟨descriptor (opened .random), s.opens ++ [.random]⟩ else s
  else s

theorem length_getRandomBytes (fd : Int) (reads : ℕ → Bytes) (noise : ℕ → UInt8) (buf : Bytes) :
    (getRandomBytes fd reads noise buf).1.length = buf.length := by
  have hfill : (if fd ≥ 0 then Loop.total (fillRound buf.length reads) _ (fillRound_lowers buf.length reads) {}
      else {}).got.length ≤ buf.length := by
    split
    · refine Loop.total_inv (fillRound_lowers buf.length reads) (I := fun s => s.got.length ≤ buf.length)
        (P := fun s => s.got.length ≤ buf.length) ?_ ?_ (Nat.zero_le _)
      · intro s s' hs h
        obtain ⟨hroom, -, ⟨-, -, hgot, -⟩ | ⟨-, hgot, -⟩⟩ := fillRound_inl h
        · rwa [hgot]
        · rw [hgot, List.length_append, List.length_take]
          omega
      · intro s s' hs h
        obtain ⟨-, rfl⟩ | ⟨-, -, -, rfl⟩ := fillRound_inr h
        · exact hs
        · exact hs
    · exact Nat.zero_le _
  simp only [getRandomBytes, List.length_mapIdx, List.length_append, List.length_drop]
  omega

/-- What a call is given: what `open` returns, what the reads and `rand` give, the bytes on the stack, and what
`uuid_generate_time` is given. -/
structure GenerateCall where
  opened : RandomDevice → Option ℕ
  reads : ℕ → Bytes
  noise : ℕ → UInt8
  stack : UuidT
  src : NodeSource
  readings : List Reading

def randomUuid (buf : UuidT) : UuidT :=
  let uu := uuidUnpack buf
  let uu := { uu with clockSeq := (uu.clockSeq &&& 0x3FFF) ||| 0x8000 }
  let uu := { uu with timeHiAndVersion := (uu.timeHiAndVersion &&& 0x0FFF) ||| 0x4000 }
  uuidPack uu

def uuidGenerateRandom (s : FdState) (c : GenerateCall) : UuidT × FdState :=
  let s := getRandomFd c.opened s
  (randomUuid ⟨(getRandomBytes s.fd c.reads c.noise c.stack.1).1, by rw [length_getRandomBytes, c.stack.2]⟩, s)

structure ProcState where
  random : FdState := {}
  time : GenState := {}

/-- `none` if `uuid_generate_time` does not return on the readings of the call. -/
def uuidGenerate (s : ProcState) (c : GenerateCall) : Option (UuidT × ProcState) :=
  let s : ProcState := { s with random := getRandomFd c.opened s.random }
  if s.random.fd ≥ 0 then
    let (out, random) := uuidGenerateRandom s.random c
    some (out, { s with random })
  else
    (uuidGenerateTime c.src s.time c.readings).map fun (out, time, _) => (out, { s with time })

def uuidGenerates : ProcState → List GenerateCall → Option (List UuidT × ProcState)
  | s, [] => some ([], s)
  | s, c :: cs => do
    let (out, s) ← uuidGenerate s c
    let (outs, s) ← uuidGenerates s cs
    return (out :: outs, s)

/-! ### Types and variants -/

theorem and_pow_eq_zero {w m : UInt16} {k : ℕ} (hm : m.toNat = 2 ^ k) : w &&& m = 0 ↔ w.toNat / 2 ^ k % 2 = 0 := by
  have hpos : 0 < 2 ^ k := Nat.two_pow_pos k
  rw [← UInt16.toNat_inj, UInt16.toNat_and, hm, Nat.and_two_pow, Nat.testBit_eq_decide_div_mod_eq]
  change _ = 0 ↔ _
  rw [Nat.mul_eq_zero, or_iff_left hpos.ne', Bool.toNat_eq_zero, decide_eq_false_iff_not]
  omega

theorem uuidVariant_dce_iff (u : UuidT) : uuidVariant u = .dce ↔ (uuidUnpack u).clockSeq.toNat / 2 ^ 14 = 2 := by
  have hlt := (uuidUnpack u).clockSeq.toNat_lt
  have h15 := and_pow_eq_zero (w := (uuidUnpack u).clockSeq) (m := 0x8000) (k := 15) rfl
  have h14 := and_pow_eq_zero (w := (uuidUnpack u).clockSeq) (m := 0x4000) (k := 14) rfl
  simp only [uuidVariant, h15, h14]
  grind

theorem uuidType_toNat (u : UuidT) : (uuidType u).toNat = (uuidUnpack u).timeHiAndVersion.toNat / 2 ^ 12 := by
  have hlt := (uuidUnpack u).timeHiAndVersion.toNat_lt
  have hshift : ((uuidUnpack u).timeHiAndVersion >>> 12).toNat = (uuidUnpack u).timeHiAndVersion.toNat / 2 ^ 12 :=
    Nat.shiftRight_eq_div_pow _ 12
  have hmask : (uuidType u).toNat = ((uuidUnpack u).timeHiAndVersion >>> 12).toNat % 2 ^ 4 :=
    Nat.and_two_pow_sub_one_eq_mod _ 4
  omega

/-- How a UUID tells how it was made. -/
def Kind (version : UInt16) (u : UuidT) : Prop := uuidType u = version ∧ uuidVariant u = .dce

theorem kind_iff {u : UuidT} {version : UInt16} : Kind version u ↔
    (uuidUnpack u).timeHiAndVersion.toNat / 2 ^ 12 = version.toNat ∧ (uuidUnpack u).clockSeq.toNat / 2 ^ 14 = 2 := by
  rw [Kind, ← UInt16.toNat_inj, uuidType_toNat, uuidVariant_dce_iff]

theorem kind_randomUuid (buf : UuidT) : Kind 4 (randomUuid buf) := by
  rw [kind_iff, randomUuid, unpack_pack]
  generalize uuidUnpack buf = uu
  have hhi : ((uu.timeHiAndVersion &&& 0x0FFF) ||| 0x4000).toNat = uu.timeHiAndVersion.toNat % 2 ^ 12 + 2 ^ 14 := by
    have hmask : (uu.timeHiAndVersion &&& 0x0FFF).toNat = uu.timeHiAndVersion.toNat % 2 ^ 12 :=
      Nat.and_two_pow_sub_one_eq_mod _ 12
    rw [UInt16.toNat_or, hmask]
    exact or_pow (k := 14) (by omega)
  have hseq : ((uu.clockSeq &&& 0x3FFF) ||| 0x8000).toNat = uu.clockSeq.toNat % 2 ^ 14 + 2 ^ 15 := by
    rw [UInt16.toNat_or, low_bits]
    exact or_pow (k := 15) (by omega)
  simp only [hhi, hseq, UInt16.reduceToNat]
  omega

theorem kind_timeUuid {clock : Clock} (hseq : clock.clockSeq.toNat < 2 ^ 14) (nodeId : NodeId) :
    Kind 1 (uuidPack (timeUuid clock nodeId)) := by
  have hclock : (clock.clockSeq ||| 0x8000).toNat = clock.clockSeq.toNat + 2 ^ 15 := by
    rw [UInt16.toNat_or]
    exact or_pow (k := 15) (by omega)
  rw [kind_iff, unpack_pack]
  simp only [timeUuid, version_bits, hclock, UInt16.reduceToNat]
  omega

theorem begin_seq {s : ClockState} (hs : s.clockSeq.toNat < 2 ^ 14) (r : Reading) :
    (s.begin r).clockSeq.toNat < 2 ^ 14 := by
  unfold ClockState.begin
  split
  · rw [low_bits]
    omega
  · exact hs

theorem clockRound_seq {s s' : ClockState} {r : Reading} (hs : s.clockSeq.toNat < 2 ^ 14)
    (h : clockRound s r = some s') : s'.clockSeq.toNat < 2 ^ 14 := by
  have hbegin := begin_seq hs r
  have hnext : (((s.begin r).clockSeq + 1) &&& 0x3FFF).toNat < 2 ^ 14 := by
    rw [low_bits]
    omega
  unfold clockRound at h
  grind

theorem getClock_seq {s s' : ClockState} {rs rest : List Reading} {clock : Clock} (hs : s.clockSeq.toNat < 2 ^ 14)
    (h : getClock s rs = some (clock, s', rest)) :
    clock.clockSeq.toNat < 2 ^ 14 ∧ s'.clockSeq.toNat < 2 ^ 14 := by
  induction rs generalizing s with
  | nil => cases h
  | cons r rs ih =>
    rw [getClock] at h
    cases hround : clockRound s r with
    | none =>
      rw [hround] at h
      exact ih (begin_seq hs r) h
    | some t =>
      rw [hround] at h
      cases h
      exact ⟨clockRound_seq hs hround, clockRound_seq hs hround⟩

theorem uuidGenerateTime_kind {src : NodeSource} {gs gs' : GenState} {rs rest : List Reading} {out : UuidT}
    (hs : gs.clock.clockSeq.toNat < 2 ^ 14) (h : uuidGenerateTime src gs rs = some (out, gs', rest)) :
    Kind 1 out ∧ gs'.clock.clockSeq.toNat < 2 ^ 14 := by
  have hbegin : (gs.begin src).clock = gs.clock := by
    unfold GenState.begin
    split <;> rfl
  unfold uuidGenerateTime at h
  simp only [hbegin] at h
  cases hget : getClock gs.clock rs with
  | none =>
    rw [hget] at h
    cases h
  | some r =>
    obtain ⟨hclock, hstate⟩ := getClock_seq hs hget
    rw [hget] at h
    cases h
    exact ⟨kind_timeUuid hclock _, hstate⟩

/-! ### A process -/

theorem getRandomFd_settled {s : FdState} (h : s.fd ≠ -2) (opened : RandomDevice → Option ℕ) :
    getRandomFd opened s = s := if_neg h

theorem getRandomFd_first (opened : RandomDevice → Option ℕ) :
    let s := getRandomFd opened {}
    s.fd ≠ -2 ∧ (0 ≤ s.fd ↔ (opened .urandom).isSome ∨ (opened .random).isSome) ∧
      s.opens = if (opened .urandom).isSome then [.urandom] else [.urandom, .random] := by
  cases hu : opened .urandom <;> cases hr : opened .random <;> simp [getRandomFd, descriptor, hu, hr]

/-- The version `uuid_generate` puts in, by the descriptor. -/
def versionOf (fd : Int) : UInt16 := if 0 ≤ fd then 4 else 1

theorem uuidGenerate_step {s s' : ProcState} {c : GenerateCall} {out : UuidT}
    (hs : s.time.clock.clockSeq.toNat < 2 ^ 14) (hfd : (getRandomFd c.opened s.random).fd ≠ -2)
    (h : uuidGenerate s c = some (out, s')) :
    s'.random = getRandomFd c.opened s.random ∧ Kind (versionOf s'.random.fd) out ∧
      s'.time.clock.clockSeq.toNat < 2 ^ 14 := by
  unfold uuidGenerate at h
  simp only at h
  split at h
  next hge =>
    simp only [uuidGenerateRandom, getRandomFd_settled hfd, Option.some.injEq, Prod.mk.injEq] at h
    obtain ⟨rfl, rfl⟩ := h
    refine ⟨rfl, ?_, hs⟩
    rw [versionOf, if_pos hge]
    exact kind_randomUuid _
  next hlt =>
    obtain ⟨⟨out', time, rest⟩, hcall, heq⟩ := Option.map_eq_some_iff.1 h
    cases heq
    obtain ⟨hkind, hseq⟩ := uuidGenerateTime_kind hs hcall
    refine ⟨rfl, ?_, hseq⟩
    rw [versionOf, if_neg hlt]
    exact hkind

theorem uuidGenerates_kinds {s s' : ProcState} {cs : List GenerateCall} {outs : List UuidT}
    (hs : s.time.clock.clockSeq.toNat < 2 ^ 14) (hfd : s.random.fd ≠ -2) (h : uuidGenerates s cs = some (outs, s')) :
    s'.random = s.random ∧ ∀ out ∈ outs, Kind (versionOf s.random.fd) out := by
  induction cs generalizing s outs with
  | nil =>
    cases h
    exact ⟨rfl, fun out hout => by cases hout⟩
  | cons c cs ih =>
    rw [uuidGenerates] at h
    obtain ⟨⟨out, t⟩, hcall, h⟩ := Option.bind_eq_some_iff.1 h
    obtain ⟨⟨outs', t'⟩, hrest, h⟩ := Option.bind_eq_some_iff.1 h
    cases h
    have hsettled := getRandomFd_settled hfd c.opened
    obtain ⟨hrandom, hkind, hseq⟩ := uuidGenerate_step hs (by rwa [hsettled]) hcall
    rw [hsettled] at hrandom
    rw [← hrandom] at hfd
    obtain ⟨hlast, hkinds⟩ := ih hseq hfd hrest
    rw [hrandom] at hlast hkind hkinds
    exact ⟨hlast, List.forall_mem_cons.2 ⟨hkind, hkinds⟩⟩

/-- All UUIDs of a process are random ones if its first call opens a device, and time-based ones if not; the devices are
asked for only then. -/
theorem uuid_generate_kind {c : GenerateCall} {cs : List GenerateCall} {outs : List UuidT} {s' : ProcState}
    (h : uuidGenerates {} (c :: cs) = some (outs, s')) :
    (∀ out ∈ outs, uuidVariant out = .dce ∧
      uuidType out = if (c.opened .urandom).isSome ∨ (c.opened .random).isSome then 4 else 1) ∧
      s'.random.opens = if (c.opened .urandom).isSome then [.urandom] else [.urandom, .random] := by
  rw [uuidGenerates] at h
  obtain ⟨⟨out, t⟩, hcall, h⟩ := Option.bind_eq_some_iff.1 h
  obtain ⟨⟨outs', t'⟩, hrest, h⟩ := Option.bind_eq_some_iff.1 h
  cases h
  obtain ⟨hfd, hopen, hopens⟩ := getRandomFd_first c.opened
  obtain ⟨hrandom, hkind, hseq⟩ := uuidGenerate_step (by decide) hfd hcall
  obtain ⟨hlast, hkinds⟩ := uuidGenerates_kinds hseq (by rwa [hrandom]) hrest
  rw [hrandom] at hlast hkind hkinds
  refine ⟨fun u hu => ?_, by rw [hlast, hopens]⟩
  obtain ⟨htype, hvariant⟩ := List.forall_mem_cons.2 ⟨hkind, hkinds⟩ u hu
  refine ⟨hvariant, ?_⟩
  rw [htype, versionOf]
  simp only [hopen]

/-- A call that finds a device or none. -/
def callAt (device : Bool) (usec : ℕ) : GenerateCall where
  opened _ := if device then some 3 else none
  reads _ := [1, 2, 3, 4, 5, 6, 7, 8]
  noise _ := 0
  stack := ⟨List.replicate 16 0, rfl⟩
  src := ⟨none, ⟨[2, 3, 5, 7, 11, 13], rfl⟩⟩
  readings := [readingAt 90 usec]

theorem device_too_late : ∃ outs s', uuidGenerates {} [callAt false 5, callAt true 6] = some (outs, s') ∧
    outs.length = 2 ∧ (∀ out ∈ outs, uuidType out = 1) ∧ s'.random.opens = [.urandom, .random] := by
  have hlen : (uuidGenerates {} [callAt false 5, callAt true 6]).map (fun r => r.1.length) = some 2 := rfl
  obtain ⟨⟨outs, s'⟩, hrun, hlen⟩ := Option.map_eq_some_iff.1 hlen
  obtain ⟨hkinds, hopens⟩ := uuid_generate_kind hrun
  exact ⟨outs, s', hrun, hlen, fun out hout => (hkinds out hout).2, hopens⟩

end LearnCpp
