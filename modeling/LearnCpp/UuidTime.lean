import LearnCpp.Lib.Stamps
import LearnCpp.Udifftime
import LearnCpp.Uuid
import Mathlib.Data.List.Nodup

/-!
# UUIDs from the clock (`uuid_generate_time` of `UUID/gen_uuid.c`, `UUID/uuid_time.c`)

A UUID of this kind holds the time in units of a tenth of a microsecond, and a number that changes when the clock goes
back. `get_clock` adds up to ten units, one more than a microsecond has room for: the eleventh UUID of a microsecond is
the first one of the next (`time_uuids_distinct_iff`), and its time reads as the next (`uuid_times_read_back_iff`).
-/

namespace LearnCpp

/-! ### `get_clock` -/

/-- What one round of `try_again` is given: the time, and the bytes `get_random_bytes` would put into `clock_seq`. -/
structure Reading where
  tv : Timeval
  random : UInt16
deriving DecidableEq, Repr

/-- The static variables of `get_clock`. -/
structure ClockState where
  adjustment : ℕ := 0
  last : Timeval := ⟨0, 0⟩
  clockSeq : UInt16 := 0
deriving DecidableEq, Repr

/-- What `get_clock` writes through its arguments. -/
structure Clock where
  clockHigh : UInt32
  clockLow : UInt32
  clockSeq : UInt16
deriving DecidableEq, Repr

def maxAdjustment : ℕ := 10

/-- The time from 15-Oct-1582 to 1-Jan-70. -/
def timeOffset : UInt64 := ((0x01B21DD2 : UInt64) <<< 32) + 0x13814000

def clockReg (tv : Timeval) (adjustment : ℕ) : UInt64 :=
  let clockReg := (tv.tvUsec * 10 + .ofNat adjustment).toUInt64
  let clockReg := clockReg + tv.tvSec.toUInt64 * 10000000
  clockReg + timeOffset

def ClockState.read (s : ClockState) (tv : Timeval) : Clock :=
  ⟨(clockReg tv s.adjustment >>> 32).toUInt32, (clockReg tv s.adjustment).toUInt32, s.clockSeq⟩

/-- The first reading chooses `clock_seq`. -/
def ClockState.begin (s : ClockState) (r : Reading) : ClockState :=
  if s.last.tvSec = 0 ∧ s.last.tvUsec = 0 then
    { s with clockSeq := r.random &&& 0x3FFF, last := { r.tv with tvSec := r.tv.tvSec - 1 } }
  else s

/-- One round; `none` for `goto try_again`. -/
def clockRound (s : ClockState) (r : Reading) : Option ClockState :=
  let s := s.begin r
  let tv := r.tv
  if tv.tvSec < s.last.tvSec ∨ (tv.tvSec = s.last.tvSec ∧ tv.tvUsec < s.last.tvUsec) then
    some { clockSeq := (s.clockSeq + 1) &&& 0x3FFF, adjustment := 0, last := tv }
  else if tv.tvSec = s.last.tvSec ∧ tv.tvUsec = s.last.tvUsec then
    if s.adjustment ≥ maxAdjustment then none
    else some { s with adjustment := s.adjustment + 1 }
  else some { s with adjustment := 0, last := tv }

/-- A call, with the readings it has and those it leaves; `none` if it does not return on them. -/
def getClock (s : ClockState) : List Reading → Option (Clock × ClockState × List Reading)
  | [] => none
  | r :: rs => match clockRound s r with
    | none => getClock (s.begin r) rs
    | some s' => some (s'.read r.tv, s', rs)

/-! ### `uuid_generate_time` -/

/-- What `get_node_id` finds and what `get_random_bytes` would put into `node_id` if it finds nothing. -/
structure NodeSource where
  address : Option NodeId
  random : NodeId

def multicast : NodeId → NodeId
  | ⟨b :: bs, h⟩ => ⟨(b ||| 0x01) :: bs, h⟩

/-- The static variables of `uuid_generate_time` and of `get_clock`. -/
structure GenState where
  hasInit : Bool := false
  nodeId : NodeId := ⟨[0, 0, 0, 0, 0, 0], rfl⟩
  clock : ClockState := {}

def GenState.begin (s : GenState) (src : NodeSource) : GenState :=
  if s.hasInit then s else { s with nodeId := src.address.getD (multicast src.random), hasInit := true }

def timeUuid (clock : Clock) (nodeId : NodeId) : Uuid where
  timeLow := clock.clockLow
  clockSeq := clock.clockSeq ||| 0x8000
  timeMid := clock.clockHigh.toUInt16
  timeHiAndVersion := (((clock.clockHigh >>> 16) &&& 0x0FFF) ||| 0x1000).toUInt16
  node := nodeId

def uuidGenerateTime (src : NodeSource) (s : GenState) (rs : List Reading) :
    Option (UuidT × GenState × List Reading) := do
  let s := s.begin src
  let (clock, state, rs) ← getClock s.clock rs
  return (uuidPack (timeUuid clock s.nodeId), { s with clock := state }, rs)

/-- The UUIDs of up to `n` calls, one after the other. -/
def generateTimes (src : NodeSource) : ℕ → GenState → List Reading → List UuidT
  | 0, _, _ => []
  | n + 1, s, rs => match uuidGenerateTime src s rs with
    | none => []
    | some (out, s, rs) => out :: generateTimes src n s rs

/-! ### `uuid_time`, `uuid_type`, `uuid_variant` -/

/-- The time it returns the seconds of and stores at `ret_tv`. -/
def uuidTime (uu : UuidT) : Timeval :=
  let uuid := uuidUnpack uu
  let high := uuid.timeMid.toUInt32 ||| ((uuid.timeHiAndVersion &&& 0xFFF).toUInt32 <<< 16)
  let clockReg := uuid.timeLow.toUInt64 ||| (high.toUInt64 <<< 32)
  let clockReg := clockReg - timeOffset
  ⟨(clockReg / 10000000).toInt64, (clockReg % 10000000 / 10).toInt64⟩

def uuidType (uu : UuidT) : UInt16 := ((uuidUnpack uu).timeHiAndVersion >>> 12) &&& 0xF

inductive UuidVariant
  | ncs
  | dce
  | microsoft
  | other
deriving DecidableEq, Repr

def uuidVariant (uu : UuidT) : UuidVariant :=
  let var := (uuidUnpack uu).clockSeq
  if var &&& 0x8000 = 0 then .ncs
  else if var &&& 0x4000 = 0 then .dce
  else if var &&& 0x2000 = 0 then .microsoft
  else .other

/-! ### The clock register -/

namespace Timeval

/-- After 15-Oct-1582, within the sixty bits of the clock, and not the time `get_clock` takes for none at all. -/
structure OnClock (t : Timeval) : Prop where
  valid : t.Valid
  nonzero : t.micros ≠ 0
  after : 0 ≤ 10 * t.micros + 122192928000000000
  before : 10 * t.micros + 122192928000000000 + 10 < 2 ^ 60

end Timeval

theorem toInt_eq_toUInt64 (x : Int64) :
    x.toInt = x.toUInt64.toNat ∨ x.toInt = (x.toUInt64.toNat : ℤ) - 2 ^ 64 := by
  have h := BitVec.toInt_eq_toNat_cond x.toBitVec
  change x.toInt = if _ then (x.toUInt64.toNat : ℤ) else (x.toUInt64.toNat : ℤ) - 2 ^ 64 at h
  split at h
  · exact .inl h
  · exact .inr h

theorem clockReg_toNat {tv : Timeval} (h : tv.OnClock) {adjustment : ℕ} (hadj : adjustment ≤ 10) :
    ((clockReg tv adjustment).toNat : ℤ) = 10 * tv.micros + adjustment + 122192928000000000 := by
  obtain ⟨⟨hlow, hhigh⟩, -, hafter, hbefore⟩ := h
  have hmicros : tv.micros = tv.tvSec.toInt * 1000000 + tv.tvUsec.toInt := rfl
  rw [hmicros] at hafter hbefore ⊢
  have hsec := toInt_eq_toUInt64 tv.tvSec
  have husec := toInt_eq_toUInt64 tv.tvUsec
  have hlt := tv.tvSec.toUInt64.toNat_lt
  have hlt' := tv.tvUsec.toUInt64.toNat_lt
  have hreg : (clockReg tv adjustment).toNat = (tv.tvUsec.toUInt64.toNat * 10 + adjustment +
      tv.tvSec.toUInt64.toNat * 10000000 + 122192928000000000) % 2 ^ 64 := by
    have hsum : (tv.tvUsec * 10 + .ofNat adjustment).toUInt64 = tv.tvUsec.toUInt64 * 10 + .ofNat adjustment := rfl
    have hoff : timeOffset.toNat = 122192928000000000 := rfl
    simp only [clockReg, hsum, UInt64.toNat_add, UInt64.toNat_mul, UInt64.toNat_ofNat', hoff, UInt64.reduceToNat]
    omega
  rw [hreg]
  omega

/-! ### The rounds keep stamps -/

/-- Where `get_clock` is, as a source of stamps with `seq` at the start. -/
structure ClockTracks (seq : ℕ) (s : ClockState) (a : Stamps.State) : Prop where
  adjustment : s.adjustment = a.extra
  few : a.extra ≤ maxAdjustment
  last : s.last.micros = a.last
  clockSeq : s.clockSeq.toNat = (seq + a.epoch) % 2 ^ 14
  onClock : s.last.OnClock

theorem low_bits (w : UInt16) : (w &&& 0x3FFF).toNat = w.toNat % 2 ^ 14 := Nat.and_two_pow_sub_one_eq_mod w.toNat 14

theorem earlier_iff {a b : Timeval} (ha : a.Valid) (hb : b.Valid) :
    a.tvSec < b.tvSec ∨ (a.tvSec = b.tvSec ∧ a.tvUsec < b.tvUsec) ↔ a.micros < b.micros := by
  obtain ⟨ha0, ha1⟩ := ha
  obtain ⟨hb0, hb1⟩ := hb
  rw [Int64.lt_iff_toInt_lt, Int64.lt_iff_toInt_lt, ← Int64.toInt_inj, Timeval.micros, Timeval.micros]
  omega

theorem same_iff {a b : Timeval} (ha : a.Valid) (hb : b.Valid) :
    a.tvSec = b.tvSec ∧ a.tvUsec = b.tvUsec ↔ a.micros = b.micros := by
  obtain ⟨ha0, ha1⟩ := ha
  obtain ⟨hb0, hb1⟩ := hb
  rw [← Int64.toInt_inj, ← Int64.toInt_inj, Timeval.micros, Timeval.micros]
  omega

theorem timeval_eq {a b : Timeval} (h : a.tvSec = b.tvSec ∧ a.tvUsec = b.tvUsec) : a = b := by
  cases a
  cases b
  simpa using h

theorem begin_of_nonzero {s : ClockState} (h : s.last.micros ≠ 0) (r : Reading) : s.begin r = s := by
  refine if_neg fun ⟨hsec, husec⟩ => h ?_
  rw [Timeval.micros, hsec, husec]
  rfl

variable {seq : ℕ} {s : ClockState} {a : Stamps.State} {r : Reading}

theorem ClockTracks.round (h : ClockTracks seq s a) (hr : r.tv.OnClock) :
    (Stamps.step maxAdjustment a r.tv.micros = none → clockRound s r = none ∧ s.begin r = s) ∧
      ∀ a', Stamps.step maxAdjustment a r.tv.micros = some a' →
        ∃ s', clockRound s r = some s' ∧ s'.last = r.tv ∧ ClockTracks seq s' a' := by
  obtain ⟨hadj, hfew, hlast, hseq, hon⟩ := h
  have hbegin := begin_of_nonzero hon.nonzero r
  have hearlier := earlier_iff hr.valid hon.valid
  have hsame := same_iff hr.valid hon.valid
  rw [hlast] at hearlier hsame
  unfold clockRound Stamps.step
  simp only [hbegin, hearlier, hsame, hadj]
  by_cases hback : r.tv.micros < a.last
  · simp only [if_pos hback]
    refine ⟨fun h => by simp at h, fun a' ha' => ?_⟩
    cases ha'
    refine ⟨_, rfl, rfl, rfl, Nat.zero_le _, rfl, ?_, hr⟩
    rw [low_bits, UInt16.toNat_add, hseq]
    simp only [UInt16.reduceToNat]
    omega
  · simp only [if_neg hback]
    by_cases heq : r.tv.micros = a.last
    · simp only [if_pos heq]
      by_cases hfull : maxAdjustment ≤ a.extra
      · simp [hfull]
      · simp only [ge_iff_le, if_neg hfull]
        refine ⟨fun h => by simp at h, fun a' ha' => ?_⟩
        cases ha'
        have htv : s.last = r.tv := (timeval_eq (hsame.2 heq)).symm
        exact ⟨_, rfl, htv, rfl, Nat.succ_le_of_lt (Nat.lt_of_not_le hfull), by rw [htv], hseq, hon⟩
    · simp only [if_neg heq]
      refine ⟨fun h => by simp at h, fun a' ha' => ?_⟩
      cases ha'
      exact ⟨_, rfl, rfl, rfl, Nat.zero_le _, rfl, hseq, hr⟩

theorem ClockTracks.first (hr : r.tv.OnClock) : ∃ s', clockRound {} r = some s' ∧ s'.last = r.tv ∧
    ClockTracks (r.random &&& 0x3FFF).toNat s' (Stamps.first r.tv.micros) := by
  have hsec : (r.tv.tvSec - 1).toInt = r.tv.tvSec.toInt - 1 := by
    have hlow := hr.after
    have husec := hr.valid.2
    have hhigh := r.tv.tvSec.toInt_lt
    have hone : (1 : Int64).toInt = 1 := rfl
    rw [Timeval.micros] at hlow
    rw [Int64.toInt_sub, hone]
    exact Int.bmod_eq_of_le (by norm_num; omega) (by norm_num; omega)
  have hlater : ¬ (r.tv.tvSec < r.tv.tvSec - 1 ∨ (r.tv.tvSec = r.tv.tvSec - 1 ∧ r.tv.tvUsec < r.tv.tvUsec)) := by
    rw [Int64.lt_iff_toInt_lt, ← Int64.toInt_inj, hsec]
    omega
  have hnew : r.tv.tvSec ≠ r.tv.tvSec - 1 := by
    rw [ne_eq, ← Int64.toInt_inj, hsec]
    omega
  refine ⟨⟨0, r.tv, r.random &&& 0x3FFF⟩, ?_, rfl, rfl, Nat.zero_le _, rfl, ?_, hr⟩
  · have hbegin : ClockState.begin {} r =
        { clockSeq := r.random &&& 0x3FFF, last := { r.tv with tvSec := r.tv.tvSec - 1 } } := if_pos ⟨rfl, rfl⟩
    rw [clockRound, hbegin]
    simp only [if_neg hlater]
    exact if_neg fun h => hnew h.1
  · have hlow := low_bits r.random
    change (r.random &&& 0x3FFF).toNat = ((r.random &&& 0x3FFF).toNat + 0) % 2 ^ 14
    omega

/-! ### The UUIDs are those of the stamps -/

/-- The UUID of a stamp, when `get_clock` began at `seq`. -/
def stampUuid (seq : ℕ) (nodeId : NodeId) (x : ℕ ×ₗ ℤ) : Uuid :=
  let n := ((ofLex x).2 + 122192928000000000).toNat
  { timeLow := .ofNat n
    timeMid := .ofNat (n / 2 ^ 32)
    timeHiAndVersion := .ofNat (n / 2 ^ 48 + 2 ^ 12)
    clockSeq := .ofNat ((seq + (ofLex x).1) % 2 ^ 14 + 2 ^ 15)
    node := nodeId }

theorem or_pow {b k : ℕ} (h : b < 2 ^ k) : b ||| 2 ^ k = b + 2 ^ k := by
  have hor := Nat.two_pow_add_eq_or_of_lt h 1
  rw [Nat.mul_one] at hor
  rw [Nat.or_comm, ← hor, Nat.add_comm]

theorem high_half (reg : UInt64) : (reg >>> 32).toUInt32.toNat = reg.toNat / 2 ^ 32 := by
  have hlt := reg.toNat_lt
  have hshift : (reg >>> 32).toNat = reg.toNat / 2 ^ 32 := Nat.shiftRight_eq_div_pow _ _
  rw [UInt64.toNat_toUInt32, hshift]
  omega

theorem version_bits (high : UInt32) :
    (((high >>> 16) &&& 0x0FFF) ||| 0x1000).toUInt16.toNat = high.toNat / 2 ^ 16 % 2 ^ 12 + 2 ^ 12 := by
  have hshift : (high >>> 16).toNat = high.toNat / 2 ^ 16 := Nat.shiftRight_eq_div_pow _ _
  have hmask : ((high >>> 16) &&& 0x0FFF).toNat = high.toNat / 2 ^ 16 % 2 ^ 12 := by
    rw [← hshift]
    exact Nat.and_two_pow_sub_one_eq_mod _ 12
  rw [UInt32.toNat_toUInt16, UInt32.toNat_or, hmask]
  change (_ ||| 2 ^ 12) % 2 ^ 16 = _
  rw [or_pow (by omega)]
  omega

theorem ClockTracks.timeUuid (h : ClockTracks seq s a) (nodeId : NodeId) :
    timeUuid (s.read s.last) nodeId = stampUuid seq nodeId (Stamps.stamp maxAdjustment a) := by
  have hreg := clockReg_toNat h.onClock (h.adjustment ▸ h.few)
  have hbefore := h.onClock.before
  have hfew := h.few
  have hn : ((ofLex (Stamps.stamp maxAdjustment a)).2 + 122192928000000000).toNat =
      (clockReg s.last s.adjustment).toNat := by
    have hcast : ((maxAdjustment : ℕ) : ℤ) = 10 := rfl
    rw [Stamps.stamp, ofLex_toLex, ← h.last, ← h.adjustment, hcast]
    simp only
    omega
  have hlt : (clockReg s.last s.adjustment).toNat < 2 ^ 60 := by
    rw [h.adjustment, maxAdjustment] at *
    omega
  rw [stampUuid, hn]
  unfold LearnCpp.timeUuid ClockState.read
  generalize clockReg s.last s.adjustment = reg at *
  have hhi := high_half reg
  have hversion := version_bits (reg >>> 32).toUInt32
  rw [hhi] at hversion
  have hseq : (s.clockSeq ||| 0x8000).toNat = (seq + a.epoch) % 2 ^ 14 + 2 ^ 15 := by
    rw [UInt16.toNat_or, h.clockSeq]
    exact or_pow (k := 15) (by omega)
  have hlow : reg.toUInt32 = .ofNat reg.toNat := by
    rw [← UInt32.toNat_inj, UInt64.toNat_toUInt32, UInt32.toNat_ofNat']
  have hmid : (reg >>> 32).toUInt32.toUInt16 = .ofNat (reg.toNat / 2 ^ 32) := by
    rw [← UInt16.toNat_inj, UInt32.toNat_toUInt16, hhi, UInt16.toNat_ofNat']
  have htop : ((((reg >>> 32).toUInt32 >>> 16) &&& 0x0FFF) ||| 0x1000).toUInt16 =
      .ofNat (reg.toNat / 2 ^ 48 + 2 ^ 12) := by
    rw [← UInt16.toNat_inj, hversion, UInt16.toNat_ofNat']
    omega
  have hseq' : s.clockSeq ||| 0x8000 = .ofNat ((seq + a.epoch) % 2 ^ 14 + 2 ^ 15) := by
    rw [← UInt16.toNat_inj, hseq, UInt16.toNat_ofNat']
    omega
  simp only [hlow, hmid, htop, hseq']
  rfl

theorem getClock_none {rs : List Reading} (h : clockRound s r = none) (hbegin : s.begin r = s) :
    getClock s (r :: rs) = getClock s rs := by
  rw [getClock, h, hbegin]

theorem getClock_some {rs : List Reading} {s' : ClockState} (h : clockRound s r = some s') :
    getClock s (r :: rs) = some (s'.read r.tv, s', rs) := by
  rw [getClock, h]

/-- The micros of the readings. -/
def instants (rs : List Reading) : List ℤ := rs.map fun r => r.tv.micros

theorem generateTimes_eq {src : NodeSource} {n : ℕ} {nodeId : NodeId} {rs : List Reading} (hn : rs.length ≤ n)
    (h : ClockTracks seq s a) (hrs : ∀ r ∈ rs, r.tv.OnClock) :
    generateTimes src n ⟨true, nodeId, s⟩ rs =
      (Stamps.stamps maxAdjustment maxAdjustment a (instants rs)).map fun x => uuidPack (stampUuid seq nodeId x) := by
  induction rs generalizing n s a with
  | nil => cases n <;> rfl
  | cons r rs ih =>
    obtain ⟨n, rfl⟩ : ∃ k, n = k + 1 := ⟨n - 1, by simp at hn; omega⟩
    have hr := hrs r (by simp)
    have hrs' : ∀ r ∈ rs, r.tv.OnClock := fun r' hr' => hrs r' (by simp [hr'])
    obtain ⟨hnone, hsome⟩ := h.round hr
    rw [instants, List.map_cons, Stamps.stamps]
    cases hstep : Stamps.step maxAdjustment a r.tv.micros with
    | none =>
      obtain ⟨hround, hbegin⟩ := hnone hstep
      have hagain : uuidGenerateTime src ⟨true, nodeId, s⟩ (r :: rs) = uuidGenerateTime src ⟨true, nodeId, s⟩ rs := by
        simp only [uuidGenerateTime, GenState.begin, if_true, getClock_none hround hbegin]
      have hsame : generateTimes src (n + 1) ⟨true, nodeId, s⟩ (r :: rs) =
          generateTimes src (n + 1) ⟨true, nodeId, s⟩ rs := by
        simp only [generateTimes, hagain]
      rw [hsame]
      exact ih (Nat.le_of_succ_le hn) h hrs'
    | some a' =>
      obtain ⟨s', hround, hlast, htracks⟩ := hsome a' hstep
      have hcall : uuidGenerateTime src ⟨true, nodeId, s⟩ (r :: rs) =
          some (uuidPack (timeUuid (s'.read r.tv) nodeId), ⟨true, nodeId, s'⟩, rs) := by
        simp only [uuidGenerateTime, GenState.begin, if_true, getClock_some hround]
        rfl
      rw [generateTimes, hcall, ← hlast, htracks.timeUuid]
      exact congrArg _ (ih (Nat.le_of_succ_le_succ hn) htracks hrs')

/-- What the first call puts into `node_id`. -/
def NodeSource.nodeId (src : NodeSource) : NodeId := src.address.getD (multicast src.random)

/-- What the first call puts into `clock_seq`. -/
def firstSeq (rs : List Reading) : ℕ := rs.head?.elim 0 fun r => (r.random &&& 0x3FFF).toNat

theorem generateTimes_start {src : NodeSource} {n : ℕ} {rs : List Reading} (hn : rs.length ≤ n)
    (hrs : ∀ r ∈ rs, r.tv.OnClock) : generateTimes src n {} rs =
      (Stamps.ofReadings maxAdjustment maxAdjustment (instants rs)).map fun x =>
        uuidPack (stampUuid (firstSeq rs) src.nodeId x) := by
  cases rs with
  | nil => cases n <;> rfl
  | cons r rs =>
    obtain ⟨n, rfl⟩ : ∃ k, n = k + 1 := ⟨n - 1, by simp at hn; omega⟩
    obtain ⟨s', hround, hlast, htracks⟩ := ClockTracks.first (hrs r (by simp))
    have hcall : uuidGenerateTime src {} (r :: rs) =
        some (uuidPack (timeUuid (s'.read r.tv) src.nodeId), ⟨true, src.nodeId, s'⟩, rs) := by
      have hbegin : GenState.begin {} src = ⟨true, src.nodeId, {}⟩ := rfl
      rw [uuidGenerateTime, hbegin]
      simp only [getClock_some hround]
      rfl
    rw [generateTimes, hcall, ← hlast, htracks.timeUuid]
    exact congrArg _ (generateTimes_eq (Nat.le_of_succ_le_succ hn) htracks fun r' hr' => hrs r' (by simp [hr']))

/-! ### No UUID twice -/

theorem stampUuid_inj {nodeId : NodeId} {x y : ℕ ×ₗ ℤ} (hx : (ofLex x).1 < 2 ^ 14) (hy : (ofLex y).1 < 2 ^ 14)
    (hx0 : 0 ≤ (ofLex x).2 + 122192928000000000) (hy0 : 0 ≤ (ofLex y).2 + 122192928000000000)
    (hx1 : (ofLex x).2 + 122192928000000000 < 2 ^ 60) (hy1 : (ofLex y).2 + 122192928000000000 < 2 ^ 60)
    (h : stampUuid seq nodeId x = stampUuid seq nodeId y) : x = y := by
  simp only [stampUuid, Uuid.mk.injEq, ← UInt32.toNat_inj, ← UInt16.toNat_inj, UInt32.toNat_ofNat',
    UInt16.toNat_ofNat'] at h
  obtain ⟨hlow, hmid, htop, hseq, -⟩ := h
  have hepoch : (ofLex x).1 = (ofLex y).1 := by omega
  have htime : (ofLex x).2 = (ofLex y).2 := by omega
  exact Prod.ext hepoch htime

/-- While the clock goes back fewer than 2^14 times, the UUIDs are distinct unless some microsecond is read eleven times
in a row and then the next one. -/
theorem time_uuids_distinct_iff (src : NodeSource) (rs : List Reading) (hclock : ∀ r ∈ rs, r.tv.OnClock)
    (hback : Stamps.descents (instants rs) < 2 ^ 14) :
    (generateTimes src rs.length {} rs).Nodup ↔ ∀ t, ¬ List.replicate 11 t ++ [t + 1] <:+: instants rs := by
  rw [generateTimes_start le_rfl hclock]
  refine Iff.trans ?_ (Stamps.nodup_iff maxAdjustment (by decide) _)
  have hrange : ∀ x ∈ Stamps.ofReadings maxAdjustment maxAdjustment (instants rs), (ofLex x).1 < 2 ^ 14 ∧
      0 ≤ (ofLex x).2 + 122192928000000000 ∧ (ofLex x).2 + 122192928000000000 < 2 ^ 60 := by
    intro x hx
    obtain ⟨hepoch, t, ht, hlow, hhigh⟩ := Stamps.mem_ofReadings hx
    obtain ⟨r, hr, rfl⟩ := List.mem_map.1 ht
    have hafter := (hclock r hr).after
    have hbefore := (hclock r hr).before
    have hten : ((maxAdjustment : ℕ) : ℤ) = 10 := rfl
    rw [hten] at hlow hhigh
    omega
  refine ⟨List.Nodup.of_map _, List.Nodup.map_on fun x hx y hy hxy => ?_⟩
  obtain ⟨hx, hx0, hx1⟩ := hrange x hx
  obtain ⟨hy, hy0, hy1⟩ := hrange y hy
  have hfields := congrArg uuidUnpack hxy
  rw [unpack_pack, unpack_pack] at hfields
  exact stampUuid_inj hx hy hx0 hy0 hx1 hy1 hfields

/-- The reading of a time after 1970 in microseconds. -/
def readingAt (sec usec : ℕ) : Reading := ⟨⟨.ofNat sec, .ofNat usec⟩, 0⟩

theorem readingAt_onClock {sec usec : ℕ} (hpos : 0 < sec) (hsec : sec < 10 ^ 11) (husec : usec < 1000000) :
    (readingAt sec usec).tv.OnClock := by
  have hs : (Int64.ofNat sec).toInt = sec := Int64.toInt_ofNat_of_lt (by omega)
  have hu : (Int64.ofNat usec).toInt = usec := Int64.toInt_ofNat_of_lt (by omega)
  have hm : (readingAt sec usec).tv.micros = sec * 1000000 + usec := by
    rw [Timeval.micros, readingAt, hs, hu]
  refine ⟨⟨?_, ?_⟩, ?_, ?_, ?_⟩
  · simp [readingAt, hu]
  · simp only [readingAt, hu]
    omega
  all_goals
    rw [hm]
    omega

theorem eleven_then_next_twice :
    ¬ (generateTimes ⟨none, ⟨[2, 3, 5, 7, 11, 13], rfl⟩⟩ 12 {}
      (List.replicate 11 (readingAt 1700000000 5) ++ [readingAt 1700000000 6])).Nodup := by
  have hclock : ∀ r ∈ List.replicate 11 (readingAt 1700000000 5) ++ [readingAt 1700000000 6], r.tv.OnClock := by
    intro r hr
    rcases List.mem_append.1 hr with hr | hr
    · rw [List.eq_of_mem_replicate hr]
      exact readingAt_onClock (by omega) (by omega) (by omega)
    · rw [List.mem_singleton.1 hr]
      exact readingAt_onClock (by omega) (by omega) (by omega)
  intro h
  refine (time_uuids_distinct_iff _ _ hclock (by decide)).1 h 1700000000000005 ?_
  exact ⟨[], [], rfl⟩

/-! ### The time of a UUID -/

/-- The sixty bits of the clock. -/
def Uuid.clock (uu : Uuid) : ℕ :=
  uu.timeLow.toNat + (uu.timeMid.toNat + uu.timeHiAndVersion.toNat % 2 ^ 12 * 2 ^ 16) * 2 ^ 32

/-- The microseconds after 1970 as a time. -/
def timevalOf (n : ℕ) : Timeval := ⟨.ofNat (n / 1000000), .ofNat (n % 1000000)⟩

theorem or_shift {lo k : ℕ} (h : lo < 2 ^ k) (hi : ℕ) : lo ||| hi <<< k = lo + hi * 2 ^ k := by
  rw [Nat.or_comm, ← Nat.shiftLeft_add_eq_or_of_lt h, Nat.shiftLeft_eq, Nat.add_comm]

theorem toInt64_eq (x : UInt64) : x.toInt64 = .ofNat x.toNat := by
  have h : (UInt64.ofNat x.toNat).toInt64 = .ofNat x.toNat := rfl
  rwa [UInt64.ofNat_toNat] at h

theorem uuidTime_eq {u : UuidT} (h : 122192928000000000 ≤ (uuidUnpack u).clock) :
    uuidTime u = timevalOf (((uuidUnpack u).clock - 122192928000000000) / 10) := by
  unfold uuidTime
  generalize uuidUnpack u = uu at *
  have hlow := uu.timeLow.toNat_lt
  have hmid := uu.timeMid.toNat_lt
  have hmask : (uu.timeHiAndVersion &&& 0xFFF).toNat = uu.timeHiAndVersion.toNat % 2 ^ 12 :=
    Nat.and_two_pow_sub_one_eq_mod _ 12
  have hhigh : (uu.timeMid.toUInt32 ||| ((uu.timeHiAndVersion &&& 0xFFF).toUInt32 <<< 16)).toNat =
      uu.timeMid.toNat + uu.timeHiAndVersion.toNat % 2 ^ 12 * 2 ^ 16 := by
    have hshift : ((uu.timeHiAndVersion &&& 0xFFF).toUInt32 <<< 16).toNat =
        (uu.timeHiAndVersion.toNat % 2 ^ 12) <<< 16 := by
      rw [← hmask]
      change (uu.timeHiAndVersion &&& 0xFFF).toNat <<< 16 % 2 ^ 32 = _
      rw [hmask, Nat.shiftLeft_eq]
      omega
    rw [UInt32.toNat_or, UInt16.toNat_toUInt32, hshift, or_shift hmid]
  have hreg : (uu.timeLow.toUInt64 ||| ((uu.timeMid.toUInt32 |||
      ((uu.timeHiAndVersion &&& 0xFFF).toUInt32 <<< 16)).toUInt64 <<< 32)).toNat = uu.clock := by
    generalize uu.timeMid.toUInt32 ||| ((uu.timeHiAndVersion &&& 0xFFF).toUInt32 <<< 16) = high at *
    have hshift : (high.toUInt64 <<< 32).toNat = high.toNat <<< 32 := by
      have hlt := high.toNat_lt
      change high.toNat <<< 32 % 2 ^ 64 = _
      rw [Nat.shiftLeft_eq]
      omega
    rw [UInt64.toNat_or, UInt32.toNat_toUInt64, hshift, or_shift hlow, hhigh, Uuid.clock]
  have hclock : uu.clock < 2 ^ 60 := by
    rw [Uuid.clock]
    omega
  simp only [toInt64_eq, timevalOf]
  generalize uu.timeLow.toUInt64 ||| _ = reg at *
  have hsub : (reg - timeOffset).toNat = uu.clock - 122192928000000000 := by
    rw [UInt64.toNat_sub, hreg]
    change (2 ^ 64 - 122192928000000000 + _) % 2 ^ 64 = _
    omega
  rw [UInt64.toNat_div, UInt64.toNat_div, UInt64.toNat_mod, hsub]
  simp only [UInt64.reduceToNat]
  exact congrArg₂ Timeval.mk (congrArg _ (by omega)) (congrArg _ (by omega))

theorem clock_stampUuid {nodeId : NodeId} {x : ℕ ×ₗ ℤ} (hlow : 0 ≤ (ofLex x).2 + 122192928000000000)
    (hhigh : (ofLex x).2 + 122192928000000000 < 2 ^ 60) :
    ((stampUuid seq nodeId x).clock : ℤ) = (ofLex x).2 + 122192928000000000 := by
  simp only [Uuid.clock, stampUuid, UInt32.toNat_ofNat', UInt16.toNat_ofNat']
  omega

theorem timevalOf_micros {t : Timeval} (h : t.Valid) (hpos : 0 ≤ t.micros) : timevalOf t.micros.toNat = t := by
  obtain ⟨hlow, hhigh⟩ := h
  have hle := t.tvSec.toInt_lt
  have hmicros : t.micros = t.tvSec.toInt * 1000000 + t.tvUsec.toInt := rfl
  have hsec : Int64.ofNat (t.micros.toNat / 1000000) = t.tvSec := by
    rw [← Int64.toInt_inj, Int64.toInt_ofNat_of_lt (by omega)]
    omega
  have husec : Int64.ofNat (t.micros.toNat % 1000000) = t.tvUsec := by
    rw [← Int64.toInt_inj, Int64.toInt_ofNat_of_lt (by omega)]
    omega
  rw [timevalOf, hsec, husec]

theorem micros_timevalOf {n : ℕ} (h : n < 2 ^ 60) : (timevalOf n).micros = n := by
  rw [timevalOf, Timeval.micros, Int64.toInt_ofNat_of_lt (by omega), Int64.toInt_ofNat_of_lt (by omega)]
  omega

theorem micros_map {ts : List ℤ} (h : ∀ t ∈ ts, 0 ≤ t ∧ t < 2 ^ 60) :
    (ts.map fun t => timevalOf t.toNat).map Timeval.micros = ts := by
  induction ts with
  | nil => rfl
  | cons t ts ih =>
    obtain ⟨hlow, hhigh⟩ := h t (by simp)
    rw [List.map_cons, List.map_cons, ih fun u hu => h u (by simp [hu]), micros_timevalOf (by omega),
      Int.toNat_of_nonneg hlow]

theorem uuidTime_stamp {nodeId : NodeId} {x : ℕ ×ₗ ℤ} (hlow : 0 ≤ (ofLex x).2)
    (hhigh : (ofLex x).2 + 122192928000000000 < 2 ^ 60) :
    uuidTime (uuidPack (stampUuid seq nodeId x)) = timevalOf (Stamps.reading maxAdjustment x).toNat := by
  have hclock : ((stampUuid seq nodeId x).clock : ℤ) = (ofLex x).2 + 122192928000000000 :=
    clock_stampUuid (by omega) hhigh
  have hten : ((maxAdjustment : ℕ) : ℤ) = 10 := rfl
  rw [← unpack_pack (stampUuid seq nodeId x)] at hclock
  rw [uuidTime_eq (by omega), Stamps.reading, hten]
  congr 1
  omega

/-- After 1970 `uuid_time` gives back the readings, each from its UUID, unless a microsecond is read eleven times in a
row. -/
theorem uuid_times_read_back_iff (src : NodeSource) (rs : List Reading)
    (hclock : ∀ r ∈ rs, r.tv.OnClock ∧ 0 ≤ r.tv.micros) :
    (generateTimes src rs.length {} rs).map uuidTime = rs.map Reading.tv ↔
      ∀ t, ¬ List.replicate 11 t <:+: instants rs := by
  have hpos : (0 : ℤ) ≤ (maxAdjustment : ℕ) := Int.natCast_nonneg _
  have hten : ((maxAdjustment : ℕ) : ℤ) = 10 := rfl
  have hrange : ∀ x ∈ Stamps.ofReadings maxAdjustment maxAdjustment (instants rs), 0 ≤ (ofLex x).2 ∧
      (ofLex x).2 + 122192928000000000 < 2 ^ 60 := by
    intro x hx
    obtain ⟨-, t, ht, hlow, hhigh⟩ := Stamps.mem_ofReadings hx
    obtain ⟨r, hr, rfl⟩ := List.mem_map.1 ht
    obtain ⟨hon, hr0⟩ := hclock r hr
    have hbefore := hon.before
    rw [hten] at hlow hhigh
    omega
  have htimes : (generateTimes src rs.length {} rs).map uuidTime =
      ((Stamps.ofReadings maxAdjustment maxAdjustment (instants rs)).map (Stamps.reading maxAdjustment)).map
        fun t => timevalOf t.toNat := by
    rw [generateTimes_start le_rfl fun r hr => (hclock r hr).1, List.map_map, List.map_map]
    exact List.map_congr_left fun x hx => uuidTime_stamp (hrange x hx).1 (hrange x hx).2
  have hreadings : (instants rs).map (fun t => timevalOf t.toNat) = rs.map Reading.tv := by
    rw [instants, List.map_map]
    exact List.map_congr_left fun r hr => timevalOf_micros (hclock r hr).1.valid (hclock r hr).2
  refine Iff.trans ?_ (Stamps.readings_iff maxAdjustment (by decide) _)
  rw [htimes, ← hreadings]
  constructor
  · intro h
    have hmicros := congrArg (List.map Timeval.micros) h
    rwa [micros_map ?_, micros_map ?_] at hmicros
    · intro t ht
      obtain ⟨r, hr, rfl⟩ := List.mem_map.1 ht
      have hbefore := (hclock r hr).1.before
      exact ⟨(hclock r hr).2, by omega⟩
    · intro t ht
      obtain ⟨x, hx, rfl⟩ := List.mem_map.1 ht
      obtain ⟨hlow, hhigh⟩ := hrange x hx
      rw [Stamps.reading, hten]
      omega
  · exact fun h => congrArg _ h

theorem eleventh_reads_as_next :
    let rs := List.replicate 11 (readingAt 1700000000 5)
    (generateTimes ⟨none, ⟨[2, 3, 5, 7, 11, 13], rfl⟩⟩ 11 {} rs).map uuidTime ≠ rs.map Reading.tv := by
  have hclock : ∀ r ∈ List.replicate 11 (readingAt 1700000000 5), r.tv.OnClock ∧ 0 ≤ r.tv.micros := by
    intro r hr
    rw [List.eq_of_mem_replicate hr]
    exact ⟨readingAt_onClock (by omega) (by omega) (by omega), by decide⟩
  intro rs h
  exact (uuid_times_read_back_iff _ _ hclock).1 h 1700000000000005 ⟨[], [], rfl⟩

end LearnCpp
