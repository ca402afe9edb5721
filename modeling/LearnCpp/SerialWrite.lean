import Mathlib.Tactic.Ring
import LearnCpp.SerialDev

/-!
# What `serialWrite` puts on the wire

`serialWrite` raises the transmit-enable pin, calls `write` once, sleeps, and lowers the pin. A `write` that accepts
only part of the buffer is not followed by another, so the buffer goes out whole only if the one `write` takes all of
it (`serialWrite_whole_iff`). The sleep is long enough for the bytes on the wire as long as its length does not wrap
in the 32-bit product, and never when it wraps (`serialWrite_held_iff`).
-/

namespace LearnCpp
namespace Serial

variable {s : Serial} {buff : List UInt8} {len : UInt32} {ret : Int} {baud : Int32}

def made (s s' : Serial) : List PortCall := s'.port.calls.drop s.port.calls.length

/-- The bytes the port accepted, in order. -/
def accepted (cs : List PortCall) : List UInt8 :=
  cs.flatMap fun
    | .write _ buff _ ret => buff.take ret.toNat
    | _ => []

/-- The level of a pin after some calls. -/
def pinLevel (pin : ℕ) (level : Bool) (cs : List PortCall) : Bool :=
  cs.foldl (fun level c => match c with
    | .digitalWrite p high => if p = pin then high else level
    | _ => level) level

/-- An open port, at one of the rates `serialOpen` takes. -/
structure Ready (s : Serial) : Prop where
  fd : 0 ≤ s.dev.fd
  baud : s.dev.baud ∈ bauds

/-- `write` does not fail: it accepts some of the bytes that `serialWrite` offers it. -/
structure Writes (len : UInt32) (ret : Int) : Prop where
  pos : 1 ≤ ret
  le : ret ≤ len.toInt32.toInt64.toUInt64.toNat

theorem serialOpen_ready {o : OpenOutcomes} (h : 0 ≤ (s.serialOpen o).1) : Ready (s.serialOpen o).2 := by
  have hneg : ¬ (0 : Int) ≤ -1 := by decide
  unfold serialOpen at h ⊢
  cases hbaud : myBaud s.dev.baud with
  | none =>
    rw [hbaud] at h
    change (0 : Int) ≤ -2 at h
    exact absurd h (by decide)
  | some speed =>
    have hmem : s.dev.baud ∈ bauds := by
      by_contra hnot
      rw [myBaud, if_neg hnot] at hbaud
      cases hbaud
    simp only [hbaud] at h ⊢
    split_ifs at h ⊢
    · exact absurd h hneg
    · exact absurd h hneg
    · exact absurd h hneg
    · exact ⟨h, hmem⟩

theorem made_serialWrite (hfd : 0 ≤ s.dev.fd) (buff : List UInt8) (len : UInt32) (ret : Int) :
    s.made (s.serialWrite (some buff) len ret).2 =
      [.digitalWrite rs485Pin true, .write s.dev.fd buff len.toInt32.toInt64.toUInt64 ret,
        .usleep (sleepTime s.dev.baud len), .digitalWrite rs485Pin false] := by
  have hopen : ¬ s.dev.fd < 0 := Int.not_lt.2 hfd
  simp only [made, serialWrite, if_neg hopen, Port.call, List.drop_left]

/-! ### The buffer -/

/-- The port has accepted the buffer, once and in order, and the pin is low again if the call raised it. -/
structure Whole (s s' : Serial) (buff : List UInt8) : Prop where
  accepted : accepted (s.made s') = buff
  low : .digitalWrite rs485Pin true ∈ s.made s' → ∀ level, pinLevel rs485Pin level (s.made s') = false

theorem serialWrite_low (s : Serial) (buff : Option (List UInt8)) (len : UInt32) (ret : Int)
    (hhigh : .digitalWrite rs485Pin true ∈ s.made (s.serialWrite buff len ret).2) (level : Bool) :
    pinLevel rs485Pin level (s.made (s.serialWrite buff len ret).2) = false := by
  have hquiet : s.made s = [] := List.drop_length
  cases buff with
  | none =>
    rw [serialWrite, hquiet] at hhigh
    cases hhigh
  | some buff =>
    by_cases hfd : s.dev.fd < 0
    · rw [serialWrite, if_pos hfd, hquiet] at hhigh
      cases hhigh
    · rw [made_serialWrite (Int.not_lt.1 hfd)]
      rfl

theorem accepted_serialWrite (hfd : 0 ≤ s.dev.fd) :
    accepted (s.made (s.serialWrite (some buff) len ret).2) = buff.take ret.toNat := by
  rw [made_serialWrite hfd]
  simp [accepted]

/-- On an open port the whole buffer goes out exactly when the one `write` accepts all of it. -/
theorem serialWrite_whole_iff (s : Serial) (hs : s.Ready) (buff : List UInt8) (len : UInt32)
    (hlen : buff.length = len.toNat) (ret : Int) (hret : Writes len ret) :
    Whole s (s.serialWrite (some buff) len ret).2 buff ↔ (len.toNat : Int) ≤ ret := by
  have hpositive := hret.pos
  constructor
  · intro h
    have htake := h.accepted
    rw [accepted_serialWrite hs.fd] at htake
    have hshort := List.length_take_le ret.toNat buff
    rw [htake] at hshort
    omega
  · intro h
    refine ⟨?_, serialWrite_low s (some buff) len ret⟩
    rw [accepted_serialWrite hs.fd]
    exact List.take_of_length_le (by omega)

def port9600 : Serial := ((init "/dev/ttyS0" 9600).serialOpen ⟨true, true, true⟩).2

theorem port9600_ready : port9600.Ready := serialOpen_ready (by decide)

theorem serialWrite_whole_iff_two :
    Whole port9600 (port9600.serialWrite (some [1, 2]) 2 2).2 [1, 2] ↔ ((2 : UInt32).toNat : Int) ≤ 2 :=
  serialWrite_whole_iff port9600 port9600_ready [1, 2] 2 rfl 2 ⟨by decide, by decide⟩

/-- `write` takes one byte of two, and the other is never offered again. -/
theorem serialWrite_part :
    Writes 2 1 ∧ accepted (port9600.made (port9600.serialWrite (some [1, 2]) 2 1).2) = [1] ∧
      ¬ Whole port9600 (port9600.serialWrite (some [1, 2]) 2 1).2 [1, 2] := by
  refine ⟨⟨by decide, by decide⟩, rfl, ?_⟩
  intro h
  exact absurd h.accepted (by decide)

/-! ### The sleep -/

/-- What is passed to `usleep`. -/
def sleeps (cs : List PortCall) : List UInt32 :=
  cs.filterMap fun
    | .usleep usec => some usec
    | _ => none

theorem byteTime_eq (h : baud ∈ bauds) :
    (byteTime baud).toUInt32.toNat = 10000000 / baud.toInt.toNat + 1 ∧ 0 < baud.toInt.toNat := by
  have hall : bauds.all fun b =>
      (byteTime b).toUInt32.toNat = 10000000 / b.toInt.toNat + 1 ∧ 0 < b.toInt.toNat := by
    decide +kernel
  exact of_decide_eq_true (List.all_eq_true.1 hall baud h)

theorem sleepTime_toNat (h : baud ∈ bauds) (len : UInt32) :
    (sleepTime baud len).toNat = len.toNat * (10000000 / baud.toInt.toNat + 1) % 2 ^ 32 := by
  have hround : sleepTime baud len = len * (byteTime baud).toUInt32 := rfl
  rw [hround, UInt32.toNat_mul, (byteTime_eq h).1]

/-- A byte is on the wire for less than its time, by no more than a period. -/
theorem byteTime_bounds (d : ℕ) (hd : 0 < d) : 10000000 < (10000000 / d + 1) * d ∧ (10000000 / d + 1) * d ≤ 10000000 + d := by
  have hdiv := Nat.div_add_mod 10000000 d
  have hmod := Nat.mod_lt 10000000 hd
  have hmul : (10000000 / d + 1) * d = d * (10000000 / d) + d := by ring
  omega

/-- The pin is held for the wire time of `len` ten-bit characters, whatever is slept. -/
def Held (s s' : Serial) (len : UInt32) : Prop :=
  ∃ usec, sleeps (s.made s') = [usec] ∧ 10000000 * len.toNat ≤ usec.toNat * s.dev.baud.toInt.toNat

/-- The pin is held long enough exactly when the product of the byte time and the length fits 32 bits. -/
theorem serialWrite_held_iff (s : Serial) (hs : s.Ready) (buff : List UInt8) (len : UInt32) (ret : Int) :
    Held s (s.serialWrite (some buff) len ret).2 len ↔
      len.toNat * (10000000 / s.dev.baud.toInt.toNat + 1) < 2 ^ 32 := by
  have hslept : sleeps (s.made (s.serialWrite (some buff) len ret).2) = [sleepTime s.dev.baud len] := by
    rw [made_serialWrite hs.fd]
    rfl
  have hpos := (byteTime_eq hs.baud).2
  have hlen := len.toNat_lt
  simp only [Held, hslept, List.singleton_inj, exists_eq_left', sleepTime_toNat hs.baud]
  generalize s.dev.baud.toInt.toNat = d at hpos ⊢
  obtain ⟨hmore, hless⟩ := byteTime_bounds d hpos
  generalize 10000000 / d + 1 = time at hmore hless ⊢
  by_cases hfit : len.toNat * time < 2 ^ 32
  · refine iff_of_true ?_ hfit
    calc 10000000 * len.toNat ≤ time * d * len.toNat := Nat.mul_le_mul_right _ hmore.le
      _ = len.toNat * time % 2 ^ 32 * d := by rw [Nat.mod_eq_of_lt hfit]; ring
  · -- at least `2 ^ 32` microseconds are lost, and a shorter sleep makes up for less than that
    refine iff_of_false ?_ hfit
    have hlost : len.toNat * time % 2 ^ 32 + 2 ^ 32 ≤ len.toNat * time := by omega
    intro hheld
    have hsleep : (len.toNat * time % 2 ^ 32 + 2 ^ 32) * d ≤ len.toNat * (10000000 + d) := by
      calc (len.toNat * time % 2 ^ 32 + 2 ^ 32) * d ≤ len.toNat * time * d := Nat.mul_le_mul_right _ hlost
        _ = len.toNat * (time * d) := by ring
        _ ≤ len.toNat * (10000000 + d) := Nat.mul_le_mul_left _ hless
    have hshort : len.toNat * d < 2 ^ 32 * d := Nat.mul_lt_mul_of_pos_right hlen hpos
    rw [Nat.add_mul, Nat.mul_add] at hsleep
    omega

theorem serialWrite_held_iff_two :
    Held port9600 (port9600.serialWrite (some [1, 2]) 2 2).2 2 ↔
      (2 : UInt32).toNat * (10000000 / port9600.dev.baud.toInt.toNat + 1) < 2 ^ 32 :=
  serialWrite_held_iff port9600 port9600_ready [1, 2] 2 2

def port50 : Serial := ((init "/dev/ttyS0" 50).serialOpen ⟨true, true, true⟩).2

/-- 21475 bytes are on the wire for 4295 seconds, and the pin is held for 54179 microseconds. -/
theorem serialWrite_short :
    Ready port50 ∧ ∀ buff ret,
      sleeps (port50.made (port50.serialWrite (some buff) 21475 ret).2) = [54179] ∧
        ¬ Held port50 (port50.serialWrite (some buff) 21475 ret).2 21475 := by
  have hready : Ready port50 := serialOpen_ready (by decide)
  refine ⟨hready, fun buff ret => ?_⟩
  have hslept : sleeps (port50.made (port50.serialWrite (some buff) 21475 ret).2) = [54179] := by
    rw [made_serialWrite hready.fd]
    rfl
  refine ⟨hslept, ?_⟩
  rintro ⟨usec, husec, hlong⟩
  rw [hslept] at husec
  cases husec
  exact absurd hlong (by decide)

end Serial
end LearnCpp
