import Mathlib.Algebra.Order.Ring.Int

/-!
# `udifftime` (`Utility/Misc.cpp`)

The guards look at whole seconds, and the second one leaves out a minus sign: a difference below thirty seconds, which
should go on to the exact sum, returns at `-30000000` with those below minus thirty. So the result is the clamped
difference exactly from thirty seconds up on either side (`udifftime_clamped_iff`).
-/

namespace LearnCpp

structure Timeval where
  tvSec : Int64
  tvUsec : Int64
deriving DecidableEq, Repr

/-- A `long`, unless the value overflows it. -/
def long (x : Int) : Option Int := if -2 ^ 63 ≤ x ∧ x < 2 ^ 63 then some x else none

/-- An `int`, unless the value overflows it. -/
def int (x : Int) : Option Int := if -2 ^ 31 ≤ x ∧ x < 2 ^ 31 then some x else none

/-- `none` if a value on the way overflows. -/
def udifftime (time1 time2 : Timeval) : Option Int := do
  if (← long (time1.tvSec.toInt - time2.tvSec.toInt)) ≥ 30 then
    return 30000000
  -- not `-30`
  if (← long (time1.tvSec.toInt - time2.tvSec.toInt)) ≤ 30 then
    return -30000000
  let udifTime ← int (← long ((← long (time1.tvSec.toInt - time2.tvSec.toInt)) * 1000000))
  let udifTime ← int (← long (udifTime + (← long (time1.tvUsec.toInt - time2.tvUsec.toInt))))
  return udifTime

namespace Timeval

def Valid (t : Timeval) : Prop := 0 ≤ t.tvUsec.toInt ∧ t.tvUsec.toInt < 1000000

def micros (t : Timeval) : Int := t.tvSec.toInt * 1000000 + t.tvUsec.toInt

/-- The difference of the seconds fits the time type. -/
def Near (a b : Timeval) : Prop := -2 ^ 63 ≤ a.tvSec.toInt - b.tvSec.toInt ∧ a.tvSec.toInt - b.tvSec.toInt < 2 ^ 63

def diff (a b : Timeval) : Int := (a.tvSec.toInt - b.tvSec.toInt) * 1000000 + (a.tvUsec.toInt - b.tvUsec.toInt)

end Timeval

/-- At most thirty seconds, with the sign of `d`. -/
def clamp (d : Int) : Int := if d.natAbs ≤ 30000000 then d else d.sign * 30000000

/-- The result is the clamped difference, the one the other way round its negative, and a later time gives no less. -/
structure Clamped (a b : Timeval) : Prop where
  value : udifftime a b = some (clamp (a.diff b))
  swap : b.Near a → ∃ x y, udifftime a b = some x ∧ udifftime b a = some y ∧ x = -y
  mono : ∀ a' : Timeval, a'.Valid → a'.Near b → a.micros ≤ a'.micros →
    ∃ x y, udifftime a b = some x ∧ udifftime a' b = some y ∧ x ≤ y

section
variable {a b : Timeval}

theorem udifftime_eq (h : a.Near b) :
    udifftime a b = some (if 30 ≤ a.tvSec.toInt - b.tvSec.toInt then 30000000 else -30000000) := by
  have hlong : long (a.tvSec.toInt - b.tvSec.toInt) = some (a.tvSec.toInt - b.tvSec.toInt) := if_pos h
  unfold udifftime
  simp only [hlong, Option.bind_eq_bind, Option.bind_some]
  by_cases hfar : 30 ≤ a.tvSec.toInt - b.tvSec.toInt
  · rw [if_pos hfar, if_pos hfar]
    rfl
  · -- what the first guard lets through, the second one takes
    rw [if_neg hfar, if_neg hfar, if_pos (by omega)]
    rfl

theorem clamp_of_le {d : Int} (h : 30000000 ≤ d) : clamp d = 30000000 := by
  unfold clamp
  split_ifs with hd
  · omega
  · rw [Int.sign_eq_one_of_pos (by omega)]
    rfl

theorem clamp_of_ge {d : Int} (h : d ≤ -30000000) : clamp d = -30000000 := by
  unfold clamp
  split_ifs with hd
  · omega
  · rw [Int.sign_eq_neg_one_of_neg (by omega)]
    rfl

theorem udifftime_value_iff (ha : a.Valid) (hb : b.Valid) (h : a.Near b) :
    udifftime a b = some (clamp (a.diff b)) ↔ 30000000 ≤ (a.diff b).natAbs := by
  obtain ⟨ha0, ha1⟩ := ha
  obtain ⟨hb0, hb1⟩ := hb
  rw [udifftime_eq h, Option.some.injEq]
  constructor
  · intro heq
    by_contra hless
    have hid : clamp (a.diff b) = a.diff b := if_pos (by omega)
    rw [hid] at heq
    split_ifs at heq <;> omega
  · intro hmore
    rcases Int.lt_or_le 0 (a.diff b) with hpos | hneg
    · have hfar : 30 ≤ a.tvSec.toInt - b.tvSec.toInt := by
        unfold Timeval.diff at hpos hmore
        omega
      rw [if_pos hfar, clamp_of_le (by omega)]
    · have hfar : ¬ 30 ≤ a.tvSec.toInt - b.tvSec.toInt := by
        unfold Timeval.diff at hneg
        omega
      rw [if_neg hfar, clamp_of_ge (by omega)]

theorem udifftime_mono {a' : Timeval} (ha : a.Valid) (ha' : a'.Valid) (h : a.Near b) (h' : a'.Near b)
    (hle : a.micros ≤ a'.micros) : ∃ x y, udifftime a b = some x ∧ udifftime a' b = some y ∧ x ≤ y := by
  obtain ⟨ha0, ha1⟩ := ha
  obtain ⟨ha0', ha1'⟩ := ha'
  have hsec : a.tvSec.toInt ≤ a'.tvSec.toInt := by
    unfold Timeval.micros at hle
    omega
  refine ⟨_, _, udifftime_eq h, udifftime_eq h', ?_⟩
  split_ifs <;> omega

end

/-- `udifftime` is the clamped exact difference for times at least thirty seconds apart, and only for them. -/
theorem udifftime_clamped_iff (a b : Timeval) (ha : a.Valid) (hb : b.Valid) (h : a.Near b) :
    Clamped a b ↔ 30000000 ≤ (a.diff b).natAbs := by
  constructor
  · intro hclamped
    exact (udifftime_value_iff ha hb h).1 hclamped.value
  · intro hfar
    have hvalue := (udifftime_value_iff ha hb h).2 hfar
    refine ⟨hvalue, fun hback => ?_, fun a' ha' h' hle => udifftime_mono ha ha' h h' hle⟩
    have hneg : b.diff a = -a.diff b := by
      unfold Timeval.diff
      omega
    refine ⟨_, _, hvalue, (udifftime_value_iff hb ha hback).2 (by omega), ?_⟩
    rcases Int.lt_or_le 0 (a.diff b) with hpos | hle
    · rw [clamp_of_le (by omega), clamp_of_ge (by omega)]
      rfl
    · rw [clamp_of_ge (by omega), clamp_of_le (by omega)]

theorem udifftime_clamped_iff_forty :
    Clamped ⟨40, 7⟩ ⟨0, 999999⟩ ↔ 30000000 ≤ (Timeval.diff ⟨40, 7⟩ ⟨0, 999999⟩).natAbs :=
  udifftime_clamped_iff _ _ ⟨by decide, by decide⟩ ⟨by decide, by decide⟩ ⟨by decide, by decide⟩

/-- One second apart, and minus thirty seconds are returned. -/
theorem udifftime_second : udifftime ⟨1, 0⟩ ⟨0, 0⟩ = some (-30000000) ∧ ¬ Clamped ⟨1, 0⟩ ⟨0, 0⟩ := by
  refine ⟨rfl, ?_⟩
  intro h
  exact absurd h.value (by decide)

end LearnCpp
