import LearnCpp.Lib.Radix
import Mathlib.Data.List.DropRight
import Mathlib.Data.Nat.Log
import Mathlib.Data.Rat.Floor
import Mathlib.Tactic.Linarith

/-!
# Decimal numerals

`roundEven` is the nearest integer, ties to even. `pad k n` has the last `k` digits of `n` to the base ten, `decimal n`
all of them. A number in units of `10 ^ (-k)` has `places k n` decimals that count: the digits behind them are zeros
(`pad_rdropWhile`), and rounding to that many places in the first place gives the same number without the zeros
(`roundEven_fewer`).
-/

namespace Decimal

/-! ### Rounding -/

def roundEven (x : ℚ) : ℤ :=
  if x - ⌊x⌋ < 1 / 2 then ⌊x⌋
  else if 1 / 2 < x - ⌊x⌋ then ⌊x⌋ + 1
  else if ⌊x⌋ % 2 = 0 then ⌊x⌋ else ⌊x⌋ + 1

theorem abs_roundEven_sub (x : ℚ) : |(roundEven x : ℚ) - x| ≤ 1 / 2 := by
  have hlo := Int.floor_le x
  have hhi := Int.lt_floor_add_one x
  unfold roundEven
  rw [abs_le]
  split_ifs <;> push_cast <;> constructor <;> linarith

theorem roundEven_eq {x : ℚ} {n : ℤ} (h : |x - n| < 1 / 2) : roundEven x = n := by
  have hnear := abs_roundEven_sub x
  rw [abs_le] at hnear
  rw [abs_lt] at h
  have hlt : ((roundEven x - n : ℤ) : ℚ) < 1 := by
    push_cast
    linarith
  have hgt : (-1 : ℚ) < ((roundEven x - n : ℤ) : ℚ) := by
    push_cast
    linarith
  have hlt' : roundEven x - n < 1 := by exact_mod_cast hlt
  have hgt' : -1 < roundEven x - n := by exact_mod_cast hgt
  omega

theorem roundEven_natCast (n : ℕ) : roundEven n = n := roundEven_eq (by simp)

theorem roundEven_nonneg {x : ℚ} (h : 0 ≤ x) : 0 ≤ roundEven x := by
  have hnear := (abs_le.1 (abs_roundEven_sub x)).1
  have hgt : (-1 : ℚ) < (roundEven x : ℚ) := by linarith
  have hgt' : -1 < roundEven x := by exact_mod_cast hgt
  omega

theorem roundEven_le {x : ℚ} {n : ℕ} (h : x ≤ n) : roundEven x ≤ n := by
  have hnear := (abs_le.1 (abs_roundEven_sub x)).2
  have hlt : (roundEven x : ℚ) < n + 1 := by linarith
  have hlt' : roundEven x < n + 1 := by exact_mod_cast hlt
  omega

/-- A number that comes out with `k` zeros behind comes out the same without them. -/
theorem roundEven_fewer {x : ℚ} {k n : ℕ} (h : roundEven (x * 10 ^ k) = (n * 10 ^ k : ℕ)) : roundEven x = n := by
  cases k with
  | zero => simpa using h
  | succ k =>
    have hnear := abs_roundEven_sub (x * 10 ^ (k + 1))
    rw [h] at hnear
    have hpow : (10 : ℚ) ≤ 10 ^ (k + 1) := by
      have hone : (1 : ℚ) ≤ 10 ^ k := one_le_pow₀ (by norm_num)
      rw [pow_succ]
      linarith
    have hpos : |(10 : ℚ) ^ (k + 1)| = 10 ^ (k + 1) := abs_of_pos (by positivity)
    have hscale : |x - n| * 10 ^ (k + 1) ≤ 1 / 2 := by
      calc |x - n| * 10 ^ (k + 1) = |(x - n) * 10 ^ (k + 1)| := by rw [abs_mul, hpos]
        _ = |(n * 10 ^ (k + 1) : ℚ) - x * 10 ^ (k + 1)| := by rw [sub_mul, abs_sub_comm]
        _ ≤ 1 / 2 := by exact_mod_cast hnear
    have hless : |x - n| * 10 ≤ |x - n| * 10 ^ (k + 1) := mul_le_mul_of_nonneg_left hpow (abs_nonneg _)
    refine roundEven_eq ?_
    push_cast
    linarith

/-! ### Digits -/

abbrev pad : ℕ → ℕ → List ℕ := Radix.pad 10

def decimal (n : ℕ) : List ℕ := pad (Nat.log 10 n + 1) n

theorem length_decimal (n : ℕ) : (decimal n).length = Nat.log 10 n + 1 := Radix.length_pad ..

theorem length_decimal_le_iff {n k : ℕ} : (decimal n).length ≤ k + 1 ↔ n < 10 ^ (k + 1) := by
  rw [length_decimal]
  rcases Nat.eq_zero_or_pos n with rfl | hpos
  · simp
  · rw [Nat.add_le_add_iff_right, ← Nat.lt_succ_iff, Nat.log_lt_iff_lt_pow (by norm_num) hpos.ne']

/-- No zero in front of a number but zero. -/
theorem decimal_eq_cons {n : ℕ} (h : n ≠ 0) : ∃ d ds, decimal n = d :: ds ∧ 0 < d := by
  refine ⟨_, _, Radix.pad_eq_cons .., ?_⟩
  have hle : 10 ^ Nat.log 10 n ≤ n := Nat.pow_log_le_self 10 h
  have hlt : n < 10 ^ (Nat.log 10 n + 1) := Nat.lt_pow_succ_log_self (by norm_num) n
  have hone : 0 < n / 10 ^ Nat.log 10 n := Nat.div_pos hle (by positivity)
  have hten : n / 10 ^ Nat.log 10 n < 10 := Nat.div_lt_of_lt_mul (by rwa [pow_succ] at hlt)
  rwa [Nat.mod_eq_of_lt hten]

/-! ### The decimals that count -/

def places : ℕ → ℕ → ℕ
  | 0, _ => 0
  | k + 1, n => if n % 10 = 0 then places k (n / 10) else k + 1

theorem places_le (k n : ℕ) : places k n ≤ k := by
  induction k generalizing n with
  | zero => exact Nat.le_refl 0
  | succ k ih =>
    rw [places]
    split_ifs
    · exact (ih _).trans (Nat.le_succ k)
    · exact Nat.le_refl _

/-- `places k n` decimals are enough. -/
theorem pow_dvd (k n : ℕ) : 10 ^ (k - places k n) ∣ n := by
  induction k generalizing n with
  | zero => simp
  | succ k ih =>
    rw [places]
    split_ifs with h
    · have hle := places_le k (n / 10)
      obtain ⟨m, hm⟩ := ih (n / 10)
      refine ⟨m, ?_⟩
      rw [Nat.sub_add_comm hle, pow_succ, Nat.mul_right_comm, ← hm]
      omega
    · simp

theorem places_eq_zero {k n : ℕ} (h : 10 ^ k ∣ n) : places k n = 0 := by
  induction k generalizing n with
  | zero => rfl
  | succ k ih =>
    obtain ⟨m, rfl⟩ := h
    have hten : 10 ^ (k + 1) * m = 10 * (10 ^ k * m) := by rw [pow_succ]; ring
    rw [places, hten, Nat.mul_mod_right, if_pos rfl, Nat.mul_div_cancel_left _ (by norm_num)]
    exact ih (Nat.dvd_mul_right _ _)

/-- The zeros behind the last digit that counts. -/
theorem pad_rdropWhile (k n : ℕ) :
    (pad k n).rdropWhile (· = 0) = pad (places k n) (n / 10 ^ (k - places k n)) := by
  induction k generalizing n with
  | zero => simp [Radix.pad, places]
  | succ k ih =>
    have hle := places_le k (n / 10)
    rw [pad, Radix.pad, places]
    split_ifs with h
    · rw [List.rdropWhile_concat_pos _ _ _ (by simpa using h), ih, Nat.div_div_eq_div_mul, ← Nat.pow_succ',
        Nat.sub_add_comm hle]
    · rw [List.rdropWhile_concat_neg _ _ _ (by simpa using h), Nat.sub_self, pow_zero, Nat.div_one, Radix.pad]

end Decimal
