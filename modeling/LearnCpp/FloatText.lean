import LearnCpp.CppString
import LearnCpp.Lib.Strip
import LearnCpp.Text

/-!
# `to_string` of a float (`Utility/Misc.h`)

`calc_float_bits` prints the value with four decimals and counts those up to the last that is not zero; `to_string`
prints the value again with as many. The first text is cut at 15 characters: where the point is behind them, the count
is taken from the start of the text, and zeros are printed that are not in the value (`to_string_exact_iff`).
-/

namespace LearnCpp

open CppString Decimal

/-- A finite float, zeros of both signs and subnormals with it: `mantissa * 2 ^ exponent`, with a sign. -/
structure FiniteFloat where
  negative : Bool
  mantissa : ℕ
  exponent : ℤ
  mantissa_lt : mantissa < 2 ^ 24
  exponent_ge : -149 ≤ exponent
  exponent_le : exponent ≤ 104

namespace FiniteFloat
variable (v : FiniteFloat)

def magnitude : ℚ := v.mantissa * 2 ^ v.exponent

def value : ℚ := if v.negative then -v.magnitude else v.magnitude

/-- The magnitude rounded to `n` decimals, in units of the last. -/
def units (n : ℕ) : ℕ := (roundEven (v.magnitude * 10 ^ n)).toNat

end FiniteFloat

/-! ### `snprintf` -/

def signText (v : FiniteFloat) : Bytes := if v.negative then [45] else []

/-- `"%.nf"`, untruncated. -/
def fixedText (v : FiniteFloat) (n : ℕ) : Bytes :=
  signText v ++ (decimal (v.units n / 10 ^ n)).map digit ++ if n = 0 then [] else 46 :: (pad n (v.units n)).map digit

/-- What `snprintf(s, size, "%.nf", v)` leaves in `s`. -/
def snprintf (size : ℕ) (v : FiniteFloat) (n : ℕ) : Bytes := (fixedText v n).take (size - 1)

/-! ### The functions -/

/-- `int i = pos`, where `npos` becomes `-1`. -/
def toInt (pos : Option ℕ) : Int := match pos with
  | none => -1
  | some i => i

def calcFloatBits (value : FiniteFloat) : UInt32 :=
  let str := snprintf 16 value 4
  let last := toInt (findLastNotOf str [48])
  let dot := toInt (find str 46)
  .ofInt (last - dot)

/-- The branch of `to_string` for floats; `str_format` holds `"%.nf"` with any `int`. -/
def floatText (value : FiniteFloat) (floatBit : Int) : Bytes :=
  if floatBit ≠ -1 then snprintf 32 value floatBit.toNat
  else
    let floatBits := (calcFloatBits value).toInt32.toInt
    snprintf 32 value floatBits.toNat

/-- `to_string(value, str, float_bit)`: what it leaves in `str`. -/
def toStringStr (value : FiniteFloat) (_str : Bytes) (floatBit : Int) : Bytes := floatText value floatBit

/-- `to_string(value, float_bit, fomat)`. -/
def toString (value : FiniteFloat) (floatBit : Int) (_fomat : Bytes) : Bytes := floatText value floatBit

/-! ### What they should compute -/

/-- A rendering without its trailing zeros, and without the point if no decimal remains. -/
def stripZeros (text : Bytes) : Bytes :=
  let text := text.rdropWhile (· ∈ [48])
  if text.getLast? = some 46 then text.dropLast else text

/-- `to_string` is the stripped rendering with four decimals, and `calc_float_bits` the number of decimals left. -/
structure Exact (v : FiniteFloat) : Prop where
  bits : (calcFloatBits v).toNat = places 4 (v.units 4)
  le : (calcFloatBits v).toNat ≤ 4
  str : ∀ str, toStringStr v str (-1) = stripZeros (fixedText v 4)
  ret : ∀ fomat, toString v (-1) fomat = stripZeros (fixedText v 4)

/-! ### Texts of digits -/

section
variable {ds : List ℕ} {v : FiniteFloat}

theorem digit_spec : ∀ d < 10, (digit d = 48 ↔ d = 0) ∧ digit d ≠ 46 ∧ digit d ≠ 45 := by decide

theorem rdropWhile_digits (h : ∀ d ∈ ds, d < 10) :
    (ds.map digit).rdropWhile (· ∈ [48]) = (ds.rdropWhile (· = 0)).map digit := by
  induction ds using List.reverseRecOn with
  | nil => rfl
  | append_singleton ds d ih =>
    have hd := (digit_spec d (h d (by simp))).1
    have hds : ∀ d ∈ ds, d < 10 := fun d hd => h d (by simp [hd])
    rw [List.map_append, List.map_singleton]
    by_cases hzero : d = 0
    · rw [List.rdropWhile_concat_pos _ _ _ (by simpa using hd.2 hzero),
        List.rdropWhile_concat_pos _ _ _ (by simpa using hzero), ih hds]
    · rw [List.rdropWhile_concat_neg _ _ _ (by simpa using fun he => hzero (hd.1 he)),
        List.rdropWhile_concat_neg _ _ _ (by simpa using hzero), List.map_append, List.map_singleton]

theorem dot_not_mem_digits (h : ∀ d ∈ ds, d < 10) : 46 ∉ ds.map digit := by
  intro hmem
  obtain ⟨d, hd, he⟩ := List.mem_map.1 hmem
  exact (digit_spec d (h d hd)).2.1 he

def front (v : FiniteFloat) : Bytes := signText v ++ (decimal (v.units 4 / 10 ^ 4)).map digit

def decimals (v : FiniteFloat) : Bytes := (pad 4 (v.units 4)).map digit

theorem fixedText_four (v : FiniteFloat) : fixedText v 4 = front v ++ 46 :: decimals v := rfl

theorem dot_not_mem_front (v : FiniteFloat) : 46 ∉ front v := by
  intro hmem
  rcases List.mem_append.1 hmem with hmem | hmem
  · unfold signText at hmem
    split_ifs at hmem
    · exact absurd (List.mem_singleton.1 hmem) (by decide)
    · cases hmem
  · exact dot_not_mem_digits (fun d hd => Radix.lt_of_mem_pad (by decide) hd) hmem

theorem rdropWhile_point (before after : Bytes) :
    (before ++ 46 :: after).rdropWhile (· ∈ [48]) = before ++ 46 :: after.rdropWhile (· ∈ [48]) := by
  have hpoint : ∀ a ∈ (before ++ [46]).getLast?, decide (a ∈ ([48] : Bytes)) = false := by
    intro a ha
    rw [List.getLast?_concat] at ha
    cases ha
    rfl
  rw [List.append_cons, Strip.rdropWhile_append (by simp) hpoint, List.append_assoc]
  rfl

/-! ### The digits a float has -/

theorem magnitude_nonneg (v : FiniteFloat) : 0 ≤ v.magnitude := by
  exact mul_nonneg (Nat.cast_nonneg _) (zpow_nonneg (by norm_num) _)

theorem units_cast (v : FiniteFloat) (n : ℕ) : (v.units n : ℤ) = roundEven (v.magnitude * 10 ^ n) := by
  have hnonneg := magnitude_nonneg v
  exact Int.toNat_of_nonneg (roundEven_nonneg (by positivity))

/-- From `2 ^ 24` on there are no fractions. -/
theorem whole_of_large (h : 2 ^ 24 ≤ v.magnitude) : ∃ w : ℕ, v.magnitude = w := by
  have hm : (v.mantissa : ℚ) < 2 ^ 24 := by exact_mod_cast v.mantissa_lt
  unfold FiniteFloat.magnitude at h ⊢
  rcases Int.le_total 0 v.exponent with hpos | hneg
  · obtain ⟨e, he⟩ := Int.eq_ofNat_of_zero_le hpos
    refine ⟨v.mantissa * 2 ^ e, ?_⟩
    rw [he, zpow_natCast]
    push_cast
    rfl
  · have hone : (2 : ℚ) ^ v.exponent ≤ 1 := zpow_le_one_of_nonpos₀ (by norm_num) hneg
    have hle : (v.mantissa : ℚ) * 2 ^ v.exponent ≤ v.mantissa := mul_le_of_le_one_right (Nat.cast_nonneg _) hone
    linarith

theorem units_whole {w : ℕ} (h : v.magnitude = w) (n : ℕ) : v.units n = w * 10 ^ n := by
  have hcast := units_cast v n
  have hprod : (w : ℚ) * 10 ^ n = ((w * 10 ^ n : ℕ) : ℚ) := by push_cast; rfl
  rw [h, hprod, roundEven_natCast] at hcast
  exact_mod_cast hcast

theorem units_small (h : v.magnitude < 2 ^ 24) (n : ℕ) : v.units n ≤ 2 ^ 24 * 10 ^ n := by
  have hle : v.magnitude * 10 ^ n ≤ ((2 ^ 24 * 10 ^ n : ℕ) : ℚ) := by
    push_cast
    exact mul_le_mul_of_nonneg_right h.le (by positivity)
  have hround := roundEven_le hle
  rw [← units_cast] at hround
  exact_mod_cast hround

/-- Rounded to the decimals that count, the value is the same without the zeros. -/
theorem units_places (v : FiniteFloat) :
    v.units (places 4 (v.units 4)) = v.units 4 / 10 ^ (4 - places 4 (v.units 4)) := by
  obtain ⟨n, hn⟩ := pow_dvd 4 (v.units 4)
  have hle := places_le 4 (v.units 4)
  have hcast := units_cast v 4
  generalize places 4 (v.units 4) = p at hn hle ⊢
  have hsplit : v.magnitude * 10 ^ 4 = v.magnitude * 10 ^ p * 10 ^ (4 - p) := by
    rw [mul_assoc, ← pow_add, Nat.add_sub_cancel' hle]
  rw [hsplit, hn, Nat.mul_comm] at hcast
  have hfewer := units_cast v p
  rw [roundEven_fewer hcast.symm] at hfewer
  have hunits : v.units p = n := by exact_mod_cast hfewer
  rw [hunits, hn, Nat.mul_div_cancel_left _ (by positivity)]

/-! ### The point among the first fifteen characters -/

theorem length_front (v : FiniteFloat) :
    (front v).length = (signText v).length + (decimal (v.units 4 / 10 ^ 4)).length := by
  rw [front, List.length_append, List.length_map]

theorem length_signText_le (v : FiniteFloat) : (signText v).length ≤ 1 := by
  unfold signText
  split_ifs
  · exact Nat.le_refl 1
  · exact Nat.zero_le 1

theorem whole_lt_iff (k : ℕ) (hk : 8 ≤ k) : v.units 4 / 10 ^ 4 < 10 ^ k ↔ v.magnitude < 10 ^ k := by
  have hpow : (2 : ℕ) ^ 24 < 10 ^ k := lt_of_lt_of_le (by norm_num) (Nat.pow_le_pow_right (by norm_num) hk)
  -- up to `2 ^ 24` both hold whatever the rounding does, and from there on it does nothing
  rcases lt_or_ge v.magnitude (2 ^ 24) with hsmall | hlarge
  · have hunits := units_small hsmall 4
    have hpow' : (2 : ℚ) ^ 24 < 10 ^ k := by exact_mod_cast hpow
    refine iff_of_true ?_ (hsmall.trans hpow')
    omega
  · obtain ⟨w, hw⟩ := whole_of_large hlarge
    rw [units_whole hw, Nat.mul_div_cancel _ (by positivity), hw]
    exact_mod_cast Iff.rfl

theorem front_short_iff (v : FiniteFloat) :
    (front v).length ≤ 14 ↔ v.magnitude < 10 ^ (14 - (signText v).length) := by
  have hsign := length_signText_le v
  rw [length_front, ← whole_lt_iff _ (by omega)]
  obtain ⟨k, hk⟩ : ∃ k, 14 - (signText v).length = k + 1 := ⟨13 - (signText v).length, by omega⟩
  rw [hk, ← length_decimal_le_iff]
  omega

theorem value_range_iff (v : FiniteFloat) :
    v.magnitude < 10 ^ (14 - (signText v).length) ↔ -10 ^ 13 < v.value ∧ v.value < 10 ^ 14 := by
  have hnonneg := magnitude_nonneg v
  unfold FiniteFloat.value signText
  split_ifs
  · rw [neg_lt_neg_iff]
    refine (and_iff_left_of_imp fun _ => ?_).symm
    linarith
  · refine (and_iff_right_of_imp fun _ => ?_).symm
    linarith

/-! ### Counting the decimals -/

theorem toInt_eq (pos : Option ℕ) : toInt pos = (next pos : Int) - 1 := by
  cases pos with
  | none => rfl
  | some i =>
    show (i : Int) = ((i + 1 : ℕ) : Int) - 1
    omega

theorem calcFloatBits_eq (v : FiniteFloat) :
    calcFloatBits v =
      .ofInt (((snprintf 16 v 4).rdropWhile (· ∈ [48])).length - next (find (snprintf 16 v 4) 46)) := by
  rw [calcFloatBits, toInt_eq, toInt_eq, next_findLastNotOf]
  congr 1
  omega

theorem toNat_ofInt {n : ℕ} (h : n < 2 ^ 32) : (UInt32.ofInt n).toNat = n := by
  have hcast : ((n : Int) % 2 ^ 32).toNat = n := by omega
  rw [UInt32.ofInt, hcast, UInt32.toNat_ofNat_of_lt' h]

theorem rdropWhile_decimals (v : FiniteFloat) :
    (decimals v).rdropWhile (· ∈ [48]) =
      (pad (places 4 (v.units 4)) (v.units (places 4 (v.units 4)))).map digit := by
  rw [decimals, rdropWhile_digits fun d hd => Radix.lt_of_mem_pad (by decide) hd, pad_rdropWhile, units_places]

theorem cut_short (h : (front v).length ≤ 14) :
    snprintf 16 v 4 = front v ++ 46 :: (decimals v).take (14 - (front v).length) := by
  have hsplit : 16 - 1 = (front v).length + (14 - (front v).length + 1) := by omega
  rw [snprintf, fixedText_four, hsplit, List.take_length_add_append, List.take_succ_cons]

theorem places_of_long (h : 10 < (front v).length) : places 4 (v.units 4) = 0 := by
  have hlarge : 2 ^ 24 ≤ v.magnitude := by
    by_contra hsmall
    have hless : v.magnitude < 10 ^ 8 := lt_trans (not_le.1 hsmall) (by norm_num)
    have hwhole := length_decimal_le_iff.2 ((whole_lt_iff 8 (Nat.le_refl 8)).2 hless)
    have hsign := length_signText_le v
    rw [length_front] at h
    omega
  obtain ⟨w, hw⟩ := whole_of_large hlarge
  exact places_eq_zero (by rw [units_whole hw]; exact Nat.dvd_mul_left _ _)

/-- Where not all four decimals are seen, they are zeros. -/
theorem seen_decimals (h : (front v).length ≤ 14) :
    (((decimals v).take (14 - (front v).length)).rdropWhile (· ∈ [48])).length = places 4 (v.units 4) := by
  have hfour : (decimals v).length = 4 := by rw [decimals, List.length_map, Radix.length_pad]
  by_cases hall : (front v).length ≤ 10
  · rw [List.take_of_length_le (by omega), rdropWhile_decimals, List.length_map, Radix.length_pad]
  · have hplaces := places_of_long (not_le.1 hall)
    have hzeros := rdropWhile_decimals v
    rw [hplaces] at hzeros
    have hnone : (decimals v).rdropWhile (· ∈ [48]) = [] := hzeros
    rw [hplaces, List.length_eq_zero_iff, List.rdropWhile_eq_nil_iff]
    intro c hc
    exact List.rdropWhile_eq_nil_iff.1 hnone c (List.mem_of_mem_take hc)

theorem calcFloatBits_short (h : (front v).length ≤ 14) : (calcFloatBits v).toNat = places 4 (v.units 4) := by
  have hle := places_le 4 (v.units 4)
  rw [calcFloatBits_eq, cut_short h, rdropWhile_point, find_first (dot_not_mem_front v), List.length_append,
    List.length_cons, seen_decimals h]
  have hcount : (((front v).length + (places 4 (v.units 4) + 1) : ℕ) : Int) - (next (some (front v).length) : ℕ) =
      (places 4 (v.units 4) : ℕ) := by
    show (((front v).length + (places 4 (v.units 4) + 1) : ℕ) : Int) - (((front v).length + 1 : ℕ) : Int) = _
    omega
  rw [hcount, toNat_ofInt (by omega)]

theorem front_head (h : 15 ≤ (front v).length) : ∃ c rest, front v = c :: rest ∧ c ≠ 48 := by
  have hwhole : v.units 4 / 10 ^ 4 ≠ 0 := by
    intro hzero
    have hsign := length_signText_le v
    have hone : (decimal 0).length = 1 := rfl
    rw [length_front, hzero, hone] at h
    omega
  obtain ⟨d, ds, hdecimal, hpos⟩ := decimal_eq_cons hwhole
  have hten : d < 10 := Radix.lt_of_mem_pad (by decide) (hdecimal ▸ List.mem_cons_self ..)
  unfold front signText
  split_ifs
  · exact ⟨45, _, rfl, by decide⟩
  · refine ⟨digit d, ds.map digit, by rw [hdecimal]; rfl, fun hzero => ?_⟩
    have := (digit_spec d hten).1.1 hzero
    omega

/-- Without a point, the characters up to the last that is no zero are counted, from the start. -/
theorem calcFloatBits_long (h : 15 ≤ (front v).length) : 1 ≤ (calcFloatBits v).toNat := by
  have hcut : snprintf 16 v 4 = (front v).take 15 := by
    rw [snprintf, fixedText_four, List.take_append_of_le_length h]
  have hfind : find ((front v).take 15) 46 = none :=
    find_of_not_mem fun hmem => dot_not_mem_front v (List.mem_of_mem_take hmem)
  have hlen : (((front v).take 15).rdropWhile (· ∈ [48])).length ≤ 15 :=
    (List.rdropWhile_prefix _ _).length_le.trans (List.length_take_le _ _)
  have hpos : 1 ≤ (((front v).take 15).rdropWhile (· ∈ [48])).length := by
    obtain ⟨c, rest, hfront, hc⟩ := front_head h
    rw [Nat.one_le_iff_ne_zero, Ne, List.length_eq_zero_iff, List.rdropWhile_eq_nil_iff, hfront]
    intro hall
    exact hc (by simpa using hall c (List.mem_cons_self ..))
  rw [calcFloatBits_eq, hcut, hfind]
  show 1 ≤ (UInt32.ofInt (_ - ((0 : ℕ) : Int))).toNat
  rw [Int.natCast_zero, Int.sub_zero, toNat_ofInt (by omega)]
  exact hpos

/-! ### The text -/

theorem fixedText_places (v : FiniteFloat) :
    fixedText v (places 4 (v.units 4)) =
      front v ++ if places 4 (v.units 4) = 0 then [] else 46 :: (decimals v).rdropWhile (· ∈ [48]) := by
  have hle := places_le 4 (v.units 4)
  have hwhole : v.units (places 4 (v.units 4)) / 10 ^ places 4 (v.units 4) = v.units 4 / 10 ^ 4 := by
    rw [units_places, Nat.div_div_eq_div_mul, ← pow_add, Nat.sub_add_cancel hle]
  rw [fixedText, hwhole, rdropWhile_decimals]
  rfl

theorem stripZeros_four (v : FiniteFloat) : stripZeros (fixedText v 4) = fixedText v (places 4 (v.units 4)) := by
  rw [fixedText_places, stripZeros, fixedText_four, rdropWhile_point]
  rcases Nat.eq_zero_or_pos (places 4 (v.units 4)) with hzero | hpos
  · have hnone : (decimals v).rdropWhile (· ∈ [48]) = [] := by
      rw [rdropWhile_decimals, hzero]
      rfl
    rw [hnone, if_pos hzero, if_pos List.getLast?_concat, List.dropLast_concat, List.append_nil]
  · have hne : (decimals v).rdropWhile (· ∈ [48]) ≠ [] := by
      intro hnil
      have hlen := congrArg List.length hnil
      rw [rdropWhile_decimals, List.length_map, Radix.length_pad] at hlen
      exact hpos.ne' hlen
    have hlast : (front v ++ 46 :: (decimals v).rdropWhile (· ∈ [48])).getLast? ≠ some 46 := by
      intro hpoint
      rw [List.append_cons, List.getLast?_append_of_ne_nil _ hne] at hpoint
      have hmem := List.mem_of_getLast? hpoint
      rw [rdropWhile_decimals] at hmem
      exact dot_not_mem_digits (fun d hd => Radix.lt_of_mem_pad (by decide) hd) hmem
    rw [if_neg hpos.ne', if_neg hlast]

theorem floatText_short (h : (front v).length ≤ 14) : floatText v (-1) = stripZeros (fixedText v 4) := by
  have hle := places_le 4 (v.units 4)
  have hbits : calcFloatBits v = .ofNat (places 4 (v.units 4)) := by
    rw [← calcFloatBits_short h, UInt32.ofNat_toNat]
  have hint : (calcFloatBits v).toInt32.toInt.toNat = places 4 (v.units 4) := by
    rw [hbits, UInt32.toInt32_ofNat', Int32.toInt_ofNat_of_lt (by omega), Int.toNat_natCast]
  have hfits : (fixedText v (places 4 (v.units 4))).length ≤ 31 := by
    have hdecimals : ((decimals v).rdropWhile (· ∈ [48])).length ≤ 4 := by
      rw [rdropWhile_decimals, List.length_map, Radix.length_pad]
      exact hle
    rw [fixedText_places, List.length_append]
    split_ifs
    · simp only [List.length_nil]
      omega
    · simp only [List.length_cons]
      omega
  rw [floatText, if_neg (by decide)]
  show snprintf 32 v (calcFloatBits v).toInt32.toInt.toNat = _
  rw [hint, snprintf, List.take_of_length_le hfits, stripZeros_four]

end

/-- For the floats between `-10^13` and `10^14`, and no others, `calc_float_bits` counts the significant decimals and
`to_string` prints exactly these. Elsewhere the count is wrong, though the text can come out right: that of `1e30f` is
cut behind its 31 digits. -/
theorem to_string_exact_iff (v : FiniteFloat) : Exact v ↔ -10 ^ 13 < v.value ∧ v.value < 10 ^ 14 := by
  rw [← value_range_iff, ← front_short_iff]
  constructor
  · intro h
    by_contra hlong
    have hpos := calcFloatBits_long (by omega : 15 ≤ (front v).length)
    have hbits := h.bits
    rw [places_of_long (by omega)] at hbits
    omega
  · intro h
    refine ⟨calcFloatBits_short h, ?_, fun _ => floatText_short h, fun _ => floatText_short h⟩
    rw [calcFloatBits_short h]
    exact places_le 4 _

def big : FiniteFloat := ⟨false, 1, 47, by decide, by decide, by decide⟩

/-- Fifteen zeros are printed behind `140737488355328`. -/
theorem to_string_big :
    toStringStr big [] (-1) =
        [49, 52, 48, 55, 51, 55, 52, 56, 56, 51, 53, 53, 51, 50, 56, 46] ++ List.replicate 15 48 ∧
      ¬ Exact big := by
  have hmagnitude : big.magnitude = (140737488355328 : ℕ) := by
    norm_num [big, FiniteFloat.magnitude]
  have hbits : calcFloatBits big = 15 := by
    rw [calcFloatBits, snprintf, fixedText, units_whole hmagnitude]
    rfl
  refine ⟨?_, fun h => ?_⟩
  · rw [toStringStr, floatText, hbits]
    show snprintf 32 big 15 = _
    rw [snprintf, fixedText, units_whole hmagnitude]
    rfl
  · have hle := h.le
    rw [hbits] at hle
    exact absurd hle (by decide)

end LearnCpp
