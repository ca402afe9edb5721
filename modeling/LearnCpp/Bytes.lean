import Mathlib.Algebra.Ring.Nat

/-!
# Bytes
-/

namespace LearnCpp

abbrev Bytes := List UInt8

/-- The string a `char` array holds: its bytes up to the first NUL. -/
def cstr (b : Bytes) : Bytes := b.takeWhile (· ≠ 0)

/-- A string of C, without its NUL. -/
abbrev CString := { s : Bytes // (0 : UInt8) ∉ s }

/-- `%s` of a `char` array; `none` if the array holds no NUL, and more than it is read. -/
def arrayText (a : Bytes) : Option Bytes := if (0 : UInt8) ∈ a then some (cstr a) else none

/-- The sum of bytes in an `unsigned short`. -/
def sum16 (b : Bytes) : UInt16 := b.foldl (fun acc x => acc + x.toUInt16) 0

/-- The two bytes of an `unsigned short`, the high one first. -/
def be16 (w : UInt16) : Bytes := [((w >>> 8) &&& 0xFF).toUInt8, (w &&& 0xFF).toUInt8]

/-- The number that bytes spell, the high one first. -/
def beNat (b : Bytes) : ℕ := b.foldl (fun acc x => 256 * acc + x.toNat) 0

theorem cstr_append_nul {line : Bytes} (h : 0 ∉ line) (rest : Bytes) : cstr (line ++ 0 :: rest) = line := by
  unfold cstr
  rw [List.takeWhile_append_of_pos, List.takeWhile_cons_of_neg (by simp), List.append_nil]
  intro c hc
  have hne : c ≠ 0 := fun h0 => h (h0 ▸ hc)
  simpa using hne

theorem arrayText_append_nul {line : Bytes} (h : 0 ∉ line) (rest : Bytes) :
    arrayText (line ++ 0 :: rest) = some line := by
  rw [arrayText, if_pos (by simp), cstr_append_nul h]

theorem arrayText_none {a : Bytes} (h : 0 ∉ a) : arrayText a = none := if_neg h

theorem sum16_toNat (b : Bytes) : (sum16 b).toNat = (b.map UInt8.toNat).sum % 2 ^ 16 := by
  have h : ∀ acc : UInt16, (b.foldl (fun acc x => acc + x.toUInt16) acc).toNat =
      (acc.toNat + (b.map UInt8.toNat).sum) % 2 ^ 16 := by
    induction b with
    | nil => intro acc; simp [Nat.mod_eq_of_lt acc.toNat_lt]
    | cons x b ih =>
      intro acc
      simp only [List.foldl_cons, List.map_cons, List.sum_cons, ih, UInt16.toNat_add, UInt8.toNat_toUInt16]
      omega
  simpa [sum16] using h 0

@[simp] theorem length_be16 (w : UInt16) : (be16 w).length = 2 := rfl

@[simp] theorem beNat_be16 (w : UInt16) : beNat (be16 w) = w.toNat := by
  have hw := w.toNat_lt
  have hmask : ∀ n : ℕ, n &&& 255 = n % 256 := fun n => Nat.and_two_pow_sub_one_eq_mod n 8
  have hhi : ((w >>> 8) &&& 0xFF).toUInt8.toNat = w.toNat / 256 := by
    change ((w.toNat >>> 8) &&& 255) % 256 = _
    rw [hmask, Nat.shiftRight_eq_div_pow]
    omega
  have hlo : (w &&& 0xFF).toUInt8.toNat = w.toNat % 256 := by
    change (w.toNat &&& 255) % 256 = _
    rw [hmask]
    omega
  simp only [beNat, be16, List.foldl_cons, List.foldl_nil, hhi, hlo]
  omega

end LearnCpp
