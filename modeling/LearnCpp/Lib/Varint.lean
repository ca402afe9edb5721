import Mathlib.Data.Nat.Basic
import Mathlib.Data.UInt

/-!
# Numbers in groups of seven bits

A number is spelt with its lowest seven bits first, in bytes whose high bit says that more follow. A spelling has at
most `k + 1` bytes, enough for the numbers below `128 ^ (k + 1)`, and what is spelt is read back from in front of any
other bytes (`decode_encode`).
-/

namespace Varint

variable {k n : ℕ} {bs rest : List UInt8}

def encode : ℕ → ℕ → List UInt8
  | 0, n => [UInt8.ofNat n]
  | k + 1, n => if n < 128 then [UInt8.ofNat n] else UInt8.ofNat (n % 128 + 128) :: encode k (n / 128)

/-- The number in front, and what is behind it. -/
def decode : ℕ → List UInt8 → Option (ℕ × List UInt8)
  | _, [] => none
  | 0, b :: bs => if b.toNat < 128 then some (b.toNat, bs) else none
  | k + 1, b :: bs =>
    if b.toNat < 128 then some (b.toNat, bs)
    else (decode k bs).map fun p => (b.toNat - 128 + 128 * p.1, p.2)

theorem toNat_ofNat (h : n < 256) : (UInt8.ofNat n).toNat = n := by
  rw [UInt8.toNat_ofNat']
  exact Nat.mod_eq_of_lt h

theorem encode_of_lt (h : n < 128) : encode k n = [UInt8.ofNat n] := by
  cases k with
  | zero => rfl
  | succ k => exact if_pos h

theorem decode_encode (h : n < 128 ^ (k + 1)) (rest : List UInt8) : decode k (encode k n ++ rest) = some (n, rest) := by
  induction k generalizing n with
  | zero =>
    have hlt : n < 128 := by simpa using h
    rw [encode, List.singleton_append, decode, toNat_ofNat (by omega), if_pos hlt]
  | succ k ih =>
    rw [encode]
    split_ifs with hlt
    · rw [List.singleton_append, decode, toNat_ofNat (by omega), if_pos hlt]
    · have hdiv : n / 128 < 128 ^ (k + 1) := by
        rw [Nat.div_lt_iff_lt_mul (by omega), ← pow_succ]
        exact h
      have hbyte : (UInt8.ofNat (n % 128 + 128)).toNat = n % 128 + 128 := toNat_ofNat (by omega)
      have hmod := Nat.mod_add_div n 128
      rw [List.cons_append, decode, hbyte, if_neg (by omega), ih hdiv]
      simp only [Option.map_some, Option.some.injEq, Prod.mk.injEq, and_true]
      omega

theorem length_lt_of_decode (h : decode k bs = some (n, rest)) : rest.length < bs.length := by
  induction k generalizing n bs with
  | zero =>
    rcases bs with _ | ⟨b, bs⟩
    · cases h
    · rw [decode] at h
      split_ifs at h
      cases h
      exact Nat.lt_succ_self _
  | succ k ih =>
    rcases bs with _ | ⟨b, bs⟩
    · cases h
    · rw [decode] at h
      split_ifs at h
      · cases h
        exact Nat.lt_succ_self _
      · rcases hd : decode k bs with _ | ⟨m, tail⟩
        · rw [hd] at h
          cases h
        · rw [hd] at h
          cases h
          exact Nat.lt_succ_of_lt (ih hd)

end Varint
