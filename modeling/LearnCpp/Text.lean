import LearnCpp.Bytes
import LearnCpp.Lib.Decimal

/-!
# Texts

Literals, and what `printf` writes of numbers and times.
-/

namespace LearnCpp

/-- The bytes of a string literal. -/
def chars (s : String) : Bytes := s.toList.map fun c => c.toNat.toUInt8

def digit (d : ℕ) : UInt8 := .ofNat (48 + d)

/-- `%0kd`; `%d` for `k = 0`. -/
def intText (k : ℕ) (x : Int) : Bytes :=
  let ds := (Decimal.decimal x.natAbs).map digit
  if x < 0 then 45 :: (List.replicate (k - 1 - ds.length) 48 ++ ds) else List.replicate (k - ds.length) 48 ++ ds

/-- What `localtime` gives. -/
structure Tm where
  sec : Int32
  min : Int32
  hour : Int32
  mday : Int32
  mon : Int32
  year : Int32
deriving DecidableEq, Repr

theorem length_intText_le {k n : ℕ} {x : Int} (hx : x.natAbs < 10 ^ (n + 1)) (hk : k ≤ n + 1) :
    (intText k x).length ≤ n + 2 := by
  have hdigits := Decimal.length_decimal_le_iff.2 hx
  unfold intText
  split
  · simp only [List.length_cons, List.length_append, List.length_replicate, List.length_map]
    omega
  · simp only [List.length_append, List.length_replicate, List.length_map]
    omega

end LearnCpp
