import Mathlib.Data.BitVec

/-!
# Flags in a word

A flag is a mask of one bit (`Single`). Setting and clearing a flag leaves the others alone, and a test of several flags
at once is a test of each.
-/

namespace Flags

variable {w : ℕ} {bits bits' a b gate : BitVec w}

/-- `bits & mask`, as a condition. -/
def test (bits mask : BitVec w) : Bool := bits &&& mask != 0

def Single (a : BitVec w) : Prop := ∃ i : Fin w, a = BitVec.twoPow w i

instance (a : BitVec w) : Decidable (Single a) := inferInstanceAs (Decidable (∃ i : Fin w, a = BitVec.twoPow w i))

@[simp] theorem test_zero (a : BitVec w) : test 0 a = false := by
  simp [test]

theorem test_twoPow (bits : BitVec w) (i : Fin w) : test bits (BitVec.twoPow w i) = bits.getLsbD i := by
  have hne : BitVec.twoPow w i ≠ 0 := by
    intro h
    have hi := congrArg (fun b : BitVec w => b.getLsbD i) h
    simp at hi
  rw [test, BitVec.and_twoPow]
  cases bits.getLsbD i with
  | true => exact bne_iff_ne.2 hne
  | false => simp

theorem test_or (ha : Single a) : test (bits ||| bits') a = (test bits a || test bits' a) := by
  obtain ⟨i, rfl⟩ := ha
  rw [test_twoPow, test_twoPow, test_twoPow, BitVec.getLsbD_or]

theorem test_self (ha : Single a) : test a a = true := by
  obtain ⟨i, rfl⟩ := ha
  rw [test_twoPow]
  simp

theorem test_of_ne (ha : Single a) (hb : Single b) (hne : a ≠ b) : test a b = false := by
  obtain ⟨i, rfl⟩ := ha
  obtain ⟨j, rfl⟩ := hb
  have hij : (j : ℕ) ≠ i := fun h => hne (by rw [h])
  rw [test_twoPow]
  simp [hij]

theorem test_andNot_self (ha : Single a) : test (bits &&& ~~~a) a = false := by
  obtain ⟨i, rfl⟩ := ha
  rw [test_twoPow]
  simp

theorem test_andNot_of_ne (ha : Single a) (hb : Single b) (hne : a ≠ b) : test (bits &&& ~~~a) b = test bits b := by
  obtain ⟨i, rfl⟩ := ha
  obtain ⟨j, rfl⟩ := hb
  have hij : (j : ℕ) ≠ i := fun h => hne (by rw [h])
  rw [test_twoPow, test_twoPow]
  simp [hij]

/-- A flag that is set is seen through a mask it belongs to. -/
theorem test_of_gate (hgate : gate &&& a = a) (h : test bits a = true) : test bits gate = true := by
  rw [test, bne_iff_ne] at h ⊢
  intro hzero
  rw [← hgate, ← BitVec.and_assoc, hzero] at h
  exact h (by simp)

/-- `bits` has all the bits of `a`. -/
theorem and_eq_iff : bits &&& a = a ↔ ∀ i, a.getLsbD i = true → bits.getLsbD i = true := by
  constructor
  · intro h i ha
    rw [← h, BitVec.getLsbD_and, Bool.and_eq_true] at ha
    exact ha.1
  · intro h
    refine BitVec.eq_of_getLsbD_eq fun i hi => ?_
    rw [BitVec.getLsbD_and]
    cases ha : a.getLsbD i with
    | true => rw [h i ha, Bool.and_self]
    | false => rw [Bool.and_false]

theorem and_or_eq_iff : bits &&& (a ||| b) = a ||| b ↔ bits &&& a = a ∧ bits &&& b = b := by
  rw [and_eq_iff, and_eq_iff, and_eq_iff, ← forall_and]
  refine forall_congr' fun i => ?_
  rw [BitVec.getLsbD_or, Bool.or_eq_true]
  exact or_imp

theorem and_eq_iff_test (ha : Single a) : bits &&& a = a ↔ test bits a = true := by
  constructor
  · intro h
    rw [test, h, ← test_self ha, test, BitVec.and_self]
  · intro h
    obtain ⟨i, rfl⟩ := ha
    rw [test_twoPow] at h
    rw [BitVec.and_twoPow, if_pos h]

/-- All flags of a mask are set. -/
theorem and_foldr_eq_iff {α : Type*} {mask : α → BitVec w} {xs : List α} (h : ∀ x ∈ xs, Single (mask x)) :
    bits &&& xs.foldr (fun x b => mask x ||| b) 0 = xs.foldr (fun x b => mask x ||| b) 0 ↔
      ∀ x ∈ xs, test bits (mask x) = true := by
  induction xs with
  | nil => simp
  | cons x xs ih =>
    rw [List.foldr_cons, and_or_eq_iff, and_eq_iff_test (h x (by simp)), ih fun x hx => h x (by simp [hx])]
    simp

end Flags
