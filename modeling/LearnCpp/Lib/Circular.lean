import Mathlib.Data.List.Basic
import Mathlib.Data.Nat.ModEq

/-!
# Lists laid out in a circular array

`Holds b h L`: the cells of the array `b` from cell `h` on, going round at its end, hold the list `L`.
Writing the first free cell behind the list appends (`Holds.append`), writing the cell before it
prepends (`Holds.cons`), and moving the start one cell on drops the first element (`Holds.tail`).

`segment` copies cells out in at most two pieces, `writeFrom` writes a list cell by cell; both go round.
-/

namespace Circular

variable {α : Type*} {b L : List α} {h h' : ℕ} {x : α}

/-- The cells of `b` from cell `h` on, going round at the end, hold `L`. -/
def Holds (b : List α) (h : ℕ) (L : List α) : Prop :=
  ∀ i (hi : i < L.length), b[(h + i) % b.length]? = some L[i]

theorem offset_inj {n i j : ℕ} (hi : i < n) (hj : j < n) (he : (h + i) % n = (h + j) % n) : i = j := by
  have hm : i ≡ j [MOD n] := Nat.ModEq.add_left_cancel' h he
  rwa [Nat.ModEq, Nat.mod_eq_of_lt hi, Nat.mod_eq_of_lt hj] at hm

theorem next_add (n i : ℕ) : ((h + 1) % n + i) % n = (h + (i + 1)) % n := by
  rw [Nat.mod_add_mod]; congr 1; omega

/-- The predecessor computed with one capacity added, as unsigned code does. -/
theorem pred_next {n : ℕ} (hn : 0 < n) (hh : h < n) : ((h + n - 1) % n + 1) % n = h := by
  rw [Nat.mod_add_mod, Nat.sub_add_cancel (by omega), Nat.add_mod_right, Nat.mod_eq_of_lt hh]

theorem holds_nil : Holds b h [] := by
  intro i hi
  simp at hi

theorem Holds.append (hL : Holds b h L) (hlt : L.length < b.length) :
    Holds (b.set ((h + L.length) % b.length) x) h (L ++ [x]) := by
  intro i hi
  rw [List.length_set]
  rw [List.length_append, List.length_singleton] at hi
  by_cases he : i = L.length
  · subst he
    rw [List.getElem?_set_self (Nat.mod_lt _ (by omega))]
    simp
  · have hiL : i < L.length := by omega
    have hne : (h + L.length) % b.length ≠ (h + i) % b.length := fun hc =>
      he (offset_inj (by omega) (by omega) hc).symm
    rw [List.getElem?_set_ne hne, hL i hiL, List.getElem_append_left hiL]

theorem Holds.tail (hL : Holds b h (x :: L)) : Holds b ((h + 1) % b.length) L := by
  intro i hi
  rw [next_add]
  exact hL (i + 1) (by simpa using hi)

theorem Holds.cons (hL : Holds b h L) (hlt : L.length < b.length) (hh' : h' < b.length)
    (hnext : (h' + 1) % b.length = h) : Holds (b.set h' x) h' (x :: L) := by
  intro i hi
  rw [List.length_set]
  cases i with
  | zero =>
    rw [Nat.add_zero, Nat.mod_eq_of_lt hh', List.getElem?_set_self hh']
    rfl
  | succ i =>
    have hiL : i < L.length := by simpa using hi
    have hne : h' ≠ (h' + (i + 1)) % b.length := by
      intro hc
      have h0 : (h' + 0) % b.length = (h' + (i + 1)) % b.length := by
        rw [Nat.add_zero, Nat.mod_eq_of_lt hh', ← hc]
      exact absurd (offset_inj (by omega) (by omega) h0) (by omega)
    rw [List.getElem?_set_ne hne, ← next_add, hnext, hL i hiL]
    rfl

theorem Holds.left {M : List α} (hL : Holds b h (L ++ M)) : Holds b h L := by
  intro i hi
  have hiM : i < (L ++ M).length := by
    rw [List.length_append]
    omega
  rw [hL i hiM, List.getElem_append_left hi]

/-! ### Copying out -/

/-- The `n` cells from cell `s` on: up to the end of the array, then from its start. -/
def segment (b : List α) (s n : ℕ) : List α := (b.drop s).take n ++ b.take (n - (b.length - s))

section
variable {s n j k : ℕ} {xs : List α}

theorem segment_straight (h : s + n ≤ b.length) : segment b s n = (b.drop s).take n := by
  rw [segment, show n - (b.length - s) = 0 by omega, List.take_zero, List.append_nil]

theorem segment_round (h : b.length ≤ s + n) : segment b s n = b.drop s ++ b.take (n - (b.length - s)) := by
  rw [segment, List.take_of_length_le (by rw [List.length_drop]; omega)]

theorem length_segment (hs : s < b.length) (hn : n ≤ b.length) : (segment b s n).length = n := by
  rw [segment, List.length_append, List.length_take, List.length_take, List.length_drop]
  omega

theorem segment_getElem (hs : s < b.length) (hn : n ≤ b.length) (hj : j < n) :
    (segment b s n)[j]? = b[(s + j) % b.length]? := by
  have hlen : ((b.drop s).take n).length = min n (b.length - s) := by
    rw [List.length_take, List.length_drop]
  by_cases hend : s + j < b.length
  · rw [segment, List.getElem?_append_left (by rw [hlen]; omega), List.getElem?_take_of_lt hj, List.getElem?_drop,
      Nat.mod_eq_of_lt hend]
  · have hround : (s + j) % b.length = j - (b.length - s) := by
      rw [Nat.mod_eq_sub_mod (by omega), Nat.mod_eq_of_lt (by omega)]
      omega
    rw [segment, List.getElem?_append_right (by rw [hlen]; omega), hlen, Nat.min_eq_right (by omega),
      List.getElem?_take_of_lt (by omega), hround]

/-! ### Writing a list -/

/-- The list `xs` written from cell `s` on. -/
def writeFrom (b : List α) (s : ℕ) : List α → List α
  | [] => b
  | x :: xs => writeFrom (b.set (s % b.length) x) (s + 1) xs

@[simp] theorem length_writeFrom (b : List α) (s : ℕ) (xs : List α) : (writeFrom b s xs).length = b.length := by
  induction xs generalizing b s with
  | nil => rfl
  | cons x xs ih => rw [writeFrom, ih, List.length_set]

theorem writeFrom_mod (b : List α) (s : ℕ) (xs : List α) : writeFrom b (s % b.length) xs = writeFrom b s xs := by
  induction xs generalizing b s with
  | nil => rfl
  | cons x xs ih =>
    rw [writeFrom, writeFrom, Nat.mod_mod, ← ih, ← ih (s := s + 1), List.length_set, Nat.mod_add_mod]

theorem writeFrom_other (hk : ∀ j < xs.length, (s + j) % b.length ≠ k) : (writeFrom b s xs)[k]? = b[k]? := by
  induction xs generalizing b s with
  | nil => rfl
  | cons x xs ih =>
    have hk0 : s % b.length ≠ k := hk 0 (by simp)
    rw [writeFrom, ih, List.getElem?_set_ne hk0]
    intro j hj
    rw [List.length_set, Nat.add_assoc, Nat.add_comm 1 j]
    exact hk (j + 1) (by simpa using hj)

theorem writeFrom_written (hlen : xs.length ≤ b.length) (hj : j < xs.length) :
    (writeFrom b s xs)[(s + j) % b.length]? = some xs[j] := by
  induction xs generalizing b s j with
  | nil => cases hj
  | cons x xs ih =>
    rw [List.length_cons] at hlen
    rw [writeFrom]
    cases j with
    | zero =>
      rw [writeFrom_other, Nat.add_zero, List.getElem?_set_self (Nat.mod_lt _ (by omega))]
      · rfl
      · intro j hj hc
        rw [List.length_set, Nat.add_assoc] at hc
        exact absurd (offset_inj (by omega) (by omega) hc) (by omega)
    | succ j =>
      have hstep := ih (b := b.set (s % b.length) x) (s := s + 1) (j := j) (by rw [List.length_set]; omega)
        (by simpa using hj)
      rw [List.length_set, Nat.add_assoc, Nat.add_comm 1 j] at hstep
      rw [hstep, List.getElem_cons_succ]

end

theorem Holds.append_all {xs : List α} (hL : Holds b h L) (hlen : L.length + xs.length ≤ b.length) :
    Holds (writeFrom b (h + L.length) xs) h (L ++ xs) := by
  induction xs generalizing b L with
  | nil => rwa [List.append_nil]
  | cons x xs ih =>
    rw [List.length_cons] at hlen
    have hx := hL.append (x := x) (by omega)
    have hxs := ih hx (by rw [List.length_append, List.length_singleton, List.length_set]; omega)
    rwa [List.length_append, List.length_singleton, ← Nat.add_assoc, List.append_assoc, List.singleton_append] at hxs

end Circular
