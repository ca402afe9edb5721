import Mathlib.Algebra.Ring.Nat
import Mathlib.Tactic.Linarith
import Mathlib.Data.List.Induction
import Mathlib.Tactic.Ring

/-!
# Numerals to a base

`number b ds` is what the digits `ds` spell to the base `b`, the high one first; `pad b k n` has the last `k` digits of
`n`. On digits below the base the two undo each other (`pad_number`, `number_pad`), so numerals of one length spell
different numbers if they differ (`number_inj`), and the first digit that differs decides which is less
(`number_lt_iff`).
-/

namespace Radix

variable {b : ℕ} {ds es : List ℕ}

def number (b : ℕ) (ds : List ℕ) : ℕ := ds.foldl (fun n d => b * n + d) 0

def pad (b : ℕ) : ℕ → ℕ → List ℕ
  | 0, _ => []
  | k + 1, n => pad b k (n / b) ++ [n % b]

@[simp] theorem number_nil (b : ℕ) : number b [] = 0 := rfl

theorem number_append (b : ℕ) (ds es : List ℕ) :
    number b (ds ++ es) = number b ds * b ^ es.length + number b es := by
  have hfrom : ∀ n, es.foldl (fun n d => b * n + d) n = n * b ^ es.length + number b es := by
    induction es with
    | nil =>
      intro n
      simp
    | cons e es ih =>
      intro n
      have hcons : number b (e :: es) = e * b ^ es.length + number b es := by
        rw [number, List.foldl_cons, ih]
        ring
      rw [List.foldl_cons, ih, hcons, List.length_cons, pow_succ]
      ring
  rw [number, List.foldl_append, hfrom]
  rfl

theorem number_concat (b : ℕ) (ds : List ℕ) (d : ℕ) : number b (ds ++ [d]) = b * number b ds + d := by
  rw [number, List.foldl_append]
  rfl

theorem number_cons (b d : ℕ) (ds : List ℕ) : number b (d :: ds) = d * b ^ ds.length + number b ds := by
  have happ := number_append b [d] ds
  simpa [number] using happ

theorem number_lt (h : ∀ d ∈ ds, d < b) : number b ds < b ^ ds.length := by
  induction ds with
  | nil => simp
  | cons d ds ih =>
    have hd : d + 1 ≤ b := h d (by simp)
    have hds := ih fun e he => h e (by simp [he])
    rw [number_cons, List.length_cons, pow_succ]
    calc d * b ^ ds.length + number b ds < d * b ^ ds.length + b ^ ds.length := Nat.add_lt_add_left hds _
      _ = (d + 1) * b ^ ds.length := by ring
      _ ≤ b * b ^ ds.length := Nat.mul_le_mul_right _ hd
      _ = b ^ ds.length * b := Nat.mul_comm _ _

@[simp] theorem length_pad (b k n : ℕ) : (pad b k n).length = k := by
  induction k generalizing n with
  | zero => rfl
  | succ k ih => rw [pad, List.length_append, ih, List.length_singleton]

theorem lt_of_mem_pad (hb : 0 < b) {k n d : ℕ} (h : d ∈ pad b k n) : d < b := by
  induction k generalizing n with
  | zero => cases h
  | succ k ih =>
    rcases List.mem_append.1 h with h | h
    · exact ih h
    · rw [List.mem_singleton.1 h]
      exact Nat.mod_lt _ hb

theorem number_pad {k n : ℕ} (h : n < b ^ k) : number b (pad b k n) = n := by
  induction k generalizing n with
  | zero =>
    rw [pow_zero] at h
    obtain rfl : n = 0 := by omega
    rfl
  | succ k ih =>
    have hdiv : n / b < b ^ k := Nat.div_lt_of_lt_mul (by rwa [pow_succ, Nat.mul_comm] at h)
    rw [pad, number_concat, ih hdiv]
    exact Nat.div_add_mod n b

theorem pad_number (h : ∀ d ∈ ds, d < b) : pad b ds.length (number b ds) = ds := by
  induction ds using List.reverseRecOn with
  | nil => rfl
  | append_singleton ds d ih =>
    have hd : d < b := h d (by simp)
    have hdiv : (b * number b ds + d) / b = number b ds := by
      rw [Nat.mul_add_div (Nat.zero_lt_of_lt hd), Nat.div_eq_of_lt hd, Nat.add_zero]
    have hmod : (b * number b ds + d) % b = d := by
      rw [Nat.mul_add_mod, Nat.mod_eq_of_lt hd]
    rw [List.length_append, List.length_singleton, number_concat, pad, hdiv, hmod,
      ih fun e he => h e (by simp [he])]

theorem pad_add (b j k n : ℕ) : pad b (j + k) n = pad b j (n / b ^ k) ++ pad b k n := by
  induction k generalizing n with
  | zero => simp [pad]
  | succ k ih => rw [← Nat.add_assoc, pad, pad, ih, Nat.div_div_eq_div_mul, pow_succ', List.append_assoc]

/-- The first digit is split off in front. -/
theorem pad_eq_cons (b k n : ℕ) : pad b (k + 1) n = n / b ^ k % b :: pad b k n := by
  rw [Nat.add_comm, pad_add]
  rfl

theorem pad_mod (b k n : ℕ) : pad b k (n % b ^ k) = pad b k n := by
  induction k generalizing n with
  | zero => rfl
  | succ k ih => rw [pad, pad, pow_succ', Nat.mod_mul_right_div_self, ih, Nat.mod_mul_right_mod]

theorem number_inj (hds : ∀ d ∈ ds, d < b) (hes : ∀ e ∈ es, e < b) (hlen : ds.length = es.length)
    (h : number b ds = number b es) : ds = es := by
  rw [← pad_number hds, h, hlen, pad_number hes]

theorem number_lt_iff {d e : ℕ} (hds : ∀ d ∈ ds, d < b) (hes : ∀ e ∈ es, e < b) (hlen : ds.length = es.length)
    (hne : d ≠ e) : number b (d :: ds) < number b (e :: es) ↔ d < e := by
  have hlow := number_lt hds
  have hlow' := number_lt hes
  rw [number_cons, number_cons, hlen]
  rw [hlen] at hlow
  generalize b ^ es.length = p at hlow hlow' ⊢
  rcases Nat.lt_or_gt_of_ne hne with hlt | hgt
  · have hstep : (d + 1) * p ≤ e * p := Nat.mul_le_mul_right p hlt
    rw [Nat.add_mul] at hstep
    exact iff_of_true (by omega) hlt
  · have hstep : (e + 1) * p ≤ d * p := Nat.mul_le_mul_right p hgt
    rw [Nat.add_mul] at hstep
    exact iff_of_false (by omega) (by omega)

end Radix
