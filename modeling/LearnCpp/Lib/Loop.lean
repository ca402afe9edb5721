import Mathlib.Data.Nat.Notation

/-!
# Loops

One round of a loop takes the state to a new one (`inl`) or leaves the loop with a result (`inr`).
`iter` runs at most a given number of rounds. A loop whose rounds lower a measure leaves within as many
rounds as the measure allows (`iter_isSome`), so it has a value, `total`, which unfolds round by round. What every
round keeps holds when the loop is left (`total_inv`). A loop that keeps to states it does not leave from has no
value (`iter_eq_none`), and of two loops that go round by round together one is left when the other is
(`iter_isSome_sim`).
-/

namespace Loop

variable {σ τ β γ : Type*} {body : σ → σ ⊕ β}

def iter (body : σ → σ ⊕ β) : ℕ → σ → Option β
  | 0, _ => none
  | n + 1, s => match body s with
    | .inl s' => iter body n s'
    | .inr b => some b

def Lowers (body : σ → σ ⊕ β) (μ : σ → ℕ) : Prop := ∀ s s', body s = .inl s' → μ s' < μ s

theorem iter_inl {n : ℕ} {s s' : σ} (h : body s = .inl s') : iter body (n + 1) s = iter body n s' := by
  simp only [iter, h]

theorem iter_inr {n : ℕ} {s : σ} {b : β} (h : body s = .inr b) : iter body (n + 1) s = some b := by
  simp only [iter, h]

theorem iter_le {n m : ℕ} {s : σ} {b : β} (h : iter body n s = some b) (hnm : n ≤ m) :
    iter body m s = some b := by
  induction n generalizing m s with
  | zero => simp [iter] at h
  | succ n ih =>
    obtain ⟨m, rfl⟩ : ∃ k, m = k + 1 := ⟨m - 1, by omega⟩
    cases hb : body s with
    | inl s' =>
      rw [iter_inl hb] at h ⊢
      exact ih h (by omega)
    | inr b' =>
      rw [iter_inr hb] at h ⊢
      exact h

theorem iter_isSome {μ : σ → ℕ} (hμ : Lowers body μ) (n : ℕ) (s : σ) (hn : μ s < n) :
    (iter body n s).isSome := by
  induction n generalizing s with
  | zero => omega
  | succ n ih =>
    cases hb : body s with
    | inl s' =>
      rw [iter_inl hb]
      have := hμ s s' hb
      exact ih s' (by omega)
    | inr b => rw [iter_inr hb]; rfl

/-- The divergence rule. -/
theorem iter_eq_none {I : σ → Prop} (hI : ∀ s, I s → ∃ s', body s = .inl s' ∧ I s') {s : σ} (hs : I s) (n : ℕ) :
    iter body n s = none := by
  induction n generalizing s with
  | zero => rfl
  | succ n ih =>
    obtain ⟨s', hb, hs'⟩ := hI s hs
    rw [iter_inl hb]
    exact ih hs'

theorem iter_isSome_sim {body' : τ → τ ⊕ γ} {p : σ → τ}
    (hinl : ∀ {s s'}, body s = .inl s' → body' (p s) = .inl (p s'))
    (hinr : ∀ {s b}, body s = .inr b → ∃ c, body' (p s) = .inr c) (n : ℕ) (s : σ) :
    (iter body n s).isSome = (iter body' n (p s)).isSome := by
  induction n generalizing s with
  | zero => rfl
  | succ n ih =>
    cases hb : body s with
    | inl s' => rw [iter_inl hb, iter_inl (hinl hb), ih]
    | inr b =>
      obtain ⟨c, hc⟩ := hinr hb
      rw [iter_inr hb, iter_inr hc]
      rfl

def total (body : σ → σ ⊕ β) (μ : σ → ℕ) (hμ : Lowers body μ) (s : σ) : β :=
  (iter body (μ s + 1) s).get (iter_isSome hμ _ s (Nat.lt_succ_self _))

variable {μ : σ → ℕ} (hμ : Lowers body μ)

theorem iter_eq_total {n : ℕ} {s : σ} (hn : μ s < n) : iter body n s = some (total body μ hμ s) := by
  refine iter_le (n := μ s + 1) ?_ hn
  rw [total, Option.some_get]

theorem total_inr {s : σ} {b : β} (h : body s = .inr b) : total body μ hμ s = b := by
  have := iter_eq_total hμ (Nat.lt_succ_self (μ s))
  rw [iter_inr h] at this
  exact (Option.some.inj this).symm

theorem total_inl {s s' : σ} (h : body s = .inl s') : total body μ hμ s = total body μ hμ s' := by
  have hlt := hμ s s' h
  have := iter_eq_total hμ (Nat.lt_succ_self (μ s))
  rw [iter_inl h, iter_eq_total hμ hlt] at this
  exact (Option.some.inj this).symm

/-- States from which the first round does the same lead to the same result. -/
theorem total_congr {s s' : σ} (h : body s = body s') : total body μ hμ s = total body μ hμ s' := by
  cases hb : body s with
  | inl t => rw [total_inl hμ hb, total_inl hμ (h.symm.trans hb)]
  | inr b => rw [total_inr hμ hb, total_inr hμ (h.symm.trans hb)]

/-- The invariant rule. -/
theorem total_inv {I : σ → Prop} {P : β → Prop} (hI : ∀ {s s'}, I s → body s = .inl s' → I s')
    (hP : ∀ {s b}, I s → body s = .inr b → P b) {s : σ} (hs : I s) : P (total body μ hμ s) := by
  induction hn : μ s using Nat.strongRecOn generalizing s with
  | ind n ih =>
    cases hb : body s with
    | inl s' =>
      rw [total_inl hμ hb]
      have hlt := hμ s s' hb
      exact ih _ (hn ▸ hlt) (hI hs hb) rfl
    | inr b =>
      rw [total_inr hμ hb]
      exact hP hs hb

end Loop
