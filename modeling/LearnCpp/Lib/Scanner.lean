import Mathlib.Data.List.Basic
import LearnCpp.Lib.Loop

/-!
# Scanners

A scanner looks at what is queued and waits for more, or drops a positive number of elements, with or
without an output. Its decisions are final: what arrives later changes none of them. `run` goes on until
the scanner waits. `run_append`: scanning, appending and scanning again is scanning once, so outputs and rest
do not depend on how the input was cut (`feed_eq_run`). `run_flatten`: inputs the scanner takes whole, each
with one output, are taken one after the other whatever follows each. A loop whose rounds do what the scanner
decides computes `run` (`total_eq_run`).

`decisions` puts out what a scanner decides, `placed` the outputs with the offsets they stand at. A scanner that
skips element by element comes to every offset up to which it never waits, unless an output straddles it
(`placed_or_straddled`).
-/

/-- `none` waits; `some (o, k)` delivers `o`, if any, and drops `k` elements. -/
structure Scanner (α β : Type*) where
  step : List α → Option (Option β × ℕ)
  step_pos : ∀ {q o k}, step q = some (o, k) → 0 < k ∧ k ≤ q.length
  step_append : ∀ {q r}, step q = some r → ∀ b, step (q ++ b) = some r

namespace Scanner

variable {α β : Type*} (sc : Scanner α β) {q rest : List α} {o : Option β} {k : ℕ}

theorem drop_lt (h : sc.step q = some (o, k)) : (q.drop k).length < q.length := by
  have := sc.step_pos h
  rw [List.length_drop]
  omega

/-- The outputs until the scanner waits, and what is left then. -/
def run (q : List α) : List β × List α :=
  match _h : sc.step q with
  | none => ([], q)
  | some (o, k) =>
    let (bs, rest) := run (q.drop k)
    (o.toList ++ bs, rest)
termination_by q.length
decreasing_by exact sc.drop_lt _h

theorem step_nil : sc.step [] = none := by
  cases h : sc.step [] with
  | none => rfl
  | some r =>
    have hpos := sc.step_pos (o := r.1) (k := r.2) h
    rw [List.length_nil] at hpos
    omega

theorem run_wait (h : sc.step q = none) : sc.run q = ([], q) := by
  rw [run]
  split
  · rfl
  · next hs => rw [h] at hs; cases hs

theorem run_step (h : sc.step q = some (o, k)) :
    sc.run q = (o.toList ++ (sc.run (q.drop k)).1, (sc.run (q.drop k)).2) := by
  rw [run]
  split
  · next hs => rw [h] at hs; cases hs
  · next hs => rw [h] at hs; cases hs; rfl

theorem step_rest (q : List α) : sc.step (sc.run q).2 = none := by
  induction q using run.induct sc with
  | case1 q h => rwa [sc.run_wait h]
  | case2 q o k h _ _ _ ih => rwa [sc.run_step h]

theorem run_append (q b : List α) :
    sc.run (q ++ b) = ((sc.run q).1 ++ (sc.run ((sc.run q).2 ++ b)).1, (sc.run ((sc.run q).2 ++ b)).2) := by
  induction q using run.induct sc with
  | case1 q h => rw [sc.run_wait h]; rfl
  | case2 q o k h _ _ _ ih =>
    have hk : k ≤ q.length := (sc.step_pos h).2
    rw [sc.run_step (sc.step_append h b), sc.run_step h, List.drop_append_of_le_length hk, ih]
    simp only [List.append_assoc]

def feed : List α → List (List α) → List β × List α
  | q, [] => ([], q)
  | q, c :: cs =>
    let (bs, q) := sc.run (q ++ c)
    let (bs', q) := feed q cs
    (bs ++ bs', q)

theorem feed_eq_run (h : sc.step q = none) (cs : List (List α)) : sc.feed q cs = sc.run (q ++ cs.flatten) := by
  induction cs generalizing q with
  | nil => rw [List.flatten_nil, List.append_nil, sc.run_wait h]; rfl
  | cons c cs ih =>
    rw [List.flatten_cons, ← List.append_assoc, sc.run_append (q ++ c), ← ih (sc.step_rest _)]
    rfl

theorem run_flatten {f : β → List α} {bs : List β}
    (h : ∀ b ∈ bs, ∀ rest, sc.step (f b ++ rest) = some (some b, (f b).length)) :
    sc.run (bs.map f).flatten = (bs, []) := by
  induction bs with
  | nil => exact sc.run_wait sc.step_nil
  | cons b bs ih =>
    have hb := h b (by simp) (bs.map f).flatten
    rw [List.map_cons, List.flatten_cons, sc.run_step hb, List.drop_left, ih fun c hc => h c (by simp [hc])]
    rfl

theorem total_eq_run {body : List α × List β → (List α × List β) ⊕ (List α × List β)} {μ : List α × List β → ℕ}
    (hμ : Loop.Lowers body μ) (hwait : ∀ {q out}, sc.step q = none → body (q, out) = .inr (q, out))
    (hstep : ∀ {q out o k}, sc.step q = some (o, k) → body (q, out) = .inl (q.drop k, out ++ o.toList))
    (q : List α) (out : List β) :
    Loop.total body μ hμ (q, out) = ((sc.run q).2, out ++ (sc.run q).1) := by
  induction q using run.induct sc generalizing out with
  | case1 q h => rw [Loop.total_inr hμ (hwait h), sc.run_wait h, List.append_nil]
  | case2 q o k h _ _ _ ih =>
    rw [Loop.total_inl hμ (hstep h), sc.run_step h, ih, List.append_assoc]

/-! ### Where the outputs stand -/

/-- The scanner that puts out every decision of `sc`. -/
def decisions : Scanner α (Option β × ℕ) where
  step q := (sc.step q).map fun r => (some r, r.2)
  step_pos h := by
    obtain ⟨r, hr, he⟩ := Option.map_eq_some_iff.1 h
    cases he
    exact sc.step_pos hr
  step_append h b := by
    obtain ⟨r, hr, rfl⟩ := Option.map_eq_some_iff.1 h
    rw [sc.step_append hr]
    rfl

/-- The outputs of decisions made one after the other from offset `p` on, each with the offset it stands at. -/
def placed (p : ℕ) : List (Option β × ℕ) → List (ℕ × β)
  | [] => []
  | (o, k) :: ds => o.toList.map (Prod.mk p) ++ placed (p + k) ds

theorem decisions_wait (h : sc.step q = none) : sc.decisions.run q = ([], q) :=
  sc.decisions.run_wait (by simp [decisions, h])

theorem decisions_step (h : sc.step q = some (o, k)) :
    sc.decisions.run q = ((o, k) :: (sc.decisions.run (q.drop k)).1, (sc.decisions.run (q.drop k)).2) :=
  sc.decisions.run_step (o := some (o, k)) (by simp [decisions, h])

theorem run_eq_decisions (p : ℕ) (q : List α) :
    sc.run q = ((placed p (sc.decisions.run q).1).map Prod.snd, (sc.decisions.run q).2) := by
  induction q using run.induct sc generalizing p with
  | case1 q h => rw [sc.run_wait h, sc.decisions_wait h]; rfl
  | case2 q o k h _ _ _ ih =>
    rw [sc.run_step h, sc.decisions_step h, ih (p + k), placed, List.map_append, List.map_map]
    simp [Function.comp_def]

theorem mem_placed {p m : ℕ} {b : β} (hm : (m, b) ∈ placed p (sc.decisions.run q).1) :
    p ≤ m ∧ ∃ k, sc.step (q.drop (m - p)) = some (some b, k) := by
  induction q using run.induct sc generalizing p with
  | case1 q h =>
    rw [sc.decisions_wait h] at hm
    cases hm
  | case2 q o k h _ _ _ ih =>
    rw [sc.decisions_step h, placed, List.mem_append] at hm
    rcases hm with hm | hm
    · obtain ⟨b', hb, he⟩ := List.mem_map.1 hm
      cases he
      rw [Option.mem_toList] at hb
      cases hb
      exact ⟨Nat.le_refl _, k, by rw [Nat.sub_self, List.drop_zero, h]⟩
    · obtain ⟨hpm, k', hk'⟩ := ih hm
      refine ⟨by omega, k', ?_⟩
      rwa [List.drop_drop, show k + (m - (p + k)) = m - p by omega] at hk'

/-- Offset `n` is come to, so that the output there is put out, or lies inside an earlier output. -/
theorem placed_or_straddled (hskip : ∀ {q k}, sc.step q = some (none, k) → k = 1) {p n : ℕ} {b : β} (hpn : p ≤ n)
    (hgo : ∀ i < n - p, sc.step (q.drop i) ≠ none) (hn : sc.step (q.drop (n - p)) = some (some b, k)) :
    (n, b) ∈ placed p (sc.decisions.run q).1 ∨
      ∃ m b' k', m < n ∧ n < m + k' ∧ (m, b') ∈ placed p (sc.decisions.run q).1 ∧
        sc.step (q.drop (m - p)) = some (some b', k') := by
  induction q using run.induct sc generalizing p with
  | case1 q h =>
    rcases Nat.eq_or_lt_of_le hpn with rfl | hlt
    · rw [Nat.sub_self, List.drop_zero, h] at hn
      cases hn
    · exact absurd h (hgo 0 (by omega))
  | case2 q o j h _ _ _ ih =>
    rw [sc.decisions_step h, placed]
    rcases Nat.eq_or_lt_of_le hpn with rfl | hlt
    · rw [Nat.sub_self, List.drop_zero, h] at hn
      cases hn
      exact .inl (by simp)
    · by_cases hj : p + j ≤ n
      · have hdrop : ∀ i, (q.drop j).drop (i - (p + j)) = q.drop (j + (i - (p + j))) := fun i => List.drop_drop
        rcases ih hj (fun i hi => by rw [List.drop_drop]; exact hgo (j + i) (by omega))
          (by rw [hdrop, show j + (n - (p + j)) = n - p by omega]; exact hn) with hb | ⟨m, b', k', hmn, hnk, hb, hstep⟩
        · exact .inl (List.mem_append_right _ hb)
        · have hpm := (sc.mem_placed hb).1
          rw [hdrop, show j + (m - (p + j)) = m - p by omega] at hstep
          exact .inr ⟨m, b', k', hmn, hnk, List.mem_append_right _ hb, hstep⟩
      · -- more than one element goes, so the decision has an output, and it reaches past `n`
        cases o with
        | none =>
          have := hskip h
          omega
        | some b' =>
          refine .inr ⟨p, b', j, hlt, by omega, List.mem_append_left _ (by simp), ?_⟩
          rw [Nat.sub_self, List.drop_zero, h]

end Scanner
