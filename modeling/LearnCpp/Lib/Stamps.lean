import LearnCpp.Lib.Lts
import Mathlib.Data.Prod.Lex
import Mathlib.Order.Lattice
import Mathlib.Tactic.Linarith
import Mathlib.Algebra.Order.Ring.Int

/-!
# Stamps from a clock

A stamp is `g` times what the clock reads and a number that is added to tell equal readings apart, `m` at most; a
reading that would need more is passed over. The clock may go back, and the stamps after that are of the next epoch.

In the order of epochs no stamp is before the one it follows (`step_le`). If `m < g` they are all distinct; if `m = g`
one comes twice exactly where a reading taken more than `m` times is followed by the next one (`nodup_iff`).
-/

namespace Stamps

structure State where
  epoch : ℕ
  last : ℤ
  extra : ℕ
deriving DecidableEq, Repr

/-- `none` for a reading that is passed over. -/
def step (m : ℕ) (s : State) (t : ℤ) : Option State :=
  if t < s.last then some ⟨s.epoch + 1, t, 0⟩
  else if t = s.last then if m ≤ s.extra then none else some ⟨s.epoch, t, s.extra + 1⟩
  else some ⟨s.epoch, t, 0⟩

def stamp (g : ℕ) (s : State) : ℕ ×ₗ ℤ := toLex (s.epoch, g * s.last + s.extra)

/-- The stamps of the readings after those that led to `s`. -/
def stamps (g m : ℕ) : State → List ℤ → List (ℕ ×ₗ ℤ)
  | _, [] => []
  | s, t :: ts => match step m s t with
    | none => stamps g m s ts
    | some s' => stamp g s' :: stamps g m s' ts

def first (t : ℤ) : State := ⟨0, t, 0⟩

/-- The stamps of all readings. -/
def ofReadings (g m : ℕ) : List ℤ → List (ℕ ×ₗ ℤ)
  | [] => []
  | t :: ts => stamp g (first t) :: stamps g m (first t) ts

/-- How often the clock goes back. -/
def descents : List ℤ → ℕ
  | t :: u :: ts => (if u < t then 1 else 0) + descents (u :: ts)
  | _ => 0

variable {g m : ℕ} {s s' : State} {t : ℤ} {ts : List ℤ}

def next (m : ℕ) (s : State) (t : ℤ) : State := (step m s t).getD s

/-! ### One step -/

theorem step_extra (hs : s.extra ≤ m) (h : step m s t = some s') : s'.extra ≤ m ∧ s'.last = t := by
  grind [step]

theorem step_none (h : step m s t = none) : t = s.last ∧ m ≤ s.extra := by
  grind [step]

theorem step_le (hg : 0 < g) (hm : m ≤ g) (hs : s.extra ≤ m) (h : step m s t = some s') :
    stamp g s ≤ stamp g s' ∧ (stamp g s = stamp g s' ↔ m = g ∧ s.extra = m ∧ t = s.last + 1) := by
  have hcast : (s.extra : ℤ) ≤ g := by exact_mod_cast hs.trans hm
  have hpos : (0 : ℤ) < g := by exact_mod_cast hg
  simp only [stamp, Prod.Lex.toLex_le_toLex, EmbeddingLike.apply_eq_iff_eq, Prod.mk.injEq]
  unfold step at h
  split at h
  next hback =>
    cases h
    refine ⟨.inl (Nat.lt_succ_self _), iff_of_false (fun h => absurd h.1 (by simp)) (by omega)⟩
  next hback =>
    split at h
    next hsame =>
      split at h
      next => cases h
      next hroom =>
        cases h
        subst hsame
        simp only [lt_self_iff_false, true_and, false_or, Nat.cast_add, Nat.cast_one]
        exact ⟨by omega, iff_of_false (by omega) (by omega)⟩
    next hsame =>
      cases h
      have hstep : g * (s.last + 1) ≤ g * t := mul_le_mul_of_nonneg_left (by omega) hpos.le
      have hexact : g * (s.last + 1) = g * t ↔ s.last + 1 = t := mul_right_inj' hpos.ne'
      rw [mul_add, mul_one] at hstep hexact
      simp only [lt_self_iff_false, true_and, false_or, Nat.cast_zero, add_zero]
      refine ⟨by omega, ⟨fun h => ?_, ?_⟩⟩
      · have hfull : (s.extra : ℤ) = g := by omega
        have heq : s.extra = g := by exact_mod_cast hfull
        exact ⟨by omega, by omega, (hexact.1 (by omega)).symm⟩
      · rintro ⟨rfl, hfull, rfl⟩
        rw [hfull, mul_add, mul_one]

/-! ### A run -/

/-- The stamp that comes next is the one before again. -/
def Repeats (g m : ℕ) (s : State) (t : ℤ) : Prop := m = g ∧ s.extra = m ∧ t = s.last + 1

theorem next_extra (hs : s.extra ≤ m) : (next m s t).extra ≤ m ∧ (next m s t).last = t := by
  unfold next
  cases h : step m s t with
  | none => exact ⟨hs, (step_none h).1.symm⟩
  | some s' => exact step_extra hs h

theorem stamp_le_stamps (hg : 0 < g) (hm : m ≤ g) (hs : s.extra ≤ m) : ∀ x ∈ stamps g m s ts, stamp g s ≤ x := by
  induction ts generalizing s with
  | nil => intro x hx; cases hx
  | cons t ts ih =>
    rw [stamps]
    cases h : step m s t with
    | none => exact ih hs
    | some s' =>
      have hle := (step_le hg hm hs h).1
      have hrest := ih (step_extra hs h).1
      rintro x (_ | ⟨_, hx⟩)
      · exact hle
      · exact hle.trans (hrest x hx)

theorem nodup_stamps_iff (hg : 0 < g) (hm : m ≤ g) (hs : s.extra ≤ m) :
    (stamp g s :: stamps g m s ts).Nodup ↔ Lts.StepsOk (Lts.ofFun (next m)) (fun s t => ¬ Repeats g m s t) s ts := by
  induction ts generalizing s with
  | nil => simp [stamps, Lts.stepsOk_nil]
  | cons t ts ih =>
    rw [Lts.stepsOk_ofFun_cons, stamps, ← ih (next_extra hs).1]
    unfold next
    cases h : step m s t with
    | none =>
      have hno : ¬ Repeats g m s t := by
        have hlast := (step_none h).1
        rintro ⟨-, -, ht⟩
        omega
      simp [hno]
    | some s' =>
      obtain ⟨hle, heq⟩ := step_le hg hm hs h
      have hrest : ∀ x ∈ stamps g m s' ts, stamp g s' ≤ x := stamp_le_stamps hg hm (step_extra hs h).1
      have hfirst : stamp g s ∉ stamp g s' :: stamps g m s' ts ↔ ¬ Repeats g m s t := by
        rw [Repeats, ← heq, List.mem_cons, not_or, and_iff_left_iff_imp]
        exact fun hne hmem => hne (hle.antisymm (hrest _ hmem))
      rw [Option.getD_some, List.nodup_cons, hfirst]

/-! ### What the readings say -/

/-- The readings so far, the newest first, end in as many equal ones as the state says. -/
structure Tail (m : ℕ) (s : State) (seen : List ℤ) : Prop where
  extra : s.extra ≤ m
  runs : ∀ k ≤ m, List.replicate (k + 1) s.last <+: seen ↔ k ≤ s.extra

theorem Tail.head {seen : List ℤ} (h : Tail m s seen) : ∃ seen', seen = s.last :: seen' := by
  obtain ⟨seen', rfl⟩ := (h.runs 0 (Nat.zero_le m)).2 (Nat.zero_le _)
  exact ⟨seen', rfl⟩

theorem replicate_prefix_cons {α : Type*} {a b : α} {k : ℕ} {l : List α} :
    List.replicate (k + 1) a <+: b :: l ↔ a = b ∧ List.replicate k a <+: l := by
  rw [List.replicate_succ, List.cons_prefix_cons]

theorem Tail.first (t : ℤ) : Tail m (first t) [t] := by
  refine ⟨Nat.zero_le m, fun k _ => ?_⟩
  rw [replicate_prefix_cons, List.prefix_nil, List.replicate_eq_nil_iff]
  exact ⟨fun h => h.2.le, fun h => ⟨rfl, Nat.le_zero.1 h⟩⟩

theorem Tail.next {seen : List ℤ} (h : Tail m s seen) (t : ℤ) : Tail m (next m s t) (t :: seen) := by
  obtain ⟨hextra, hlast⟩ := next_extra (t := t) h.extra
  refine ⟨hextra, fun k hk => ?_⟩
  rw [hlast, replicate_prefix_cons, and_iff_right rfl]
  cases k with
  | zero => simp
  | succ k =>
    by_cases hsame : t = s.last
    · have hcount : (Stamps.next m s t).extra = if m ≤ s.extra then s.extra else s.extra + 1 := by
        grind [Stamps.next, step]
      rw [hsame, h.runs k (by omega), ← hsame, hcount]
      have hle := h.extra
      split <;> omega
    · obtain ⟨seen', rfl⟩ := h.head
      have hcount : (Stamps.next m s t).extra = 0 := by
        grind [Stamps.next, step]
      rw [hcount, replicate_prefix_cons]
      simp [hsame]

theorem Tail.run {seen : List ℤ} (h : Tail m s seen) (ts : List ℤ) :
    Tail m (ts.foldl (Stamps.next m) s) (ts.reverse ++ seen) := by
  induction ts generalizing s seen with
  | nil => exact h
  | cons t ts ih =>
    rw [List.reverse_cons, List.append_assoc]
    exact ih (h.next t)

/-- What a step must not be, told from the readings: after `k + 1` equal ones. -/
theorem stepsOk_iff {k : ℕ} (hk : k ≤ m) (c t₀ : ℤ) (ts : List ℤ) :
    Lts.StepsOk (Lts.ofFun (next m)) (fun s t => ¬ (k ≤ s.extra ∧ t = s.last + c)) (first t₀) ts ↔
      ∀ t, ¬ List.replicate (k + 1) t ++ [t + c] <:+: t₀ :: ts := by
  have htail : ∀ pre, Tail m (pre.foldl (next m) (first t₀)) (t₀ :: pre).reverse := fun pre => by
    rw [List.reverse_cons]
    exact (Tail.first t₀).run pre
  constructor
  · rintro h t ⟨a, b, hab⟩
    obtain ⟨pre, hpre⟩ : ∃ pre, a ++ List.replicate (k + 1) t = t₀ :: pre := by
      cases a with
      | nil =>
        rw [List.nil_append, List.append_assoc, List.replicate_succ, List.cons_append, List.cons.injEq] at hab
        exact ⟨_, by rw [List.nil_append, List.replicate_succ, hab.1]⟩
      | cons x a =>
        rw [List.cons_append, List.cons_append, List.cons.injEq] at hab
        exact ⟨_, by rw [List.cons_append, hab.1]⟩
    have hts : t₀ :: (pre ++ [t + c] ++ b) = t₀ :: ts := by
      rw [← hab, ← List.append_assoc a, hpre]
      simp
    have hpre' := htail pre
    have hrev : (t₀ :: pre).reverse = List.replicate (k + 1) t ++ a.reverse := by
      rw [← hpre, List.reverse_append, List.reverse_replicate]
    rw [hrev] at hpre'
    have hlast : t = (pre.foldl (next m) (first t₀)).last := by
      obtain ⟨seen', hseen⟩ := hpre'.head
      rw [List.replicate_succ, List.cons_append, List.cons.injEq] at hseen
      exact hseen.1
    have hcount := (hpre'.runs k hk).1 (by rw [← hlast]; exact List.prefix_append _ _)
    exact h pre (t + c) _ ⟨b, (List.cons.inj hts).2⟩ (Lts.run_ofFun.2 rfl) ⟨hcount, by rw [← hlast]⟩
  · rintro h pre t s' ⟨b, rfl⟩ hrun ⟨hextra, rfl⟩
    have hpre' := htail pre
    rw [Lts.run_ofFun.1 hrun] at hpre'
    obtain ⟨rest, hrest⟩ := (hpre'.runs k hk).2 hextra
    have hread : t₀ :: pre = rest.reverse ++ List.replicate (k + 1) s'.last := by
      rw [← List.reverse_reverse (t₀ :: pre), ← hrest, List.reverse_append, List.reverse_replicate]
    refine h s'.last ⟨rest.reverse, b, ?_⟩
    rw [← List.append_assoc, ← hread]
    simp

variable (g) in
/-- With room for one stamp too many, one comes twice where the clock then moves by one. -/
theorem nodup_iff (hg : 0 < g) (ts : List ℤ) :
    (ofReadings g g ts).Nodup ↔ ∀ t, ¬ List.replicate (g + 1) t ++ [t + 1] <:+: ts := by
  cases ts with
  | nil => simp [ofReadings]
  | cons t₀ ts =>
    rw [ofReadings, nodup_stamps_iff hg le_rfl (Nat.zero_le g), ← stepsOk_iff le_rfl]
    refine Lts.stepsOk_congr (fun s => s.extra ≤ g) (fun _ => True) ?_ ?_ (fun _ _ => trivial) (Nat.zero_le g)
    · rintro s t s' - hs rfl -
      exact (next_extra hs).1
    · intro s t _ hs
      rw [Repeats]
      have hiff : s.extra = g ↔ g ≤ s.extra := ⟨fun h => h.ge, fun h => hs.antisymm h⟩
      rw [hiff]
      simp

/-! ### The readings from the stamps -/

def reading (g : ℕ) (x : ℕ ×ₗ ℤ) : ℤ := (ofLex x).2 / g

theorem reading_stamp (hg : 0 < g) (hs : s.extra ≤ g) : reading g (stamp g s) = s.last ↔ s.extra < g := by
  have hpos : (0 : ℤ) < g := by exact_mod_cast hg
  have hdiv : reading g (stamp g s) = s.last + (s.extra / g : ℕ) := by
    rw [reading, stamp, ofLex_toLex, Int.add_comm, Int.add_mul_ediv_left _ _ hpos.ne', Int.add_comm]
    rfl
  rw [hdiv, add_eq_left, Nat.cast_eq_zero, Nat.div_eq_zero_iff]
  omega

theorem length_stamps_le : (stamps g m s ts).length ≤ ts.length := by
  induction ts generalizing s with
  | nil => exact Nat.zero_le 0
  | cons t ts ih =>
    rw [stamps]
    cases step m s t with
    | none => exact ih.trans (Nat.le_succ _)
    | some s' => exact Nat.succ_le_succ ih

theorem readings_stamps_iff (hg : 0 < g) (hs : s.extra ≤ g) : (stamps g g s ts).map (reading g) = ts ↔
    Lts.StepsOk (Lts.ofFun (next g)) (fun s t => ¬ (g - 1 ≤ s.extra ∧ t = s.last + 0)) s ts := by
  induction ts generalizing s with
  | nil => simp [stamps, Lts.stepsOk_nil]
  | cons t ts ih =>
    rw [Lts.stepsOk_ofFun_cons, stamps, ← ih (next_extra hs).1]
    unfold next
    cases h : step g s t with
    | none =>
      obtain ⟨rfl, hfull⟩ := step_none h
      have hlen : (stamps g g s ts).length ≤ ts.length := length_stamps_le
      refine iff_of_false (fun heq => ?_) (fun hok => hok.1 ⟨by omega, by omega⟩)
      have hlength : ((stamps g g s ts).map (reading g)).length = ts.length + 1 := congrArg List.length heq
      rw [List.length_map] at hlength
      omega
    | some s' =>
      obtain ⟨hextra, hlast⟩ := step_extra hs h
      have hread := reading_stamp hg hextra
      rw [hlast] at hread
      rw [List.map_cons, List.cons.injEq, hread, Option.getD_some]
      refine and_congr_left fun _ => ?_
      grind [step]

variable (g) in
/-- All readings come back, each from its stamp, if none is taken more than `g` times in a row. -/
theorem readings_iff (hg : 0 < g) (ts : List ℤ) :
    (ofReadings g g ts).map (reading g) = ts ↔ ∀ t, ¬ List.replicate (g + 1) t <:+: ts := by
  cases ts with
  | nil => simp [ofReadings]
  | cons t₀ ts =>
    have hfirst : reading g (stamp g (first t₀)) = t₀ := (reading_stamp hg (Nat.zero_le g)).2 hg
    have hrun := stepsOk_iff (m := g) (k := g - 1) (Nat.sub_le g 1) 0 t₀ ts
    rw [ofReadings, List.map_cons, List.cons.injEq, and_iff_right hfirst, readings_stamps_iff hg (Nat.zero_le g), hrun]
    refine forall_congr' fun t => ?_
    rw [add_zero, ← List.replicate_succ', Nat.sub_add_cancel hg]

/-! ### Where the stamps lie -/

theorem next_epoch : (next m s t).epoch + descents (t :: ts) ≤ s.epoch + descents (s.last :: t :: ts) := by
  unfold next
  rw [descents]
  cases h : step m s t with
  | none => simp
  | some s' =>
    rw [Option.getD_some]
    grind [step]

theorem mem_stamps (hs : s.extra ≤ m) {x : ℕ ×ₗ ℤ} (hx : x ∈ stamps g m s ts) :
    (ofLex x).1 ≤ s.epoch + descents (s.last :: ts) ∧ ∃ t ∈ ts, g * t ≤ (ofLex x).2 ∧ (ofLex x).2 ≤ g * t + m := by
  induction ts generalizing s with
  | nil => cases hx
  | cons t ts ih =>
    obtain ⟨hextra, hlast⟩ := next_extra (t := t) hs
    have hepoch : (next m s t).epoch + descents (t :: ts) ≤ s.epoch + descents (s.last :: t :: ts) := next_epoch
    have htail : x ∈ stamps g m (next m s t) ts → (ofLex x).1 ≤ s.epoch + descents (s.last :: t :: ts) ∧
        ∃ u ∈ t :: ts, g * u ≤ (ofLex x).2 ∧ (ofLex x).2 ≤ g * u + m := by
      intro hx
      obtain ⟨hle, u, hu, hrange⟩ := ih hextra hx
      rw [hlast] at hle
      exact ⟨hle.trans hepoch, u, List.mem_cons_of_mem t hu, hrange⟩
    unfold next at htail hextra hlast hepoch
    rw [stamps] at hx
    cases h : step m s t with
    | none =>
      rw [h] at hx htail
      exact htail hx
    | some s' =>
      rw [h] at hx htail hextra hlast hepoch
      rcases List.mem_cons.1 hx with rfl | hx
      · refine ⟨?_, t, List.mem_cons_self, ?_⟩
        · exact (Nat.le_add_right _ _).trans hepoch
        · simp only [Option.getD_some] at hlast hextra
          simp only [stamp, ofLex_toLex, hlast]
          omega
      · exact htail hx

theorem mem_ofReadings {x : ℕ ×ₗ ℤ} (hx : x ∈ ofReadings g m ts) :
    (ofLex x).1 ≤ descents ts ∧ ∃ t ∈ ts, g * t ≤ (ofLex x).2 ∧ (ofLex x).2 ≤ g * t + m := by
  cases ts with
  | nil => cases hx
  | cons t ts =>
    rcases List.mem_cons.1 hx with rfl | hx
    · exact ⟨Nat.zero_le _, t, List.mem_cons_self, by simp [stamp, first]⟩
    · obtain ⟨hle, u, hu, hrange⟩ := mem_stamps (Nat.zero_le m) hx
      exact ⟨by simpa [first] using hle, u, List.mem_cons_of_mem t hu, hrange⟩

end Stamps
