import Mathlib.Data.List.Infix

/-!
# Labelled transition systems

`R s i s'`: the label `i` may take the state `s` to `s'`. `Run` chains transitions over a list of
labels, `Along P` says that `P` holds in every state of every run over a list of labels, `StepsOk ok`
that every step taken is one `ok` allows, judged on the state before it.

`along_iff_stepsOk` is the rule for exact conditions: if `Good` states satisfy `P`, steps allowed by
`ok` keep `Good`, and a step `ok` forbids leads from a `Good` state out of `P` at once, then a run
stays in `P` exactly when all its steps are allowed. `L` restricts the labels. `protocol` is the rule for runs of
which a smaller machine says whether they are allowed, `lockstep` the one for machines with outputs that answer like
an abstract one.
-/

namespace Lts

variable {σ τ ι ω ε : Type*}

inductive Run (R : σ → ι → σ → Prop) : σ → List ι → σ → Prop
  | nil (s : σ) : Run R s [] s
  | cons {s s' s'' : σ} {i : ι} {is : List ι} (h : R s i s') (hs : Run R s' is s'') :
      Run R s (i :: is) s''

/-- `P` holds in every state of every run over `is` from `s`, the first and the last included. -/
def Along (R : σ → ι → σ → Prop) (P : σ → Prop) (s : σ) (is : List ι) : Prop :=
  ∀ pre s', pre <+: is → Run R s pre s' → P s'

/-- Every step of every run over `is` from `s` is allowed by `ok` in the state before it. -/
def StepsOk (R : σ → ι → σ → Prop) (ok : σ → ι → Prop) (s : σ) (is : List ι) : Prop :=
  ∀ pre i s', pre ++ [i] <+: is → Run R s pre s' → ok s' i

def ofFun (f : σ → ι → σ) : σ → ι → σ → Prop := fun s i s' => f s i = s'

/-- The transitions of a machine that answers every label with an output or fails. -/
def ofMealy (f : σ → ι → Except ε (ω × σ)) : σ → ι → σ → Prop := fun s i s' => ∃ o, f s i = .ok (o, s')

section
variable {R : σ → ι → σ → Prop} {P Good : σ → Prop} {ok ok' : σ → ι → Prop} {s s' : σ} {i : ι}
  {L : ι → Prop} {is : List ι}

theorem run_nil : Run R s [] s' ↔ s = s' :=
  ⟨fun h => by cases h; rfl, fun h => h ▸ .nil s⟩

theorem run_cons : Run R s (i :: is) s' ↔ ∃ t, R s i t ∧ Run R t is s' :=
  ⟨fun h => by cases h with | cons h hs => exact ⟨_, h, hs⟩, fun ⟨_, h, hs⟩ => .cons h hs⟩

theorem run_ofFun {f : σ → ι → σ} : Run (ofFun f) s is s' ↔ is.foldl f s = s' := by
  induction is generalizing s with
  | nil => exact run_nil
  | cons i is ih => simp [run_cons, ofFun, ih]

theorem along_nil : Along R P s [] ↔ P s := by
  constructor
  · intro h
    exact h [] s List.prefix_rfl (.nil s)
  · intro h pre s' hpre hr
    rw [List.prefix_nil.1 hpre] at hr
    rwa [← run_nil.1 hr]

theorem along_cons : Along R P s (i :: is) ↔ P s ∧ ∀ t, R s i t → Along R P t is := by
  constructor
  · intro h
    refine ⟨h [] s List.nil_prefix (.nil s), fun t ht pre s' hpre hr => ?_⟩
    exact h (i :: pre) s' ((List.prefix_cons_inj i).2 hpre) (.cons ht hr)
  · rintro ⟨h0, h⟩ pre s' hpre hr
    rcases List.prefix_cons_iff.1 hpre with rfl | ⟨pre, rfl, hpre'⟩
    · rwa [← run_nil.1 hr]
    · obtain ⟨t, ht, hr⟩ := run_cons.1 hr
      exact h t ht pre s' hpre' hr

theorem stepsOk_nil : StepsOk R ok s [] := by
  intro pre i s' hpre
  simp at hpre

theorem stepsOk_cons : StepsOk R ok s (i :: is) ↔ ok s i ∧ ∀ t, R s i t → StepsOk R ok t is := by
  constructor
  · intro h
    refine ⟨h [] i s (by simp) (.nil s), fun t ht pre j s' hpre hr => ?_⟩
    exact h (i :: pre) j s' ((List.prefix_cons_inj i).2 hpre) (.cons ht hr)
  · rintro ⟨h0, h⟩ pre j s' hpre hr
    cases pre with
    | nil =>
      obtain ⟨rfl, -⟩ : j = i ∧ [] <+: is := by simpa using hpre
      rwa [← run_nil.1 hr]
    | cons k pre =>
      obtain ⟨rfl, hpre'⟩ := List.cons_prefix_cons.1 hpre
      obtain ⟨t, ht, hr⟩ := run_cons.1 hr
      exact h t ht pre j s' hpre' hr

theorem stepsOk_ofFun_cons {f : σ → ι → σ} :
    StepsOk (ofFun f) ok s (i :: is) ↔ ok s i ∧ StepsOk (ofFun f) ok (f s i) is := by
  rw [stepsOk_cons]
  exact and_congr_right fun _ => ⟨fun h => h _ rfl, fun h t ht => ht ▸ h⟩

variable (Good L) in
/-- Two conditions on steps that agree in `Good` states, which allowed steps keep, agree on runs. -/
theorem stepsOk_congr (hok : ∀ s i s', L i → Good s → R s i s' → ok s i → Good s')
    (h : ∀ s i, L i → Good s → (ok' s i ↔ ok s i)) (hL : ∀ i ∈ is, L i) (hs : Good s) :
    StepsOk R ok' s is ↔ StepsOk R ok s is := by
  induction is generalizing s with
  | nil => exact ⟨fun _ => stepsOk_nil, fun _ => stepsOk_nil⟩
  | cons i is ih =>
    have hi : L i := hL i (by simp)
    rw [stepsOk_cons, stepsOk_cons, h s i hi hs]
    exact and_congr_right fun hk => forall₂_congr fun t ht =>
      ih (fun j hj => hL j (by simp [hj])) (hok s i t hi hs ht hk)

theorem along_iff_after :
    Along R P s is ↔ P s ∧ StepsOk R (fun s i => ∀ s', R s i s' → P s') s is := by
  induction is generalizing s with
  | nil => simp [along_nil, stepsOk_nil]
  | cons i is ih =>
    rw [along_cons, stepsOk_cons]
    refine and_congr_right fun _ => ⟨fun h => ⟨fun t ht => ((ih).1 (h t ht)).1, fun t ht => ((ih).1 (h t ht)).2⟩,
      fun h t ht => (ih).2 ⟨h.1 t ht, h.2 t ht⟩⟩

variable (Good L) in
/-- The rule for exact conditions: a forbidden step leaves `P` at once. -/
theorem along_iff_stepsOk (hP : ∀ s, Good s → P s)
    (hok : ∀ s i s', L i → Good s → R s i s' → ok s i → Good s')
    (hbad : ∀ s i, L i → Good s → ¬ ok s i → ∃ s', R s i s' ∧ ¬ P s') (hL : ∀ i ∈ is, L i) (hs : Good s) :
    Along R P s is ↔ StepsOk R ok s is := by
  rw [along_iff_after, and_iff_right (hP s hs)]
  refine stepsOk_congr Good L hok (fun s i hi hs => ⟨?_, ?_⟩) hL hs
  · intro h
    by_contra hk
    obtain ⟨t, ht, hPt⟩ := hbad s i hi hs hk
    exact hPt (h t ht)
  · intro hk t ht
    exact hP t (hok s i t hi hs ht hk)

end

/-! ### Protocols

A protocol says which labels may come next: a machine of its own that has no answer to the others. -/

/-- The state is related to where the protocol is, or is `Bad` when the protocol had no answer. -/
def Tracked (Rel : σ → τ → Prop) (Bad : σ → Prop) (s : σ) : Option τ → Prop
  | some t => Rel s t
  | none => Bad s

/-- A run the protocol allows stays related to it; one it does not allow ends in `Bad`, which every step keeps. -/
theorem protocol {f : σ → ι → σ} {g : τ → ι → Option τ} {Rel : σ → τ → Prop} {Bad : σ → Prop}
    (h : ∀ s t i, Rel s t → Tracked Rel Bad (f s i) (g t i)) (hbad : ∀ s i, Bad s → Bad (f s i)) {s : σ} {t : τ}
    (hst : Rel s t) (is : List ι) : Tracked Rel Bad (is.foldl f s) (is.foldlM g t) := by
  induction is generalizing s t with
  | nil => exact hst
  | cons i is ih =>
    have hstep := h s t i hst
    rw [List.foldlM_cons, List.foldl_cons]
    cases hg : g t i with
    | none =>
      rw [hg] at hstep
      exact List.foldlRecOn (motive := Bad) is f hstep fun s hs i _ => hbad s i hs
    | some t₁ =>
      rw [hg] at hstep
      exact ih hstep

/-! ### Machines with outputs -/

/-- The outputs of a whole run and the state it ends in; the first failure ends it. -/
def runMealy (f : σ → ι → Except ε (ω × σ)) : σ → List ι → Except ε (List ω × σ)
  | s, [] => .ok ([], s)
  | s, i :: is => do
    let (o, s) ← f s i
    let (os, s) ← runMealy f s is
    return (o :: os, s)

theorem runMealy_cons {f : σ → ι → Except ε (ω × σ)} {s s'' : σ} {i : ι} {is : List ι} {os : List ω} :
    runMealy f s (i :: is) = .ok (os, s'') ↔
      ∃ o s' os', f s i = .ok (o, s') ∧ runMealy f s' is = .ok (os', s'') ∧ os = o :: os' := by
  constructor
  · intro h
    rw [runMealy] at h
    cases hstep : f s i with
    | error e =>
      rw [hstep] at h
      cases h
    | ok r =>
      rw [hstep] at h
      simp only [bind, Except.bind] at h
      cases hrest : runMealy f r.2 is with
      | error e =>
        rw [hrest] at h
        cases h
      | ok r' =>
        rw [hrest] at h
        cases h
        exact ⟨r.1, r.2, r'.1, rfl, hrest, rfl⟩
  · rintro ⟨o, s', os', hstep, hrest, rfl⟩
    simp only [runMealy, hstep, bind, Except.bind, hrest]
    rfl

/-- What every step over labels in `L` keeps holds at the end of a run. -/
theorem runMealy_inv {f : σ → ι → Except ε (ω × σ)} (I : σ → Prop) (L : ι → Prop)
    (h : ∀ {s i o s'}, L i → I s → f s i = .ok (o, s') → I s') {is : List ι} (his : ∀ i ∈ is, L i) {s s' : σ}
    {os : List ω} (hs : I s) (hrun : runMealy f s is = .ok (os, s')) : I s' := by
  induction is generalizing s os with
  | nil =>
    cases hrun
    exact hs
  | cons i is ih =>
    obtain ⟨o, t, os', hstep, hrest, rfl⟩ := runMealy_cons.1 hrun
    exact ih (fun j hj => his j (by simp [hj])) (h (his i (by simp)) hs hstep) hrest

/-- A machine that answers every label in `L` in a state of `I`, and stays in `I`, answers every run. -/
theorem runMealy_ok {f : σ → ι → Except ε (ω × σ)} (I : σ → Prop) (L : ι → Prop)
    (h : ∀ {s i}, L i → I s → ∃ o s', f s i = .ok (o, s') ∧ I s') {is : List ι} (his : ∀ i ∈ is, L i) {s : σ}
    (hs : I s) : ∃ os s', runMealy f s is = .ok (os, s') ∧ I s' := by
  induction is generalizing s with
  | nil => exact ⟨[], s, rfl, hs⟩
  | cons i is ih =>
    obtain ⟨o, t, hstep, ht⟩ := h (his i (by simp)) hs
    obtain ⟨os, s', hrun, hs'⟩ := ih (fun j hj => his j (by simp [hj])) ht
    exact ⟨o :: os, s', runMealy_cons.2 ⟨o, t, os, hstep, hrun, rfl⟩, hs'⟩

theorem runMealy_append {f : σ → ι → Except ε (ω × σ)} {s s' s'' : σ} {is js : List ι} {os os' : List ω}
    (h : runMealy f s is = .ok (os, s')) (h' : runMealy f s' js = .ok (os', s'')) :
    runMealy f s (is ++ js) = .ok (os ++ os', s'') := by
  induction is generalizing s os with
  | nil =>
    cases h
    exact h'
  | cons i is ih =>
    obtain ⟨o, t, os₁, hstep, hrest, rfl⟩ := runMealy_cons.1 h
    exact runMealy_cons.2 ⟨o, t, os₁ ++ os', hstep, ih hrest, rfl⟩

/-- A machine that answers or fails on allowed labels as its image under `abs` does, and stays in `I`, answers or fails
on a run of allowed labels as its image does. -/
theorem runMealy_map {f : σ → ι → Except ε (ω × σ)} {g : τ → ι → Except ε (ω × τ)} (abs : σ → τ) (I : σ → Prop)
    {ok : σ → ι → Prop} (h : ∀ s i, I s → ok s i → (f s i).map (Prod.map id abs) = g (abs s) i ∧
      ∀ o s', f s i = .ok (o, s') → I s') {is : List ι} {s : σ} (hs : I s) (hok : StepsOk (ofMealy f) ok s is) :
    (runMealy f s is).map (Prod.map id abs) = runMealy g (abs s) is ∧
      ∀ os s', runMealy f s is = .ok (os, s') → I s' := by
  induction is generalizing s with
  | nil =>
    refine ⟨rfl, fun os s' hrun => ?_⟩
    cases hrun
    exact hs
  | cons i is ih =>
    obtain ⟨hi, hrest⟩ := stepsOk_cons.1 hok
    obtain ⟨hmap, hkeep⟩ := h s i hs hi
    constructor
    · rw [runMealy, runMealy, ← hmap]
      cases hstep : f s i with
      | error e => rfl
      | ok r =>
        have hrun := (ih (hkeep r.1 r.2 hstep) (hrest r.2 ⟨r.1, hstep⟩)).1
        simp only [Except.map, Prod.map, bind, Except.bind, ← hrun]
        cases runMealy f r.2 is <;> rfl
    · intro os s' hrun
      obtain ⟨o, t, os', hstep, hrun', -⟩ := runMealy_cons.1 hrun
      exact (ih (hkeep o t hstep) (hrest t ⟨o, hstep⟩)).2 os' s' hrun'

def runTotal (g : τ → ι → ω × τ) : τ → List ι → List ω × τ
  | t, [] => ([], t)
  | t, i :: is =>
    let (o, t) := g t i
    let (os, t) := runTotal g t is
    (o :: os, t)

theorem runTotal_append (g : τ → ι → ω × τ) (t : τ) (is js : List ι) :
    runTotal g t (is ++ js) =
      ((runTotal g t is).1 ++ (runTotal g (runTotal g t is).2 js).1, (runTotal g (runTotal g t is).2 js).2) := by
  induction is generalizing t with
  | nil => rfl
  | cons i is ih => simp only [List.cons_append, runTotal, ih]

theorem length_runTotal (g : τ → ι → ω × τ) (t : τ) (is : List ι) : (runTotal g t is).1.length = is.length := by
  induction is generalizing t with
  | nil => rfl
  | cons i is ih => simp only [runTotal, List.length_cons, ih]

theorem runTotal_getElem (g : τ → ι → ω × τ) (t : τ) (is : List ι) (i : ι) (js : List ι) :
    (runTotal g t (is ++ i :: js)).1[is.length]? = some (g (runTotal g t is).2 i).1 := by
  rw [runTotal_append, List.getElem?_append_right (Nat.le_of_eq (length_runTotal g t is)), length_runTotal,
    Nat.sub_self]
  rfl

theorem runTotal_inv {g : τ → ι → ω × τ} {I : τ → Prop} (L : ι → Prop) (h : ∀ {t i}, L i → I t → I (g t i).2)
    {is : List ι} (his : ∀ i ∈ is, L i) {t : τ} (ht : I t) : I (runTotal g t is).2 := by
  induction is generalizing t with
  | nil => exact ht
  | cons i is ih => exact ih (fun j hj => his j (by simp [hj])) (h (his i (by simp)) ht)

/-- A machine that answers each label as an abstract one does, in related states, answers every run
as the abstract one does and never fails. -/
theorem lockstep {f : σ → ι → Except ε (ω × σ)} {g : τ → ι → ω × τ} (Sim : σ → τ → Prop)
    (ok : ι → Prop) (h : ∀ s t i, ok i → Sim s t →
      ∃ s', f s i = .ok ((g t i).1, s') ∧ Sim s' (g t i).2)
    {is : List ι} (his : ∀ i ∈ is, ok i) {s : σ} {t : τ} (hst : Sim s t) :
    ∃ s', runMealy f s is = .ok ((runTotal g t is).1, s') ∧ Sim s' (runTotal g t is).2 := by
  induction is generalizing s t with
  | nil => exact ⟨s, rfl, hst⟩
  | cons i is ih =>
    obtain ⟨s₁, h₁, hs₁⟩ := h s t i (his i (by simp)) hst
    obtain ⟨s₂, h₂, hs₂⟩ := ih (fun j hj => his j (by simp [hj])) hs₁
    exact ⟨s₂, runMealy_cons.2 ⟨_, s₁, _, h₁, h₂, rfl⟩, hs₂⟩

end Lts
