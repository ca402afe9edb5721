import Mathlib.Algebra.BigOperators.Group.List.Basic

/-!
# Loops that read tagged fields

A loop reads a tag, lets the field behind it change the state, and goes on with the rest until the input ends. What a
field does to a state is measured in a monoid: `R e s s'` says that `e` took `s` to `s'`. Where each field does the
same to every state, so does the loop (`uniform_loop`), and on the texts of fields it does their product
(`exists_loop_chunks`).
-/

namespace TagLoop

variable {β τ σ γ : Type*}

/-- A tag and the input behind it, the end of the input, or no tag. -/
inductive Tag (β τ : Type*)
  | tag (t : τ) (rest : List β)
  | done
  | bad
deriving DecidableEq, Repr

section loop

variable (readTag : List β → Tag β τ) (field : τ → List β → σ → Option (σ × List β))

/-- The state at the end, and whether the input was used up. The fuel bounds the number of fields. -/
def loop : ℕ → List β → σ → Option (σ × Bool)
  | 0, _, _ => none
  | n + 1, bs, s =>
    match readTag bs with
    | .done => some (s, true)
    | .bad => some (s, false)
    | .tag t rest => (field t rest s).bind fun p => loop n p.2 p.1

end loop

variable {readTag : List β → Tag β τ} {field : τ → List β → σ → Option (σ × List β)} {bs rest : List β} {t : τ}
  {s s' : σ} {n m : ℕ}

theorem loop_done (h : readTag bs = .done) : loop readTag field (n + 1) bs s = some (s, true) := by
  rw [loop, h]

theorem loop_tag (h : readTag bs = .tag t rest) : loop readTag field (n + 1) bs s =
    (field t rest s).bind fun p => loop readTag field n p.2 p.1 := by
  rw [loop, h]

/-- Fields that only move forward do not run out of fuel. -/
theorem loop_fuel (htag : ∀ {bs t rest}, readTag bs = .tag t rest → rest.length < bs.length)
    (hfield : ∀ {t bs s s' rest}, field t bs s = some (s', rest) → rest.length ≤ bs.length)
    (hn : bs.length < n) (hm : bs.length < m) : loop readTag field n bs s = loop readTag field m bs s := by
  induction n generalizing m bs s with
  | zero => exact absurd hn (Nat.not_lt_zero _)
  | succ n ih =>
    obtain ⟨m, rfl⟩ : ∃ k, m = k + 1 := ⟨m - 1, by omega⟩
    rcases hread : readTag bs with ⟨t, rest⟩ | _ | _
    · rw [loop_tag hread, loop_tag hread]
      have hlt := htag hread
      rcases hstep : field t rest s with _ | ⟨s', rest'⟩
      · rfl
      · have hle := hfield hstep
        exact ih (show rest'.length < n by omega) (show rest'.length < m by omega)
    · rw [loop, loop, hread]
    · rw [loop, loop, hread]

section defs

variable {M : Type*} (readTag : List β → Tag β τ) (field : τ → List β → σ → Option (σ × List β)) (R : M → σ → σ → Prop)

/-- On every state `f` fails, or on every state it returns the same and does the same. -/
def Uniform (f : σ → Option (σ × γ)) : Prop :=
  (∀ s, f s = none) ∨ ∃ c e, ∀ s, ∃ s', f s = some (s', c) ∧ R e s s'

/-- `chunk` is read as one field, which does `e`. -/
def Reads (chunk : List β) (e : M) : Prop :=
  ∀ s rest, ∃ t bs s', readTag (chunk ++ rest) = .tag t bs ∧ field t bs s = some (s', rest) ∧ R e s s'

end defs

variable {M : Type*} {R : M → σ → σ → Prop} {chunk : List β} {e : M} {cs : List (List β × M)}

theorem Reads.ne_nil (h : Reads readTag field R chunk e) (hnil : readTag [] = .done) (s : σ) : chunk ≠ [] := by
  rintro rfl
  obtain ⟨t, bs, s', hread, -⟩ := h s []
  rw [List.append_nil, hnil] at hread
  cases hread

theorem length_le_flatten {chunks : List (List β)} (h : ∀ c ∈ chunks, c ≠ []) :
    chunks.length ≤ chunks.flatten.length := by
  induction chunks with
  | nil => exact Nat.le_refl _
  | cons c cs ih =>
    have hc := List.length_pos_iff.2 (h c (by simp))
    have hcs := ih fun c hc => h c (by simp [hc])
    rw [List.length_cons, List.flatten_cons, List.length_append]
    omega

variable [Monoid M]

theorem uniform_loop (hone : ∀ s, R 1 s s) (hmul : ∀ {e e' s s' s''}, R e s s' → R e' s' s'' → R (e * e') s s'')
    (hfield : ∀ t rest, Uniform R (field t rest)) (n : ℕ) (bs : List β) :
    Uniform R (loop readTag field n bs) := by
  induction n generalizing bs with
  | zero => exact Or.inl fun s => rfl
  | succ n ih =>
    rcases hread : readTag bs with ⟨t, rest⟩ | _ | _
    · rcases hfield t rest with hnone | ⟨rest', e, hsome⟩
      · refine Or.inl fun s => ?_
        rw [loop_tag hread, hnone]
        rfl
      · rcases ih rest' with hnone | ⟨c, e', hloop⟩
        · refine Or.inl fun s => ?_
          obtain ⟨s', hs', -⟩ := hsome s
          rw [loop_tag hread, hs']
          exact hnone s'
        · refine Or.inr ⟨c, e * e', fun s => ?_⟩
          obtain ⟨s', hs', hR⟩ := hsome s
          obtain ⟨s'', hs'', hR'⟩ := hloop s'
          refine ⟨s'', ?_, hmul hR hR'⟩
          rw [loop_tag hread, hs']
          exact hs''
    · exact Or.inr ⟨true, 1, fun s => ⟨s, loop_done hread, hone s⟩⟩
    · refine Or.inr ⟨false, 1, fun s => ⟨s, ?_, hone s⟩⟩
      rw [loop, hread]

/-- The texts of fields, one after the other, do their product. -/
theorem exists_loop_chunks (hone : ∀ s, R 1 s s)
    (hmul : ∀ {e e' s s' s''}, R e s s' → R e' s' s'' → R (e * e') s s'') (hnil : readTag [] = .done)
    (hcs : ∀ c ∈ cs, Reads readTag field R c.1 c.2) (hn : cs.length < n) (s : σ) :
    ∃ s', loop readTag field n (cs.map Prod.fst).flatten s = some (s', true) ∧ R (cs.map Prod.snd).prod s s' := by
  induction cs generalizing n s with
  | nil =>
    obtain ⟨n, rfl⟩ : ∃ k, n = k + 1 := ⟨n - 1, by simp at hn; omega⟩
    exact ⟨s, loop_done hnil, hone s⟩
  | cons c cs ih =>
    obtain ⟨n, rfl⟩ : ∃ k, n = k + 1 := ⟨n - 1, by simp at hn; omega⟩
    obtain ⟨t, bs, s₁, hread, hfield, hR⟩ := hcs c (by simp) s (cs.map Prod.fst).flatten
    obtain ⟨s₂, hloop, hR'⟩ := ih (fun c hc => hcs c (by simp [hc])) (by simpa using hn) s₁
    refine ⟨s₂, ?_, ?_⟩
    · rw [List.map_cons, List.flatten_cons, loop_tag hread, hfield]
      exact hloop
    · rw [List.map_cons, List.prod_cons]
      exact hmul hR hR'

end TagLoop
