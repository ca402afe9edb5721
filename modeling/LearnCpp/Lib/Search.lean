import Mathlib.Data.List.Infix

/-!
# Substring search

`find sep s` is the first place where `sep` stands in `s`. `fields` cuts a text at the leftmost occurrences of a
separator, each searched from the end of the one before. `field` walks to one of them, and gives up at a separator
with nothing behind it; so it gets every field but an empty last one behind others (`field_eq`).
-/

namespace Search

variable {α : Type*} [DecidableEq α] {sep s : List α} {i : ℕ}

def find (sep : List α) : List α → Option ℕ
  | [] => if sep = [] then some 0 else none
  | a :: s => if sep <+: a :: s then some 0 else (find sep s).map (· + 1)

theorem find_eq_some (h : find sep s = some i) : sep <+: s.drop i ∧ i ≤ s.length ∧ ∀ j < i, ¬ sep <+: s.drop j := by
  induction s generalizing i with
  | nil =>
    rw [find] at h
    split_ifs at h with hsep
    cases h
    exact ⟨hsep ▸ List.nil_prefix, Nat.le_refl 0, fun j hj => absurd hj (Nat.not_lt_zero j)⟩
  | cons a s ih =>
    rw [find] at h
    split_ifs at h with hpre
    · cases h
      exact ⟨hpre, Nat.zero_le _, fun j hj => absurd hj (Nat.not_lt_zero j)⟩
    · obtain ⟨k, hk, rfl⟩ := Option.map_eq_some_iff.1 h
      obtain ⟨hat, hle, hfirst⟩ := ih hk
      refine ⟨hat, Nat.succ_le_succ hle, fun j hj => ?_⟩
      cases j with
      | zero => exact hpre
      | succ j => exact hfirst j (Nat.lt_of_succ_lt_succ hj)

theorem find_le (h : find sep s = some i) : i + sep.length ≤ s.length := by
  obtain ⟨hat, hle, -⟩ := find_eq_some h
  have hlen := hat.length_le
  rw [List.length_drop] at hlen
  omega

def fields (sep s : List α) : List (List α) :=
  match _h : find sep s with
  | none => [s]
  | some i => if _hsep : sep = [] then [s] else s.take i :: fields sep (s.drop (i + sep.length))
termination_by s.length
decreasing_by
  have hle := find_le _h
  have hpos := List.length_pos_iff.2 _hsep
  rw [List.length_drop]
  omega

theorem fields_none (h : find sep s = none) : fields sep s = [s] := by
  rw [fields]
  split
  · rfl
  · next hs => rw [h] at hs; cases hs

theorem fields_some (hsep : sep ≠ []) (h : find sep s = some i) :
    fields sep s = s.take i :: fields sep (s.drop (i + sep.length)) := by
  rw [fields]
  split
  · next hs => rw [h] at hs; cases hs
  · next hs =>
    rw [h] at hs
    cases hs
    rw [dif_neg hsep]

theorem fields_nil (hsep : sep ≠ []) : fields sep [] = [[]] := fields_none (by rw [find, if_neg hsep])

theorem fields_ne_nil (sep s : List α) : fields sep s ≠ [] := by
  rw [fields]
  split
  · exact List.cons_ne_nil _ _
  · split_ifs <;> exact List.cons_ne_nil _ _

/-- An only field that is empty is the whole text. -/
theorem eq_nil_of_fields (hsep : sep ≠ []) (h : fields sep s = [[]]) : s = [] := by
  cases hfind : find sep s with
  | none =>
    rw [fields_none hfind] at h
    exact (List.cons.inj h).1
  | some i =>
    rw [fields_some hsep hfind] at h
    exact absurd (List.cons.inj h).2 (fields_ne_nil _ _)

/-- The text from the start of field `k` on. -/
def skip (sep : List α) : ℕ → List α → Option (List α)
  | 0, s => some s
  | k + 1, s => match find sep s with
    | none => none
    | some i => if s.drop (i + sep.length) = [] then none else skip sep k (s.drop (i + sep.length))

def field (sep s : List α) (k : ℕ) : Option (List α) :=
  (skip sep k s).map fun t => match find sep t with
    | none => t
    | some i => t.take i

theorem field_eq (hsep : sep ≠ []) (s : List α) (k : ℕ) :
    field sep s k =
      match (fields sep s)[k]? with
      | none => none
      | some f => if 0 < k ∧ k + 1 = (fields sep s).length ∧ f = [] then none else some f := by
  induction k generalizing s with
  | zero =>
    cases hfind : find sep s with
    | none => simp [field, skip, fields_none hfind, hfind]
    | some i => simp [field, skip, fields_some hsep hfind, hfind]
  | succ k ih =>
    cases hfind : find sep s with
    | none => simp [field, skip, fields_none hfind, hfind]
    | some i =>
      have hskip : field sep s (k + 1) =
          if s.drop (i + sep.length) = [] then none else field sep (s.drop (i + sep.length)) k := by
        simp only [field, skip, hfind]
        split_ifs <;> rfl
      rw [hskip, ih, fields_some hsep hfind]
      generalize s.drop (i + sep.length) = t
      split_ifs with ht
      · -- the field behind the last separator, and empty
        rw [ht, fields_nil hsep]
        cases k <;> simp
      · rw [List.getElem?_cons_succ, List.length_cons]
        cases hf : (fields sep t)[k]? with
        | none => rfl
        | some f =>
          -- a field that is last and first and empty would leave no text to look in
          have honly : k + 1 = (fields sep t).length → f = [] → 0 < k := by
            rintro hlen rfl
            by_contra hk
            obtain rfl : k = 0 := by omega
            obtain ⟨g, hg⟩ := List.length_eq_one_iff.1 hlen.symm
            rw [hg] at hf
            cases hf
            exact ht (eq_nil_of_fields hsep hg)
          dsimp only
          congr 1
          rw [eq_iff_iff]
          constructor
          · rintro ⟨-, hlen, hnil⟩
            exact ⟨Nat.succ_pos k, by omega, hnil⟩
          · rintro ⟨-, hlen, hnil⟩
            exact ⟨honly (by omega) hnil, by omega, hnil⟩

end Search
