import Mathlib.Data.List.Basic
import Mathlib.Data.List.Induction

/-!
# Logs that start anew

A text is appended to a log that has not reached its limit; otherwise the log starts anew with it. Such a log holds the
newest texts (`exists_kept`), is shorter than the limit and its longest text together (`length_content_lt`), and has
lost nothing exactly when it was below the limit before the last text (`content_eq_iff`).
-/

namespace Rolling

variable {α : Type*} {limit m : ℕ} {c t : List α} {ts : List (List α)}

def append (limit : ℕ) (c t : List α) : List α := if c.length < limit then c ++ t else t

/-- The log after the texts `ts`. -/
def content (limit : ℕ) (c : List α) (ts : List (List α)) : List α := ts.foldl (append limit) c

@[simp] theorem content_nil : content limit c [] = c := rfl

@[simp] theorem content_cons : content limit c (t :: ts) = content limit (append limit c t) ts := rfl

theorem content_concat : content limit c (ts ++ [t]) = append limit (content limit c ts) t := by
  simp [content]

theorem length_append_le : (append limit c t).length ≤ c.length + t.length := by
  unfold append
  split_ifs
  · exact Nat.le_of_eq List.length_append
  · exact Nat.le_add_left ..

theorem length_content_le : (content limit c ts).length ≤ c.length + ts.flatten.length := by
  induction ts generalizing c with
  | nil => exact Nat.le_refl _
  | cons t ts ih =>
    have hrest := ih (c := append limit c t)
    have hone : (append limit c t).length ≤ c.length + t.length := length_append_le
    rw [content_cons, List.flatten_cons, List.length_append]
    omega

/-- What is kept are the newest texts. -/
theorem exists_kept (limit : ℕ) (c : List α) (ts : List (List α)) :
    ∃ kept, kept <:+ c :: ts ∧ content limit c ts = kept.flatten ∧ ∀ t ∈ ts.getLast?, t ∈ kept.getLast? := by
  induction ts using List.reverseRecOn with
  | nil => exact ⟨[c], List.suffix_rfl, by simp, by simp⟩
  | append_singleton ts t ih =>
    obtain ⟨kept, hsuffix, hcontent, -⟩ := ih
    rw [content_concat, append]
    split_ifs with hlt
    · obtain ⟨lost, hlost⟩ := hsuffix
      refine ⟨kept ++ [t], ⟨lost, ?_⟩, by simp [hcontent], by simp⟩
      rw [← List.append_assoc, hlost, List.cons_append]
    · exact ⟨[t], ⟨c :: ts, by simp⟩, by simp, by simp⟩

theorem length_content_lt (hlimit : 0 < limit) (hm : ∀ t ∈ ts, t.length ≤ m) (hne : ts ≠ []) :
    (content limit c ts).length < limit + m := by
  obtain ⟨ts, t, rfl⟩ := (List.eq_nil_or_concat' ts).resolve_left hne
  have ht : t.length ≤ m := hm t (by simp)
  rw [content_concat, append]
  split_ifs with hlt
  · rw [List.length_append]
    omega
  · omega

/-- Nothing is lost: the log was below its limit before the last text. -/
theorem content_eq_iff (hlimit : 0 < limit) : content limit c ts = c ++ ts.flatten ↔
    ts = [] ∨ (c ++ ts.dropLast.flatten).length < limit := by
  induction ts generalizing c with
  | nil => simp
  | cons t ts ih =>
    rw [content_cons, List.flatten_cons, append]
    split_ifs with hlt
    · rw [← List.append_assoc, ih]
      cases ts with
      | nil => simpa using hlt
      | cons u ts => simp [List.append_assoc]
    · have hle : (content limit t ts).length ≤ t.length + ts.flatten.length := length_content_le
      constructor
      · intro h
        have hlen := congrArg List.length h
        rw [List.length_append, List.length_append] at hlen
        omega
      · rintro (h | h)
        · cases h
        · rw [List.length_append] at h
          omega

end Rolling
