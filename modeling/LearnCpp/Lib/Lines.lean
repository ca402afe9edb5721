import Mathlib.Data.List.Basic

/-!
# Lines and words

A text is cut at its separators into segments, one more than there are separators; its lines are the
segments but for an empty last one. `terminate` writes each of some lines followed by a separator; no two
lists of lines are written alike (`terminate_inj`). The words of a text are its segments that are not empty: words
written with a separator behind each are read back (`words_flatMap`).
-/

namespace Lines

variable {α : Type*} {sep : α} {l : List α} {ls ms : List (List α)}

def terminate (sep : α) (ls : List (List α)) : List α := ls.flatMap (· ++ [sep])

theorem terminate_append (ls ms : List (List α)) :
    terminate sep (ls ++ ms) = terminate sep ls ++ terminate sep ms :=
  List.flatMap_append

/-- Lists that agree with themselves shifted are constant. -/
theorem eq_of_dropLast_eq {a : α} {as : List α} (h : (a :: as).dropLast = as) : ∀ x ∈ a :: as, x = a := by
  induction as generalizing a with
  | nil => simp
  | cons b as ih =>
    rw [List.dropLast_cons_cons] at h
    obtain ⟨rfl, h⟩ := List.cons.inj h
    intro x hx
    rcases List.mem_cons.1 hx with rfl | hx
    · rfl
    · exact ih h x hx

section
variable [DecidableEq α]

def lines (segs : List (List α)) : List (List α) := if segs.getLast? = some [] then segs.dropLast else segs

theorem lines_cons_cons (l m : List α) (ls : List (List α)) : lines (l :: m :: ls) = l :: lines (m :: ls) := by
  unfold lines
  rw [List.getLast?_cons_cons, List.dropLast_cons_cons]
  split_ifs <;> rfl

theorem mem_of_mem_lines (h : l ∈ lines ls) : l ∈ ls := by
  unfold lines at h
  split_ifs at h
  · exact List.dropLast_subset ls h
  · exact h

theorem length_lines (l : List α) (ls : List (List α)) : ls.length ≤ (lines (l :: ls)).length := by
  unfold lines
  split_ifs <;> simp

/-- The segments but the first are the lines only if there is nothing in them. -/
theorem tail_eq_lines_iff (l : List α) (ls : List (List α)) : ls = lines (l :: ls) ↔ ∀ m ∈ l :: ls, m = [] := by
  unfold lines
  constructor
  · intro h
    split_ifs at h with hlast
    · have hall := eq_of_dropLast_eq h.symm
      have hnil : [] = l := hall [] (List.mem_of_getLast? hlast)
      intro m hm
      rw [hall m hm, hnil]
    · exact absurd (congrArg List.length h) (by simp)
  · intro h
    have hrep : l :: ls = List.replicate (ls.length + 1) [] := List.eq_replicate_of_mem h
    have hls : ls = List.replicate ls.length [] := (List.cons.inj hrep).2
    rw [hrep, if_pos (by simp [List.getLast?_replicate]), List.dropLast_replicate, Nat.add_sub_cancel]
    exact hls

theorem splitOn_terminate (h : ∀ l ∈ ls, sep ∉ l) : (terminate sep ls).splitOn sep = ls ++ [[]] := by
  induction ls with
  | nil => exact List.splitOn_nil sep
  | cons l ls ih =>
    have hl : terminate sep (l :: ls) = l ++ sep :: terminate sep ls := by simp [terminate]
    rw [hl, List.splitOn_append_cons_self_of_not_mem (h l (by simp)), ih fun m hm => h m (by simp [hm])]
    rfl

theorem terminate_inj (hls : ∀ l ∈ ls, sep ∉ l) (hms : ∀ l ∈ ms, sep ∉ l)
    (h : terminate sep ls = terminate sep ms) : ls = ms := by
  have hsplit := splitOn_terminate hls
  rw [h, splitOn_terminate hms] at hsplit
  exact (List.append_cancel_right hsplit).symm

theorem not_mem_of_mem_splitOn {xs : List α} (h : l ∈ xs.splitOn sep) : sep ∉ l := by
  induction xs generalizing l with
  | nil => simp_all
  | cons x xs ih =>
    rw [List.splitOn_cons_eq_if_modifyHead] at h
    split_ifs at h with hx
    · rcases List.mem_cons.1 h with rfl | h
      · exact List.not_mem_nil
      · exact ih h
    · cases hs : xs.splitOn sep with
      | nil => exact absurd hs (List.splitOn_ne_nil sep xs)
      | cons m ms =>
        rw [hs, List.modifyHead_cons] at h
        rcases List.mem_cons.1 h with rfl | h
        · have hm := ih (l := m) (by simp [hs])
          intro hmem
          rcases List.mem_cons.1 hmem with rfl | hmem
          · exact hx (by simp)
          · exact hm hmem
        · exact ih (by simp [hs, h])

/-- The first segment, and the text behind it if there is a separator. -/
theorem cases_splitOn (sep : α) (xs : List α) :
    (sep ∉ xs ∧ xs.splitOn sep = [xs]) ∨
      ∃ l rest, xs = l ++ sep :: rest ∧ sep ∉ l ∧ xs.splitOn sep = l :: rest.splitOn sep := by
  by_cases hmem : sep ∈ xs
  · obtain ⟨l, rest, rfl, hl⟩ := List.eq_append_cons_of_mem hmem
    exact .inr ⟨l, rest, rfl, hl, List.splitOn_append_cons_self_of_not_mem hl rest⟩
  · exact .inl ⟨hmem, List.splitOn_eq_singleton hmem⟩

theorem all_nil_iff {xs : List α} : (∀ l ∈ xs.splitOn sep, l = []) ↔ ∀ x ∈ xs, x = sep := by
  induction xs with
  | nil => simp
  | cons x xs ih =>
    rw [List.splitOn_cons_eq_if_modifyHead, List.forall_mem_cons, ← ih]
    split_ifs with hx
    · simp_all
    · cases hs : xs.splitOn sep with
      | nil => exact absurd hs (List.splitOn_ne_nil sep xs)
      | cons m ms => simp_all

end

end Lines

namespace Words

variable {α β : Type*} {sep : α → Bool} {w rest : List α} {c : α}

/-- What stands between the elements of `sep`. -/
def words (sep : α → Bool) (l : List α) : List (List α) := (l.splitOnP sep).filter (!·.isEmpty)

theorem words_cons (hw : w ≠ []) (hsep : ∀ a ∈ w, sep a = false) (hc : sep c = true) (rest : List α) :
    words sep (w ++ c :: rest) = w :: words sep rest := by
  rw [words, List.splitOnP_append_cons_of_forall_mem hsep c hc, List.filter_cons_of_pos (by simpa using hw)]
  rfl

theorem words_seps (h : ∀ a ∈ rest, sep a = true) : words sep rest = [] := by
  induction rest with
  | nil => simp [words]
  | cons a rest ih =>
    have ha : ([] ++ a :: rest).splitOnP sep = [] :: rest.splitOnP sep :=
      List.splitOnP_append_cons_of_forall_mem (fun x hx => absurd hx List.not_mem_nil) a (h a (by simp)) rest
    rw [List.nil_append] at ha
    rw [words, ha, List.filter_cons_of_neg (by simp)]
    exact ih fun b hb => h b (by simp [hb])

theorem words_flatMap {f : β → List α} (bs : List β) (hne : ∀ b, f b ≠ []) (hsep : ∀ b, ∀ a ∈ f b, sep a = false)
    (hc : sep c = true) (hrest : ∀ a ∈ rest, sep a = true) :
    words sep (bs.flatMap (fun b => f b ++ [c]) ++ rest) = bs.map f := by
  induction bs with
  | nil => exact words_seps hrest
  | cons b bs ih =>
    rw [List.flatMap_cons, List.append_assoc, List.append_assoc, List.singleton_append, words_cons (hne b) (hsep b) hc,
      ih, List.map_cons]

end Words
