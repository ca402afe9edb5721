import Mathlib.Data.List.DropRight
import Mathlib.Data.List.Infix

/-!
# Stripping a list at both ends

`strip p l` is the one longest infix of `l` without an element of `p` at either end: every such infix is an infix of
it (`isInfix_strip`).
-/

namespace Strip

variable {α : Type*} {p : α → Bool} {l t : List α}

def Bare (p : α → Bool) (l : List α) : Prop := (∀ a ∈ l.head?, p a = false) ∧ ∀ a ∈ l.getLast?, p a = false

def strip (p : α → Bool) (l : List α) : List α := (l.rdropWhile p).dropWhile p

theorem head?_dropWhile (p : α → Bool) (l : List α) : ∀ a ∈ (l.dropWhile p).head?, p a = false := by
  intro a ha
  have hnot := List.head?_dropWhile_not p l
  rw [Option.mem_def.1 ha] at hnot
  simpa using hnot

theorem getLast?_rdropWhile (p : α → Bool) (l : List α) : ∀ a ∈ (l.rdropWhile p).getLast?, p a = false := by
  intro a ha
  rw [List.rdropWhile, List.getLast?_reverse] at ha
  exact head?_dropWhile p l.reverse a ha

theorem strip_isInfix (p : α → Bool) (l : List α) : strip p l <:+: l :=
  (List.dropWhile_suffix p).isInfix.trans (List.rdropWhile_prefix p l).isInfix

theorem strip_bare (p : α → Bool) (l : List α) : Bare p (strip p l) := by
  refine ⟨head?_dropWhile p _, fun a ha => ?_⟩
  obtain ⟨u, hu⟩ := List.dropWhile_suffix p (l := l.rdropWhile p)
  refine getLast?_rdropWhile p l a ?_
  have hlast : (List.dropWhile p (l.rdropWhile p)).getLast? = some a := ha
  rw [← hu, List.getLast?_append, hlast]
  rfl

theorem dropWhile_append (ht : t ≠ []) (hhead : ∀ a ∈ t.head?, p a = false) (x : List α) :
    (x ++ t).dropWhile p = x.dropWhile p ++ t := by
  have hkeep : t.dropWhile p = t := by
    cases t with
    | nil => rfl
    | cons a t => exact List.dropWhile_cons_of_neg (by rw [hhead a rfl]; exact Bool.false_ne_true)
  rw [List.dropWhile_append, hkeep]
  split_ifs with hx
  · rw [List.isEmpty_iff.1 hx, List.nil_append]
  · rfl

theorem rdropWhile_append (ht : t ≠ []) (hlast : ∀ a ∈ t.getLast?, p a = false) (y : List α) :
    (t ++ y).rdropWhile p = t ++ y.rdropWhile p := by
  have hrev : ∀ a ∈ t.reverse.head?, p a = false := by
    intro a ha
    rw [List.head?_reverse] at ha
    exact hlast a ha
  rw [List.rdropWhile, List.reverse_append, dropWhile_append (by simpa using ht) hrev, List.reverse_append,
    List.reverse_reverse, List.rdropWhile]

theorem isInfix_strip (h : t <:+: l) (hbare : Bare p t) : t <:+: strip p l := by
  by_cases ht : t = []
  · exact ht ▸ List.nil_infix
  · obtain ⟨x, y, rfl⟩ := h
    have hxt : x ++ t ≠ [] := fun hnil => ht (List.append_eq_nil_iff.1 hnil).2
    have hlast : ∀ a ∈ (x ++ t).getLast?, p a = false := by
      intro a ha
      rw [List.getLast?_append_of_ne_nil _ ht] at ha
      exact hbare.2 a ha
    have hhead : ∀ a ∈ (t ++ y.rdropWhile p).head?, p a = false := by
      intro a ha
      rw [List.head?_append_of_ne_nil _ ht] at ha
      exact hbare.1 a ha
    have hne : t ++ y.rdropWhile p ≠ [] := fun hnil => ht (List.append_eq_nil_iff.1 hnil).1
    rw [strip, rdropWhile_append hxt hlast, List.append_assoc, dropWhile_append hne hhead]
    exact ⟨x.dropWhile p, y.rdropWhile p, by rw [List.append_assoc]⟩

end Strip
