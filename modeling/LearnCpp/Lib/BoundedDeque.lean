import Mathlib.Data.List.Basic

/-!
# Bounded double-ended lists

A list with a positive capacity it never exceeds. Appending to a full one drops its oldest element,
prepending to a full one is refused.
-/

/-- A list of at most `capacity` elements, the oldest first. -/
structure BoundedDeque (α : Type*) where
  capacity : ℕ
  items : List α
  pos : 0 < capacity
  length_le : items.length ≤ capacity

namespace BoundedDeque

variable {α : Type*}

def empty (n : ℕ) (hn : 0 < n) : BoundedDeque α := ⟨n, [], hn, Nat.zero_le n⟩

def full (d : BoundedDeque α) : Bool := d.items.length == d.capacity

def pushBack (d : BoundedDeque α) (x : α) : BoundedDeque α where
  capacity := d.capacity
  items := (if d.full then d.items.tail else d.items) ++ [x]
  pos := d.pos
  length_le := by
    have := d.pos
    have := d.length_le
    simp only [full, beq_iff_eq]
    split <;> simp only [List.length_append, List.length_tail, List.length_singleton] <;> omega

def pushFront (d : BoundedDeque α) (x : α) : BoundedDeque α where
  capacity := d.capacity
  items := if d.full then d.items else x :: d.items
  pos := d.pos
  length_le := by
    have := d.length_le
    simp only [full, beq_iff_eq]
    split
    · exact this
    · simp only [List.length_cons]; omega

def popFront (d : BoundedDeque α) : BoundedDeque α where
  capacity := d.capacity
  items := d.items.tail
  pos := d.pos
  length_le := Nat.le_trans (by simp) d.length_le

def clear (d : BoundedDeque α) : BoundedDeque α := empty d.capacity d.pos

@[simp] theorem capacity_popFront (d : BoundedDeque α) : d.popFront.capacity = d.capacity := rfl
@[simp] theorem items_popFront (d : BoundedDeque α) : d.popFront.items = d.items.tail := rfl

theorem full_iff (d : BoundedDeque α) : d.full = true ↔ d.items.length = d.capacity := by
  simp [full]

theorem items_pushBack_of_not_full {d : BoundedDeque α} (h : d.full = false) (x : α) :
    (d.pushBack x).items = d.items ++ [x] := by
  simp [pushBack, h]

theorem items_pushFront_of_not_full {d : BoundedDeque α} (h : d.full = false) (x : α) :
    (d.pushFront x).items = x :: d.items := by
  simp [pushFront, h]

theorem pushFront_of_full {d : BoundedDeque α} (h : d.full = true) (x : α) : d.pushFront x = d := by
  simp [pushFront, h]

theorem popFront_of_nil {d : BoundedDeque α} (h : d.items = []) : d.popFront = d := by
  rcases d with ⟨n, items, hn, hlen⟩
  change items = [] at h
  subst h
  rfl

end BoundedDeque
