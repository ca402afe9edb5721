import Mathlib.Algebra.Group.Pi.Basic

/-!
# The last value that was set

`LastWins α` is a value or none, and of two values the right one counts. What a sequence of settings leaves is their
product.
-/

structure LastWins (α : Type*) where
  get : Option α
deriving DecidableEq, Repr

namespace LastWins

variable {α : Type*} {a b : LastWins α}

@[ext] theorem ext (h : a.get = b.get) : a = b := by
  cases a
  cases b
  exact congrArg mk h

def set (v : α) : LastWins α := ⟨some v⟩

instance : One (LastWins α) := ⟨⟨none⟩⟩

instance : Mul (LastWins α) := ⟨fun a b => ⟨b.get.or a.get⟩⟩

@[simp] theorem get_one : (1 : LastWins α).get = none := rfl

@[simp] theorem get_mul (a b : LastWins α) : (a * b).get = b.get.or a.get := rfl

@[simp] theorem get_set (v : α) : (set v).get = some v := rfl

instance : Monoid (LastWins α) where
  mul_assoc a b c := LastWins.ext Option.or_assoc.symm
  one_mul a := LastWins.ext Option.or_none
  mul_one a := LastWins.ext Option.none_or

@[simp] theorem mul_set (a : LastWins α) (v : α) : a * set v = set v := rfl

theorem mul_self (a : LastWins α) : a * a = a := LastWins.ext Option.or_self

end LastWins
