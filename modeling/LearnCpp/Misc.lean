import LearnCpp.CppString
import LearnCpp.Lib.Loop

/-!
# `Utility/Misc.cpp`

The string functions. A function that changes its argument returns the changed string too, behind its result if it has
one.
-/

namespace LearnCpp

open CppString

/-! ### `replace_char` -/

/-- A round of the loop, on `src` and `pos`. -/
def replaceCharRound (oldChar newChar : UInt8) :
    Bytes × Option ℕ → (Bytes × Option ℕ) ⊕ Except StdException Bytes
  | (src, none) => .inr (.ok src)
  | (src, some pos) => match replace src pos (some 1) 1 newChar with
    | .error e => .inr (.error e)
    | .ok src => .inl (src, find src oldChar)

/-- `replace_char(src, old_char, new_char)`, if it comes to an end within `n` rounds. -/
def replaceChar (n : ℕ) (src : Bytes) (oldChar newChar : UInt8) : Option (Except StdException Bytes) :=
  Loop.iter (replaceCharRound oldChar newChar) n (src, find src oldChar)

/-! ### `distill_string` -/

/-- The loop: `start_pos` after `k` rounds, unless it returns `false`. -/
def skipFields (src separator : Bytes) : ℕ → ℕ → Option ℕ
  | 0, startPos => some startPos
  | k + 1, startPos => match findString src separator startPos with
    | none => none
    | some pos =>
      let startPos := pos + separator.length
      if startPos ≥ src.length then none else skipFields src separator k startPos

def distillString (src dest separator : Bytes) (index : UInt32) : Except StdException (Bool × Bytes) :=
  match skipFields src separator index.toNat 0 with
  | none => .ok (false, dest)
  | some startPos => match findString src separator startPos with
    | none => do
      let dest ← substr src startPos none
      return (true, dest)
    | some endPos => do
      let dest ← substr src startPos (some (endPos - startPos))
      return (true, dest)

/-! ### `trim`, `ltrim`, `rtrim` -/

/-- `" \\f\\n\\t\\r\\v"`. -/
def space : Bytes := [32, 12, 10, 9, 13, 11]

def trim (s : Bytes) : Except StdException (Bytes × Bytes) := do
  let s ← erase s (next (findLastNotOf s space)) none
  let r ← erase s 0 (findFirstNotOf s space)
  return (r, s)

def ltrim (s : Bytes) : Except StdException (Bytes × Bytes) := do
  let s ← erase s 0 (findFirstNotOf s space)
  return (s, s)

def rtrim (s : Bytes) : Except StdException (Bytes × Bytes) := do
  let s ← erase s 0 (some (next (findLastNotOf s space)))
  return (s, s)

end LearnCpp
