import Mathlib.Data.List.DropRight
import LearnCpp.Bytes
import LearnCpp.Lib.Search

/-!
# `std::string`

The member functions the programs call, on the characters of a string. A position is `none` for `npos`, and `npos + 1`
is zero. A position behind the end is a `std::out_of_range` where the function checks it.
-/

namespace LearnCpp

inductive StdException
  | outOfRange
deriving DecidableEq, Repr

namespace CppString

/-- `s.find(c)`. -/
def find (s : Bytes) (c : UInt8) : Option ℕ := s.findIdx? (· = c)

/-- `s.find(t, pos)`. -/
def findString (s t : Bytes) (pos : ℕ) : Option ℕ :=
  if s.length < pos then none else (Search.find t (s.drop pos)).map (pos + ·)

/-- `s.find_first_not_of(set)`. -/
def findFirstNotOf (s set : Bytes) : Option ℕ := s.findIdx? (· ∉ set)

/-- `s.find_last_not_of(set)`. -/
def findLastNotOf (s set : Bytes) : Option ℕ := (s.reverse.findIdx? (· ∉ set)).map (s.length - 1 - ·)

/-- `pos + 1`. -/
def next (pos : Option ℕ) : ℕ := (pos.map (· + 1)).getD 0

/-- The characters of `s` from `pos` on, `count` at most. -/
def piece (s : Bytes) (pos : ℕ) (count : Option ℕ) : Bytes :=
  (s.drop pos).take (count.getD s.length)

/-- `s.substr(pos, count)`. -/
def substr (s : Bytes) (pos : ℕ) (count : Option ℕ) : Except StdException Bytes :=
  if s.length < pos then .error .outOfRange else .ok (piece s pos count)

/-- `s.replace(pos, count, n, c)`. -/
def replace (s : Bytes) (pos : ℕ) (count : Option ℕ) (n : ℕ) (c : UInt8) : Except StdException Bytes :=
  if s.length < pos then .error .outOfRange
  else .ok (s.take pos ++ List.replicate n c ++ s.drop (pos + (piece s pos count).length))

/-- `s.erase(pos, count)`. -/
def erase (s : Bytes) (pos : ℕ) (count : Option ℕ) : Except StdException Bytes :=
  if s.length < pos then .error .outOfRange else .ok (s.take pos ++ s.drop (pos + (piece s pos count).length))

section
variable {s pre set : Bytes} {c : UInt8}

theorem find_of_not_mem (h : c ∉ s) : find s c = none := by
  rw [find, List.findIdx?_eq_none_iff]
  intro a ha
  exact decide_eq_false fun he => h (he ▸ ha)

theorem find_first (h : c ∉ pre) (post : Bytes) : find (pre ++ c :: post) c = some pre.length := by
  have hpre := find_of_not_mem h
  rw [find] at hpre ⊢
  rw [List.findIdx?_append, hpre, List.findIdx?_cons]
  simp

theorem decide_not_mem (set : Bytes) : (fun c => decide (c ∉ set)) = fun c => !decide (c ∈ set) := by
  funext c
  exact decide_not

theorem drop_findFirstNotOf (s set : Bytes) :
    s.drop ((findFirstNotOf s set).getD s.length) = s.dropWhile (· ∈ set) := by
  rw [findFirstNotOf, decide_not_mem, ← List.findIdx_eq_getD_findIdx?, List.dropWhile_eq_drop_findIdx_not]

theorem next_findLastNotOf (s set : Bytes) : next (findLastNotOf s set) = (s.rdropWhile (· ∈ set)).length := by
  have hlen : (s.rdropWhile (· ∈ set)).length = s.length - s.reverse.findIdx fun c => !decide (c ∈ set) := by
    rw [List.rdropWhile, List.dropWhile_eq_drop_findIdx_not, List.length_reverse, List.length_drop,
      List.length_reverse]
  rw [findLastNotOf, decide_not_mem, hlen]
  cases hidx : s.reverse.findIdx? fun c => !decide (c ∈ set) with
  | none =>
    rw [List.findIdx?_eq_none_iff_findIdx_eq.1 hidx, List.length_reverse, Nat.sub_self]
    rfl
  | some i =>
    obtain ⟨hlt, hi⟩ := List.findIdx?_eq_some_iff_findIdx_eq.1 hidx
    rw [List.length_reverse] at hlt
    rw [hi]
    show s.length - 1 - i + 1 = s.length - i
    omega

theorem take_findLastNotOf (s set : Bytes) : s.take (next (findLastNotOf s set)) = s.rdropWhile (· ∈ set) := by
  rw [next_findLastNotOf]
  exact (List.prefix_iff_eq_take.1 (List.rdropWhile_prefix _ s)).symm

theorem drop_findLastNotOf (s set : Bytes) : s.drop (next (findLastNotOf s set)) = s.rtakeWhile (· ∈ set) := by
  have happ : s.rdropWhile (· ∈ set) ++ s.rtakeWhile (· ∈ set) = s := List.rdropWhile_append_rtakeWhile
  rw [next_findLastNotOf]
  nth_rewrite 2 [← happ]
  exact List.drop_left

end

end CppString
end LearnCpp
