import LearnCpp.Bytes
import LearnCpp.Lib.Lines

/-!
# `std::ifstream` and `getline`

A file opened for reading, with the two state bits the programs look at. On a file with lines of at most 255
bytes and no NUL, successive `getline`s into 256 bytes store the segments of the file one by one
(`Left.getline`), and the strings extracted without failing are its lines (`strings_eq`).
-/

namespace LearnCpp

open Lines

/-- The bytes not extracted yet, and the state bits. -/
structure IStream where
  rest : Bytes
  eofbit : Bool
  failbit : Bool
deriving DecidableEq, Repr

def newline : UInt8 := 10

namespace IStream

def «open» (file : Bytes) : IStream := ⟨file, false, false⟩

def good (is : IStream) : Bool := !is.eofbit && !is.failbit

/-- The characters up to a newline, `n - 1` of them at most. -/
def upTo (rest : Bytes) (n : ℕ) : Bytes := (rest.takeWhile (· ≠ newline)).take (n - 1)

/-- `getline(s, n)`: extracts up to a newline, which it drops, the end of the file, or `n - 1` characters, and
stores them in `s` with a NUL behind. -/
def getline (is : IStream) (s : Bytes) (n : ℕ) : Bytes × IStream :=
  if is.good then
    let line := upTo is.rest n
    let s := line ++ 0 :: s.drop (line.length + 1)
    match is.rest.drop line.length with
    | [] => (s, ⟨[], true, line.isEmpty⟩)
    | c :: cs => if c = newline then (s, { is with rest := cs }) else (s, { is with rest := c :: cs, failbit := true })
  else (0 :: s.drop 1, { is with failbit := true })

/-- The characters to be extracted, and the end of the file to be met. -/
def left (is : IStream) : ℕ := is.rest.length + cond is.eofbit 0 1

theorem getline_left {is : IStream} {s : Bytes} {n : ℕ} (hgood : is.good = true)
    (h : (is.getline s n).2.failbit = false) : (is.getline s n).2.left < is.left := by
  rcases is with ⟨rest, eofbit, failbit⟩
  obtain ⟨rfl, rfl⟩ : eofbit = false ∧ failbit = false := by simpa [good] using hgood
  unfold getline at h ⊢
  rw [if_pos hgood] at h ⊢
  dsimp only at h ⊢
  cases hdrop : rest.drop (upTo rest n).length with
  | nil =>
    simp only [left, List.length_nil, cond_true, cond_false]
    omega
  | cons c cs =>
    simp only [hdrop] at h ⊢
    split_ifs at h ⊢ with hc
    have hlen := congrArg List.length hdrop
    rw [List.length_drop, List.length_cons] at hlen
    simp only [left, cond_false]
    omega

/-- The strings that successive calls of `getline` extract, to the first that fails. -/
def strings (is : IStream) : List Bytes :=
  let r := is.getline (List.replicate 256 0) 256
  if _h : is.good = true ∧ r.2.failbit = false then cstr r.1 :: strings r.2 else []
termination_by is.left
decreasing_by exact getline_left _h.1 _h.2

end IStream

/-- Lines of at most 255 bytes without a NUL. -/
def Clean (file : Bytes) : Prop := ∀ l ∈ file.splitOn newline, l.length ≤ 255 ∧ 0 ∉ l

namespace IStream

variable {is : IStream} {line rest buf : Bytes} {ls : List Bytes}

def store (line buf : Bytes) : Bytes := line ++ 0 :: buf.drop (line.length + 1)

theorem length_store (hline : line.length ≤ 255) (hbuf : buf.length = 256) : (store line buf).length = 256 := by
  simp only [store, List.length_append, List.length_cons, List.length_drop, hbuf]
  omega

theorem takeWhile_line (h : newline ∉ line) (rest : Bytes) :
    (line ++ rest).takeWhile (· ≠ newline) = line ++ rest.takeWhile (· ≠ newline) := by
  refine List.takeWhile_append_of_pos fun c hc => ?_
  have hne : c ≠ newline := fun hn => h (hn ▸ hc)
  exact decide_eq_true hne

theorem upTo_last (h : newline ∉ line) (hlen : line.length ≤ 255) : upTo line 256 = line := by
  have htake := takeWhile_line h []
  rw [List.append_nil, List.takeWhile_nil, List.append_nil] at htake
  rw [upTo, htake, List.take_of_length_le (by omega)]

theorem upTo_line (h : newline ∉ line) (hlen : line.length ≤ 255) (rest : Bytes) :
    upTo (line ++ newline :: rest) 256 = line := by
  rw [upTo, takeWhile_line h, List.takeWhile_cons_of_neg (by simp), List.append_nil,
    List.take_of_length_le (by omega)]

/-- The strings a stream has yet to store: none after the end, and else the segments of the rest. -/
inductive Left : IStream → List Bytes → Prop
  | atEnd (failbit : Bool) : Left ⟨[], true, failbit⟩ []
  | more {rest : Bytes} (h : Clean rest) : Left ⟨rest, false, false⟩ (rest.splitOn newline)

theorem Left.eof_iff (h : Left is ls) : is.eofbit = true ↔ ls = [] := by
  cases h with
  | atEnd => exact ⟨fun _ => rfl, fun _ => rfl⟩
  | more => exact ⟨nofun, fun hnil => absurd hnil (List.splitOn_ne_nil _ _)⟩

theorem getline_last (h : newline ∉ line) (hlen : line.length ≤ 255) (buf : Bytes) :
    (⟨line, false, false⟩ : IStream).getline buf 256 = (store line buf, ⟨[], true, line.isEmpty⟩) := by
  simp [getline, good, upTo_last h hlen, store]

theorem getline_line (h : newline ∉ line) (hlen : line.length ≤ 255) (rest buf : Bytes) :
    (⟨line ++ newline :: rest, false, false⟩ : IStream).getline buf 256 = (store line buf, ⟨rest, false, false⟩) := by
  simp [getline, good, upTo_line h hlen, store]

theorem cases_line (h : Clean rest) :
    (newline ∉ rest ∧ rest.splitOn newline = [rest] ∧ rest.length ≤ 255 ∧ 0 ∉ rest) ∨
      ∃ line more, rest = line ++ newline :: more ∧ newline ∉ line ∧ line.length ≤ 255 ∧ 0 ∉ line ∧
        rest.splitOn newline = line :: more.splitOn newline ∧ Clean more := by
  rcases cases_splitOn newline rest with ⟨hmem, hsplit⟩ | ⟨line, more, hrest, hline, hsplit⟩
  · have hl := h rest (by rw [hsplit]; simp)
    exact .inl ⟨hmem, hsplit, hl.1, hl.2⟩
  · have hl := h line (by rw [hsplit]; simp)
    exact .inr ⟨line, more, hrest, hline, hl.1, hl.2, hsplit, fun l hm => h l (by rw [hsplit]; simp [hm])⟩

theorem Left.getline (h : Left is ls) (heof : is.eofbit = false) (buf : Bytes) :
    ∃ l more, ls = l :: more ∧ l.length ≤ 255 ∧ 0 ∉ l ∧ (is.getline buf 256).1 = store l buf ∧
      Left (is.getline buf 256).2 more := by
  cases h with
  | atEnd => cases heof
  | @more rest h =>
    rcases cases_line h with ⟨hmem, hsplit, hlen, h0⟩ | ⟨line, more, rfl, hmem, hlen, h0, hsplit, hmore⟩
    · rw [getline_last hmem hlen, hsplit]
      exact ⟨rest, [], rfl, hlen, h0, rfl, .atEnd _⟩
    · rw [getline_line hmem hlen, hsplit]
      exact ⟨line, more.splitOn newline, rfl, hlen, h0, rfl, .more hmore⟩

theorem strings_eq (h : Clean rest) : strings ⟨rest, false, false⟩ = lines (rest.splitOn newline) := by
  induction hn : rest.length using Nat.strongRecOn generalizing rest with
  | _ n ih =>
    rw [strings]
    rcases cases_line h with ⟨hmem, hsplit, hlen, h0⟩ | ⟨line, more, rfl, hmem, hlen, h0, hsplit, hmore⟩
    · rw [hsplit]
      simp only [getline_last hmem hlen]
      cases rest with
      | nil => rfl
      | cons c cs =>
        rw [dif_pos (by simp [good]), store, cstr_append_nul h0, strings]
        rfl
    · have hlt : more.length < n := by rw [← hn]; simp; omega
      simp only [getline_line hmem hlen]
      rw [dif_pos (by simp [good]), store, cstr_append_nul h0, ih _ hlt hmore rfl, hsplit]
      cases hs : more.splitOn newline with
      | nil => exact absurd hs (List.splitOn_ne_nil _ _)
      | cons m ms => rw [lines_cons_cons]

end IStream

end LearnCpp
