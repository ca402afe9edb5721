import LearnCpp.Lib.Strip
import LearnCpp.Misc

/-!
# What the string functions of `Misc` compute

`replace_char` writes the new character over the old one wherever that stands, if they differ; with both the same it
goes round for ever on a string that has the character (`replace_char_iff`). `distill_string` gets the fields of the
leftmost split, but for an empty last one (`distill_string_fields`). `trim` and `ltrim` do what they say, `rtrim` erases
what it should keep (`trims_agree_iff`).
-/

namespace LearnCpp

open CppString

/-! ### `replace_char` -/

def replaced (oldChar newChar c : UInt8) : UInt8 := if c = oldChar then newChar else c

section
variable {src pre : Bytes} {oldChar newChar : UInt8}

theorem replace_at (pre post : Bytes) (c newChar : UInt8) :
    replace (pre ++ c :: post) pre.length (some 1) 1 newChar = .ok (pre ++ newChar :: post) := by
  have hle : ¬ (pre ++ c :: post).length < pre.length := by
    rw [List.length_append]
    omega
  have hone : (piece (pre ++ c :: post) pre.length (some 1)).length = 1 := by simp [piece]
  have hdrop : (pre ++ c :: post).drop (pre.length + 1) = post := by
    rw [← List.drop_drop, List.drop_left]
    rfl
  rw [replace, if_neg hle, hone, List.take_left, hdrop, List.append_assoc]
  rfl

theorem replaceCharRound_first (h : oldChar ∉ pre) (post : Bytes) :
    replaceCharRound oldChar newChar (pre ++ oldChar :: post, find (pre ++ oldChar :: post) oldChar) =
      .inl (pre ++ newChar :: post, find (pre ++ newChar :: post) oldChar) := by
  rw [find_first h, replaceCharRound, replace_at]

theorem replaceChar_none (h : oldChar ∉ src) (n : ℕ) : replaceChar (n + 1) src oldChar newChar = some (.ok src) := by
  rw [replaceChar, find_of_not_mem h]
  exact Loop.iter_inr rfl

theorem replaceChar_first (h : oldChar ∉ pre) (post : Bytes) (n : ℕ) :
    replaceChar (n + 1) (pre ++ oldChar :: post) oldChar newChar =
      replaceChar n (pre ++ newChar :: post) oldChar newChar :=
  Loop.iter_inl (replaceCharRound_first h post)

theorem map_replaced (h : oldChar ∉ src) : src.map (replaced oldChar newChar) = src := by
  have hkeep : ∀ c ∈ src, replaced oldChar newChar c = c := by
    intro c hc
    exact if_neg fun (he : c = oldChar) => h (he ▸ hc)
  rw [List.map_congr_left hkeep, List.map_id']

/-- As many rounds as there are old characters, and one to find no more. -/
theorem replaceChar_ends (hne : oldChar ≠ newChar) (src : Bytes) :
    replaceChar (src.count oldChar + 1) src oldChar newChar = some (.ok (src.map (replaced oldChar newChar))) := by
  induction hn : src.count oldChar generalizing src with
  | zero =>
    have hmem := List.count_eq_zero.1 hn
    rw [replaceChar_none hmem, map_replaced hmem]
  | succ n ih =>
    have hmem : oldChar ∈ src := List.count_pos_iff.1 (by omega)
    obtain ⟨pre, post, rfl, hpre⟩ := List.eq_append_cons_of_mem hmem
    have hcount : (pre ++ newChar :: post).count oldChar = n := by
      rw [List.count_append, List.count_cons_self] at hn
      rw [List.count_append, List.count_cons_of_ne hne.symm]
      omega
    have hnew : replaced oldChar newChar newChar = newChar := if_neg hne.symm
    have hold : replaced oldChar newChar oldChar = newChar := if_pos rfl
    rw [replaceChar_first hpre, ih _ hcount]
    simp only [List.map_append, List.map_cons, hnew, hold]

theorem replaceChar_diverges (h : oldChar ∈ src) (n : ℕ) : replaceChar n src oldChar oldChar = none := by
  obtain ⟨pre, post, rfl, hpre⟩ := List.eq_append_cons_of_mem h
  refine Loop.iter_eq_none
    (I := fun st => st = (pre ++ oldChar :: post, find (pre ++ oldChar :: post) oldChar)) ?_ rfl n
  rintro st rfl
  exact ⟨_, replaceCharRound_first hpre post, rfl⟩

end

/-- The loop ends with every `old_char` replaced, and nothing else changed, exactly when the characters differ or there
is nothing to replace. -/
theorem replace_char_iff (src : Bytes) (oldChar newChar : UInt8) :
    (∃ n, replaceChar n src oldChar newChar = some (.ok (src.map (replaced oldChar newChar)))) ↔
      oldChar ≠ newChar ∨ oldChar ∉ src := by
  constructor
  · rintro ⟨n, hn⟩
    by_contra hboth
    obtain ⟨rfl, hmem⟩ : oldChar = newChar ∧ oldChar ∈ src := by
      simpa only [not_or, not_not] using hboth
    rw [replaceChar_diverges hmem] at hn
    cases hn
  · rintro (hne | hmem)
    · exact ⟨_, replaceChar_ends hne src⟩
    · exact ⟨1, by rw [replaceChar_none hmem, map_replaced hmem]⟩

theorem replace_char_same :
    ¬ ∃ n, replaceChar n [97, 124, 98] 124 124 = some (.ok ([97, 124, 98].map (replaced 124 124))) := by
  rintro ⟨n, hn⟩
  rw [replaceChar_diverges (by decide)] at hn
  cases hn

/-! ### `distill_string` -/

section
variable {src dest separator : Bytes} {start k : ℕ}

theorem findString_of_le (h : start ≤ src.length) :
    findString src separator start = (Search.find separator (src.drop start)).map (start + ·) :=
  if_neg (Nat.not_lt.2 h)

theorem substr_of_le (h : start ≤ src.length) (count : Option ℕ) :
    substr src start count = .ok (piece src start count) :=
  if_neg (Nat.not_lt.2 h)

/-- The position is where `Search.skip` leaves the text, inside it or at its end. -/
theorem skipFields_skip (separator : Bytes) (k : ℕ) (h : start ≤ src.length) :
    match skipFields src separator k start with
    | none => Search.skip separator k (src.drop start) = none
    | some pos => pos ≤ src.length ∧ Search.skip separator k (src.drop start) = some (src.drop pos) := by
  induction k generalizing start with
  | zero => exact ⟨h, rfl⟩
  | succ k ih =>
    simp only [skipFields, Search.skip, findString_of_le h]
    cases Search.find separator (src.drop start) with
    | none => rfl
    | some i =>
      have hend : (src.drop start).drop (i + separator.length) = [] ↔ start + i + separator.length ≥ src.length := by
        rw [List.drop_drop, List.drop_eq_nil_iff, Nat.add_assoc]
      simp only [Option.map_some, hend]
      by_cases hpast : start + i + separator.length ≥ src.length
      · rw [if_pos hpast, if_pos hpast]
      · rw [if_neg hpast, if_neg hpast, List.drop_drop, ← Nat.add_assoc]
        exact ih (by omega)

theorem distillString_eq (src dest separator : Bytes) (index : UInt32) :
    distillString src dest separator index =
      .ok (match Search.field separator src index.toNat with
        | none => (false, dest)
        | some f => (true, f)) := by
  have hskip := skipFields_skip separator index.toNat (Nat.zero_le src.length)
  rw [List.drop_zero] at hskip
  unfold distillString Search.field
  cases hpos : skipFields src separator index.toNat 0 with
  | none =>
    simp only [hpos] at hskip
    simp only [hskip, Option.map_none]
  | some pos =>
    simp only [hpos] at hskip
    obtain ⟨hle, hskip⟩ := hskip
    simp only [hskip, Option.map_some, findString_of_le hle, substr_of_le hle, piece]
    cases hfind : Search.find separator (src.drop pos) with
    | none =>
      simp only [Option.map_none, Option.getD_none]
      rw [List.take_of_length_le (by rw [List.length_drop]; omega)]
      rfl
    | some i =>
      simp only [Option.map_some, Option.getD_some, Nat.add_sub_cancel_left]
      rfl

end

/-- With any separator but the empty one, `distill_string` returns field `index`, if there is one that is not an empty
last one behind others; it takes no substring behind the end. -/
theorem distill_string_fields (src dest separator : Bytes) (hsep : separator ≠ []) (index : UInt32) :
    distillString src dest separator index =
      .ok (match (Search.fields separator src)[index.toNat]? with
        | none => (false, dest)
        | some f =>
          if 0 < index.toNat ∧ index.toNat + 1 = (Search.fields separator src).length ∧ f = [] then (false, dest)
          else (true, f)) := by
  rw [distillString_eq, Search.field_eq hsep]
  cases (Search.fields separator src)[index.toNat]? with
  | none => rfl
  | some f =>
    dsimp only
    split_ifs <;> rfl

theorem fields_between : Search.fields [124] ([97, 124, 124, 98] : Bytes) = [[97], [], [98]] := by
  have h1 : Search.find [124] ([97, 124, 124, 98] : Bytes) = some 1 := rfl
  have h2 : Search.find [124] ([124, 98] : Bytes) = some 0 := rfl
  have h3 : Search.find [124] ([98] : Bytes) = none := rfl
  have hsep : ([124] : Bytes) ≠ [] := List.cons_ne_nil _ _
  rw [Search.fields_some hsep h1]
  show [97] :: Search.fields [124] [124, 98] = _
  rw [Search.fields_some hsep h2]
  show [97] :: [] :: Search.fields [124] [98] = _
  rw [Search.fields_none h3]

theorem distill_string_fields_between : distillString [97, 124, 124, 98] [7] [124] 1 = .ok (true, []) := by
  rw [distill_string_fields [97, 124, 124, 98] [7] [124] (List.cons_ne_nil _ _) 1, fields_between]
  rfl

/-! ### `trim`, `ltrim`, `rtrim` -/

section
variable {s : Bytes}

def blank (c : UInt8) : Bool := c ∈ space

theorem erase_front (s : Bytes) (count : Option ℕ) : erase s 0 count = .ok (s.drop (count.getD s.length)) := by
  simp [erase, piece, List.drop_eq_drop_min]

theorem erase_back {n : ℕ} (h : n ≤ s.length) : erase s n none = .ok (s.take n) := by
  simp [erase, piece, h]

theorem trim_eq (s : Bytes) : trim s = .ok (Strip.strip blank s, s.rdropWhile blank) := by
  have hle : next (findLastNotOf s space) ≤ s.length := by
    rw [next_findLastNotOf]
    exact (List.rdropWhile_prefix _ s).length_le
  have hfront : erase (s.rdropWhile blank) 0 (findFirstNotOf (s.rdropWhile blank) space) =
      .ok (Strip.strip blank s) := by
    rw [erase_front, drop_findFirstNotOf]
    rfl
  rw [trim, erase_back hle, take_findLastNotOf]
  show (erase (s.rdropWhile blank) 0 (findFirstNotOf (s.rdropWhile blank) space) >>= fun r =>
    pure (r, s.rdropWhile blank)) = _
  rw [hfront]
  rfl

theorem ltrim_eq (s : Bytes) : ltrim s = .ok (s.dropWhile blank, s.dropWhile blank) := by
  rw [ltrim, erase_front, drop_findFirstNotOf]
  rfl

/-- `rtrim` keeps the white space at the end and erases what is before. -/
theorem rtrim_eq (s : Bytes) : rtrim s = .ok (s.rtakeWhile blank, s.rtakeWhile blank) := by
  rw [rtrim, erase_front, Option.getD_some, drop_findLastNotOf]
  rfl

/-- `t` is the one longest substring of `s` that neither begins nor ends with white space. -/
structure Trimmed (s t : Bytes) : Prop where
  isInfix : t <:+: s
  bare : Strip.Bare blank t
  longest : ∀ t', t' <:+: s → Strip.Bare blank t' → t'.length ≤ t.length
  unique : ∀ t', t' <:+: s → Strip.Bare blank t' → t'.length = t.length → t' = t

theorem trimmed_strip (s : Bytes) : Trimmed s (Strip.strip blank s) where
  isInfix := Strip.strip_isInfix blank s
  bare := Strip.strip_bare blank s
  longest _ hin hbare := (Strip.isInfix_strip hin hbare).length_le
  unique _ hin hbare hlen := (Strip.isInfix_strip hin hbare).eq_of_length hlen

/-- What a function returns on a fresh copy. -/
def returned (f : Bytes → Except StdException (Bytes × Bytes)) (s : Bytes) : Except StdException Bytes :=
  (f s).map Prod.fst

/-- The three functions agree on `s`, with the results `l`, `r` and `t`. -/
structure TrimsAgree (s l r t : Bytes) : Prop where
  ltrim : returned ltrim s = .ok l
  rtrim : returned rtrim s = .ok r
  trim : returned trim s = .ok t
  ltrim_rtrim : returned LearnCpp.ltrim r = .ok t
  rtrim_ltrim : returned LearnCpp.rtrim l = .ok t
  before : ∃ u, s = u ++ l ∧ ∀ c ∈ u, c ∈ space
  behind : ∃ w, s = r ++ w ∧ ∀ c ∈ w, c ∈ space
  head : ∀ c ∈ l.head?, c ∉ space
  last : ∀ c ∈ r.getLast?, c ∉ space
  trimmed : Trimmed s t

/-- `trim` alone is right on every string. -/
theorem trim_trimmed (s : Bytes) : ∃ t, returned trim s = .ok t ∧ Trimmed s t :=
  ⟨_, by rw [returned, trim_eq]; rfl, trimmed_strip s⟩

end

/-- `rtrim` makes the three disagree on every string but the empty one. -/
theorem trims_agree_iff (s : Bytes) : (∃ l r t, TrimsAgree s l r t) ↔ s = [] := by
  constructor
  · rintro ⟨l, r, t, h⟩
    have hr : s.rtakeWhile blank = r := by
      have hrt := h.rtrim
      rw [returned, rtrim_eq] at hrt
      exact Except.ok.inj hrt
    have hblank : ∀ c ∈ r, c ∈ space := by
      intro c hc
      rw [← hr] at hc
      have hb : blank c = true := List.mem_rtakeWhile_imp hc
      exact of_decide_eq_true hb
    have hnil : r = [] := by
      cases hlast : r.getLast? with
      | none => exact List.getLast?_eq_none_iff.1 hlast
      | some c => exact absurd (hblank c (List.mem_of_getLast? hlast)) (h.last c hlast)
    -- then `s` is white space only, and would have been kept
    obtain ⟨w, hw, hws⟩ := h.behind
    rw [hnil, List.nil_append] at hw
    rw [← hw] at hws
    have hself : s.rtakeWhile blank = s := List.rtakeWhile_eq_self_iff.2 fun c hc => decide_eq_true (hws c hc)
    rw [← hself, hr, hnil]
  · rintro rfl
    refine ⟨[], [], [], ⟨rfl, rfl, rfl, rfl, rfl, ⟨[], rfl, ?_⟩, ⟨[], rfl, ?_⟩, ?_, ?_, trimmed_strip []⟩⟩
    all_goals
      intro c hc
      cases hc

/-- `rtrim` of `ab` with a space behind is a space. -/
theorem rtrim_ab :
    returned rtrim [97, 98, 32] = .ok [32] ∧ ¬ ∃ l r t, TrimsAgree [97, 98, 32] l r t := by
  refine ⟨rfl, ?_⟩
  rintro ⟨l, r, t, h⟩
  have hr := Except.ok.inj (h.rtrim.symm.trans (rfl : returned rtrim [97, 98, 32] = .ok [32]))
  subst hr
  exact h.last 32 rfl (by decide)

end LearnCpp
