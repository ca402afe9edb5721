import LearnCpp.CheckData
import LearnCpp.Uuid

/-!
# UUIDs as text (`UUID/parse.c`, `UUID/unparse.c`)

`uuid_unparse_lower` and `uuid_unparse_upper` write thirty-six characters, `uuid_parse` reads them. It looks at each
character before it converts a group, so `strtoul` never meets a space, a sign or a prefix, and what it accepts is what
the two write, the case of each letter apart (`uuid_parse_iff`).
-/

namespace LearnCpp

def isxdigit (c : UInt8) : Bool := (hexValue c).isSome

def tolower (c : UInt8) : UInt8 := if 65 ≤ c ∧ c ≤ 90 then c + 32 else c

/-- `strtoul(s, NULL, 16)`, which stays at the bound of `unsigned long`. -/
def strtoul16 (s : Bytes) : UInt64 :=
  let (negative, s) := dropSign (s.dropWhile isspace)
  let n := hexNumber (dropHexPrefix s)
  if 2 ^ 64 ≤ n then .ofNat (2 ^ 64 - 1) else if negative then -.ofNat n else .ofNat n

/-! ### `uuid_unparse` -/

def upperDigit (n : ℕ) : UInt8 := .ofNat (if n < 10 then 48 + n else 55 + n)

/-- `%0kx` or `%0kX` of a number that has no more than `k` digits. -/
def hexText (digit : ℕ → UInt8) (k n : ℕ) : Bytes := (Radix.pad 16 k n).map digit

/-- The groups with the dashes between them. -/
def grouped (a b c d e : Bytes) : Bytes := a ++ 45 :: (b ++ 45 :: (c ++ 45 :: (d ++ 45 :: e)))

def uuidUnparseX (uu : UuidT) (digit : ℕ → UInt8) : Bytes :=
  let uuid := uuidUnpack uu
  let x := hexText digit
  grouped (x 8 uuid.timeLow.toNat) (x 4 uuid.timeMid.toNat) (x 4 uuid.timeHiAndVersion.toNat)
    (x 2 (uuid.clockSeq >>> 8).toNat ++ x 2 (uuid.clockSeq &&& 0xFF).toNat)
    (uuid.node.1.flatMap fun b => x 2 b.toNat)

def uuidUnparseLower (uu : UuidT) : Bytes := uuidUnparseX uu hexDigit

def uuidUnparseUpper (uu : UuidT) : Bytes := uuidUnparseX uu upperDigit

/-! ### `uuid_parse` -/

/-- What the loop asks of the character at `i`. -/
def charOk (i : ℕ) (c : UInt8) : Bool :=
  if i = 8 ∨ i = 13 ∨ i = 18 ∨ i = 23 then c = 45
  else (i = 36 ∧ c = 0) ∨ isxdigit c

/-- The loop from `i` on, up to and with the NUL. -/
def formOk : ℕ → Bytes → Bool
  | i, [] => charOk i 0
  | i, c :: cp => charOk i c && formOk (i + 1) cp

def parseNode (cp : Bytes) : NodeId :=
  ⟨(List.range 6).map fun i => (strtoul16 [cp.getD (2 * i) 0, cp.getD (2 * i + 1) 0]).toUInt8, by simp⟩

/-- `none` for -1. -/
def uuidParse (text : Bytes) : Option UuidT :=
  let s := cstr text
  if s.length ≠ 36 then none
  else if !formOk 0 s then none
  else some (uuidPack {
    timeLow := (strtoul16 s).toUInt32
    timeMid := (strtoul16 (s.drop 9)).toUInt16
    timeHiAndVersion := (strtoul16 (s.drop 14)).toUInt16
    clockSeq := (strtoul16 (s.drop 19)).toUInt16
    node := parseNode (s.drop 24) })

/-! ### A group of digits -/

variable {a b c d e : Bytes}

theorem tolower_eq_iff {n : ℕ} (hn : n < 16) (c : UInt8) : tolower c = hexDigit n ↔ hexValue c = some n := by
  have hc := c.toNat_lt
  have hdigit : (hexDigit n).toNat = if n < 10 then 48 + n else 87 + n := by
    rw [hexDigit, UInt8.toNat_ofNat']
    split <;> omega
  have hlower : (tolower c).toNat = if 65 ≤ c.toNat ∧ c.toNat ≤ 90 then c.toNat + 32 else c.toNat := by
    rw [tolower]
    simp only [UInt8.le_iff_toNat_le, UInt8.reduceToNat]
    split
    next h =>
      rw [UInt8.toNat_add]
      change (c.toNat + 32) % 256 = _
      omega
    next h => rfl
  rw [← UInt8.toNat_inj, hlower, hdigit, hexValue]
  simp only [UInt8.le_iff_toNat_le, UInt8.reduceToNat]
  grind

theorem hexValue_lt {c : UInt8} {n : ℕ} (h : hexValue c = some n) : n < 16 := by
  unfold hexValue at h
  simp only [UInt8.le_iff_toNat_le, UInt8.reduceToNat] at h
  grind

theorem hexDigits_append (ha : ∀ c ∈ a, isxdigit c = true) (b : Bytes) :
    hexDigits (a ++ b) = hexDigits a ++ hexDigits b := by
  induction a with
  | nil => rfl
  | cons c a ih =>
    obtain ⟨v, hv⟩ := Option.isSome_iff_exists.1 (ha c (by simp))
    simp only [List.cons_append, hexDigits, hv, ih fun d hd => ha d (by simp [hd])]

theorem hexDigits_spec (ha : ∀ c ∈ a, isxdigit c = true) :
    (hexDigits a).length = a.length ∧ (∀ v ∈ hexDigits a, v < 16) ∧ (hexDigits a).map hexDigit = a.map tolower := by
  induction a with
  | nil => simp [hexDigits]
  | cons c a ih =>
    obtain ⟨v, hv⟩ := Option.isSome_iff_exists.1 (ha c (by simp))
    have hlt := hexValue_lt hv
    obtain ⟨hlen, hall, hmap⟩ := ih fun d hd => ha d (by simp [hd])
    rw [hexDigits, hv]
    refine ⟨congrArg (· + 1) hlen, List.forall_mem_cons.2 ⟨hlt, hall⟩, ?_⟩
    rw [List.map_cons, List.map_cons, hmap, (tolower_eq_iff hlt c).2 hv]

theorem hexNumber_eq (s : Bytes) : hexNumber s = Radix.number 16 (hexDigits s) := rfl

theorem hexNumber_lt (ha : ∀ c ∈ a, isxdigit c = true) : hexNumber a < 16 ^ a.length := by
  obtain ⟨hlen, hall, -⟩ := hexDigits_spec ha
  rw [hexNumber_eq, ← hlen]
  exact Radix.number_lt hall

/-- A group is the lower case text of its number. -/
theorem group_text (ha : ∀ c ∈ a, isxdigit c = true) : hexText hexDigit a.length (hexNumber a) = a.map tolower := by
  obtain ⟨hlen, hall, hmap⟩ := hexDigits_spec ha
  rw [hexText, hexNumber_eq, ← hlen, Radix.pad_number hall, hmap]

theorem digits_of_map {ds : List ℕ} (hds : ∀ v ∈ ds, v < 16) (h : a.map tolower = ds.map hexDigit) :
    (∀ c ∈ a, isxdigit c = true) ∧ hexDigits a = ds := by
  induction a generalizing ds with
  | nil =>
    obtain rfl : ds = [] := List.map_eq_nil_iff.1 h.symm
    simp [hexDigits]
  | cons c a ih =>
    cases ds with
    | nil => cases h
    | cons v ds =>
      rw [List.map_cons, List.map_cons, List.cons.injEq] at h
      have hv := (tolower_eq_iff (hds v (by simp)) c).1 h.1
      obtain ⟨hall, hread⟩ := ih (fun w hw => hds w (by simp [hw])) h.2
      rw [hexDigits, hv, hread]
      exact ⟨List.forall_mem_cons.2 ⟨by rw [isxdigit, hv]; rfl, hall⟩, rfl⟩

theorem group_of_text {k n : ℕ} (hn : n < 16 ^ k) (h : a.map tolower = hexText hexDigit k n) :
    (∀ c ∈ a, isxdigit c = true) ∧ a.length = k ∧ hexNumber a = n := by
  obtain ⟨hall, hread⟩ := digits_of_map (fun v => Radix.lt_of_mem_pad (by omega)) h
  have hlen := congrArg List.length h
  rw [List.length_map, hexText, List.length_map, Radix.length_pad] at hlen
  exact ⟨hall, hlen, by rw [hexNumber_eq, hread, Radix.number_pad hn]⟩

theorem isxdigit_spec {c : UInt8} (h : isxdigit c = true) :
    isspace c = false ∧ c ≠ 45 ∧ c ≠ 43 ∧ c ≠ 120 ∧ c ≠ 88 ∧ c ≠ 0 := by
  obtain ⟨v, hv⟩ := Option.isSome_iff_exists.1 h
  have hlow := hexValue_lt hv
  unfold hexValue at hv
  simp only [UInt8.le_iff_toNat_le, UInt8.reduceToNat] at hv
  simp only [isspace, UInt8.le_iff_toNat_le, ← UInt8.toNat_inj, ne_eq, UInt8.reduceToNat]
  grind

/-- Nothing is skipped before a group, and the conversion ends with it. -/
theorem strtoul16_group (ha : ∀ c ∈ a, isxdigit c = true) (hlen : 2 ≤ a.length) (hfew : a.length ≤ 8) {rest : Bytes}
    (hrest : hexDigits rest = []) : strtoul16 (a ++ rest) = .ofNat (hexNumber a) := by
  have hnumber : hexNumber (a ++ rest) = hexNumber a := by
    rw [hexNumber_eq, hexDigits_append ha, hrest, List.append_nil, hexNumber_eq]
  have hlt : hexNumber a < 2 ^ 64 :=
    (hexNumber_lt ha).trans_le ((Nat.pow_le_pow_right (by omega) hfew).trans (by norm_num))
  have hskip : (a ++ rest).dropWhile isspace = a ++ rest ∧ dropSign (a ++ rest) = (false, a ++ rest) ∧
      dropHexPrefix (a ++ rest) = a ++ rest := by
    match a, ha, hlen with
    | x :: y :: a, ha, _ =>
      obtain ⟨hspace, hminus, hplus, -⟩ := isxdigit_spec (ha x (by simp))
      obtain ⟨-, -, -, hx, hX, -⟩ := isxdigit_spec (ha y (by simp))
      refine ⟨by simp [hspace], ?_, ?_⟩
      · unfold dropSign
        split <;> simp_all
      · unfold dropHexPrefix
        split <;> simp_all
  simp only [strtoul16, hskip, hnumber, Bool.false_eq_true, if_false]
  rw [if_neg (by omega)]

/-! ### The form -/

theorem formOk_group {i : ℕ} (h : ∀ j < a.length, i + j ≠ 8 ∧ i + j ≠ 13 ∧ i + j ≠ 18 ∧ i + j ≠ 23 ∧ i + j < 36)
    (rest : Bytes) :
    formOk i (a ++ rest) = true ↔ (∀ c ∈ a, isxdigit c = true) ∧ formOk (i + a.length) rest = true := by
  induction a generalizing i with
  | nil => simp
  | cons c a ih =>
    have hi := h 0 (by simp)
    have htail : ∀ j < a.length, i + 1 + j ≠ 8 ∧ i + 1 + j ≠ 13 ∧ i + 1 + j ≠ 18 ∧ i + 1 + j ≠ 23 ∧ i + 1 + j < 36 := by
      intro j hj
      have hj := h (j + 1) (by simpa using hj)
      omega
    have hc : charOk i c = isxdigit c := by
      have hend : i ≠ 36 := by omega
      rw [charOk, if_neg (by omega)]
      simp [hend]
    rw [List.cons_append, formOk, Bool.and_eq_true, hc, ih htail, List.forall_mem_cons, List.length_cons, and_assoc,
      Nat.add_assoc, Nat.add_comm 1]

theorem formOk_dash {i : ℕ} (h : i = 8 ∨ i = 13 ∨ i = 18 ∨ i = 23) (c : UInt8) (rest : Bytes) :
    formOk i (c :: rest) = true ↔ c = 45 ∧ formOk (i + 1) rest = true := by
  rw [formOk, charOk, if_pos h, Bool.and_eq_true, decide_eq_true_eq]

theorem cut_at {s : Bytes} {k : ℕ} (h : k < s.length) :
    ∃ a x rest, s = a ++ x :: rest ∧ a.length = k ∧ rest.length = s.length - k - 1 :=
  ⟨s.take k, s[k], s.drop (k + 1), by simp, by simp; omega, by simp; omega⟩

/-- The groups of a text of the right form. -/
structure Groups (s a b c d e : Bytes) : Prop where
  text : s = grouped a b c d e
  length_a : a.length = 8
  length_b : b.length = 4
  length_c : c.length = 4
  length_d : d.length = 4
  length_e : e.length = 12
  hex_a : ∀ x ∈ a, isxdigit x = true
  hex_b : ∀ x ∈ b, isxdigit x = true
  hex_c : ∀ x ∈ c, isxdigit x = true
  hex_d : ∀ x ∈ d, isxdigit x = true
  hex_e : ∀ x ∈ e, isxdigit x = true

theorem Groups.form {s : Bytes} (h : Groups s a b c d e) : s.length = 36 ∧ formOk 0 s = true := by
  obtain ⟨rfl, ha, hb, hc, hd, he, hxa, hxb, hxc, hxd, hxe⟩ := h
  refine ⟨by simp [grouped, ha, hb, hc, hd, he], ?_⟩
  rw [grouped, formOk_group (by omega), ha, formOk_dash (by simp), formOk_group (by omega), hb, formOk_dash (by simp),
    formOk_group (by omega), hc, formOk_dash (by simp), formOk_group (by omega), hd, formOk_dash (by simp),
    ← List.append_nil e, formOk_group (by omega), he]
  exact ⟨hxa, rfl, hxb, rfl, hxc, rfl, hxd, rfl, hxe, rfl⟩

theorem groups_of_form {s : Bytes} (hlen : s.length = 36) (h : formOk 0 s = true) :
    ∃ a b c d e, Groups s a b c d e := by
  obtain ⟨a, x, s1, rfl, ha, hs1⟩ := cut_at (s := s) (k := 8) (by omega)
  rw [hlen] at hs1
  obtain ⟨b, y, s2, rfl, hb, hs2⟩ := cut_at (s := s1) (k := 4) (by omega)
  rw [hs1] at hs2
  obtain ⟨c, z, s3, rfl, hc, hs3⟩ := cut_at (s := s2) (k := 4) (by omega)
  rw [hs2] at hs3
  obtain ⟨d, w, e, rfl, hd, he⟩ := cut_at (s := s3) (k := 4) (by omega)
  rw [hs3] at he
  rw [formOk_group (by omega), ha, formOk_dash (by simp), formOk_group (by omega), hb, formOk_dash (by simp),
    formOk_group (by omega), hc, formOk_dash (by simp), formOk_group (by omega), hd, formOk_dash (by simp),
    ← List.append_nil e, formOk_group (by omega)] at h
  obtain ⟨hxa, rfl, hxb, rfl, hxc, rfl, hxd, rfl, hxe, -⟩ := h
  exact ⟨a, b, c, d, e, rfl, ha, hb, hc, hd, he, hxa, hxb, hxc, hxd, hxe⟩

/-! ### Text and UUID -/

theorem halves_text (w : UInt16) : hexText hexDigit 2 (w >>> 8).toNat ++ hexText hexDigit 2 (w &&& 0xFF).toNat =
    hexText hexDigit 4 w.toNat := by
  have hhi : (w >>> 8).toNat = w.toNat / 16 ^ 2 := Nat.shiftRight_eq_div_pow _ 8
  have hlo : (w &&& 0xFF).toNat = w.toNat % 16 ^ 2 := Nat.and_two_pow_sub_one_eq_mod w.toNat 8
  rw [hhi, hlo, hexText, hexText, hexText, ← List.map_append, Radix.pad_mod, ← Radix.pad_add]

theorem pair_text {x y : UInt8} (hx : isxdigit x = true) (hy : isxdigit y = true) :
    hexText hexDigit 2 (strtoul16 [x, y]).toUInt8.toNat = [tolower x, tolower y] := by
  have hpair : ∀ c ∈ [x, y], isxdigit c = true := by simp [hx, hy]
  have hlt : hexNumber [x, y] < 16 ^ 2 := hexNumber_lt hpair
  have hread : strtoul16 ([x, y] ++ []) = .ofNat (hexNumber [x, y]) :=
    strtoul16_group hpair (by simp) (by simp) rfl
  rw [List.append_nil] at hread
  have hnat : (strtoul16 [x, y]).toUInt8.toNat = hexNumber [x, y] := by
    rw [hread, UInt64.toNat_toUInt8, UInt64.toNat_ofNat']
    omega
  rw [hnat]
  exact group_text hpair

theorem parseNode_text (he : e.length = 12) (hx : ∀ x ∈ e, isxdigit x = true) :
    ((parseNode e).1.flatMap fun b => hexText hexDigit 2 b.toNat) = e.map tolower := by
  match e, he, hx with
  | [c0, c1, c2, c3, c4, c5, c6, c7, c8, c9, c10, c11], _, hx =>
    have hall : ∀ x y, x ∈ [c0, c1, c2, c3, c4, c5, c6, c7, c8, c9, c10, c11] →
        y ∈ [c0, c1, c2, c3, c4, c5, c6, c7, c8, c9, c10, c11] →
        hexText hexDigit 2 (strtoul16 [x, y]).toUInt8.toNat = [tolower x, tolower y] :=
      fun x y hx' hy' => pair_text (hx x hx') (hx y hy')
    have hbytes : (parseNode [c0, c1, c2, c3, c4, c5, c6, c7, c8, c9, c10, c11]).1 =
        [(strtoul16 [c0, c1]).toUInt8, (strtoul16 [c2, c3]).toUInt8, (strtoul16 [c4, c5]).toUInt8,
          (strtoul16 [c6, c7]).toUInt8, (strtoul16 [c8, c9]).toUInt8, (strtoul16 [c10, c11]).toUInt8] := rfl
    rw [hbytes]
    simp only [List.flatMap_cons, List.flatMap_nil, List.mem_cons, true_or, or_true, hall c0 c1, hall c2 c3, hall c4 c5,
      hall c6 c7, hall c8 c9, hall c10 c11]
    rfl

theorem drop_dash {k : ℕ} {x : UInt8} (h : a.length + 1 = k) (rest : Bytes) : (a ++ x :: rest).drop k = rest := by
  rw [← h, ← List.drop_drop, List.drop_left]
  rfl

theorem uuidParse_groups {text : Bytes} (h : Groups (cstr text) a b c d e) :
    uuidParse text = some (uuidPack ⟨.ofNat (hexNumber a), .ofNat (hexNumber b), .ofNat (hexNumber c),
      .ofNat (hexNumber d), parseNode e⟩) := by
  obtain ⟨hlen, hform⟩ := h.form
  obtain ⟨htext, ha, hb, hc, hd, he, hxa, hxb, hxc, hxd, hxe⟩ := h
  have h9 : (cstr text).drop 9 = b ++ 45 :: (c ++ 45 :: (d ++ 45 :: e)) := by
    rw [htext, grouped, drop_dash (by omega)]
  have h14 : (cstr text).drop 14 = c ++ 45 :: (d ++ 45 :: e) := by
    rw [← List.drop_drop (i := 5) (j := 9), h9, drop_dash (by omega)]
  have h19 : (cstr text).drop 19 = d ++ 45 :: e := by
    rw [← List.drop_drop (i := 5) (j := 14), h14, drop_dash (by omega)]
  have h24 : (cstr text).drop 24 = e := by
    rw [← List.drop_drop (i := 5) (j := 19), h19, drop_dash (by omega)]
  have hread : ∀ {g rest : Bytes}, (∀ x ∈ g, isxdigit x = true) → 2 ≤ g.length → g.length ≤ 8 →
      strtoul16 (g ++ 45 :: rest) = .ofNat (hexNumber g) := fun hx hlo hhi => strtoul16_group hx hlo hhi rfl
  simp only [uuidParse, hlen, hform, h9, h14, h19, h24, ne_eq, not_true, if_false, Bool.not_true, Bool.false_eq_true]
  rw [htext, grouped, hread hxa (by omega) (by omega), hread hxb (by omega) (by omega),
    hread hxc (by omega) (by omega), hread hxd (by omega) (by omega)]
  simp

theorem uuidUnparse_fields (uu : UuidT) : uuidUnparseLower uu =
    grouped (hexText hexDigit 8 (uuidUnpack uu).timeLow.toNat) (hexText hexDigit 4 (uuidUnpack uu).timeMid.toNat)
      (hexText hexDigit 4 (uuidUnpack uu).timeHiAndVersion.toNat) (hexText hexDigit 4 (uuidUnpack uu).clockSeq.toNat)
      ((uuidUnpack uu).node.1.flatMap fun b => hexText hexDigit 2 b.toNat) := by
  rw [uuidUnparseLower, uuidUnparseX]
  simp only [halves_text]

theorem uuidUnparse_groups {text : Bytes} (h : Groups (cstr text) a b c d e) :
    ∃ u, uuidParse text = some u ∧ uuidUnparseLower u = (cstr text).map tolower := by
  refine ⟨_, uuidParse_groups h, ?_⟩
  obtain ⟨htext, ha, hb, hc, hd, he, hxa, hxb, hxc, hxd, hxe⟩ := h
  have hgroup : ∀ {g : Bytes} {k : ℕ}, (∀ x ∈ g, isxdigit x = true) → g.length = k →
      hexNumber g < 16 ^ k ∧ hexText hexDigit k (hexNumber g) = g.map tolower := fun hx hlen =>
    hlen ▸ ⟨hexNumber_lt hx, group_text hx⟩
  obtain ⟨hna, hta⟩ := hgroup hxa ha
  obtain ⟨hnb, htb⟩ := hgroup hxb hb
  obtain ⟨hnc, htc⟩ := hgroup hxc hc
  obtain ⟨hnd, htd⟩ := hgroup hxd hd
  rw [uuidUnparse_fields, unpack_pack, htext]
  simp only [grouped, List.map_append, List.map_cons, parseNode_text he hxe, UInt32.toNat_ofNat', UInt16.toNat_ofNat']
  rw [Nat.mod_eq_of_lt (b := 2 ^ 32) hna, Nat.mod_eq_of_lt (b := 2 ^ 16) hnb, Nat.mod_eq_of_lt (b := 2 ^ 16) hnc,
    Nat.mod_eq_of_lt (b := 2 ^ 16) hnd, hta, htb, htc, htd]
  rfl

theorem hexNumber_text {k n : ℕ} (hn : n < 16 ^ k) : hexNumber (hexText hexDigit k n) = n := by
  have hlow : (hexText hexDigit k n).map tolower = hexText hexDigit k n := by
    rw [hexText, List.map_map]
    refine List.map_congr_left fun v hv => ?_
    have hv := Radix.lt_of_mem_pad (by omega) hv
    exact (tolower_eq_iff hv _).2 (hexDigit_spec v hv).1
  exact (group_of_text hn hlow).2.2

theorem nodeText_inj {m n : Bytes} (hlen : m.length = n.length)
    (h : (m.flatMap fun b => hexText hexDigit 2 b.toNat) = n.flatMap fun b => hexText hexDigit 2 b.toNat) : m = n := by
  induction m generalizing n with
  | nil => exact (List.length_eq_zero_iff.1 hlen.symm).symm
  | cons x m ih =>
    match n, hlen with
    | y :: n, hlen =>
      rw [List.flatMap_cons, List.flatMap_cons] at h
      obtain ⟨hfirst, hrest⟩ := List.append_inj h (by simp [hexText])
      have hnumber := congrArg hexNumber hfirst
      rw [hexNumber_text x.toNat_lt, hexNumber_text y.toNat_lt] at hnumber
      rw [UInt8.toNat_inj.1 hnumber, ih (Nat.succ_inj.1 hlen) hrest]

theorem node_of_text {node : NodeId} (h : e.map tolower = node.1.flatMap fun b => hexText hexDigit 2 b.toNat) :
    (∀ x ∈ e, isxdigit x = true) ∧ e.length = 12 ∧ parseNode e = node := by
  have hdigits : (node.1.flatMap fun b => hexText hexDigit 2 b.toNat) =
      (node.1.flatMap fun b => Radix.pad 16 2 b.toNat).map hexDigit := by
    rw [List.map_flatMap]
    rfl
  have hlow : ∀ v ∈ node.1.flatMap fun b => Radix.pad 16 2 b.toNat, v < 16 := by
    intro v hv
    obtain ⟨b, -, hb⟩ := List.mem_flatMap.1 hv
    exact Radix.lt_of_mem_pad (by omega) hb
  obtain ⟨hx, -⟩ := digits_of_map hlow (h.trans hdigits)
  have hlen : e.length = 12 := by
    have hlength := congrArg List.length h
    simpa [List.length_flatMap, hexText, node.2] using hlength
  refine ⟨hx, hlen, Subtype.ext (nodeText_inj ?_ ((parseNode_text hlen hx).trans h))⟩
  rw [(parseNode e).2, node.2]

theorem tolower_dash {c : UInt8} (h : tolower c = 45) : c = 45 := by
  unfold tolower at h
  split at h
  next hc =>
    have hnat := congrArg UInt8.toNat h
    simp only [UInt8.le_iff_toNat_le, UInt8.reduceToNat] at hc
    rw [UInt8.toNat_add] at hnat
    simp only [UInt8.reduceToNat] at hnat
    omega
  next => exact h

theorem grouped_of_text {s a' b' c' d' e' : Bytes} (h : s.map tolower = grouped a' b' c' d' e') :
    ∃ a b c d e, s = grouped a b c d e ∧ a.map tolower = a' ∧ b.map tolower = b' ∧ c.map tolower = c' ∧
      d.map tolower = d' ∧ e.map tolower = e' := by
  have hcut : ∀ {s g rest : Bytes}, s.map tolower = g ++ 45 :: rest →
      ∃ a s', s = a ++ 45 :: s' ∧ a.map tolower = g ∧ s'.map tolower = rest := by
    intro s g rest h
    obtain ⟨a, s1, rfl, ha, h1⟩ := List.map_eq_append_iff.1 h
    obtain ⟨x, s', rfl, hx, hs'⟩ := List.map_eq_cons_iff.1 h1
    exact ⟨a, s', by rw [tolower_dash hx], ha, hs'⟩
  obtain ⟨a, s1, rfl, ha, h1⟩ := hcut h
  obtain ⟨b, s2, rfl, hb, h2⟩ := hcut h1
  obtain ⟨c, s3, rfl, hc, h3⟩ := hcut h2
  obtain ⟨d, e, rfl, hd, he⟩ := hcut h3
  exact ⟨a, b, c, d, e, rfl, ha, hb, hc, hd, he⟩

theorem uuidParse_iff (text : Bytes) (u : UuidT) :
    uuidParse text = some u ↔ (cstr text).map tolower = uuidUnparseLower u := by
  constructor
  · intro h
    have hform : (cstr text).length = 36 ∧ formOk 0 (cstr text) = true := by
      unfold uuidParse at h
      grind
    obtain ⟨a, b, c, d, e, hgroups⟩ := groups_of_form hform.1 hform.2
    obtain ⟨v, hparse, hunparse⟩ := uuidUnparse_groups hgroups
    rw [← hunparse, Option.some.inj (hparse.symm.trans h)]
  · intro h
    rw [uuidUnparse_fields] at h
    obtain ⟨a, b, c, d, e, htext, ha, hb, hc, hd, he⟩ := grouped_of_text h
    obtain ⟨hxa, hla, hna⟩ := group_of_text (uuidUnpack u).timeLow.toNat_lt ha
    obtain ⟨hxb, hlb, hnb⟩ := group_of_text (uuidUnpack u).timeMid.toNat_lt hb
    obtain ⟨hxc, hlc, hnc⟩ := group_of_text (uuidUnpack u).timeHiAndVersion.toNat_lt hc
    obtain ⟨hxd, hld, hnd⟩ := group_of_text (uuidUnpack u).clockSeq.toNat_lt hd
    obtain ⟨hxe, hle, hne⟩ := node_of_text he
    have hgroups : Groups (cstr text) a b c d e := ⟨htext, hla, hlb, hlc, hld, hle, hxa, hxb, hxc, hxd, hxe⟩
    rw [uuidParse_groups hgroups, hna, hnb, hnc, hnd, hne, UInt32.ofNat_toNat, UInt16.ofNat_toNat, UInt16.ofNat_toNat,
      UInt16.ofNat_toNat]
    exact congrArg some (pack_unpack u)

theorem hexText_lower (digit : ℕ → UInt8) (hdigit : ∀ v < 16, tolower (digit v) = hexDigit v) (k n : ℕ) :
    (hexText digit k n).map tolower = hexText hexDigit k n := by
  rw [hexText, List.map_map]
  exact List.map_congr_left fun v hv => hdigit v (Radix.lt_of_mem_pad (by omega) hv)

theorem uuidUnparseX_lower (digit : ℕ → UInt8) (hdigit : ∀ v < 16, tolower (digit v) = hexDigit v) (u : UuidT) :
    (uuidUnparseX u digit).map tolower = uuidUnparseLower u := by
  have hdash : tolower 45 = 45 := rfl
  simp only [uuidUnparseLower, uuidUnparseX, grouped, List.map_append, List.map_cons, List.map_flatMap,
    hexText_lower digit hdigit, hdash]

theorem uuidUnparseX_nul (digit : ℕ → UInt8) (hdigit : ∀ v < 16, tolower (digit v) = hexDigit v) (u : UuidT) :
    0 ∉ uuidUnparseX u digit := by
  have hnul : ∀ v < 16, hexDigit v ≠ tolower 0 := by decide
  have hgroup : ∀ k n, 0 ∉ hexText digit k n := by
    intro k n h
    obtain ⟨v, hv, h0⟩ := List.mem_map.1 h
    have hlt := Radix.lt_of_mem_pad (by omega) hv
    exact hnul v hlt (by rw [← hdigit v hlt, h0])
  simp [uuidUnparseX, grouped, hgroup]

/-- What `uuid_parse` accepts, and that it reads back what the two `uuid_unparse` write before the NUL. -/
theorem uuid_text_roundtrip (u : UuidT) :
    (∀ text, uuidParse text = some u ↔ (cstr text).map tolower = uuidUnparseLower u) ∧
      ∀ rest, uuidParse (uuidUnparseLower u ++ 0 :: rest) = some u ∧
        uuidParse (uuidUnparseUpper u ++ 0 :: rest) = some u := by
  have hread : ∀ digit : ℕ → UInt8, (∀ v < 16, tolower (digit v) = hexDigit v) → ∀ rest,
      uuidParse (uuidUnparseX u digit ++ 0 :: rest) = some u := fun digit hdigit rest => by
    rw [uuidParse_iff, cstr_append_nul (uuidUnparseX_nul digit hdigit u), uuidUnparseX_lower digit hdigit]
  refine ⟨fun text => uuidParse_iff text u, fun rest => ⟨?_, ?_⟩⟩
  · exact hread hexDigit (by decide) rest
  · exact hread upperDigit (by decide) rest

end LearnCpp
