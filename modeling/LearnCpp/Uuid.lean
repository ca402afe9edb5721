import LearnCpp.Bytes
import LearnCpp.Lib.Radix

/-!
# UUIDs (`UUID/pack.c`, `UUID/unpack.c`, `uuid_compare` of `UUID/gen_uuid.c`)

`uuid_pack` and `uuid_unpack` go between the sixteen bytes of a `uuid_t` and the fields of a `struct uuid`. The fields
are the digits, of unequal sizes, of the number that the bytes spell (`beNat_pack`, `value_unpack`); so the two undo
each other, and to compare field by field is to compare the numbers (`uuid_compare_order`).
-/

namespace LearnCpp

abbrev UuidT := { b : Bytes // b.length = 16 }

abbrev NodeId := { b : Bytes // b.length = 6 }

/-- `struct uuid`. -/
structure Uuid where
  timeLow : UInt32
  timeMid : UInt16
  timeHiAndVersion : UInt16
  clockSeq : UInt16
  node : NodeId
deriving DecidableEq, Repr

def uuidUnpack : UuidT → Uuid
  | ⟨[p0, p1, p2, p3, p4, p5, p6, p7, p8, p9, n0, n1, n2, n3, n4, n5], _⟩ =>
    let tmp := p0.toUInt32
    let tmp := tmp <<< 8 ||| p1.toUInt32
    let tmp := tmp <<< 8 ||| p2.toUInt32
    let tmp := tmp <<< 8 ||| p3.toUInt32
    let timeLow := tmp
    let tmp := p4.toUInt32
    let tmp := tmp <<< 8 ||| p5.toUInt32
    let timeMid := tmp.toUInt16
    let tmp := p6.toUInt32
    let tmp := tmp <<< 8 ||| p7.toUInt32
    let timeHiAndVersion := tmp.toUInt16
    let tmp := p8.toUInt32
    let tmp := tmp <<< 8 ||| p9.toUInt32
    let clockSeq := tmp.toUInt16
    ⟨timeLow, timeMid, timeHiAndVersion, clockSeq, ⟨[n0, n1, n2, n3, n4, n5], rfl⟩⟩

def uuidPack (uu : Uuid) : UuidT :=
  let tmp := uu.timeLow
  let out3 := tmp.toUInt8
  let tmp := tmp >>> 8
  let out2 := tmp.toUInt8
  let tmp := tmp >>> 8
  let out1 := tmp.toUInt8
  let tmp := tmp >>> 8
  let out0 := tmp.toUInt8
  let tmp := uu.timeMid.toUInt32
  let out5 := tmp.toUInt8
  let tmp := tmp >>> 8
  let out4 := tmp.toUInt8
  let tmp := uu.timeHiAndVersion.toUInt32
  let out7 := tmp.toUInt8
  let tmp := tmp >>> 8
  let out6 := tmp.toUInt8
  let tmp := uu.clockSeq.toUInt32
  let out9 := tmp.toUInt8
  let tmp := tmp >>> 8
  let out8 := tmp.toUInt8
  ⟨[out0, out1, out2, out3, out4, out5, out6, out7, out8, out9] ++ uu.node.1, by
    rw [List.length_append, uu.node.2]
    rfl⟩

/-- `memcmp` of blocks of one length; of its value only the sign is documented. -/
def memcmp : Bytes → Bytes → Int
  | x :: a, y :: b => if x = y then memcmp a b else x.toNat - y.toNat
  | _, _ => 0

def uuidCompare (uu1 uu2 : UuidT) : Int :=
  let uuid1 := uuidUnpack uu1
  let uuid2 := uuidUnpack uu2
  if uuid1.timeLow ≠ uuid2.timeLow then if uuid1.timeLow < uuid2.timeLow then -1 else 1
  else if uuid1.timeMid ≠ uuid2.timeMid then if uuid1.timeMid < uuid2.timeMid then -1 else 1
  else if uuid1.timeHiAndVersion ≠ uuid2.timeHiAndVersion then
    if uuid1.timeHiAndVersion < uuid2.timeHiAndVersion then -1 else 1
  else if uuid1.clockSeq ≠ uuid2.clockSeq then if uuid1.clockSeq < uuid2.clockSeq then -1 else 1
  else memcmp uuid1.node.1 uuid2.node.1

/-! ### The number a UUID spells -/

theorem beNat_eq (b : Bytes) : beNat b = Radix.number 256 (b.map UInt8.toNat) := by
  rw [beNat, Radix.number, List.foldl_map]

theorem beNat_append (a b : Bytes) : beNat (a ++ b) = beNat a * 256 ^ b.length + beNat b := by
  simp only [beNat_eq, List.map_append, Radix.number_append, List.length_map]

theorem byte_lt {b : Bytes} : ∀ d ∈ b.map UInt8.toNat, d < 256 := by
  intro d hd
  obtain ⟨x, -, rfl⟩ := List.mem_map.1 hd
  exact x.toNat_lt

theorem beNat_lt (b : Bytes) : beNat b < 256 ^ b.length := by
  have h := Radix.number_lt (byte_lt (b := b))
  rwa [← beNat_eq, List.length_map] at h

theorem beNat_inj {a b : Bytes} (hlen : a.length = b.length) (h : beNat a = beNat b) : a = b := by
  rw [beNat_eq, beNat_eq] at h
  have hmap := Radix.number_inj byte_lt byte_lt (by simpa using hlen) h
  exact (List.map_inj_right fun x y => UInt8.toNat_inj.1).1 hmap

namespace Uuid

def value (uu : Uuid) : ℕ :=
  (((uu.timeLow.toNat * 2 ^ 16 + uu.timeMid.toNat) * 2 ^ 16 + uu.timeHiAndVersion.toNat) * 2 ^ 16 +
    uu.clockSeq.toNat) * 2 ^ 48 + beNat uu.node.1

end Uuid

theorem shift_in (tmp : UInt32) (p : UInt8) (h : tmp.toNat < 2 ^ 24) :
    (tmp <<< 8 ||| p.toUInt32).toNat = 256 * tmp.toNat + p.toNat := by
  have hp := p.toNat_lt
  have hshift : tmp.toNat <<< 8 = 2 ^ 8 * tmp.toNat := by rw [Nat.shiftLeft_eq, Nat.mul_comm]
  change (tmp.toNat <<< 8 % 2 ^ 32) ||| p.toNat = _
  rw [Nat.mod_eq_of_lt (by omega), hshift, ← Nat.two_pow_add_eq_or_of_lt hp]

theorem be_two (a b : UInt8) : (a.toUInt32 <<< 8 ||| b.toUInt32).toUInt16.toNat = beNat [a, b] := by
  have ha := a.toNat_lt
  have hb := b.toNat_lt
  have h := shift_in a.toUInt32 b (by rw [UInt8.toNat_toUInt32]; omega)
  rw [UInt32.toNat_toUInt16, h, UInt8.toNat_toUInt32]
  simp only [beNat, List.foldl_cons, List.foldl_nil]
  omega

theorem be_four (a b c d : UInt8) :
    (((a.toUInt32 <<< 8 ||| b.toUInt32) <<< 8 ||| c.toUInt32) <<< 8 ||| d.toUInt32).toNat = beNat [a, b, c, d] := by
  have ha := a.toNat_lt
  have hb := b.toNat_lt
  have hc := c.toNat_lt
  have h1 := shift_in a.toUInt32 b (by rw [UInt8.toNat_toUInt32]; omega)
  rw [UInt8.toNat_toUInt32] at h1
  have h2 := shift_in (a.toUInt32 <<< 8 ||| b.toUInt32) c (by omega)
  have h3 := shift_in ((a.toUInt32 <<< 8 ||| b.toUInt32) <<< 8 ||| c.toUInt32) d (by omega)
  rw [h3, h2, h1]
  simp only [beNat, List.foldl_cons, List.foldl_nil]
  omega

theorem value_unpack (u : UuidT) : (uuidUnpack u).value = beNat u.1 := by
  obtain ⟨b, hb⟩ := u
  match b, hb with
  | [p0, p1, p2, p3, p4, p5, p6, p7, p8, p9, n0, n1, n2, n3, n4, n5], hb =>
    simp only [uuidUnpack, Uuid.value, be_two, be_four]
    simp only [beNat, List.foldl_cons, List.foldl_nil]
    omega

theorem low_byte (tmp : UInt32) : tmp.toUInt8.toNat = tmp.toNat % 256 := rfl

theorem shift_out (tmp : UInt32) : (tmp >>> 8).toNat = tmp.toNat / 256 := Nat.shiftRight_eq_div_pow _ 8

theorem beNat_pack (uu : Uuid) : beNat (uuidPack uu).1 = uu.value := by
  have hl := uu.timeLow.toNat_lt
  have hm := uu.timeMid.toNat_lt
  have hv := uu.timeHiAndVersion.toNat_lt
  have hc := uu.clockSeq.toNat_lt
  rw [uuidPack, beNat_append, uu.node.2, Uuid.value]
  simp only [beNat, List.foldl_cons, List.foldl_nil, low_byte, shift_out, UInt16.toNat_toUInt32]
  omega

theorem value_inj {a b : Uuid} (h : a.value = b.value) : a = b := by
  obtain ⟨l, m, v, c, n⟩ := a
  obtain ⟨l', m', v', c', n'⟩ := b
  have hn := beNat_lt n.1
  have hn' := beNat_lt n'.1
  have hm := m.toNat_lt
  have hm' := m'.toNat_lt
  have hv := v.toNat_lt
  have hv' := v'.toNat_lt
  have hc := c.toNat_lt
  have hc' := c'.toNat_lt
  simp only [Uuid.value] at h
  rw [n.2] at hn
  rw [n'.2] at hn'
  obtain rfl : l = l' := UInt32.toNat_inj.1 (by omega)
  obtain rfl : m = m' := UInt16.toNat_inj.1 (by omega)
  obtain rfl : v = v' := UInt16.toNat_inj.1 (by omega)
  obtain rfl : c = c' := UInt16.toNat_inj.1 (by omega)
  obtain rfl : n = n' := Subtype.ext (beNat_inj (n.2.trans n'.2.symm) (by omega))
  rfl

theorem pack_unpack (u : UuidT) : uuidPack (uuidUnpack u) = u :=
  Subtype.ext (beNat_inj ((uuidPack _).2.trans u.2.symm) (by rw [beNat_pack, value_unpack]))

theorem unpack_pack (uu : Uuid) : uuidUnpack (uuidPack uu) = uu :=
  value_inj (by rw [value_unpack, beNat_pack])

/-! ### `uuid_compare` -/

theorem memcmp_sign {a b : Bytes} (hlen : a.length = b.length) :
    (memcmp a b < 0 ↔ beNat a < beNat b) ∧ (memcmp a b = 0 ↔ a = b) := by
  induction a generalizing b with
  | nil =>
    obtain rfl := List.length_eq_zero_iff.1 hlen.symm
    simp [memcmp]
  | cons x a ih =>
    match b, hlen with
    | y :: b, hlen =>
      have htail : a.length = b.length := Nat.succ_inj.1 hlen
      by_cases hxy : x = y
      · obtain ⟨hlt, heq⟩ := ih htail
        subst hxy
        have hcons : ∀ c : Bytes, beNat (x :: c) = x.toNat * 256 ^ c.length + beNat c := fun c => by
          simp [beNat_eq, Radix.number_cons]
        rw [memcmp, if_pos rfl, hlt, heq, hcons, hcons, htail]
        simp
      · have hne : x.toNat ≠ y.toNat := fun h => hxy (UInt8.toNat_inj.1 h)
        have hfirst : Radix.number 256 (x.toNat :: a.map UInt8.toNat) <
            Radix.number 256 (y.toNat :: b.map UInt8.toNat) ↔ x.toNat < y.toNat := Radix.number_lt_iff byte_lt byte_lt (by simpa using htail) hne
        rw [memcmp, if_neg hxy, beNat_eq, beNat_eq, List.map_cons, List.map_cons, hfirst, List.cons.injEq]
        constructor
        · omega
        · simp only [hxy, false_and, iff_false]
          omega

/-- What `UUCMP` returns where two fields differ. -/
theorem uucmp_sign {less same : Prop} [Decidable less] {m n : ℕ} (hless : less ↔ m < n) (hsame : ¬ same) :
    ((if less then (-1 : Int) else 1) < 0 ↔ m < n) ∧ ((if less then (-1 : Int) else 1) = 0 ↔ same) := by
  rw [← hless]
  split
  next h => exact ⟨iff_of_true (by omega) h, iff_of_false (by omega) hsame⟩
  next h => exact ⟨iff_of_false (by omega) h, iff_of_false (by omega) hsame⟩

theorem uuid_compare_order (uu1 uu2 : UuidT) :
    (uuidCompare uu1 uu2 < 0 ↔ beNat uu1.1 < beNat uu2.1) ∧ (uuidCompare uu1 uu2 = 0 ↔ uu1 = uu2) := by
  have hsame : uuidUnpack uu1 = uuidUnpack uu2 ↔ uu1 = uu2 :=
    ⟨fun h => by rw [← pack_unpack uu1, h, pack_unpack], fun h => h ▸ rfl⟩
  rw [← value_unpack uu1, ← value_unpack uu2, ← hsame, uuidCompare]
  obtain ⟨l, m, v, c, n⟩ := uuidUnpack uu1
  obtain ⟨l', m', v', c', n'⟩ := uuidUnpack uu2
  have hn := beNat_lt n.1
  have hn' := beNat_lt n'.1
  have hm := m.toNat_lt
  have hm' := m'.toNat_lt
  have hv := v.toNat_lt
  have hv' := v'.toNat_lt
  have hc := c.toNat_lt
  have hc' := c'.toNat_lt
  have hnode := memcmp_sign (n.2.trans n'.2.symm)
  rw [n.2] at hn
  rw [n'.2] at hn'
  simp only [Uuid.value]
  -- the first field that differs decides; those below it cannot make up for it
  by_cases hl : l = l'
  · subst hl
    by_cases hmid : m = m'
    · subst hmid
      by_cases hhi : v = v'
      · subst hhi
        by_cases hseq : c = c'
        · subst hseq
          simp only [ne_eq, not_true, if_false, Uuid.mk.injEq, true_and, hnode, Subtype.ext_iff, and_true]
          omega
        · have hne := mt UInt16.toNat_inj.1 hseq
          simp only [ne_eq, not_true, if_false, hseq, not_false_eq_true, if_true]
          exact uucmp_sign (by rw [UInt16.lt_iff_toNat_lt]; omega) (by simp [hseq])
      · have hne := mt UInt16.toNat_inj.1 hhi
        simp only [ne_eq, not_true, if_false, hhi, not_false_eq_true, if_true]
        exact uucmp_sign (by rw [UInt16.lt_iff_toNat_lt]; omega) (by simp [hhi])
    · have hne := mt UInt16.toNat_inj.1 hmid
      simp only [ne_eq, not_true, if_false, hmid, not_false_eq_true, if_true]
      exact uucmp_sign (by rw [UInt16.lt_iff_toNat_lt]; omega) (by simp [hmid])
  · have hne := mt UInt32.toNat_inj.1 hl
    simp only [ne_eq, hl, not_false_eq_true, if_true]
    exact uucmp_sign (by rw [UInt32.lt_iff_toNat_lt]; omega) (by simp [hl])

end LearnCpp
