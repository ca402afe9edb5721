import LearnCpp.Bytes
import LearnCpp.Lib.TagLoop
import LearnCpp.Lib.Varint

/-!
# The wire format below the generated code

The generated code of `protobuf_test` calls the protobuf library, which is not part of the repository, to write and
read single fields. `Wire` is what it calls, with what the format promises: what is written with a tag is read back
behind this tag, and sizes are lengths. `Wire.base128` is such a library, in the format's spelling.
-/

namespace LearnCpp

namespace Protobuf

open TagLoop

/-- The types of fields in the schema. -/
inductive FieldType
  | string
  | int32
  | uint32
  | bool
  | enum
deriving DecidableEq, Repr

/-- `std::string`, `int32`, `uint32`, `bool`, and an enumeration's `int`. -/
@[reducible] def FieldType.Value : FieldType → Type
  | .string => Bytes
  | .int32 => BitVec 32
  | .uint32 => BitVec 32
  | .bool => Bool
  | .enum => BitVec 32

def FieldType.default : (ty : FieldType) → ty.Value
  | .string => []
  | .int32 => 0
  | .uint32 => 0
  | .bool => false
  | .enum => 0

/-- The three low bits of a tag: 2 is a length and so many bytes, 0 a number. -/
def FieldType.wireType : FieldType → ℕ
  | .string => 2
  | _ => 0

/-- Lengths are `int`s. -/
def intMax : ℕ := 2 ^ 31 - 1

/-- A string that has a length. -/
def FieldType.Sized : (ty : FieldType) → ty.Value → Prop
  | .string, v => v.length ≤ intMax
  | _, _ => True

/-- A field the reader has no case for. Fixed-width values are kept as their bytes. -/
inductive UnknownField
  | varint (number : ℕ) (value : BitVec 64)
  | fixed32 (number : ℕ) (value : Bytes)
  | fixed64 (number : ℕ) (value : Bytes)
  | lengthDelimited (number : ℕ) (value : Bytes)
  | group (number : ℕ) (fields : List UnknownField)

structure Wire where
  /-- `WriteString`, `WriteInt32`, `WriteUInt32`, `WriteBool`, `WriteEnum`, and their `ToArray` versions. -/
  write : (ty : FieldType) → ℕ → ty.Value → Bytes
  /-- `StringSize`, `Int32Size`, `UInt32Size`, `kBoolSize`, `EnumSize`. -/
  size : (ty : FieldType) → ty.Value → ℕ
  /-- `WriteMessage`: number, cached size, and what the submessage writes. -/
  writeMessage : ℕ → ℕ → Bytes → Bytes
  /-- `MessageSize` of a submessage with this `ByteSizeLong`. -/
  messageSize : ℕ → ℕ
  /-- `SerializeUnknownFields`, for each field. -/
  writeUnknown : UnknownField → Bytes
  /-- `ComputeUnknownFieldsSize`, for each field. -/
  unknownSize : UnknownField → ℕ
  /-- `ReadTagWithCutoffNoLastTag`; tag 0 is `done` if `ConsumedEntireMessage` follows and `bad` otherwise. -/
  readTag : Bytes → Tag UInt8 ℕ
  /-- `ReadString`, `ReadPrimitive`. -/
  read : (ty : FieldType) → Bytes → Option (ty.Value × Bytes)
  /-- What `ReadMessage` lets a submessage read, and what is behind it. -/
  readLimit : Bytes → Option (Bytes × Bytes)
  /-- `SkipField` at a depth of nesting, behind this tag. -/
  skip : ℕ → ℕ → Bytes → Option (UnknownField × Bytes)
  readTag_nil : readTag [] = .done
  readTag_lt : ∀ {bs t rest}, readTag bs = .tag t rest → rest.length < bs.length
  read_le : ∀ {ty bs v rest}, read ty bs = some (v, rest) → rest.length ≤ bs.length
  readLimit_le : ∀ {bs body rest}, readLimit bs = some (body, rest) → rest.length ≤ bs.length
  skip_le : ∀ {d t bs u rest}, skip d t bs = some (u, rest) → rest.length ≤ bs.length
  read_write : ∀ {ty number v}, 0 < number → number < 16 → ty.Sized v → ∀ rest, ∃ bs,
    readTag (write ty number v ++ rest) = .tag (8 * number + ty.wireType) bs ∧ read ty bs = some (v, rest)
  length_write : ∀ {ty number v}, 0 < number → number < 16 → ty.Sized v → (write ty number v).length = 1 + size ty v
  size_bool : ∀ v, size .bool v = 1
  readLimit_writeMessage : ∀ {number body}, 0 < number → number < 16 → body.length ≤ intMax → ∀ rest, ∃ bs,
    readTag (writeMessage number body.length body ++ rest) = .tag (8 * number + 2) bs ∧ readLimit bs = some (body, rest)
  length_writeMessage : ∀ {number body}, 0 < number → number < 16 → body.length ≤ intMax →
    (writeMessage number body.length body).length = 1 + messageSize body.length
  le_messageSize : ∀ n, n ≤ messageSize n
  le_size_string : ∀ v : Bytes, v.length ≤ size .string v
  /-- A skipped field is written so that it is skipped again. -/
  skip_writeUnknown : ∀ {d t bs u rest}, skip d t bs = some (u, rest) → ∀ rest', ∃ bs',
    readTag (writeUnknown u ++ rest') = .tag t bs' ∧ skip d t bs' = some (u, rest')
  length_writeUnknown : ∀ u, (writeUnknown u).length = unknownSize u
  /-- Enumerators are written as numbers of 64 bits. -/
  writeUnknown_varint : ∀ number v, writeUnknown (.varint number (v.signExtend 64)) = write .enum number v

/-! ### A library in base 128 -/

namespace Base128

/-- Numbers below `2 ^ 64`, in ten bytes at most. -/
def varint (n : ℕ) : Bytes := Varint.encode 9 n

def readVarint (bs : Bytes) : Option (ℕ × Bytes) := Varint.decode 9 bs

def payload : (ty : FieldType) → ty.Value → Bytes
  | .string, v => varint v.length ++ v
  | .int32, v => varint (v.signExtend 64).toNat
  | .uint32, v => varint v.toNat
  | .bool, v => varint v.toNat
  | .enum, v => varint (v.signExtend 64).toNat

def tagged (number wireType : ℕ) (bs : Bytes) : Bytes := varint (8 * number + wireType) ++ bs

/-- Groups, which nothing in the schema writes, are left out here and below. -/
def writeUnknown : UnknownField → Bytes
  | .varint number v => tagged number 0 (varint v.toNat)
  | .fixed32 number v => tagged number 5 v
  | .fixed64 number v => tagged number 1 v
  | .lengthDelimited number v => tagged number 2 (varint v.length ++ v)
  | .group _ _ => []

def readTag : Bytes → Tag UInt8 ℕ
  | [] => .done
  | b :: bs =>
    match readVarint (b :: bs) with
    | none => .bad
    | some (t, rest) => if t % 2 ^ 32 = 0 then .bad else .tag (t % 2 ^ 32) rest

/-- `n` bytes, if they are there. -/
def readRaw (n : ℕ) (bs : Bytes) : Option (Bytes × Bytes) :=
  if n ≤ intMax ∧ n ≤ bs.length then some (bs.take n, bs.drop n) else none

def readSized (bs : Bytes) : Option (Bytes × Bytes) := (readVarint bs).bind fun p => readRaw p.1 p.2

def read : (ty : FieldType) → Bytes → Option (ty.Value × Bytes)
  | .string, bs => readSized bs
  | .int32, bs => (readVarint bs).map fun p => (BitVec.ofNat 32 p.1, p.2)
  | .uint32, bs => (readVarint bs).map fun p => (BitVec.ofNat 32 p.1, p.2)
  | .bool, bs => (readVarint bs).map fun p => (BitVec.ofNat 64 p.1 != 0, p.2)
  | .enum, bs => (readVarint bs).map fun p => (BitVec.ofNat 32 p.1, p.2)

/-- A submessage may end with the input, before its length. -/
def readLimit (bs : Bytes) : Option (Bytes × Bytes) :=
  (readVarint bs).bind fun p => if p.1 ≤ intMax then some (p.2.take p.1, p.2.drop p.1) else none

def skipValue (number wireType : ℕ) (bs : Bytes) : Option (UnknownField × Bytes) :=
  match wireType with
  | 0 => (readVarint bs).map fun p => (.varint number (BitVec.ofNat 64 p.1), p.2)
  | 1 => (readRaw 8 bs).map fun p => (.fixed64 number p.1, p.2)
  | 2 => (readSized bs).map fun p => (.lengthDelimited number p.1, p.2)
  | 5 => (readRaw 4 bs).map fun p => (.fixed32 number p.1, p.2)
  | _ => none

def skip (t : ℕ) (bs : Bytes) : Option (UnknownField × Bytes) :=
  if 0 < t / 8 ∧ t < 2 ^ 32 then skipValue (t / 8) (t % 8) bs else none

variable {n t number wireType : ℕ} {bs rest v : Bytes} {u : UnknownField}

theorem readVarint_varint (h : n < 2 ^ 64) (rest : Bytes) : readVarint (varint n ++ rest) = some (n, rest) :=
  Varint.decode_encode (Nat.lt_trans h (by decide)) rest

theorem length_lt_of_readVarint (h : readVarint bs = some (n, rest)) : rest.length < bs.length :=
  Varint.length_lt_of_decode h

theorem readTag_varint (hpos : 0 < t) (hlt : t < 2 ^ 32) (rest : Bytes) : readTag (varint t ++ rest) = .tag t rest := by
  have hread := readVarint_varint (Nat.lt_trans hlt (by decide : 2 ^ 32 < 2 ^ 64)) rest
  rcases hbs : varint t ++ rest with _ | ⟨b, bs⟩
  · rw [hbs] at hread
    cases hread
  · rw [hbs] at hread
    rw [readTag, hread]
    simp only [Nat.mod_eq_of_lt hlt]
    exact if_neg (by omega)

theorem readTag_lt (h : readTag bs = .tag t rest) : rest.length < bs.length := by
  rcases bs with _ | ⟨b, bs⟩
  · cases h
  · rw [readTag] at h
    rcases hread : readVarint (b :: bs) with _ | ⟨n, r⟩
    · rw [hread] at h
      cases h
    · rw [hread] at h
      simp only at h
      split_ifs at h
      cases h
      exact length_lt_of_readVarint hread

theorem readRaw_append (h : v.length ≤ intMax) (rest : Bytes) : readRaw v.length (v ++ rest) = some (v, rest) := by
  rw [readRaw, if_pos ⟨h, by simp⟩, List.take_left, List.drop_left]

theorem readRaw_le (h : readRaw n bs = some (v, rest)) : v.length = n ∧ n ≤ intMax ∧ rest.length ≤ bs.length := by
  rw [readRaw] at h
  split_ifs at h with hn
  cases h
  refine ⟨by rw [List.length_take]; omega, hn.1, by rw [List.length_drop]; omega⟩

theorem readSized_append (h : v.length ≤ intMax) (rest : Bytes) :
    readSized (varint v.length ++ v ++ rest) = some (v, rest) := by
  have hlt : v.length < 2 ^ 64 := by
    have hmax : intMax < 2 ^ 64 := by decide
    omega
  rw [List.append_assoc, readSized, readVarint_varint hlt]
  exact readRaw_append h rest

theorem readSized_le (h : readSized bs = some (v, rest)) : v.length ≤ intMax ∧ rest.length ≤ bs.length := by
  obtain ⟨⟨n, r⟩, hread, hraw⟩ := Option.bind_eq_some_iff.1 h
  have hlt := length_lt_of_readVarint hread
  obtain ⟨rfl, hle, hrest⟩ := readRaw_le hraw
  exact ⟨hle, Nat.le_trans hrest (Nat.le_of_lt hlt)⟩

theorem read_le {ty : FieldType} {v : ty.Value} (h : read ty bs = some (v, rest)) : rest.length ≤ bs.length := by
  cases ty with
  | string => exact (readSized_le h).2
  | int32 | uint32 | bool | enum =>
    obtain ⟨p, hread, heq⟩ := Option.map_eq_some_iff.1 h
    cases heq
    exact Nat.le_of_lt (length_lt_of_readVarint hread)

theorem readLimit_le (h : readLimit bs = some (v, rest)) : rest.length ≤ bs.length := by
  obtain ⟨⟨n, r⟩, hread, hbody⟩ := Option.bind_eq_some_iff.1 h
  have hlt := length_lt_of_readVarint hread
  dsimp only at hbody
  split_ifs at hbody
  cases hbody
  rw [List.length_drop]
  omega

theorem ofNat_signExtend (v : BitVec 32) : BitVec.ofNat 32 (v.signExtend 64).toNat = v := by
  rw [BitVec.ofNat_toNat]
  refine BitVec.eq_of_getLsbD_eq fun i hi => ?_
  have hlt : i < 64 := by omega
  rw [BitVec.getLsbD_setWidth, BitVec.getLsbD_signExtend]
  simp [hi, hlt]

theorem read_payload {ty : FieldType} {v : ty.Value} (hv : ty.Sized v) (rest : Bytes) :
    read ty (payload ty v ++ rest) = some (v, rest) := by
  cases ty with
  | string => exact readSized_append hv rest
  | int32 => rw [read, payload, readVarint_varint (BitVec.isLt _), Option.map_some, ofNat_signExtend]
  | uint32 =>
    rw [read, payload, readVarint_varint (Nat.lt_trans (BitVec.isLt v) (by decide)), Option.map_some]
    simp
  | bool => cases v <;> rfl
  | enum => rw [read, payload, readVarint_varint (BitVec.isLt _), Option.map_some, ofNat_signExtend]

theorem length_tagged (wireType : ℕ) (hpos : 0 < number) (hlt : number < 16) (hwire : wireType < 8) (v : Bytes) :
    (tagged number wireType v).length = 1 + v.length := by
  rw [tagged, varint, Varint.encode_of_lt (by omega), List.length_append]
  rfl

theorem readTag_tagged (wireType : ℕ) (hpos : 0 < number) (hlt : number < 16) (hwire : wireType < 8)
    (v rest : Bytes) : readTag (tagged number wireType v ++ rest) = .tag (8 * number + wireType) (v ++ rest) := by
  rw [tagged, List.append_assoc]
  exact readTag_varint (by omega) (by omega) _

theorem read_write {ty : FieldType} {v : ty.Value} (hpos : 0 < number) (hlt : number < 16) (hv : ty.Sized v)
    (rest : Bytes) : ∃ bs, readTag (tagged number ty.wireType (payload ty v) ++ rest) =
      .tag (8 * number + ty.wireType) bs ∧ read ty bs = some (v, rest) :=
  ⟨_, readTag_tagged _ hpos hlt (by cases ty <;> decide) _ _, read_payload hv rest⟩

theorem readLimit_writeMessage (hpos : 0 < number) (hlt : number < 16) (hle : v.length ≤ intMax) (rest : Bytes) :
    ∃ bs, readTag (tagged number 2 (varint v.length ++ v) ++ rest) = .tag (8 * number + 2) bs ∧
      readLimit bs = some (v, rest) := by
  refine ⟨_, readTag_tagged 2 hpos hlt (by decide) _ _, ?_⟩
  have hmax : intMax < 2 ^ 64 := by decide
  rw [List.append_assoc, readLimit, readVarint_varint (by omega), Option.bind_some, if_pos hle, List.take_left,
    List.drop_left]

/-- What is skipped is behind its tag when it is written, and is skipped there again. -/
theorem skipValue_cases (h : skipValue number wireType bs = some (u, rest)) : rest.length ≤ bs.length ∧
    ∃ v, writeUnknown u = tagged number wireType v ∧
      ∀ rest', skipValue number wireType (v ++ rest') = some (u, rest') := by
  unfold skipValue at h ⊢
  split at h
  · obtain ⟨p, hread, heq⟩ := Option.map_eq_some_iff.1 h
    cases heq
    refine ⟨Nat.le_of_lt (length_lt_of_readVarint hread), _, rfl, fun rest' => ?_⟩
    rw [readVarint_varint (BitVec.isLt _), Option.map_some, BitVec.ofNat_toNat, BitVec.setWidth_eq]
  · obtain ⟨p, hraw, heq⟩ := Option.map_eq_some_iff.1 h
    cases heq
    obtain ⟨hlen, hmax, hle⟩ := readRaw_le hraw
    refine ⟨hle, _, rfl, fun rest' => ?_⟩
    rw [← hlen, readRaw_append (hlen ▸ hmax)]
    rfl
  · obtain ⟨p, hraw, heq⟩ := Option.map_eq_some_iff.1 h
    cases heq
    obtain ⟨hmax, hle⟩ := readSized_le hraw
    refine ⟨hle, _, rfl, fun rest' => ?_⟩
    rw [readSized_append hmax]
    rfl
  · obtain ⟨p, hraw, heq⟩ := Option.map_eq_some_iff.1 h
    cases heq
    obtain ⟨hlen, hmax, hle⟩ := readRaw_le hraw
    refine ⟨hle, _, rfl, fun rest' => ?_⟩
    rw [← hlen, readRaw_append (hlen ▸ hmax)]
    rfl
  · cases h

theorem skip_le (h : skip t bs = some (u, rest)) : rest.length ≤ bs.length := by
  unfold skip at h
  split_ifs at h
  exact (skipValue_cases h).1

theorem skip_writeUnknown (h : skip t bs = some (u, rest)) (rest' : Bytes) :
    ∃ bs', readTag (writeUnknown u ++ rest') = .tag t bs' ∧ skip t bs' = some (u, rest') := by
  unfold skip at h ⊢
  split_ifs at h ⊢ with ht
  obtain ⟨-, v, hwrite, hskip⟩ := skipValue_cases h
  refine ⟨v ++ rest', ?_, hskip rest'⟩
  rw [hwrite, tagged, Nat.div_add_mod, List.append_assoc]
  exact readTag_varint (by omega) ht.2 _

end Base128

/-- The format itself, without groups and without a limit on the depth. -/
def Wire.base128 : Wire where
  write ty number v := Base128.tagged number ty.wireType (Base128.payload ty v)
  size ty v := (Base128.payload ty v).length
  writeMessage number size body := Base128.tagged number 2 (Base128.varint size ++ body)
  messageSize n := (Base128.varint n).length + n
  writeUnknown := Base128.writeUnknown
  unknownSize u := (Base128.writeUnknown u).length
  readTag := Base128.readTag
  read := Base128.read
  readLimit := Base128.readLimit
  skip _ := Base128.skip
  readTag_nil := rfl
  readTag_lt := Base128.readTag_lt
  read_le := Base128.read_le
  readLimit_le := Base128.readLimit_le
  skip_le := Base128.skip_le
  read_write hpos hlt hv rest := Base128.read_write hpos hlt hv rest
  length_write {ty _ _} hpos hlt _ := Base128.length_tagged _ hpos hlt (by cases ty <;> decide) _
  size_bool v := by cases v <;> rfl
  readLimit_writeMessage hpos hlt hle rest := Base128.readLimit_writeMessage hpos hlt hle rest
  length_writeMessage hpos hlt _ := (Base128.length_tagged 2 hpos hlt (by decide) _).trans (by rw [List.length_append])
  le_messageSize n := Nat.le_add_left ..
  le_size_string v := by
    rw [Base128.payload, List.length_append]
    exact Nat.le_add_left ..
  skip_writeUnknown h rest' := Base128.skip_writeUnknown h rest'
  length_writeUnknown u := rfl
  writeUnknown_varint number v := rfl

end Protobuf

end LearnCpp
