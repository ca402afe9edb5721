import Mathlib.Algebra.BigOperators.Group.List.Basic
import Mathlib.Algebra.Group.Pi.Basic
import LearnCpp.Lib.Flags
import LearnCpp.Lib.LastWins
import LearnCpp.ProtobufWire

/-!
# Generated messages (`protobuf_test/LT.Interaction.pb.h`, `LT.Interaction.pb.cc`)

The generated classes have the same functions, each with the field numbers, masks and members of its class. The
functions are here, with these as parameters; a class is its own values (`MessageClass`). What a message means is a
`View`: for each member the value that was set last, and the fields that were not known. Views are multiplied by
letting the right one win.
-/

namespace LearnCpp

namespace Protobuf

open TagLoop

/-- The members of a class, their masks in `_has_bits_`, and the `IsValid` of its enumeration. -/
structure Layout where
  Member : Type
  [decEq : DecidableEq Member]
  ty : Member → FieldType
  mask : Member → BitVec 32
  isValid : (x : Member) → (ty x).Value → Bool

instance (L : Layout) : DecidableEq L.Member := L.decEq

/-- An object: `_has_bits_`, `_cached_size_`, the unknown fields of `_internal_metadata_`, and its members. -/
structure Msg (L : Layout) where
  hasBits : BitVec 32
  cachedSize : ℕ
  unknownFields : List UnknownField
  val : (x : L.Member) → (L.ty x).Value

/-! ### Accessors -/

namespace Msg

variable {L : Layout}

/-- The constructor (`SharedCtor`). -/
def new (L : Layout) : Msg L := ⟨0, 0, [], fun x => (L.ty x).default⟩

instance : Inhabited (Msg L) := ⟨new L⟩

def has (m : Msg L) (x : L.Member) : Bool := Flags.test m.hasBits (L.mask x)

def setHas (x : L.Member) (m : Msg L) : Msg L := { m with hasBits := m.hasBits ||| L.mask x }

def clearHas (x : L.Member) (m : Msg L) : Msg L := { m with hasBits := m.hasBits &&& ~~~L.mask x }

def assign (x : L.Member) (v : (L.ty x).Value) (m : Msg L) : Msg L := { m with val := Function.update m.val x v }

/-- `set_x`; `mutable_x` and an assignment. -/
def set (x : L.Member) (v : (L.ty x).Value) (m : Msg L) : Msg L := (m.setHas x).assign x v

/-- `clear_x`. -/
def clear (x : L.Member) (m : Msg L) : Msg L := (m.assign x (L.ty x).default).clearHas x

def addUnknown (u : UnknownField) (m : Msg L) : Msg L := { m with unknownFields := m.unknownFields ++ [u] }

/-- The copy constructor: strings that are there, and all numbers. -/
def copy (src : Msg L) : Msg L where
  hasBits := src.hasBits
  cachedSize := 0
  unknownFields := src.unknownFields
  val x := if L.ty x = .string ∧ src.has x = false then (L.ty x).default else src.val x

end Msg

/-! ### Cases of a `switch` -/

section

variable {α : Type} {wireType : α → ℕ} {switch : List (ℕ × ℕ × α)} {t number expected : ℕ} {x : α}

/-- The case of a tag, with its number. Tags above the cutoff 127 and tags that are not the expected one have none, as
those without a number in the `switch`. -/
def dispatch (switch : List (ℕ × ℕ × α)) (t : ℕ) : Option (ℕ × α) :=
  (switch.find? (·.1 == t / 8)).bind fun c => if t ≤ 127 ∧ t % 256 = c.2.1 % 256 then some (c.1, c.2.2) else none

/-- The numbers are different, fit a tag of one byte, and the expected tags are theirs. -/
structure Dispatches (wireType : α → ℕ) (switch : List (ℕ × ℕ × α)) : Prop where
  tag : ∀ c ∈ switch, 0 < c.1 ∧ c.1 < 16 ∧ c.2.1 = 8 * c.1 + wireType c.2.2
  find : ∀ c ∈ switch, switch.find? (·.1 == c.1) = some c

/-- The tag of a case selects it. -/
theorem Dispatches.dispatch_of_mem (hs : Dispatches wireType switch) (h : (number, expected, x) ∈ switch)
    (hwire : wireType x < 8) : dispatch switch (8 * number + wireType x) = some (number, x) := by
  obtain ⟨hpos, hlt, htag⟩ := hs.tag _ h
  dsimp only at hpos hlt htag
  rw [dispatch, show (8 * number + wireType x) / 8 = number by omega, hs.find _ h, Option.bind_some]
  exact if_pos ⟨by omega, by rw [htag]⟩

/-- A tag that selects a case is the tag of this case. -/
theorem Dispatches.mem_of_dispatch (hs : Dispatches wireType switch) (h : dispatch switch t = some (number, x))
    (hwire : wireType x < 8) : (number, t, x) ∈ switch ∧ t = 8 * number + wireType x := by
  obtain ⟨⟨n, expected, y⟩, hfind, hc⟩ := Option.bind_eq_some_iff.1 h
  dsimp only at hc
  split_ifs at hc with htag
  cases hc
  have hmem := List.mem_of_find?_eq_some hfind
  obtain ⟨hpos, hlt, hexp⟩ := hs.tag _ hmem
  dsimp only at hpos hlt hexp
  have heq : t = expected := by omega
  exact ⟨heq ▸ hmem, heq.trans hexp⟩

end

theorem FieldType.wireType_lt (ty : FieldType) : ty.wireType < 8 := by cases ty <;> decide

/-! ### Functions of a class -/

/-- One `if` of `MergeFrom`: members that are assigned if they are there, with `set_has_x` or without, and
`_has_bits_[0] |= cached_has_bits` at the end or not. -/
structure MergeBlock (L : Layout) where
  gate : BitVec 32
  fields : List (BitVec 32 × L.Member × Bool)
  orBits : Bool

/-- One part of `Clear`: members cleared each if it is there, members zeroed together, members zeroed always. -/
inductive ClearBlock (L : Layout)
  | each (gate : BitVec 32) (fields : List (BitVec 32 × L.Member))
  | all (gate : BitVec 32) (fields : List L.Member)
  | always (fields : List L.Member)

/-- Sums of `ByteSizeLong`: required fields that are summed without a test if all are there, and fields that are
tested one by one, under a mask or not. -/
structure SizeTable (L : Layout) where
  required : BitVec 32
  requiredFields : List L.Member
  blocks : List (Option (BitVec 32) × List L.Member)

/-- A class without submessages. -/
structure MessageClass extends Layout where
  /-- The `switch` of `MergePartialFromCodedStream`: number, tag and member of each case. -/
  switch : List (ℕ × ℕ × Member)
  /-- `SerializeWithCachedSizes`: mask, number and member of each statement. -/
  writes : List (BitVec 32 × ℕ × Member)
  sizes : SizeTable toLayout
  /-- The mask of `IsInitialized`. -/
  required : BitVec 32
  merges : List (MergeBlock toLayout)
  clears : List (ClearBlock toLayout)

namespace Msg

variable {L : Layout}

def mergeEntry (src : Msg L) (m : Msg L) (e : BitVec 32 × L.Member × Bool) : Msg L :=
  if Flags.test src.hasBits e.1 then (if e.2.2 then m.setHas e.2.1 else m).assign e.2.1 (src.val e.2.1) else m

def mergeBlock (src : Msg L) (m : Msg L) (b : MergeBlock L) : Msg L :=
  if Flags.test src.hasBits b.gate then
    let m := b.fields.foldl (mergeEntry src) m
    if b.orBits then { m with hasBits := m.hasBits ||| src.hasBits } else m
  else m

def mergeUnknown (src : Msg L) (m : Msg L) : Msg L :=
  { m with unknownFields := m.unknownFields ++ src.unknownFields }

def mergeBlocks (bs : List (MergeBlock L)) (src m : Msg L) : Msg L := bs.foldl (mergeBlock src) m

def clearEntry (bits : BitVec 32) (m : Msg L) (e : BitVec 32 × L.Member) : Msg L :=
  if Flags.test bits e.1 then m.assign e.2 (L.ty e.2).default else m

def zero (m : Msg L) (x : L.Member) : Msg L := m.assign x (L.ty x).default

/-- `bits` is `cached_has_bits`. -/
def clearBlock (bits : BitVec 32) (m : Msg L) : ClearBlock L → Msg L
  | .each gate fields => if Flags.test bits gate then fields.foldl (clearEntry bits) m else m
  | .all gate fields => if Flags.test bits gate then fields.foldl zero m else m
  | .always fields => fields.foldl zero m

/-- `_has_bits_.Clear(); _internal_metadata_.Clear();`. -/
def clearBlocks (bs : List (ClearBlock L)) (m : Msg L) : Msg L :=
  { bs.foldl (clearBlock m.hasBits) m with hasBits := 0, unknownFields := [] }

/-- `1 +` the size of the field; `1 + 1` for `bool`. -/
def fieldSize (w : Wire) (m : Msg L) (x : L.Member) : ℕ := 1 + w.size (L.ty x) (m.val x)

def sizeIfHas (w : Wire) (m : Msg L) (x : L.Member) : ℕ := if m.has x then m.fieldSize w x else 0

def blockSize (w : Wire) (m : Msg L) (b : Option (BitVec 32) × List L.Member) : ℕ :=
  if b.1.all (Flags.test m.hasBits) then (b.2.map (m.sizeIfHas w)).sum else 0

def unknownSize (w : Wire) (m : Msg L) : ℕ := (m.unknownFields.map w.unknownSize).sum

/-- `RequiredFieldsByteSizeFallback` where not all are there. -/
def tableSize (w : Wire) (t : SizeTable L) (m : Msg L) : ℕ :=
  (if (m.hasBits &&& t.required) ^^^ t.required = 0 then (t.requiredFields.map (m.fieldSize w)).sum
    else (t.requiredFields.map (m.sizeIfHas w)).sum) + (t.blocks.map (m.blockSize w)).sum

def writeField (w : Wire) (m : Msg L) (e : BitVec 32 × ℕ × L.Member) : Bytes :=
  if Flags.test m.hasBits e.1 then w.write (L.ty e.2.2) e.2.1 (m.val e.2.2) else []

def writeUnknown (w : Wire) (m : Msg L) : Bytes := (m.unknownFields.map w.writeUnknown).flatten

/-- What `AddVarint` gets of an enumerator that is not valid. -/
def addVarint : (ty : FieldType) → ty.Value → BitVec 64
  | .enum, v => v.signExtend 64
  | _, _ => 0

/-- A case of the `switch`: the value is read and set, an enumerator only if it is valid. -/
def readField (w : Wire) (number : ℕ) (x : L.Member) (bs : Bytes) (m : Msg L) : Option (Msg L × Bytes) :=
  (w.read (L.ty x) bs).map fun p =>
    if L.isValid x p.1 then (m.set x p.1, p.2) else (m.addUnknown (.varint number (addVarint _ p.1)), p.2)

/-- `handle_unusual`. -/
def skipField (w : Wire) (depth tag : ℕ) (bs : Bytes) (m : Msg L) : Option (Msg L × Bytes) :=
  (w.skip depth tag bs).map fun p => (m.addUnknown p.1, p.2)

end Msg

namespace MessageClass

variable (C : MessageClass)

abbrev Object := Msg C.toLayout

def mergeFrom (src m : C.Object) : C.Object := Msg.mergeBlocks C.merges src (src.mergeUnknown m)

def clear (m : C.Object) : C.Object := m.clearBlocks C.clears

/-- `CopyFrom` of another object, also `operator=`. -/
def copyFrom (src m : C.Object) : C.Object := C.mergeFrom src (C.clear m)

def isInitialized (m : C.Object) : Bool := m.hasBits &&& C.required == C.required

def byteSize (w : Wire) (m : C.Object) : ℕ := m.unknownSize w + m.tableSize w C.sizes

/-- `ByteSizeLong` leaves the size in `_cached_size_`, an `int`. -/
def byteSizeLong (w : Wire) (m : C.Object) : ℕ × C.Object :=
  (C.byteSize w m, { m with cachedSize := C.byteSize w m % 2 ^ 32 })

/-- Also `InternalSerializeWithCachedSizesToArray`, which has the same statements. -/
def serializeWithCachedSizes (w : Wire) (m : C.Object) : Bytes :=
  (C.writes.map (m.writeField w)).flatten ++ m.writeUnknown w

def parseField (w : Wire) (depth tag : ℕ) (bs : Bytes) (m : C.Object) : Option (C.Object × Bytes) :=
  match dispatch C.switch tag with
  | some (number, x) => m.readField w number x bs
  | none => m.skipField w depth tag bs

/-- `MergePartialFromCodedStream`, and what `ConsumedEntireMessage` says after it. -/
def mergePartialFromCodedStream (w : Wire) (depth : ℕ) (bs : Bytes) (m : C.Object) : Option (C.Object × Bool) :=
  loop w.readTag (C.parseField w depth) (bs.length + 1) bs m

end MessageClass

/-! ### Views -/

@[ext] structure View (L : Layout) where
  field : (x : L.Member) → LastWins (L.ty x).Value
  unknown : List UnknownField

namespace View

variable {L : Layout}

instance : One (View L) := ⟨⟨1, []⟩⟩

instance : Mul (View L) := ⟨fun a b => ⟨a.field * b.field, a.unknown ++ b.unknown⟩⟩

@[simp] theorem field_one : (1 : View L).field = 1 := rfl

@[simp] theorem unknown_one : (1 : View L).unknown = [] := rfl

@[simp] theorem field_mul (a b : View L) : (a * b).field = a.field * b.field := rfl

@[simp] theorem unknown_mul (a b : View L) : (a * b).unknown = a.unknown ++ b.unknown := rfl

instance : Monoid (View L) where
  mul_assoc a b c := View.ext (mul_assoc _ _ _) (List.append_assoc ..)
  one_mul a := View.ext (one_mul _) rfl
  mul_one a := View.ext (mul_one _) (List.append_nil _)

/-- One member is set. -/
def single (x : L.Member) (v : (L.ty x).Value) : View L := ⟨Pi.mulSingle x (LastWins.set v), []⟩

@[simp] theorem field_single_self (x : L.Member) (v : (L.ty x).Value) : (single x v).field x = LastWins.set v :=
  Pi.mulSingle_eq_same ..

theorem field_single_of_ne {x y : L.Member} (h : y ≠ x) (v : (L.ty x).Value) : (single x v).field y = 1 :=
  Pi.mulSingle_eq_of_ne h _

def unknownField (u : UnknownField) : View L := ⟨1, [u]⟩

def erase (x : L.Member) (a : View L) : View L := { a with field := Function.update a.field x 1 }

end View

namespace Msg

variable {L : Layout} {m : Msg L} {x y : L.Member} {v : (L.ty x).Value} {u : UnknownField}

def field (m : Msg L) (x : L.Member) : LastWins (L.ty x).Value := if m.has x then LastWins.set (m.val x) else 1

def view (m : Msg L) : View L := ⟨m.field, m.unknownFields⟩

end Msg

/-- The masks are one bit each, no two the same, and only enumerators are checked. -/
structure Layout.Coherent (L : Layout) : Prop where
  single : ∀ x, Flags.Single (L.mask x)
  inj : ∀ x y, L.mask x = L.mask y → x = y
  enum : ∀ x v, L.ty x ≠ .enum → L.isValid x v = true

/-- Members that are not there have their default values, enumerators are valid, and `K` of the unknown fields. -/
structure Msg.Wf {L : Layout} (K : UnknownField → Prop) (m : Msg L) : Prop where
  val_of_not_has : ∀ x, m.has x = false → m.val x = (L.ty x).default
  valid : ∀ x, m.has x = true → L.isValid x (m.val x) = true
  unknown : ∀ u ∈ m.unknownFields, K u

/-- From `m` to `m'` the view is multiplied by `e`, and what holds of every object still holds. -/
def Msg.Adds {L : Layout} (K : UnknownField → Prop) (e : View L) (m m' : Msg L) : Prop :=
  m'.view = m.view * e ∧ (m.Wf K → m'.Wf K)

namespace Msg

variable {L : Layout} {m : Msg L} {x y : L.Member} {v : (L.ty x).Value} {u : UnknownField} {K : UnknownField → Prop}

theorem has_set_self (hL : L.Coherent) : (m.set x v).has x = true := by
  rw [has, set, assign, setHas, Flags.test_or (hL.single x), Flags.test_self (hL.single x), Bool.or_true]

theorem has_set_of_ne (hL : L.Coherent) (h : y ≠ x) : (m.set x v).has y = m.has y := by
  have hne : L.mask x ≠ L.mask y := fun heq => h (hL.inj x y heq).symm
  rw [has, set, assign, setHas, Flags.test_or (hL.single y), Flags.test_of_ne (hL.single x) (hL.single y) hne,
    Bool.or_false]
  rfl

theorem has_clear_self (hL : L.Coherent) : (m.clear x).has x = false := Flags.test_andNot_self (hL.single x)

theorem has_clear_of_ne (hL : L.Coherent) (h : y ≠ x) : (m.clear x).has y = m.has y :=
  Flags.test_andNot_of_ne (hL.single x) (hL.single y) fun heq => h (hL.inj x y heq).symm

@[simp] theorem val_set_self : (m.set x v).val x = v := Function.update_self ..

theorem val_set_of_ne (h : y ≠ x) : (m.set x v).val y = m.val y := Function.update_of_ne h ..

@[simp] theorem val_clear_self : (m.clear x).val x = (L.ty x).default := Function.update_self ..

theorem val_clear_of_ne (h : y ≠ x) : (m.clear x).val y = m.val y := Function.update_of_ne h ..

theorem view_set (hL : L.Coherent) : (m.set x v).view = m.view * View.single x v := by
  refine View.ext (funext fun y => ?_) (List.append_nil _).symm
  change (m.set x v).field y = m.field y * (View.single x v).field y
  by_cases hy : y = x
  · subst hy
    rw [View.field_single_self, field, has_set_self hL, if_pos rfl, val_set_self, LastWins.mul_set]
  · rw [View.field_single_of_ne hy, mul_one, field, field, has_set_of_ne hL hy, val_set_of_ne hy]

theorem view_clear (hL : L.Coherent) : (m.clear x).view = m.view.erase x := by
  refine View.ext (funext fun y => ?_) rfl
  change (m.clear x).field y = Function.update m.field x 1 y
  by_cases hy : y = x
  · subst hy
    rw [Function.update_self, field, has_clear_self hL, if_neg Bool.false_ne_true]
  · rw [Function.update_of_ne hy, field, field, has_clear_of_ne hL hy, val_clear_of_ne hy]

theorem view_addUnknown : (m.addUnknown u).view = m.view * View.unknownField u :=
  View.ext (mul_one _).symm rfl

@[simp] theorem has_new : (new L).has x = false := Flags.test_zero _

@[simp] theorem view_new : (new L).view = 1 := by
  refine View.ext (funext fun x => ?_) rfl
  change (new L).field x = 1
  rw [field, has_new, if_neg Bool.false_ne_true]

theorem wf_new : (new L).Wf K where
  val_of_not_has _ _ := rfl
  valid x hx := absurd hx (by simp)
  unknown u hu := absurd hu List.not_mem_nil

theorem Wf.set (hL : L.Coherent) (hm : m.Wf K) (hv : L.isValid x v = true) : (m.set x v).Wf K where
  val_of_not_has y hy := by
    by_cases hxy : y = x
    · subst hxy
      rw [has_set_self hL] at hy
      cases hy
    · rw [has_set_of_ne hL hxy] at hy
      rw [val_set_of_ne hxy, hm.val_of_not_has y hy]
  valid y hy := by
    by_cases hxy : y = x
    · subst hxy
      rwa [val_set_self]
    · rw [has_set_of_ne hL hxy] at hy
      rw [val_set_of_ne hxy]
      exact hm.valid y hy
  unknown := hm.unknown

theorem Wf.clear (hL : L.Coherent) (hm : m.Wf K) : (m.clear x).Wf K where
  val_of_not_has y hy := by
    by_cases hxy : y = x
    · subst hxy
      exact val_clear_self
    · rw [has_clear_of_ne hL hxy] at hy
      rw [val_clear_of_ne hxy, hm.val_of_not_has y hy]
  valid y hy := by
    by_cases hxy : y = x
    · subst hxy
      rw [has_clear_self hL] at hy
      cases hy
    · rw [has_clear_of_ne hL hxy] at hy
      rw [val_clear_of_ne hxy]
      exact hm.valid y hy
  unknown := hm.unknown

theorem Wf.addUnknown (hm : m.Wf K) (hu : K u) : (m.addUnknown u).Wf K where
  val_of_not_has := hm.val_of_not_has
  valid := hm.valid
  unknown u' hu' := by
    rcases List.mem_append.1 hu' with hmem | hmem
    · exact hm.unknown u' hmem
    · rwa [List.mem_singleton.1 hmem]

theorem adds_set (hL : L.Coherent) (hv : L.isValid x v = true) : Adds K (View.single x v) m (m.set x v) :=
  ⟨view_set hL, fun hm => hm.set hL hv⟩

theorem adds_addUnknown (hu : K u) : Adds K (View.unknownField u) m (m.addUnknown u) :=
  ⟨view_addUnknown, fun hm => hm.addUnknown hu⟩

theorem adds_one : Adds K 1 m m := ⟨(mul_one _).symm, id⟩

theorem Adds.mul {e e' : View L} {m' m'' : Msg L} (h : Adds K e m m') (h' : Adds K e' m' m'') :
    Adds K (e * e') m m'' :=
  ⟨by rw [h'.1, h.1, mul_assoc], h'.2 ∘ h.2⟩

end Msg

end Protobuf

end LearnCpp
