import Mathlib.Algebra.Order.BigOperators.Group.List
import Mathlib.Algebra.Order.Ring.Nat
import LearnCpp.ProtobufClass

/-!
# Writing and reading generated messages

What `SerializeWithCachedSizes` writes is as long as `ByteSizeLong` says, and is read back as fields that multiply to
the view of what was written. Whatever is read does the same to every object.
-/

namespace LearnCpp

namespace Protobuf

open TagLoop

/-! ### Sizes -/

namespace Msg

variable {L : Layout} {w : Wire} {m : Msg L} {x : L.Member} {t : SizeTable L} {xs : List L.Member}

/-- What is written has lengths that fit an `int`. -/
def Sized (m : Msg L) : Prop := ∀ x, m.has x = true → (L.ty x).Sized (m.val x)

theorem sizeIfHas_of_has (h : m.has x = true) : m.sizeIfHas w x = m.fieldSize w x := if_pos h

theorem sizeIfHas_of_not_has (h : m.has x = false) : m.sizeIfHas w x = 0 := by
  rw [sizeIfHas, h, if_neg Bool.false_ne_true]

theorem blockSize_eq {b : Option (BitVec 32) × List L.Member}
    (h : ∀ x ∈ b.2, b.1.all (fun gate => gate &&& L.mask x == L.mask x) = true) :
    m.blockSize w b = (b.2.map (m.sizeIfHas w)).sum := by
  rw [blockSize]
  split_ifs with hgate
  · rfl
  · obtain ⟨gate, hb, hclosed⟩ : ∃ gate, b.1 = some gate ∧ Flags.test m.hasBits gate = false := by
      rcases hb : b.1 with _ | gate
      · rw [hb] at hgate
        exact absurd rfl hgate
      · rw [hb] at hgate
        exact ⟨gate, rfl, by simpa using hgate⟩
    refine (List.sum_eq_zero fun n hn => ?_).symm
    obtain ⟨x, hx, rfl⟩ := List.mem_map.1 hn
    refine sizeIfHas_of_not_has ?_
    cases hhas : m.has x with
    | false => rfl
    | true =>
      have hgate := h x hx
      rw [hb, Option.all_some, beq_iff_eq] at hgate
      rw [Flags.test_of_gate hgate hhas] at hclosed
      cases hclosed

/-- The sums of `ByteSizeLong` are the sum over the fields that are there. -/
theorem tableSize_eq (hL : L.Coherent) (ht : t.Counts xs) : m.tableSize w t = (xs.map (m.sizeIfHas w)).sum := by
  have hreq : (if (m.hasBits &&& t.required) ^^^ t.required = 0 then (t.requiredFields.map (m.fieldSize w)).sum
      else (t.requiredFields.map (m.sizeIfHas w)).sum) = (t.requiredFields.map (m.sizeIfHas w)).sum := by
    split_ifs with hall
    · have heq : m.hasBits &&& t.required = t.required := BitVec.xor_eq_zero_iff.1 hall
      rw [ht.required] at heq
      have hhas := (Flags.and_foldr_eq_iff fun x _ => hL.single x).1 heq
      exact congrArg List.sum (List.map_congr_left fun x hx => (sizeIfHas_of_has (hhas x hx)).symm)
    · rfl
  have hblocks : (t.blocks.map (m.blockSize w)).sum = ((t.blocks.flatMap (·.2)).map (m.sizeIfHas w)).sum := by
    rw [List.map_flatMap, List.flatMap_def, List.sum_flatten, List.map_map]
    exact congrArg List.sum (List.map_congr_left fun b hb => blockSize_eq (ht.gate b hb))
  rw [tableSize, hreq, hblocks, ← List.sum_append, ← List.map_append]
  exact (ht.perm.map _).sum_eq

theorem length_writeField {e : BitVec 32 × ℕ × L.Member} (hmask : e.1 = L.mask e.2.2) (hpos : 0 < e.2.1)
    (hlt : e.2.1 < 16) (hm : m.Sized) : (m.writeField w e).length = m.sizeIfHas w e.2.2 := by
  rw [writeField, sizeIfHas, has, hmask]
  split_ifs with htest
  · exact w.length_write hpos hlt (hm _ htest)
  · rfl

theorem length_writeUnknown : (m.writeUnknown w).length = m.unknownSize w := by
  rw [writeUnknown, unknownSize, List.length_flatten, List.map_map]
  exact congrArg List.sum (List.map_congr_left fun u _ => w.length_writeUnknown u)

/-- Sizes that fit an `int` are sums of lengths that do. -/
theorem sized_of_le (h : (xs.map (m.sizeIfHas w)).sum ≤ intMax) (hxs : ∀ x, x ∈ xs) : m.Sized := by
  intro x hx
  have hle : m.sizeIfHas w x ≤ intMax :=
    Nat.le_trans (List.le_sum_of_mem (List.mem_map_of_mem (hxs x))) h
  rw [sizeIfHas_of_has hx, fieldSize] at hle
  generalize m.val x = v at hle
  revert v
  cases L.ty x with
  | string =>
    intro v hv
    have hstring := w.le_size_string v
    change v.length ≤ intMax
    omega
  | int32 | uint32 | bool | enum => exact fun v hv => trivial

end Msg

/-! ### Reading a field -/

namespace Msg

variable {L : Layout} {w : Wire} {m : Msg L} {x : L.Member} {bs : Bytes} {number depth tag : ℕ}

/-- A case of the `switch` fails, sets its member, or keeps an enumerator that is not valid. -/
theorem readField_cases (hL : L.Coherent) (w : Wire) (number : ℕ) (x : L.Member) (bs : Bytes) :
    (∀ m : Msg L, m.readField w number x bs = none) ∨
    (∃ v rest, L.isValid x v = true ∧ ∀ m : Msg L, m.readField w number x bs = some (m.set x v, rest)) ∨
    ∃ v rest, L.ty x = .enum ∧ L.isValid x v = false ∧
      ∀ m : Msg L, m.readField w number x bs = some (m.addUnknown (.varint number (addVarint _ v)), rest) := by
  rcases hread : w.read (L.ty x) bs with _ | ⟨v, rest⟩
  · exact Or.inl fun m => by rw [readField, hread, Option.map_none]
  · cases hv : L.isValid x v with
    | true => exact Or.inr (Or.inl ⟨v, rest, hv, fun m => by rw [readField, hread, Option.map_some, if_pos hv]⟩)
    | false =>
      refine Or.inr (Or.inr ⟨v, rest, ?_, hv, fun m => ?_⟩)
      · by_contra hne
        rw [hL.enum x v hne] at hv
        cases hv
      · rw [readField, hread, Option.map_some, hv, if_neg Bool.false_ne_true]

theorem readField_write {v : (L.ty x).Value} {rest : Bytes} (hread : w.read (L.ty x) bs = some (v, rest))
    (hv : L.isValid x v = true) : m.readField w number x bs = some (m.set x v, rest) := by
  rw [readField, hread, Option.map_some, if_pos hv]

/-- An enumerator that is not valid is kept in the spelling it is read in. -/
theorem writeUnknown_addVarint {ty : FieldType} (hty : ty = .enum) (number : ℕ) (v : ty.Value) :
    w.writeUnknown (.varint number (addVarint ty v)) = w.write ty number v := by
  subst hty
  exact w.writeUnknown_varint number v

theorem readField_le {m' : Msg L} {rest : Bytes} (h : m.readField w number x bs = some (m', rest)) :
    rest.length ≤ bs.length := by
  obtain ⟨p, hread, heq⟩ := Option.map_eq_some_iff.1 h
  have hrest : p.2 = rest := by
    split_ifs at heq <;> exact congrArg Prod.snd heq
  exact hrest ▸ w.read_le hread

theorem skipField_le {m' : Msg L} {rest : Bytes} (h : m.skipField w depth tag bs = some (m', rest)) :
    rest.length ≤ bs.length := by
  obtain ⟨p, hskip, heq⟩ := Option.map_eq_some_iff.1 h
  cases heq
  exact w.skip_le hskip

/-- A field that is there, as bytes and as a view. -/
def fieldChunks (w : Wire) (m : Msg L) (e : BitVec 32 × ℕ × L.Member) : List (Bytes × View L) :=
  if Flags.test m.hasBits e.1 then [(w.write (L.ty e.2.2) e.2.1 (m.val e.2.2), View.single e.2.2 (m.val e.2.2))] else []

def unknownChunks (w : Wire) (m : Msg L) : List (Bytes × View L) :=
  m.unknownFields.map fun u => (w.writeUnknown u, View.unknownField u)

theorem flatten_fieldChunks (e : BitVec 32 × ℕ × L.Member) :
    ((m.fieldChunks w e).map Prod.fst).flatten = m.writeField w e := by
  rw [fieldChunks, writeField]
  split_ifs
  · exact List.append_nil _
  · rfl

theorem flatten_unknownChunks : ((m.unknownChunks w).map Prod.fst).flatten = m.writeUnknown w := by
  rw [unknownChunks, List.map_map]
  rfl

theorem prod_unknownChunks : ((m.unknownChunks w).map Prod.snd).prod = ⟨1, m.unknownFields⟩ := by
  rw [unknownChunks, List.map_map]
  induction m.unknownFields with
  | nil => rfl
  | cons u us ih =>
    rw [List.map_cons, List.prod_cons, ih]
    exact View.ext (mul_one _) rfl

/-- The fields of members `xs` that are there. -/
theorem field_prod_fieldChunks {es : List (BitVec 32 × ℕ × L.Member)} (hmask : ∀ e ∈ es, e.1 = L.mask e.2.2)
    (x : L.Member) : ((es.flatMap (m.fieldChunks w)).map Prod.snd).prod.field x =
      if x ∈ es.map (·.2.2) then m.field x else 1 := by
  induction es with
  | nil => rfl
  | cons e es ih =>
    have hes := ih fun e he => hmask e (by simp [he])
    rw [List.flatMap_cons, List.map_append, List.prod_append, View.field_mul, Pi.mul_apply, hes, List.map_cons]
    have hfirst : ((m.fieldChunks w e).map Prod.snd).prod.field x = if x = e.2.2 then m.field x else 1 := by
      rw [fieldChunks]
      by_cases hx : x = e.2.2
      · subst hx
        rw [if_pos rfl, field, has, hmask e (by simp)]
        split_ifs
        · rw [List.map_singleton, List.prod_singleton, View.field_single_self]
        · rfl
      · rw [if_neg hx]
        split_ifs
        · rw [List.map_singleton, List.prod_singleton, View.field_single_of_ne hx]
        · rfl
    rw [hfirst]
    by_cases hx : x = e.2.2
    · have hmem : x ∈ e.2.2 :: es.map (·.2.2) := List.mem_cons.2 (Or.inl hx)
      rw [if_pos hx, if_pos hmem]
      split_ifs
      · exact LastWins.mul_self _
      · exact mul_one _
    · rw [if_neg hx, one_mul]
      have hmem : x ∈ e.2.2 :: es.map (·.2.2) ↔ x ∈ es.map (·.2.2) := List.mem_cons.trans (or_iff_right hx)
      simp only [hmem]

theorem unknown_prod_fieldChunks (es : List (BitVec 32 × ℕ × L.Member)) :
    ((es.flatMap (m.fieldChunks w)).map Prod.snd).prod.unknown = [] := by
  induction es with
  | nil => rfl
  | cons e es ih =>
    rw [List.flatMap_cons, List.map_append, List.prod_append, View.unknown_mul, ih, fieldChunks]
    split_ifs <;> rfl

end Msg

/-! ### Classes -/

namespace MessageClass

variable {C : MessageClass} {w : Wire} {d t number : ℕ} {bs : Bytes} {m src : C.Object} {x : C.Member}
  {u : UnknownField}

/-- The tables of a class agree: masks and tags are those of the members, and each function reaches every member. -/
structure Coherent (C : MessageClass) : Prop extends C.toLayout.Coherent where
  switch : Dispatches (fun x => (C.ty x).wireType) C.switch
  writes_mask : ∀ e ∈ C.writes, e.1 = C.mask e.2.2
  writes_case : ∀ e ∈ C.writes, (e.2.1, 8 * e.2.1 + (C.ty e.2.2).wireType, e.2.2) ∈ C.switch
  mem_writes : ∀ x, x ∈ C.writes.map (·.2.2)
  sizes : C.sizes.Counts (C.writes.map (·.2.2))
  required : C.required = C.maskOf ((C.writes.map (·.2.2)).filter fun x => C.required &&& C.mask x == C.mask x)
  merges_mask : ∀ b ∈ C.merges, b.masked = true
  merges : ∀ x, ∃ b ∈ C.merges, b.Covers x
  clears : ∀ x, ∃ b ∈ C.clears, b.Covers x

theorem parseField_of_dispatch (h : dispatch C.switch t = some (number, x)) :
    C.parseField w d t bs m = m.readField w number x bs := by
  rw [parseField, h]

theorem parseField_of_none (h : dispatch C.switch t = none) : C.parseField w d t bs m = m.skipField w d t bs := by
  rw [parseField, h]

theorem parseField_le {m' : C.Object} {rest : Bytes} (h : C.parseField w d t bs m = some (m', rest)) :
    rest.length ≤ bs.length := by
  rcases hcase : dispatch C.switch t with _ | ⟨number, x⟩
  · rw [parseField_of_none hcase] at h
    exact Msg.skipField_le h
  · rw [parseField_of_dispatch hcase] at h
    exact Msg.readField_le h

/-- A round for each byte, and one for the end, are enough: more rounds read the same. -/
theorem mergePartial_rounds {n : ℕ} (hn : bs.length < n) (m : C.Object) :
    loop w.readTag (C.parseField w d) n bs m = C.mergePartialFromCodedStream w d bs m :=
  loop_fuel w.readTag_lt parseField_le hn (Nat.lt_succ_self _)

theorem dispatch_of_mem (hC : C.Coherent) {expected : ℕ} (h : (number, expected, x) ∈ C.switch) :
    dispatch C.switch (8 * number + (C.ty x).wireType) = some (number, x) :=
  hC.switch.dispatch_of_mem h (C.ty x).wireType_lt

/-- The reader keeps this field as unknown. -/
def Keeps (C : MessageClass) (w : Wire) (d : ℕ) (u : UnknownField) : Prop :=
  ∀ (m : C.Object) (rest : Bytes), ∃ t bs, w.readTag (w.writeUnknown u ++ rest) = .tag t bs ∧
    C.parseField w d t bs m = some (m.addUnknown u, rest)

theorem keeps_of_skip {rest : Bytes} (h : dispatch C.switch t = none) (hskip : w.skip d t bs = some (u, rest)) :
    C.Keeps w d u := by
  intro m rest'
  obtain ⟨bs', hread, hskip'⟩ := w.skip_writeUnknown hskip rest'
  refine ⟨t, bs', hread, ?_⟩
  rw [parseField_of_none h, Msg.skipField, hskip']
  rfl

theorem sized_of_enum {ty : FieldType} (h : ty = .enum) (v : ty.Value) : ty.Sized v := by
  subst h
  trivial

theorem keeps_of_invalid (hC : C.Coherent) {v : (C.ty x).Value} (h : dispatch C.switch t = some (number, x))
    (hty : C.ty x = .enum) (hv : C.isValid x v = false) : C.Keeps w d (.varint number (Msg.addVarint _ v)) := by
  intro m rest'
  obtain ⟨hmem, htag⟩ := hC.switch.mem_of_dispatch h (C.ty x).wireType_lt
  obtain ⟨hpos, hlt, -⟩ := hC.switch.tag _ hmem
  obtain ⟨bs', hread, hval⟩ := w.read_write hpos hlt (sized_of_enum hty v) rest'
  refine ⟨t, bs', ?_, ?_⟩
  · rw [Msg.writeUnknown_addVarint hty, hread, htag]
  · rw [parseField_of_dispatch h, Msg.readField, hval, Option.map_some, hv, if_neg Bool.false_ne_true]

/-- What a field does is the same for every object. -/
theorem uniform_parseField (hC : C.Coherent) (w : Wire) (d t : ℕ) (bs : Bytes) :
    Uniform (Msg.Adds (C.Keeps w d)) (C.parseField w d t bs) := by
  rcases hcase : dispatch C.switch t with _ | ⟨number, x⟩
  · rcases hskip : w.skip d t bs with _ | ⟨u, rest⟩
    · refine Or.inl fun m => ?_
      rw [parseField_of_none hcase, Msg.skipField, hskip, Option.map_none]
    · refine Or.inr ⟨rest, View.unknownField u, fun m => ⟨m.addUnknown u, ?_, ?_⟩⟩
      · rw [parseField_of_none hcase, Msg.skipField, hskip, Option.map_some]
      · exact Msg.adds_addUnknown (keeps_of_skip hcase hskip)
  · rcases Msg.readField_cases hC.toCoherent w number x bs with hnone | ⟨v, rest, hv, hset⟩ | ⟨v, rest, hty, hv, hadd⟩
    · exact Or.inl fun m => (parseField_of_dispatch hcase).trans (hnone m)
    · exact Or.inr ⟨rest, View.single x v, fun m => ⟨m.set x v, (parseField_of_dispatch hcase).trans (hset m),
        Msg.adds_set hC.toCoherent hv⟩⟩
    · exact Or.inr ⟨rest, View.unknownField _, fun m => ⟨m.addUnknown _, (parseField_of_dispatch hcase).trans (hadd m),
        Msg.adds_addUnknown (keeps_of_invalid hC hcase hty hv)⟩⟩

theorem uniform_mergePartial (hC : C.Coherent) (w : Wire) (d : ℕ) (bs : Bytes) :
    Uniform (Msg.Adds (C.Keeps w d)) (C.mergePartialFromCodedStream w d bs) :=
  uniform_loop (fun _ => Msg.adds_one) Msg.Adds.mul (fun t rest => uniform_parseField hC w d t rest) _ bs

/-- Each field of a well-formed object is read back. -/
theorem reads_chunks (hC : C.Coherent) (hm : m.Wf (C.Keeps w d)) (hsized : m.Sized) :
    ∀ c ∈ C.writes.flatMap (m.fieldChunks w) ++ m.unknownChunks w,
      Reads w.readTag (C.parseField w d) (Msg.Adds (C.Keeps w d)) c.1 c.2 := by
  intro c hc s rest
  rcases List.mem_append.1 hc with hc | hc
  · obtain ⟨e, he, hmem⟩ := List.mem_flatMap.1 hc
    rw [Msg.fieldChunks] at hmem
    split_ifs at hmem with htest
    · rw [List.mem_singleton.1 hmem]
      have hhas : m.has e.2.2 = true := by
        rw [Msg.has, ← hC.writes_mask e he]
        exact htest
      obtain ⟨hpos, hlt, -⟩ := hC.switch.tag _ (hC.writes_case e he)
      obtain ⟨bs, hread, hval⟩ := w.read_write hpos hlt (hsized _ hhas) rest
      refine ⟨_, bs, s.set e.2.2 (m.val e.2.2), hread, ?_, Msg.adds_set hC.toCoherent (hm.valid _ hhas)⟩
      rw [parseField_of_dispatch (dispatch_of_mem hC (hC.writes_case e he))]
      exact Msg.readField_write hval (hm.valid _ hhas)
    · cases hmem
  · obtain ⟨u, hu, rfl⟩ := List.mem_map.1 hc
    obtain ⟨t, bs, hread, hparse⟩ := hm.unknown u hu s rest
    exact ⟨t, bs, s.addUnknown u, hread, hparse, Msg.adds_addUnknown (hm.unknown u hu)⟩

theorem serialize_eq_flatten : C.serializeWithCachedSizes w m =
    ((C.writes.flatMap (m.fieldChunks w) ++ m.unknownChunks w).map Prod.fst).flatten := by
  rw [List.map_append, List.flatten_append, Msg.flatten_unknownChunks, serializeWithCachedSizes, List.map_flatMap,
    List.flatMap_def, List.flatten_flatten, List.map_map]
  refine congrArg (fun bs => List.flatten bs ++ _) (List.map_congr_left fun e _ => ?_)
  exact (Msg.flatten_fieldChunks e).symm

theorem prod_chunks (hC : C.Coherent) :
    ((C.writes.flatMap (m.fieldChunks w) ++ m.unknownChunks w).map Prod.snd).prod = m.view := by
  rw [List.map_append, List.prod_append, Msg.prod_unknownChunks]
  refine View.ext ?_ ?_
  · funext x
    rw [View.field_mul, Pi.mul_apply, Msg.field_prod_fieldChunks hC.writes_mask, if_pos (hC.mem_writes x)]
    exact mul_one _
  · rw [View.unknown_mul, Msg.unknown_prod_fieldChunks]
    rfl

theorem byteSize_eq_sum (hC : C.Coherent) : C.byteSize w m =
    m.unknownSize w + ((C.writes.map (·.2.2)).map (m.sizeIfHas w)).sum := by
  rw [byteSize, Msg.tableSize_eq hC.toCoherent hC.sizes]

theorem sized_of_byteSize (hC : C.Coherent) (h : C.byteSize w m ≤ intMax) : m.Sized := by
  rw [byteSize_eq_sum hC] at h
  exact Msg.sized_of_le (Nat.le_trans (Nat.le_add_left ..) h) hC.mem_writes

/-- `ByteSizeLong` is the number of bytes written. -/
theorem length_serialize (hC : C.Coherent) (h : C.byteSize w m ≤ intMax) :
    (C.serializeWithCachedSizes w m).length = C.byteSize w m := by
  have hsized := sized_of_byteSize hC h
  rw [serializeWithCachedSizes, List.length_append, Msg.length_writeUnknown, List.length_flatten, byteSize_eq_sum hC,
    Nat.add_comm, List.map_map, List.map_map]
  refine congrArg (fun l : List ℕ => m.unknownSize w + l.sum) (List.map_congr_left fun e he => ?_)
  obtain ⟨hpos, hlt, -⟩ := hC.switch.tag _ (hC.writes_case e he)
  exact Msg.length_writeField (hC.writes_mask e he) hpos hlt hsized

/-- Reading what was written multiplies the views. -/
theorem exists_mergePartial_serialize (hC : C.Coherent) (hsrc : src.Wf (C.Keeps w d))
    (h : C.byteSize w src ≤ intMax) (m : C.Object) :
    ∃ m', C.mergePartialFromCodedStream w d (C.serializeWithCachedSizes w src) m = some (m', true) ∧
      Msg.Adds (C.Keeps w d) src.view m m' := by
  have hreads := reads_chunks hC hsrc (sized_of_byteSize hC h)
  have hlen : (C.writes.flatMap (src.fieldChunks w) ++ src.unknownChunks w).length ≤
      (C.serializeWithCachedSizes w src).length := by
    rw [serialize_eq_flatten, ← List.length_map Prod.fst]
    refine length_le_flatten fun chunk hchunk => ?_
    obtain ⟨c, hc, rfl⟩ := List.mem_map.1 hchunk
    exact (hreads c hc).ne_nil w.readTag_nil m
  obtain ⟨m', hloop, hadds⟩ := exists_loop_chunks (fun _ => Msg.adds_one) Msg.Adds.mul w.readTag_nil hreads
    (Nat.lt_succ_of_le hlen) m
  rw [prod_chunks hC] at hadds
  refine ⟨m', ?_, hadds⟩
  rw [mergePartialFromCodedStream]
  rwa [← serialize_eq_flatten] at hloop

end MessageClass

end Protobuf

end LearnCpp
