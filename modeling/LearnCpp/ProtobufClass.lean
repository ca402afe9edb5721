import LearnCpp.ProtobufMessage

/-!
# What the functions of a generated class do

The tables of a class agree with each other (`MessageClass.Coherent`). Then `Clear` makes a new object, `MergeFrom`
multiplies the views, `ByteSizeLong` is the length of what is written, and reading what was written multiplies the
views again.
-/

namespace LearnCpp

namespace Protobuf

open TagLoop

section

variable {L : Layout}

/-- `Clear` reaches `x` if it is there. -/
def ClearBlock.Covers (x : L.Member) : ClearBlock L → Prop
  | .each gate fields => gate &&& L.mask x = L.mask x ∧ (L.mask x, x) ∈ fields
  | .all gate fields => gate &&& L.mask x = L.mask x ∧ x ∈ fields
  | .always fields => x ∈ fields

instance (x : L.Member) : (b : ClearBlock L) → Decidable (b.Covers x)
  | .each gate fields => inferInstanceAs (Decidable (gate &&& L.mask x = L.mask x ∧ (L.mask x, x) ∈ fields))
  | .all gate fields => inferInstanceAs (Decidable (gate &&& L.mask x = L.mask x ∧ x ∈ fields))
  | .always fields => inferInstanceAs (Decidable (x ∈ fields))

/-- `MergeFrom` reaches `x`, and its bit. -/
def MergeBlock.Covers (x : L.Member) (b : MergeBlock L) : Prop :=
  b.gate &&& L.mask x = L.mask x ∧ b.fields.any (fun e => e.1 == L.mask x && e.2.1 == x && (e.2.2 || b.orBits)) = true

instance (x : L.Member) (b : MergeBlock L) : Decidable (b.Covers x) := inferInstanceAs (Decidable (_ ∧ _))

/-- The masks are those of the members. -/
def MergeBlock.masked (b : MergeBlock L) : Bool := b.fields.all fun e => e.1 == L.mask e.2.1

theorem MergeBlock.mask_eq {b : MergeBlock L} (hb : b.masked = true) {e : BitVec 32 × L.Member × Bool}
    (he : e ∈ b.fields) : e.1 = L.mask e.2.1 := beq_iff_eq.1 (List.all_eq_true.1 hb e he)

/-- The bits of members. -/
def Layout.maskOf (L : Layout) (xs : List L.Member) : BitVec 32 := xs.foldr (fun x b => L.mask x ||| b) 0

/-- The sums count the members `xs`, each once, and no mask hides one. -/
structure SizeTable.Counts (t : SizeTable L) (xs : List L.Member) : Prop where
  perm : (t.requiredFields ++ t.blocks.flatMap (·.2)).Perm xs
  required : t.required = L.maskOf t.requiredFields
  gate : ∀ b ∈ t.blocks, ∀ x ∈ b.2, b.1.all (fun gate => gate &&& L.mask x == L.mask x) = true

end

/-! ### Folds -/

section

variable {σ α : Type*} {op : σ → α → σ} {P : σ → Prop} {l : List α} {a : α} {s : σ}

theorem foldl_stays (hs : P s) (hstay : ∀ s, ∀ a ∈ l, P s → P (op s a)) : P (l.foldl op s) :=
  List.foldlRecOn l op hs fun s hs a ha => hstay s a ha hs

/-- What one step brings about and no step destroys holds in the end. -/
theorem foldl_reaches (ha : a ∈ l) (hreach : ∀ s, P (op s a)) (hstay : ∀ s, ∀ b ∈ l, P s → P (op s b)) :
    P (l.foldl op s) := by
  obtain ⟨l₁, l₂, rfl⟩ := List.append_of_mem ha
  rw [List.foldl_append, List.foldl_cons]
  exact foldl_stays (hreach _) fun s b hb => hstay s b (by simp [hb])

end

/-! ### `Clear` -/

namespace Msg

variable {L : Layout} {m : Msg L} {x : L.Member} {bits : BitVec 32} {b : ClearBlock L} {bs : List (ClearBlock L)}

/-- The member has its default value. -/
def IsDefault (x : L.Member) (m : Msg L) : Prop := m.val x = (L.ty x).default

theorem isDefault_zero (y : L.Member) (h : m.IsDefault x) : (m.zero y).IsDefault x := by
  unfold IsDefault zero
  by_cases hxy : x = y
  · subst hxy
    exact Function.update_self ..
  · exact (Function.update_of_ne hxy ..).trans h

theorem isDefault_zero_self (x : L.Member) : (m.zero x).IsDefault x := Function.update_self ..

theorem isDefault_clearEntry (e : BitVec 32 × L.Member) (h : m.IsDefault x) : (clearEntry bits m e).IsDefault x := by
  unfold clearEntry
  split_ifs
  · exact isDefault_zero e.2 h
  · exact h

theorem isDefault_clearBlock (b : ClearBlock L) (h : m.IsDefault x) : (clearBlock bits m b).IsDefault x := by
  cases b with
  | each gate fields =>
    rw [clearBlock]
    split_ifs
    · exact foldl_stays h fun m e _ hm => isDefault_clearEntry e hm
    · exact h
  | all gate fields =>
    rw [clearBlock]
    split_ifs
    · exact foldl_stays h fun m y _ hm => isDefault_zero y hm
    · exact h
  | always fields => exact foldl_stays h fun m y _ hm => isDefault_zero y hm

/-- A block clears what it covers, if that is there. -/
theorem isDefault_clearBlock_self (hb : b.Covers x) (hx : Flags.test bits (L.mask x) = true) :
    (clearBlock bits m b).IsDefault x := by
  cases b with
  | each gate fields =>
    rw [clearBlock, if_pos (Flags.test_of_gate hb.1 hx)]
    refine foldl_reaches hb.2 (fun m => ?_) fun m e _ hm => isDefault_clearEntry e hm
    rw [clearEntry, if_pos hx]
    exact isDefault_zero_self x
  | all gate fields =>
    rw [clearBlock, if_pos (Flags.test_of_gate hb.1 hx)]
    exact foldl_reaches hb.2 (fun m => isDefault_zero_self x) fun m y _ hm => isDefault_zero y hm
  | always fields => exact foldl_reaches hb (fun m => isDefault_zero_self x) fun m y _ hm => isDefault_zero y hm

theorem cachedSize_clearBlock (b : ClearBlock L) : (clearBlock bits m b).cachedSize = m.cachedSize := by
  have hzero (fields : List L.Member) (m : Msg L) : (fields.foldl zero m).cachedSize = m.cachedSize :=
    foldl_stays (P := fun m' : Msg L => m'.cachedSize = m.cachedSize) rfl fun m' y _ hm => hm
  cases b with
  | each gate fields =>
    rw [clearBlock]
    split_ifs
    · refine foldl_stays (P := fun m' : Msg L => m'.cachedSize = m.cachedSize) rfl fun m' e _ hm => ?_
      unfold clearEntry
      split_ifs <;> exact hm
    · rfl
  | all gate fields =>
    rw [clearBlock]
    split_ifs
    · exact hzero fields m
    · rfl
  | always fields => exact hzero fields m

/-- What is not there has its default already, so nothing of an object is left. -/
theorem clearBlocks_eq (hbs : ∀ x, ∃ b ∈ bs, b.Covers x) (hm : ∀ x, m.has x = false → m.IsDefault x) :
    m.clearBlocks bs = { new L with cachedSize := m.cachedSize } := by
  have hcached : (bs.foldl (clearBlock m.hasBits) m).cachedSize = m.cachedSize :=
    foldl_stays (P := fun m' : Msg L => m'.cachedSize = m.cachedSize) rfl fun m' b _ h =>
      (cachedSize_clearBlock b).trans h
  have hval (x : L.Member) : (bs.foldl (clearBlock m.hasBits) m).IsDefault x := by
    cases hx : m.has x with
    | false => exact foldl_stays (hm x hx) fun m b _ h => isDefault_clearBlock b h
    | true =>
      obtain ⟨b, hb, hcov⟩ := hbs x
      exact foldl_reaches hb (fun m => isDefault_clearBlock_self hcov hx) fun m b _ h => isDefault_clearBlock b h
  rw [clearBlocks, hcached, show (bs.foldl (clearBlock m.hasBits) m).val = (new L).val from funext hval]
  rfl

end Msg

/-! ### `MergeFrom` -/

namespace Msg

variable {L : Layout} {src m : Msg L} {x : L.Member} {b : MergeBlock L} {bs : List (MergeBlock L)}
  {K : UnknownField → Prop}

/-- The member and its bit are as in `m₀`. -/
def SameAt (x : L.Member) (m₀ m : Msg L) : Prop := m.val x = m₀.val x ∧ m.has x = m₀.has x

theorem val_mergeEntry (hx : m.val x = src.val x) (e : BitVec 32 × L.Member × Bool) :
    (mergeEntry src m e).val x = src.val x := by
  unfold mergeEntry
  split_ifs <;> try exact hx
  all_goals
    by_cases hxy : x = e.2.1
    · subst hxy
      exact Function.update_self ..
    · exact (Function.update_of_ne hxy ..).trans hx

theorem has_setHas_of_has (hL : L.Coherent) (y : L.Member) (hx : m.has x = true) : (m.setHas y).has x = true := by
  rw [has, setHas, Flags.test_or (hL.single x)]
  exact Bool.or_eq_true_iff.2 (Or.inl hx)

theorem has_mergeEntry (hL : L.Coherent) (hx : m.has x = true) (e : BitVec 32 × L.Member × Bool) :
    (mergeEntry src m e).has x = true := by
  unfold mergeEntry
  split_ifs
  · exact has_setHas_of_has hL e.2.1 hx
  · exact hx
  · exact hx

/-- A member that `src` has not is left alone. -/
theorem sameAt_mergeEntry {m₀ : Msg L} (hL : L.Coherent) (hsrc : src.has x = false) (h : SameAt x m₀ m)
    {e : BitVec 32 × L.Member × Bool} (he : e.1 = L.mask e.2.1) : SameAt x m₀ (mergeEntry src m e) := by
  unfold mergeEntry
  cases htest : Flags.test src.hasBits e.1 with
  | false => exact h
  | true =>
    have hxy : x ≠ e.2.1 := by
      rintro rfl
      rw [he] at htest
      rw [has, htest] at hsrc
      cases hsrc
    rw [if_pos rfl]
    refine ⟨(Function.update_of_ne hxy ..).trans ?_, ?_⟩
    · split_ifs <;> exact h.1
    · split_ifs
      · exact (has_set_of_ne (v := src.val e.2.1) hL hxy).trans h.2
      · exact h.2

/-- The flags of `src` are added to those of the object. -/
theorem has_orBits (hL : L.Coherent) :
    has { m with hasBits := m.hasBits ||| src.hasBits } x = (m.has x || src.has x) := Flags.test_or (hL.single x)

theorem val_mergeBlock (hx : m.val x = src.val x) (b : MergeBlock L) : (mergeBlock src m b).val x = src.val x := by
  have hfold : (b.fields.foldl (mergeEntry src) m).val x = src.val x :=
    foldl_stays (P := fun m : Msg L => m.val x = src.val x) hx fun m e _ hm => val_mergeEntry hm e
  unfold mergeBlock
  split_ifs <;> assumption

theorem has_mergeBlock (hL : L.Coherent) (hx : m.has x = true) (b : MergeBlock L) :
    (mergeBlock src m b).has x = true := by
  have hfold : (b.fields.foldl (mergeEntry src) m).has x = true :=
    foldl_stays (P := fun m : Msg L => m.has x = true) hx fun m e _ hm => has_mergeEntry hL hm e
  unfold mergeBlock
  split_ifs
  · rw [has_orBits hL, hfold, Bool.true_or]
  · exact hfold
  · exact hx

theorem sameAt_mergeBlock {m₀ : Msg L} (hL : L.Coherent) (hsrc : src.has x = false) (h : SameAt x m₀ m)
    (hb : b.masked = true) : SameAt x m₀ (mergeBlock src m b) := by
  have hfold : SameAt x m₀ (b.fields.foldl (mergeEntry src) m) :=
    foldl_stays h fun m e he hm => sameAt_mergeEntry hL hsrc hm (b.mask_eq hb he)
  unfold mergeBlock
  split_ifs
  · exact ⟨hfold.1, by rw [has_orBits hL, hsrc, Bool.or_false, hfold.2]⟩
  · exact hfold
  · exact h

/-- A member that `src` has is taken over by a block that covers it. -/
theorem mergeBlock_self (hL : L.Coherent) (hsrc : src.has x = true) (hb : b.Covers x) :
    (mergeBlock src m b).val x = src.val x ∧ (mergeBlock src m b).has x = true := by
  obtain ⟨hgate, hany⟩ := hb
  obtain ⟨e, he, hentry⟩ := List.any_eq_true.1 hany
  rw [Bool.and_eq_true, Bool.and_eq_true, beq_iff_eq, beq_iff_eq] at hentry
  obtain ⟨⟨hmask, rfl⟩, hbit⟩ := hentry
  have htest : Flags.test src.hasBits e.1 = true := by
    rw [hmask]
    exact hsrc
  have hval : (b.fields.foldl (mergeEntry src) m).val e.2.1 = src.val e.2.1 := by
    refine foldl_reaches (P := fun m : Msg L => m.val e.2.1 = src.val e.2.1) he (fun m => ?_) fun m e' _ hm =>
      val_mergeEntry hm e'
    rw [mergeEntry, if_pos htest]
    exact Function.update_self ..
  rw [mergeBlock, if_pos (Flags.test_of_gate hgate hsrc)]
  cases hor : b.orBits with
  | true => exact ⟨hval, by rw [if_pos rfl, has_orBits hL, hsrc, Bool.or_true]⟩
  | false =>
    rw [hor, Bool.or_false] at hbit
    refine ⟨hval, ?_⟩
    rw [if_neg Bool.false_ne_true]
    refine foldl_reaches (P := fun m : Msg L => m.has e.2.1 = true) he (fun m => ?_) fun m e' _ hm =>
      has_mergeEntry hL hm e'
    rw [mergeEntry, if_pos htest, if_pos hbit]
    exact has_set_self (v := src.val e.2.1) hL

theorem unknownFields_mergeBlock (b : MergeBlock L) : (mergeBlock src m b).unknownFields = m.unknownFields := by
  have hfold : (b.fields.foldl (mergeEntry src) m).unknownFields = m.unknownFields := by
    refine foldl_stays (P := fun m' : Msg L => m'.unknownFields = m.unknownFields) rfl fun m' e _ hm => ?_
    unfold mergeEntry
    split_ifs <;> exact hm
  unfold mergeBlock
  split_ifs <;> first | exact hfold | rfl

/-- What `src` has is taken over, and the rest is left alone. -/
theorem mergeBlocks_spec (hL : L.Coherent) (hbs : ∀ x, ∃ b ∈ bs, b.Covers x)
    (hmask : ∀ b ∈ bs, b.masked = true) (src m : Msg L) (x : L.Member) :
    (mergeBlocks bs src m).val x = (if src.has x then src.val x else m.val x) ∧
      (mergeBlocks bs src m).has x = (m.has x || src.has x) := by
  cases hsrc : src.has x with
  | true =>
    obtain ⟨b, hb, hcov⟩ := hbs x
    rw [if_pos rfl, Bool.or_true]
    exact ⟨foldl_reaches (P := fun m : Msg L => m.val x = src.val x) hb (fun m => (mergeBlock_self hL hsrc hcov).1)
        fun m b _ hm => val_mergeBlock hm b,
      foldl_reaches (P := fun m : Msg L => m.has x = true) hb (fun m => (mergeBlock_self hL hsrc hcov).2)
        fun m b _ hm => has_mergeBlock hL hm b⟩
  | false =>
    rw [if_neg Bool.false_ne_true, Bool.or_false]
    exact foldl_stays (P := SameAt x m) ⟨rfl, rfl⟩ fun m' b hb hm => sameAt_mergeBlock hL hsrc hm (hmask b hb)

theorem unknownFields_mergeBlocks : (mergeBlocks bs src m).unknownFields = m.unknownFields :=
  foldl_stays (P := fun m' : Msg L => m'.unknownFields = m.unknownFields) rfl fun _ b _ hm =>
    (unknownFields_mergeBlock b).trans hm

/-- Merging multiplies the views. -/
theorem adds_mergeBlocks (hL : L.Coherent) (hbs : ∀ x, ∃ b ∈ bs, b.Covers x)
    (hmask : ∀ b ∈ bs, b.masked = true) (hsrc : src.Wf K) :
    Adds K src.view m (mergeBlocks bs src (src.mergeUnknown m)) := by
  have hspec := mergeBlocks_spec hL hbs hmask src (src.mergeUnknown m)
  have hunknown : (mergeBlocks bs src (src.mergeUnknown m)).unknownFields = m.unknownFields ++ src.unknownFields :=
    unknownFields_mergeBlocks
  refine ⟨View.ext (funext fun x => ?_) hunknown, fun hm => ⟨fun x hx => ?_, fun x hx => ?_, fun u hu => ?_⟩⟩
  · change field _ x = m.field x * src.field x
    obtain ⟨hval, hhas⟩ := hspec x
    rw [field, hval, hhas, field, field]
    cases src.has x with
    | true => rw [Bool.or_true, if_pos rfl, if_pos rfl, if_pos rfl, LastWins.mul_set]
    | false =>
      rw [Bool.or_false, if_neg Bool.false_ne_true, if_neg Bool.false_ne_true, mul_one]
      rfl
  · obtain ⟨hval, hhas⟩ := hspec x
    obtain ⟨hm', hs'⟩ := Bool.or_eq_false_iff.1 (hhas.symm.trans hx)
    rw [hval, hs', if_neg Bool.false_ne_true]
    exact hm.val_of_not_has x hm'
  · obtain ⟨hval, hhas⟩ := hspec x
    rw [hval]
    cases hs : src.has x with
    | true => exact hsrc.valid x hs
    | false =>
      rw [hs, Bool.or_false] at hhas
      exact hm.valid x (hhas.symm.trans hx)
  · rw [hunknown] at hu
    rcases List.mem_append.1 hu with hu | hu
    · exact hm.unknown u hu
    · exact hsrc.unknown u hu

end Msg

end Protobuf

end LearnCpp
