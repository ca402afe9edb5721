import Mathlib.Algebra.Group.WithOne.Defs
import LearnCpp.ProtobufInteraction

/-!
# What an `interaction` means

The view of an `interaction` has the view of a submessage where its flag is set, and the views of the lists. A part is
changed in an object as it is in the view, and a well-formed object stays well-formed.
-/

namespace LearnCpp

namespace Protobuf

open TagLoop

/-! ### Classes without submessages -/

namespace Msg

variable {L : Layout} {m m' : Msg L} {x : L.Member} {K : UnknownField → Prop}

/-- Other flags, and the size, are not seen in a view. -/
theorem adds_one_of_same (hval : m'.val = m.val) (hunknown : m'.unknownFields = m.unknownFields)
    (hhas : ∀ x, m'.has x = m.has x) : Adds K 1 m m' := by
  refine ⟨?_, fun hm => ⟨fun x hx => ?_, fun x hx => ?_, fun u hu => ?_⟩⟩
  · rw [mul_one]
    refine View.ext (funext fun x => ?_) hunknown
    change m'.field x = m.field x
    rw [field, field, hhas, hval]
  · rw [hhas] at hx
    rw [hval]
    exact hm.val_of_not_has x hx
  · rw [hhas] at hx
    rw [hval]
    exact hm.valid x hx
  · rw [hunknown] at hu
    exact hm.unknown u hu

/-- A copy is the object with no size. -/
theorem copy_eq (hm : m.Wf K) : m.copy = { m with cachedSize := 0 } := by
  have hval : m.copy.val = m.val := by
    funext x
    change (if L.ty x = .string ∧ m.has x = false then (L.ty x).default else m.val x) = m.val x
    split_ifs with hx
    · exact (hm.val_of_not_has x hx.2).symm
    · rfl
  rw [← hval]
  rfl

theorem adds_copy (hm : m.Wf K) : Adds K 1 m m.copy := by
  rw [copy_eq hm]
  exact adds_one_of_same rfl rfl fun _ => rfl

end Msg

namespace MessageClass

variable {C : MessageClass} {w : Wire} {m src : C.Object} {K : UnknownField → Prop}

theorem adds_mergeFrom (hC : C.Coherent) (hsrc : src.Wf K) (m : C.Object) : Msg.Adds K src.view m (C.mergeFrom src m) :=
  Msg.adds_mergeBlocks hC.toCoherent hC.merges hC.merges_mask hsrc

theorem clear_eq (hC : C.Coherent) (hm : m.Wf K) : C.clear m = { Msg.new C.toLayout with cachedSize := m.cachedSize } :=
  Msg.clearBlocks_eq hC.clears hm.val_of_not_has

theorem view_clear (hC : C.Coherent) (hm : m.Wf K) : (C.clear m).view = 1 := by
  rw [clear_eq hC hm]
  exact Msg.view_new

theorem wf_clear (hC : C.Coherent) (hm : m.Wf K) : (C.clear m).Wf K := by
  have hsize : Msg.Adds K 1 (Msg.new C.toLayout) { Msg.new C.toLayout with cachedSize := m.cachedSize } :=
    Msg.adds_one_of_same rfl rfl fun _ => rfl
  rw [clear_eq hC hm]
  exact hsize.2 Msg.wf_new

theorem adds_byteSizeLong : Msg.Adds K 1 m (C.byteSizeLong w m).2 :=
  Msg.adds_one_of_same rfl rfl fun _ => rfl

/-- Merging into a new object gives the view that is merged. -/
theorem mergeFrom_new (hC : C.Coherent) (hsrc : src.Wf K) :
    (C.mergeFrom src (Msg.new _)).view = src.view ∧ (C.mergeFrom src (Msg.new _)).Wf K := by
  obtain ⟨hview, hwf⟩ := adds_mergeFrom hC hsrc (Msg.new _)
  exact ⟨by rw [hview, Msg.view_new, one_mul], hwf Msg.wf_new⟩

end MessageClass

/-! ### Required members -/

namespace View

variable {L : Layout}

def has (a : View L) (x : L.Member) : Bool := (a.field x).get.isSome

theorem has_view (m : Msg L) (x : L.Member) : m.view.has x = m.has x := by
  change (m.field x).get.isSome = m.has x
  rw [Msg.field]
  cases m.has x <;> rfl

end View

namespace MessageClass

variable {C : MessageClass} {m : C.Object}

/-- The members that `IsInitialized` asks for. -/
def requiredMembers (C : MessageClass) : List C.Member :=
  (C.writes.map (·.2.2)).filter fun x => C.required &&& C.mask x == C.mask x

/-- Every required member has a value. -/
def Complete (C : MessageClass) (a : View C.toLayout) : Prop := ∀ x ∈ C.requiredMembers, a.has x = true

theorem isInitialized_iff (hC : C.Coherent) : C.isInitialized m = true ↔ C.Complete m.view := by
  rw [isInitialized, beq_iff_eq, hC.required]
  refine (Flags.and_foldr_eq_iff fun x _ => hC.single x).trans (forall₂_congr fun x _ => ?_)
  rw [View.has_view, Msg.has]

end MessageClass

/-! ### Views of an `interaction` -/

@[ext] structure InteractionView where
  base : View Interaction.layout
  sub : (s : Sub) → WithOne (View s.cls.toLayout)
  list : (l : Rep) → List (View l.cls.toLayout)

namespace InteractionView

instance : One InteractionView := ⟨⟨1, 1, fun _ => []⟩⟩

instance : Mul InteractionView := ⟨fun a b => ⟨a.base * b.base, a.sub * b.sub, fun l => a.list l ++ b.list l⟩⟩

@[simp] theorem base_one : (1 : InteractionView).base = 1 := rfl

@[simp] theorem sub_one : (1 : InteractionView).sub = 1 := rfl

@[simp] theorem list_one (l : Rep) : (1 : InteractionView).list l = [] := rfl

@[simp] theorem base_mul (a b : InteractionView) : (a * b).base = a.base * b.base := rfl

@[simp] theorem sub_mul (a b : InteractionView) : (a * b).sub = a.sub * b.sub := rfl

@[simp] theorem list_mul (a b : InteractionView) (l : Rep) : (a * b).list l = a.list l ++ b.list l := rfl

instance : Monoid InteractionView where
  mul_assoc a b c := InteractionView.ext (mul_assoc _ _ _) (mul_assoc _ _ _) (funext fun l => List.append_assoc ..)
  one_mul a := InteractionView.ext (one_mul _) (one_mul _) rfl
  mul_one a := InteractionView.ext (mul_one _) (mul_one _) (funext fun l => List.append_nil _)

def ofBase (a : View Interaction.layout) : InteractionView := ⟨a, 1, fun _ => []⟩

def ofSub (s : Sub) (a : WithOne (View s.cls.toLayout)) : InteractionView := ⟨1, Pi.mulSingle s a, fun _ => []⟩

def ofList (l : Rep) (as : List (View l.cls.toLayout)) : InteractionView :=
  ⟨1, 1, Function.update (fun _ => []) l as⟩

theorem sub_ofSub_self (s : Sub) (a : WithOne (View s.cls.toLayout)) : (ofSub s a).sub s = a := Pi.mulSingle_eq_same ..

theorem sub_ofSub_of_ne {s s' : Sub} (h : s' ≠ s) (a : WithOne (View s.cls.toLayout)) : (ofSub s a).sub s' = 1 :=
  Pi.mulSingle_eq_of_ne h _

theorem list_ofList_self (l : Rep) (as : List (View l.cls.toLayout)) : (ofList l as).list l = as := by
  simp [ofList]

theorem list_ofList_of_ne {l l' : Rep} (h : l' ≠ l) (as : List (View l.cls.toLayout)) : (ofList l as).list l' = [] := by
  simp [ofList, h]

/-- A submessage is changed, from an empty one where it is not there. -/
def mutateSub (a : InteractionView) (s : Sub) (F : View s.cls.toLayout → View s.cls.toLayout) : InteractionView :=
  { a with sub := Function.update a.sub s (F (WithOne.unoneD 1 (a.sub s)) : WithOne (View s.cls.toLayout)) }

section

variable {a : InteractionView} {s s' : Sub} {F : View s.cls.toLayout → View s.cls.toLayout}

theorem sub_mutateSub_self :
    (a.mutateSub s F).sub s = (F (WithOne.unoneD 1 (a.sub s)) : WithOne (View s.cls.toLayout)) :=
  Function.update_self ..

theorem sub_mutateSub_of_ne (h : s' ≠ s) : (a.mutateSub s F).sub s' = a.sub s' := Function.update_of_ne h ..

theorem mutateSub_mul (b : View s.cls.toLayout) : a.mutateSub s (· * b) = a * ofSub s b := by
  refine InteractionView.ext (mul_one _).symm (funext fun s' => ?_) (funext fun l => (List.append_nil _).symm)
  rw [sub_mul, Pi.mul_apply]
  by_cases hs : s' = s
  · subst hs
    rw [sub_mutateSub_self, sub_ofSub_self]
    refine WithOne.cases_on (a.sub s') ?_ fun c => ?_
    · rw [WithOne.unoneD_one, one_mul, one_mul]
    · rw [WithOne.unoneD_coe, WithOne.coe_mul]
  · rw [sub_mutateSub_of_ne hs, sub_ofSub_of_ne hs, mul_one]

end

theorem ofSub_one (s : Sub) : ofSub s 1 = 1 := by
  rw [ofSub, Pi.mulSingle_one]
  rfl

end InteractionView

/-- Every required member has a value, also in the submessages that are there. -/
structure InteractionView.Complete (a : InteractionView) : Prop where
  msgId : a.base.has Interaction.Member.msgId = true
  sub : ∀ (s : Sub) (b : View s.cls.toLayout), a.sub s = b → s.cls.Complete b
  list : ∀ l, ∀ b ∈ a.list l, l.cls.Complete b

/-! ### Flags of an `interaction` -/

theorem Sub.single (s : Sub) : Flags.Single s.mask := by cases s <;> decide

theorem Sub.mask_inj {s s' : Sub} (h : s.mask = s'.mask) : s = s' := by
  cases s <;> cases s' <;> first | rfl | exact absurd h (by decide)

namespace Interaction

theorem coherent_layout : layout.Coherent where
  single := by decide
  inj := by decide
  enum x v _ := rfl

theorem mask_ne_sub (x : Member) (s : Sub) : layout.mask x ≠ s.mask := by
  cases x <;> cases s <;> decide

variable {m src : Interaction} {x : Member} {s s' : Sub} {bits : BitVec 32}

theorem has_setHasSub : (m.setHasSub s).base.has x = m.base.has x := by
  change Flags.test (m.base.hasBits ||| s.mask) (layout.mask x) = m.base.has x
  rw [Flags.test_or (coherent_layout.single x), Flags.test_of_ne s.single (coherent_layout.single x)
    (mask_ne_sub x s).symm, Bool.or_false]
  rfl

theorem has_clearHasSub : (m.clearHasSub s).base.has x = m.base.has x :=
  Flags.test_andNot_of_ne s.single (coherent_layout.single x) (mask_ne_sub x s).symm

theorem hasSub_setHasSub_self : (m.setHasSub s).hasSub s = true := by
  change Flags.test (m.base.hasBits ||| s.mask) s.mask = true
  rw [Flags.test_or s.single, Flags.test_self s.single, Bool.or_true]

theorem hasSub_setHasSub_of_ne (h : s' ≠ s) : (m.setHasSub s).hasSub s' = m.hasSub s' := by
  change Flags.test (m.base.hasBits ||| s.mask) s'.mask = m.hasSub s'
  rw [Flags.test_or s'.single, Flags.test_of_ne s.single s'.single fun heq => h (Sub.mask_inj heq).symm, Bool.or_false]
  rfl

theorem hasSub_clearHasSub_self : (m.clearHasSub s).hasSub s = false := Flags.test_andNot_self s.single

theorem hasSub_clearHasSub_of_ne (h : s' ≠ s) : (m.clearHasSub s).hasSub s' = m.hasSub s' :=
  Flags.test_andNot_of_ne s.single s'.single fun heq => h (Sub.mask_inj heq).symm

/-- Setting a member leaves the flags of the submessages alone. -/
theorem test_set_sub {base : Msg layout} (v : (layout.ty x).Value) (s : Sub) :
    Flags.test (base.set x v).hasBits s.mask = Flags.test base.hasBits s.mask := by
  change Flags.test (base.hasBits ||| layout.mask x) s.mask = _
  rw [Flags.test_or s.single, Flags.test_of_ne (coherent_layout.single x) s.single (mask_ne_sub x s), Bool.or_false]

theorem test_clear_sub (s : Sub) : Flags.test (m.base.clear x).hasBits s.mask = m.hasSub s :=
  Flags.test_andNot_of_ne (coherent_layout.single x) s.single (mask_ne_sub x s)

/-! ### Well-formed objects -/

/-- The reader keeps this field as unknown. -/
def Keeps (w : Wire) (u : UnknownField) : Prop :=
  ∀ (m : Interaction) (rest : Bytes), ∃ t bs, w.readTag (w.writeUnknown u ++ rest) = .tag t bs ∧
    m.parseField w t bs = some ({ m with base := m.base.addUnknown u }, rest)

def viewSub (m : Interaction) (s : Sub) : WithOne (View s.cls.toLayout) :=
  if m.hasSub s then ((m.getSub s).view : WithOne (View s.cls.toLayout)) else 1

def view (m : Interaction) : InteractionView := ⟨m.base.view, m.viewSub, fun l => (m.list l).map Msg.view⟩

/-- The parts are well-formed, a submessage that is there has its object, and one that is not there has none or an
empty one. -/
structure Wf (w : Wire) (m : Interaction) : Prop where
  base : m.base.Wf (Keeps w)
  sub : ∀ s, (m.getSub s).Wf (s.cls.Keeps w 1)
  isSome : ∀ s, m.hasSub s = true → (m.sub s).isSome = true
  empty : ∀ s, m.hasSub s = false → (m.getSub s).view = 1
  list : ∀ l, ∀ o ∈ m.list l, o.Wf (l.cls.Keeps w 1)

/-- From a well-formed `m` to `m'` the view is multiplied by `e`, and `m'` is well-formed. -/
def Adds (w : Wire) (e : InteractionView) (m m' : Interaction) : Prop := m.Wf w → m'.view = m.view * e ∧ m'.Wf w

variable {w : Wire} {m' m'' : Interaction} {e e' : InteractionView}

theorem adds_one : Adds w 1 m m := fun hm => ⟨(mul_one _).symm, hm⟩

theorem Adds.mul (h : Adds w e m m') (h' : Adds w e' m' m'') : Adds w (e * e') m m'' := by
  intro hm
  obtain ⟨hview, hm'⟩ := h hm
  obtain ⟨hview', hm''⟩ := h' hm'
  exact ⟨by rw [hview', hview, mul_assoc], hm''⟩

theorem wf_new : new.Wf w where
  base := Msg.wf_new
  sub _ := Msg.wf_new
  isSome s hs := by cases (Flags.test_zero s.mask).symm.trans hs
  empty _ _ := Msg.view_new
  list _ _ ho := absurd ho List.not_mem_nil

theorem view_new : new.view = 1 := by
  refine InteractionView.ext Msg.view_new (funext fun s => ?_) rfl
  change new.viewSub s = 1
  rw [viewSub, show new.hasSub s = false from Flags.test_zero _, if_neg Bool.false_ne_true]

/-- The base is replaced, with the same flags of submessages. -/
theorem adds_base {base : Msg layout} {a : View layout} (hflags : ∀ s, Flags.test base.hasBits s.mask = m.hasSub s)
    (hbase : Msg.Adds (Keeps w) a m.base base) : Adds w (.ofBase a) m { m with base := base } := by
  intro hm
  refine ⟨InteractionView.ext hbase.1 (funext fun s => ?_) (funext fun l => (List.append_nil _).symm), ?_⟩
  · change viewSub { m with base := base } s = m.viewSub s * 1
    rw [mul_one, viewSub, viewSub, hasSub, hflags s]
    rfl
  · exact ⟨hbase.2 hm.base, hm.sub, fun s hs => hm.isSome s ((hflags s).symm.trans hs),
      fun s hs => hm.empty s ((hflags s).symm.trans hs), hm.list⟩

theorem adds_set (v : (layout.ty x).Value) : Adds w (.ofBase (.single x v)) m (m.set x v) :=
  adds_base (test_set_sub v) (Msg.adds_set coherent_layout rfl)

theorem sub_mutableSub_self {f : s.cls.Object → s.cls.Object} :
    (m.mutableSub s f).sub s = some (f (m.getSub s)) := Function.update_self ..

theorem sub_mutableSub_of_ne {f : s.cls.Object → s.cls.Object} (h : s' ≠ s) :
    (m.mutableSub s f).sub s' = m.sub s' := Function.update_of_ne h ..

theorem getSub_mutableSub_self {f : s.cls.Object → s.cls.Object} : (m.mutableSub s f).getSub s = f (m.getSub s) := by
  rw [getSub, sub_mutableSub_self, Option.getD_some]

theorem getSub_mutableSub_of_ne {f : s.cls.Object → s.cls.Object} (h : s' ≠ s) :
    (m.mutableSub s f).getSub s' = m.getSub s' := by
  rw [getSub, sub_mutableSub_of_ne h, getSub]

/-- A submessage that is not there means what a new one means. -/
theorem view_getSub (hm : m.Wf w) (s : Sub) : (m.getSub s).view = WithOne.unoneD 1 (m.viewSub s) := by
  rw [viewSub]
  cases hs : m.hasSub s with
  | true => rw [if_pos rfl, WithOne.unoneD_coe]
  | false => rw [if_neg Bool.false_ne_true, WithOne.unoneD_one, hm.empty s hs]

/-- A submessage is changed, and is there then. -/
theorem mutableSub_spec {f : s.cls.Object → s.cls.Object} {F : View s.cls.toLayout → View s.cls.toLayout} (hm : m.Wf w)
    (hview : (f (m.getSub s)).view = F (m.getSub s).view) (hwf : (f (m.getSub s)).Wf (s.cls.Keeps w 1)) :
    (m.mutableSub s f).view = m.view.mutateSub s F ∧ (m.mutableSub s f).Wf w := by
  have hbase : Msg.Adds (Keeps w) 1 m.base (m.setHasSub s).base := Msg.adds_one_of_same rfl rfl fun x => has_setHasSub
  refine ⟨InteractionView.ext (hbase.1.trans (mul_one _)) (funext fun s' => ?_) rfl,
    hbase.2 hm.base, fun s' => ?_, fun s' hs' => ?_, fun s' hs' => ?_, hm.list⟩
  · change (m.mutableSub s f).viewSub s' = (m.view.mutateSub s F).sub s'
    by_cases hs : s' = s
    · subst hs
      rw [InteractionView.sub_mutateSub_self, viewSub,
        if_pos (show (m.mutableSub s' f).hasSub s' = true from hasSub_setHasSub_self), getSub_mutableSub_self, hview,
        view_getSub hm]
      rfl
    · rw [InteractionView.sub_mutateSub_of_ne hs, viewSub, getSub_mutableSub_of_ne hs,
        show (m.mutableSub s f).hasSub s' = m.hasSub s' from hasSub_setHasSub_of_ne hs]
      rfl
  · by_cases hs : s' = s
    · subst hs
      rwa [getSub_mutableSub_self]
    · rw [getSub_mutableSub_of_ne hs]
      exact hm.sub s'
  · by_cases hs : s' = s
    · subst hs
      rw [sub_mutableSub_self, Option.isSome_some]
    · rw [sub_mutableSub_of_ne hs]
      exact hm.isSome s' ((hasSub_setHasSub_of_ne hs).symm.trans hs')
  · by_cases hs : s' = s
    · subst hs
      cases hasSub_setHasSub_self.symm.trans hs'
    · rw [getSub_mutableSub_of_ne hs]
      exact hm.empty s' ((hasSub_setHasSub_of_ne hs).symm.trans hs')

/-- What is added to a submessage is added to the object. -/
theorem adds_mutableSub {f : s.cls.Object → s.cls.Object} {a : View s.cls.toLayout}
    (h : Msg.Adds (s.cls.Keeps w 1) a (m.getSub s) (f (m.getSub s))) : Adds w (.ofSub s a) m (m.mutableSub s f) := by
  intro hm
  obtain ⟨hview, hwf⟩ := mutableSub_spec (F := (· * a)) hm h.1 (h.2 (hm.sub s))
  exact ⟨by rw [hview, InteractionView.mutateSub_mul], hwf⟩

/-- Well-formed elements are added to the lists. -/
theorem adds_lists {os : (l : Rep) → List l.cls.Object} (hos : ∀ l, ∀ o ∈ os l, o.Wf (l.cls.Keeps w 1)) :
    Adds w ⟨1, 1, fun l => (os l).map Msg.view⟩ m { m with list := fun l => m.list l ++ os l } := by
  intro hm
  refine ⟨InteractionView.ext (mul_one _).symm (mul_one _).symm (funext fun l => List.map_append ..),
    hm.base, hm.sub, hm.isSome, hm.empty, fun l o ho => ?_⟩
  rcases List.mem_append.1 ho with ho | ho
  · exact hm.list l o ho
  · exact hos l o ho

/-- The elements of one list are replaced. -/
theorem view_updateList {l : Rep} {os : List l.cls.Object} (hm : m.Wf w) (hos : ∀ o ∈ os, o.Wf (l.cls.Keeps w 1)) :
    view { m with list := Function.update m.list l os } =
        { m.view with list := Function.update m.view.list l (os.map Msg.view) } ∧
      Wf w { m with list := Function.update m.list l os } := by
  refine ⟨InteractionView.ext rfl rfl (funext fun l' => ?_),
    hm.base, hm.sub, hm.isSome, hm.empty, fun l' o ho => ?_⟩
  · change (Function.update m.list l os l').map Msg.view = Function.update m.view.list l (os.map Msg.view) l'
    by_cases hl : l' = l
    · subst hl
      rw [Function.update_self, Function.update_self]
    · rw [Function.update_of_ne hl, Function.update_of_ne hl]
      rfl
  · dsimp only at ho
    by_cases hl : l' = l
    · subst hl
      rw [Function.update_self] at ho
      exact hos o ho
    · rw [Function.update_of_ne hl] at ho
      exact hm.list l' o ho


theorem adds_add {l : Rep} {o : l.cls.Object} (ho : o.Wf (l.cls.Keeps w 1)) :
    Adds w (.ofList l [o.view]) m (m.add l o) := by
  intro hm
  have hos : ∀ o' ∈ m.list l ++ [o], o'.Wf (l.cls.Keeps w 1) := by
    intro o' ho'
    rcases List.mem_append.1 ho' with ho' | ho'
    · exact hm.list l o' ho'
    · rwa [List.mem_singleton.1 ho']
  obtain ⟨hview, hwf⟩ := view_updateList hm hos
  refine ⟨hview.trans (InteractionView.ext (mul_one _).symm (mul_one _).symm (funext fun l' => ?_)), hwf⟩
  change Function.update m.view.list l _ l' = m.view.list l' ++ (InteractionView.ofList l [o.view]).list l'
  by_cases hl : l' = l
  · subst hl
    rw [Function.update_self, InteractionView.list_ofList_self, List.map_append]
    rfl
  · rw [Function.update_of_ne hl, InteractionView.list_ofList_of_ne hl, List.append_nil]

end Interaction

end Protobuf

end LearnCpp
