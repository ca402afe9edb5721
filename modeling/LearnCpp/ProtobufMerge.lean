import LearnCpp.ProtobufView

/-!
# `Clear`, `MergeFrom` and copies of an `interaction`

`Clear` leaves an object that means what a new one means, `MergeFrom` multiplies the views, and `CopyFrom` and the copy
constructor copy the view. The flags are set one by one on the way and all together at the end.
-/

namespace LearnCpp

namespace Protobuf

namespace Interaction

variable {m src : Interaction} {x : Member} {s s' : Sub} {bits : BitVec 32} {w : Wire}

/-! ### `Clear` -/

theorem clear_base (hm : m.Wf w) : m.clear.base = { Msg.new layout with cachedSize := m.base.cachedSize } :=
  Msg.clearBlocks_eq (by decide) hm.base.val_of_not_has

theorem hasSub_clear (hm : m.Wf w) : m.clear.hasSub s = false := by
  rw [hasSub, clear_base hm]
  exact Flags.test_zero _

theorem test_gate (hgate : bits &&& s.mask = s.mask) (hs : m.hasSub s = true) : Flags.test m.base.hasBits bits = true :=
  Flags.test_of_gate hgate hs

theorem sub_clear : m.clear.sub s =
    if Flags.test m.base.hasBits 31 && m.hasSub s then (m.sub s).map s.cls.clear else m.sub s := rfl

/-- A submessage is cleared or was empty already. -/
theorem getSub_clear (hm : m.Wf w) (s : Sub) :
    (m.clear.getSub s).view = 1 ∧ (m.clear.getSub s).Wf (s.cls.Keeps w 1) := by
  cases hs : m.hasSub s with
  | false =>
    have hsub : m.clear.sub s = m.sub s := by
      rw [sub_clear, hs, Bool.and_false, if_neg Bool.false_ne_true]
    rw [getSub, hsub]
    exact ⟨hm.empty s hs, hm.sub s⟩
  | true =>
    have hsub : m.clear.sub s = (m.sub s).map s.cls.clear := by
      rw [sub_clear, hs, test_gate (by cases s <;> decide) hs, Bool.and_true, if_pos rfl]
    obtain ⟨o, ho⟩ := Option.isSome_iff_exists.1 (hm.isSome s hs)
    have hwf := hm.sub s
    rw [getSub, ho, Option.getD_some] at hwf
    rw [getSub, hsub, ho, Option.map_some, Option.getD_some]
    exact ⟨MessageClass.view_clear s.coherent hwf, MessageClass.wf_clear s.coherent hwf⟩

theorem view_clear (hm : m.Wf w) : m.clear.view = 1 := by
  refine InteractionView.ext ?_ (funext fun s => ?_) rfl
  · change m.clear.base.view = 1
    rw [clear_base hm]
    exact Msg.view_new
  · change m.clear.viewSub s = 1
    rw [viewSub, hasSub_clear hm, if_neg Bool.false_ne_true]

theorem wf_clear (hm : m.Wf w) : m.clear.Wf w where
  base := by
    have hsize : Msg.Adds (Keeps w) 1 (Msg.new layout) { Msg.new layout with cachedSize := m.base.cachedSize } :=
      Msg.adds_one_of_same rfl rfl fun _ => rfl
    rw [clear_base hm]
    exact hsize.2 Msg.wf_new
  sub s := (getSub_clear hm s).2
  isSome s hs := by cases (hasSub_clear hm).symm.trans hs
  empty s _ := (getSub_clear hm s).1
  list _ _ ho := absurd ho List.not_mem_nil

/-! ### `MergeFrom` -/

theorem wf_mergeList {l : Rep} {os : List l.cls.Object} (hos : ∀ o ∈ os, o.Wf (l.cls.Keeps w 1)) :
    (∀ o ∈ mergeList l os, o.Wf (l.cls.Keeps w 1)) ∧ (mergeList l os).map Msg.view = os.map Msg.view := by
  constructor
  · intro o ho
    obtain ⟨o', ho', rfl⟩ := List.mem_map.1 ho
    exact (MessageClass.mergeFrom_new l.coherent (hos o' ho')).2
  · rw [mergeList, List.map_map]
    exact List.map_congr_left fun o ho => (MessageClass.mergeFrom_new l.coherent (hos o ho)).1

/-- A submessage that `src` has is merged, and the flag is set. -/
theorem adds_mergeSub (hsrc : src.Wf w) (s : Sub) : Adds w (.ofSub s (src.viewSub s)) m (mergeSub src m s) := by
  unfold mergeSub viewSub
  split_ifs
  · exact adds_mutableSub (MessageClass.adds_mergeFrom s.coherent (hsrc.sub s) _)
  · rw [InteractionView.ofSub_one]
    exact adds_one

theorem adds_foldl_mergeSub (hsrc : src.Wf w) (ss : List Sub) :
    Adds w (ss.map fun s => InteractionView.ofSub s (src.viewSub s)).prod m (ss.foldl (mergeSub src) m) := by
  induction ss generalizing m with
  | nil => exact adds_one
  | cons s ss ih =>
    rw [List.map_cons, List.prod_cons]
    exact (adds_mergeSub hsrc s).mul ih

theorem prod_ofSub (a : (s : Sub) → WithOne (View s.cls.toLayout)) :
    ([Sub.terminalInfo, .terminalCmdInfo, .baseStationInfo, .baseCmdInfo].map fun s =>
      InteractionView.ofSub s (a s)).prod = ⟨1, a, fun _ => []⟩ := by
  refine InteractionView.ext rfl (funext fun s => ?_) rfl
  cases s <;> simp [InteractionView.ofSub]

/-- What `mergeSub` does to the base: flags of `src` are added. -/
def SameUnder (bits : BitVec 32) (a b : Msg layout) : Prop :=
  { a with hasBits := a.hasBits ||| bits } = { b with hasBits := b.hasBits ||| bits }

theorem or_mask_of_hasSub (hs : src.hasSub s = true) (b : BitVec 32) :
    b ||| s.mask ||| src.base.hasBits = b ||| src.base.hasBits := by
  have hmask : src.base.hasBits &&& s.mask = s.mask := (Flags.and_eq_iff_test s.single).2 hs
  rw [BitVec.or_assoc]
  refine congrArg (b ||| ·) (BitVec.eq_of_getLsbD_eq fun i hi => ?_)
  have hbit := Flags.and_eq_iff.1 hmask i
  rw [BitVec.getLsbD_or]
  cases hi : s.mask.getLsbD i with
  | true => rw [hbit hi, Bool.true_or]
  | false => rw [Bool.false_or]

theorem sameUnder_foldl_mergeSub (ss : List Sub) :
    SameUnder src.base.hasBits (ss.foldl (mergeSub src) m).base m.base := by
  refine foldl_stays (P := fun m' : Interaction => SameUnder src.base.hasBits m'.base m.base) rfl fun m' s _ h => ?_
  unfold mergeSub
  split_ifs with hs
  · refine Eq.trans ?_ h
    change ({ m'.base with hasBits := m'.base.hasBits ||| s.mask ||| src.base.hasBits } : Msg layout) = _
    rw [or_mask_of_hasSub hs]
  · exact h

/-- Assignments do not look at flags. -/
theorem sameUnder_foldl_mergeEntry {bits : BitVec 32} {a b : Msg layout} (h : SameUnder bits a b)
    (es : List (BitVec 32 × Member × Bool)) (hes : ∀ e ∈ es, e.2.2 = false) :
    SameUnder bits (es.foldl (Msg.mergeEntry src.base) a) (es.foldl (Msg.mergeEntry src.base) b) := by
  induction es generalizing a b with
  | nil => exact h
  | cons e es ih =>
    refine ih ?_ fun e' he' => hes e' (by simp [he'])
    unfold Msg.mergeEntry
    rw [hes e (by simp), if_neg Bool.false_ne_true, if_neg Bool.false_ne_true]
    split_ifs
    · exact congrArg (Msg.assign e.2.1 (src.base.val e.2.1)) h
    · exact h

theorem hasSub_foldl_mergeSub {ss : List Sub} (hs : s ∈ ss) (hsrc : src.hasSub s = true) :
    (ss.foldl (mergeSub src) m).hasSub s = true := by
  refine foldl_reaches (P := fun m : Interaction => m.hasSub s = true) hs (fun m => ?_) fun m s' _ h => ?_
  · rw [mergeSub, if_pos hsrc]
    exact hasSub_setHasSub_self
  · unfold mergeSub
    split_ifs
    · by_cases hne : s = s'
      · subst hne
        exact hasSub_setHasSub_self
      · exact (hasSub_setHasSub_of_ne hne).trans h
    · exact h

/-- The block of `MergeFrom`, as far as it is about the base. -/
def block : MergeBlock layout where
  gate := 255
  fields := [(0x00000001, .configFile, true), (0x00000020, .msgId, false), (0x00000040, .terminalCmdResult, false),
    (0x00000080, .baseCmdResult, false)]
  orBits := true

theorem adds_block (hsrc : src.Wf w) :
    Msg.Adds (Keeps w) src.base.view m.base (Msg.mergeBlock src.base (src.base.mergeUnknown m.base) block) := by
  change Msg.Adds (Keeps w) src.base.view m.base (Msg.mergeBlocks [block] src.base (src.base.mergeUnknown m.base))
  exact Msg.adds_mergeBlocks coherent_layout (by decide) (by decide) hsrc.base

theorem adds_mergeUnknown (hsrc : src.Wf w) :
    Msg.Adds (Keeps w) ⟨1, src.base.unknownFields⟩ m.base (src.base.mergeUnknown m.base) := by
  refine ⟨View.ext (mul_one _).symm rfl, fun hm => ⟨hm.val_of_not_has, hm.valid, fun u hu => ?_⟩⟩
  rcases List.mem_append.1 hu with hu | hu
  · exact hm.unknown u hu
  · exact hsrc.base.unknown u hu

/-- The base of the result is what the block makes of it; the flags that `mutable_x` sets are flags of `src`. -/
theorem base_mergeFrom : (mergeFrom src m).base = Msg.mergeBlock src.base (src.base.mergeUnknown m.base) block := by
  rw [mergeFrom, Msg.mergeBlock]
  cases hgate : Flags.test src.base.hasBits 255 with
  | false =>
    rw [show block.gate = 255 from rfl, hgate]
    rfl
  | true =>
    rw [show block.gate = 255 from rfl, hgate, if_pos rfl, if_pos rfl]
    exact sameUnder_foldl_mergeEntry (sameUnder_foldl_mergeSub _) _ (by simp)

theorem list_mergeFrom (l : Rep) : (mergeFrom src m).list l = m.list l ++ mergeList l (src.list l) := by
  have hfold (ss : List Sub) (m : Interaction) : (ss.foldl (mergeSub src) m).list = m.list := by
    refine foldl_stays (P := fun m' : Interaction => m'.list = m.list) rfl fun m' s _ h => ?_
    unfold mergeSub
    split_ifs <;> exact h
  rw [mergeFrom]
  split_ifs
  · dsimp only
    rw [hfold]
  · rfl

/-- Merging `config_file` is setting it, or nothing. -/
theorem adds_mergeEntry (w : Wire) (src : Interaction) (base : Msg layout) :
    (∃ a, Msg.Adds (Keeps w) a base (Msg.mergeEntry src.base base (0x00000001, Member.configFile, true))) ∧
      ∀ s : Sub, Flags.test (Msg.mergeEntry src.base base (0x00000001, Member.configFile, true)).hasBits s.mask =
        Flags.test base.hasBits s.mask := by
  have heq : Msg.mergeEntry src.base base (0x00000001, Member.configFile, true) =
      if Flags.test src.base.hasBits 0x00000001 then base.set Member.configFile (src.base.val Member.configFile)
      else base := rfl
  rw [heq]
  split_ifs
  · exact ⟨⟨_, Msg.adds_set coherent_layout rfl⟩, fun s => test_set_sub _ s⟩
  · exact ⟨⟨1, Msg.adds_one⟩, fun s => rfl⟩

theorem hasBits_foldl_mergeEntry {base : Msg layout} {es : List (BitVec 32 × Member × Bool)}
    (hes : ∀ e ∈ es, e.2.2 = false) : (es.foldl (Msg.mergeEntry src.base) base).hasBits = base.hasBits := by
  refine foldl_stays (P := fun b : Msg layout => b.hasBits = base.hasBits) rfl fun b e he h => ?_
  rw [Msg.mergeEntry, hes e he, if_neg Bool.false_ne_true]
  split_ifs <;> exact h

/-- The submessages of the result are those of a well-formed object. -/
theorem exists_sub_mergeFrom (hsrc : src.Wf w) (hm : m.Wf w) :
    ∃ m' : Interaction, m'.Wf w ∧ (∀ s, m'.viewSub s = m.viewSub s * src.viewSub s) ∧
      (mergeFrom src m).sub = m'.sub ∧ ∀ s, (mergeFrom src m).hasSub s = m'.hasSub s := by
  cases hgate : Flags.test src.base.hasBits 255 with
  | false =>
    have hmerge : mergeFrom src m =
        { m with base := src.base.mergeUnknown m.base, list := fun l => m.list l ++ mergeList l (src.list l) } := by
      rw [mergeFrom, hgate]
      exact if_neg Bool.false_ne_true
    refine ⟨m, hm, fun s => ?_, by rw [hmerge], fun s => by rw [hmerge]; rfl⟩
    have hs : src.hasSub s = false := by
      by_contra hs
      rw [test_gate (by cases s <;> decide) (Bool.eq_true_of_not_eq_false hs)] at hgate
      cases hgate
    rw [viewSub, viewSub, hs, if_neg Bool.false_ne_true, mul_one]
  | true =>
    obtain ⟨⟨a, hconfig⟩, hflags⟩ := adds_mergeEntry w src (src.base.mergeUnknown m.base)
    have hbase := adds_base (m := m) hflags ((adds_mergeUnknown hsrc).mul hconfig)
    have hlists := (hbase.mul (adds_lists fun l => (wf_mergeList (hsrc.list l)).1)).mul
      (adds_foldl_mergeSub hsrc [.terminalInfo, .terminalCmdInfo, .baseStationInfo, .baseCmdInfo])
    obtain ⟨hview, hwf⟩ := hlists hm
    refine ⟨_, hwf, fun s => ?_, ?_, fun s => ?_⟩
    · have hsub := congrFun (congrArg InteractionView.sub hview) s
      rw [prod_ofSub] at hsub
      exact hsub.trans (congrArg (m.viewSub s * ·) ((congrArg (· * src.viewSub s) (mul_one _)).trans (one_mul _)))
    · rw [mergeFrom, hgate, if_pos rfl]
      rfl
    · rw [mergeFrom, hgate, if_pos rfl, hasSub]
      dsimp only
      rw [Flags.test_or s.single, hasBits_foldl_mergeEntry (by simp)]
      cases hs : src.hasSub s with
      | false => exact (congrArg (_ || ·) hs).trans (Bool.or_false _)
      | true =>
        refine (congrArg (_ || ·) hs).trans ((Bool.or_true _).trans (hasSub_foldl_mergeSub ?_ hs).symm)
        cases s <;> simp

/-- `MergeFrom` multiplies the views. -/
theorem adds_mergeFrom (hsrc : src.Wf w) (m : Interaction) : Adds w src.view m (mergeFrom src m) := by
  intro hm
  have hbase := adds_block (m := m) hsrc
  rw [← base_mergeFrom] at hbase
  obtain ⟨m', hwf, hview, hsub, hflags⟩ := exists_sub_mergeFrom hsrc hm
  have hgetSub (s : Sub) : (mergeFrom src m).getSub s = m'.getSub s := by rw [getSub, hsub, getSub]
  refine ⟨InteractionView.ext hbase.1 (funext fun s => ?_) (funext fun l => ?_), hbase.2 hm.base, fun s => ?_,
    fun s hs => ?_, fun s hs => ?_, fun l o ho => ?_⟩
  · refine Eq.trans ?_ (hview s)
    change (mergeFrom src m).viewSub s = m'.viewSub s
    rw [viewSub, hflags, hgetSub, viewSub]
  · change ((mergeFrom src m).list l).map Msg.view = (m.list l).map Msg.view ++ (src.list l).map Msg.view
    rw [list_mergeFrom, List.map_append, (wf_mergeList (hsrc.list l)).2]
  · rw [hgetSub]
    exact hwf.sub s
  · rw [hsub]
    exact hwf.isSome s ((hflags s).symm.trans hs)
  · rw [hgetSub]
    exact hwf.empty s ((hflags s).symm.trans hs)
  · rw [list_mergeFrom] at ho
    rcases List.mem_append.1 ho with ho | ho
    · exact hm.list l o ho
    · exact (wf_mergeList (hsrc.list l)).1 o ho

theorem view_copyFrom (hsrc : src.Wf w) (hm : m.Wf w) :
    (copyFrom src m).view = src.view ∧ (copyFrom src m).Wf w := by
  obtain ⟨hview, hwf⟩ := adds_mergeFrom hsrc m.clear (wf_clear hm)
  exact ⟨by rw [copyFrom, hview, view_clear hm, one_mul], hwf⟩

theorem getSub_copy (s : Sub) : src.copy.getSub s = if src.hasSub s then (src.getSub s).copy else Msg.new _ := by
  rw [getSub, copy]
  dsimp only
  split_ifs <;> rfl

theorem view_copy (hsrc : src.Wf w) : src.copy.view = src.view ∧ src.copy.Wf w := by
  have hbase := Msg.adds_copy hsrc.base
  have hsub (s : Sub) := Msg.adds_copy (hsrc.sub s)
  have hlist (l : Rep) := wf_mergeList (hsrc.list l)
  refine ⟨InteractionView.ext (hbase.1.trans (mul_one _)) (funext fun s => ?_) (funext fun l => (hlist l).2),
    hbase.2 hsrc.base, fun s => ?_, fun s hs => ?_, fun s hs => ?_, fun l => (hlist l).1⟩
  · change src.copy.viewSub s = src.viewSub s
    rw [viewSub, getSub_copy, viewSub]
    change (if src.hasSub s = true then _ else _) = _
    cases src.hasSub s with
    | true => rw [if_pos rfl, if_pos rfl, if_pos rfl, (hsub s).1, mul_one]
    | false => rfl
  · rw [getSub_copy]
    split_ifs
    · exact (hsub s).2 (hsrc.sub s)
    · exact Msg.wf_new
  · change (if src.hasSub s then some (src.getSub s).copy else none : Option s.cls.Object).isSome = true
    rw [show src.hasSub s = true from hs, if_pos rfl, Option.isSome_some]
  · have hhas : src.hasSub s = false := hs
    rw [getSub_copy, hhas]
    exact Msg.view_new

/-! ### Clearing parts -/

theorem view_clearField (x : Member) (hm : m.Wf w) :
    (m.clearField x).view = { m.view with base := m.view.base.erase x } ∧ (m.clearField x).Wf w := by
  refine ⟨InteractionView.ext (Msg.view_clear coherent_layout) (funext fun s => ?_) rfl, hm.base.clear coherent_layout,
    hm.sub, fun s hs => hm.isSome s ((test_clear_sub s).symm.trans hs),
    fun s hs => hm.empty s ((test_clear_sub s).symm.trans hs), hm.list⟩
  change (m.clearField x).viewSub s = m.viewSub s
  rw [viewSub, show (m.clearField x).hasSub s = m.hasSub s from test_clear_sub s]
  rfl

theorem getSub_clearSub_self : (m.clearSub s).getSub s = ((m.sub s).map s.cls.clear).getD (Msg.new _) := by
  rw [getSub, clearSub]
  simp

theorem getSub_clearSub_of_ne (h : s' ≠ s) : (m.clearSub s).getSub s' = m.getSub s' := by
  rw [getSub, clearSub, getSub]
  simp [h]

theorem view_clearSub (s : Sub) (hm : m.Wf w) :
    (m.clearSub s).view = { m.view with sub := Function.update m.view.sub s 1 } ∧ (m.clearSub s).Wf w := by
  have hbase : Msg.Adds (Keeps w) 1 m.base (m.clearHasSub s).base :=
    Msg.adds_one_of_same rfl rfl fun x => has_clearHasSub
  have hhas : (m.clearSub s).hasSub s = false := hasSub_clearHasSub_self
  have hne {s' : Sub} (hs : s' ≠ s) : (m.clearSub s).hasSub s' = m.hasSub s' := hasSub_clearHasSub_of_ne hs
  have hself : ((m.clearSub s).getSub s).view = 1 ∧ ((m.clearSub s).getSub s).Wf (s.cls.Keeps w 1) := by
    rw [getSub_clearSub_self]
    rcases ho : m.sub s with _ | o
    · exact ⟨Msg.view_new, Msg.wf_new⟩
    · have hwf := hm.sub s
      rw [getSub, ho, Option.getD_some] at hwf
      exact ⟨MessageClass.view_clear s.coherent hwf, MessageClass.wf_clear s.coherent hwf⟩
  refine ⟨InteractionView.ext (hbase.1.trans (mul_one _)) (funext fun s' => ?_) rfl,
    hbase.2 hm.base, fun s' => ?_, fun s' hs' => ?_, fun s' hs' => ?_, hm.list⟩
  · change (m.clearSub s).viewSub s' = Function.update m.viewSub s 1 s'
    by_cases hs : s' = s
    · subst hs
      rw [Function.update_self, viewSub, hhas, if_neg Bool.false_ne_true]
    · rw [Function.update_of_ne hs, viewSub, hne hs, getSub_clearSub_of_ne hs, viewSub]
  · by_cases hs : s' = s
    · subst hs
      exact hself.2
    · rw [getSub_clearSub_of_ne hs]
      exact hm.sub s'
  · by_cases hs : s' = s
    · subst hs
      cases hhas.symm.trans hs'
    · change (Function.update m.sub s _ s').isSome = true
      rw [Function.update_of_ne hs]
      exact hm.isSome s' ((hne hs).symm.trans hs')
  · by_cases hs : s' = s
    · subst hs
      exact hself.1
    · rw [getSub_clearSub_of_ne hs]
      exact hm.empty s' ((hne hs).symm.trans hs')

/-! ### `IsInitialized` -/

theorem isInitialized_iff : m.isInitialized = true ↔ m.view.Complete := by
  have hmsgId : (m.base.hasBits &&& 0x00000020 == 0x00000020) = true ↔ m.view.base.has Member.msgId = true := by
    rw [beq_iff_eq, show m.view.base.has Member.msgId = m.base.has Member.msgId from View.has_view m.base _]
    exact Flags.and_eq_iff_test (coherent_layout.single Member.msgId)
  have hlist (l : Rep) : (m.list l).all l.cls.isInitialized = true ↔ ∀ a ∈ m.view.list l, l.cls.Complete a := by
    rw [List.all_eq_true, show m.view.list l = (m.list l).map Msg.view from rfl, List.forall_mem_map]
    exact forall₂_congr fun o _ => MessageClass.isInitialized_iff l.coherent
  have hsub (s : Sub) : (!m.hasSub s || s.cls.isInitialized (m.getSub s)) = true ↔
      ∀ a : View s.cls.toLayout, m.view.sub s = a → s.cls.Complete a := by
    rw [show m.view.sub s = m.viewSub s from rfl, viewSub]
    cases m.hasSub s with
    | true =>
      rw [Bool.not_true, Bool.false_or, if_pos rfl, MessageClass.isInitialized_iff s.coherent]
      exact ⟨fun h a ha => WithOne.coe_inj.1 ha ▸ h, fun h => h _ rfl⟩
    | false => exact ⟨fun _ a ha => absurd ha WithOne.one_ne_coe, fun _ => rfl⟩
  rw [isInitialized, Bool.and_eq_true, Bool.and_eq_true, hmsgId, List.all_eq_true, List.all_eq_true]
  constructor
  · rintro ⟨⟨hm, hl⟩, hs⟩
    exact ⟨hm, fun s => (hsub s).1 (hs s (by cases s <;> simp)), fun l => (hlist l).1 (hl l (by cases l <;> simp))⟩
  · rintro ⟨hm, hs, hl⟩
    exact ⟨⟨hm, fun l _ => (hlist l).2 (hl l)⟩, fun s _ => (hsub s).2 (hs s)⟩

end Interaction

end Protobuf

end LearnCpp
