import LearnCpp.ProtobufMerge

/-!
# Writing and reading an `interaction`

`ByteSizeLong` leaves in the submessages the sizes that `SerializeWithCachedSizes` writes before them. What is written
is read back by multiplying the view, and all input that is read multiplies the view of every object by the same.
-/

namespace LearnCpp

namespace Protobuf

open TagLoop

namespace Interaction

variable {w : Wire} {m src : Interaction} {x : Member} {s : Sub} {l : Rep} {number t : ℕ} {bs : Bytes}

theorem dispatches : Dispatches Slot.wireType switch := ⟨by decide, by decide⟩

theorem writes_case : ∀ e ∈ writes, (e.1, 8 * e.1 + e.2.wireType, e.2) ∈ switch := by decide

theorem Slot.wireType_lt (slot : Slot) : slot.wireType < 8 := by
  cases slot with
  | field x => exact FieldType.wireType_lt _
  | sub s => exact (by decide : 2 < 8)
  | rep l => exact (by decide : 2 < 8)

/-! ### Sizes -/

def entrySize (w : Wire) (m : Interaction) : Slot → ℕ
  | .field x => m.base.sizeIfHas w x
  | .sub s => m.subSize w s
  | .rep l => m.listSize w l

theorem sizeIfHas_of_closed (hgate : bits &&& layout.mask x = layout.mask x)
    (hclosed : Flags.test m.base.hasBits bits = false) : m.base.sizeIfHas w x = 0 := by
  refine Msg.sizeIfHas_of_not_has ?_
  by_contra hx
  rw [Flags.test_of_gate hgate (Bool.eq_true_of_not_eq_false hx)] at hclosed
  cases hclosed

theorem subSize_of_closed {bits : BitVec 32} (hgate : bits &&& s.mask = s.mask)
    (hclosed : Flags.test m.base.hasBits bits = false) : m.subSize w s = 0 := by
  refine if_neg fun hs => ?_
  rw [test_gate hgate hs] at hclosed
  cases hclosed

/-- No mask of `ByteSizeLong` hides a member. -/
theorem byteSize_eq : m.byteSize w = m.base.unknownSize w + (writes.map fun e => m.entrySize w e.2).sum := by
  have hlow : (if Flags.test m.base.hasBits 31 then m.base.sizeIfHas w .configFile + m.subSize w .terminalInfo +
      m.subSize w .terminalCmdInfo + m.subSize w .baseStationInfo + m.subSize w .baseCmdInfo else 0) =
      m.base.sizeIfHas w .configFile + m.subSize w .terminalInfo +
      m.subSize w .terminalCmdInfo + m.subSize w .baseStationInfo + m.subSize w .baseCmdInfo := by
    split_ifs with hgate
    · rfl
    · have hclosed := Bool.eq_false_of_not_eq_true hgate
      rw [sizeIfHas_of_closed (by decide) hclosed, subSize_of_closed (by decide) hclosed,
        subSize_of_closed (by decide) hclosed, subSize_of_closed (by decide) hclosed,
        subSize_of_closed (by decide) hclosed]
  have hhigh : (if Flags.test m.base.hasBits 192 then m.base.sizeIfHas w .terminalCmdResult +
      m.base.sizeIfHas w .baseCmdResult else 0) =
      m.base.sizeIfHas w .terminalCmdResult + m.base.sizeIfHas w .baseCmdResult := by
    split_ifs with hgate
    · rfl
    · have hclosed := Bool.eq_false_of_not_eq_true hgate
      rw [sizeIfHas_of_closed (by decide) hclosed, sizeIfHas_of_closed (by decide) hclosed]
  rw [byteSize, hlow, hhigh]
  simp only [writes, entrySize, List.map_cons, List.map_nil, List.sum_cons, List.sum_nil]
  omega

/-- Everything that is written has a length that fits an `int`. -/
structure Sized (w : Wire) (m : Interaction) : Prop where
  base : m.base.Sized
  sub : ∀ s, m.hasSub s = true → s.cls.byteSize w (m.getSub s) ≤ intMax
  list : ∀ l, ∀ o ∈ m.list l, l.cls.byteSize w o ≤ intMax

theorem mem_writes (slot : Slot) : ∃ e ∈ writes, e.2 = slot := by
  refine List.mem_map.1 (show slot ∈ writes.map Prod.snd from ?_)
  cases slot with
  | field x => cases x <;> decide
  | sub s => cases s <;> decide
  | rep l => cases l <;> decide

theorem entrySize_le (h : m.byteSize w ≤ intMax) (slot : Slot) : m.entrySize w slot ≤ intMax := by
  obtain ⟨e, he, rfl⟩ := mem_writes slot
  rw [byteSize_eq] at h
  have hle := List.le_sum_of_mem (List.mem_map_of_mem (f := fun e => m.entrySize w e.2) he)
  exact Nat.le_trans hle (Nat.le_trans (Nat.le_add_left ..) h)

theorem sized_of_byteSize (h : m.byteSize w ≤ intMax) : m.Sized w where
  base := by
    have hsum : (([.msgId, .terminalCmdResult, .baseCmdResult, .configFile] : List Member).map
        (m.base.sizeIfHas w)).sum ≤ intMax := by
      rw [byteSize_eq] at h
      simp only [writes, entrySize, List.map_cons, List.map_nil, List.sum_cons, List.sum_nil] at h ⊢
      omega
    exact Msg.sized_of_le hsum fun x => by cases x <;> decide
  sub s hs := by
    have hle := entrySize_le h (.sub s)
    rw [entrySize, subSize, if_pos hs] at hle
    have hmessage := w.le_messageSize (s.cls.byteSize w (m.getSub s))
    omega
  list l o ho := by
    have hle := entrySize_le h (.rep l)
    rw [entrySize, listSize] at hle
    have hmem := List.le_sum_of_mem (List.mem_map_of_mem (f := fun o => w.messageSize (l.cls.byteSize w o)) ho)
    have hmessage := w.le_messageSize (l.cls.byteSize w o)
    omega

/-! ### Bytes -/

/-- A submessage as it is written when the size in it is its own. -/
def written (w : Wire) (C : MessageClass) (number : ℕ) (o : C.Object) : Bytes :=
  w.writeMessage number (C.serializeWithCachedSizes w o).length (C.serializeWithCachedSizes w o)

/-- After `ByteSizeLong` the size in a submessage is its own. -/
theorem writeMessage_byteSizeLong {C : MessageClass} (hC : C.Coherent) {o : C.Object} (h : C.byteSize w o ≤ intMax)
    (number : ℕ) : writeMessage w C number (C.byteSizeLong w o).2 = written w C number o := by
  have hlt : C.byteSize w o < 2 ^ 32 := Nat.lt_of_le_of_lt h (by decide)
  rw [written, MessageClass.length_serialize hC h, ← Nat.mod_eq_of_lt hlt]
  rfl

theorem length_written {C : MessageClass} (hC : C.Coherent) {o : C.Object} (h : C.byteSize w o ≤ intMax)
    (hpos : 0 < number) (hlt : number < 16) : (written w C number o).length = 1 + w.messageSize (C.byteSize w o) := by
  have hlen := MessageClass.length_serialize hC h
  rw [written, w.length_writeMessage hpos hlt (by omega), hlen]

/-- What a statement of `SerializeWithCachedSizes` writes after `ByteSizeLong`. -/
def writeEntry (w : Wire) (m : Interaction) : ℕ × Slot → Bytes
  | (number, .field x) => m.base.writeField w (layout.mask x, number, x)
  | (number, .sub s) => if m.hasSub s then written w s.cls number (m.getSub s) else []
  | (number, .rep l) => ((m.list l).map (written w l.cls number)).flatten

theorem hasSub_byteSizeLong : (m.byteSizeLong w).2.hasSub s = m.hasSub s := rfl

theorem getSub_byteSizeLong (hsome : (m.sub s).isSome = true) (hs : m.hasSub s = true) :
    (m.byteSizeLong w).2.getSub s = (s.cls.byteSizeLong w (m.getSub s)).2 := by
  obtain ⟨o, ho⟩ := Option.isSome_iff_exists.1 hsome
  have hsub : (m.byteSizeLong w).2.sub s = some (s.cls.byteSizeLong w o).2 := by
    change (if m.hasSub s = true then (m.sub s).map fun o => (s.cls.byteSizeLong w o).2 else m.sub s) = _
    rw [if_pos hs, ho, Option.map_some]
  rw [getSub, hsub, getSub, ho, Option.getD_some, Option.getD_some]

theorem write_byteSizeLong (hm : m.Wf w) (hsized : m.Sized w) (e : ℕ × Slot) :
    (m.byteSizeLong w).2.write w e = m.writeEntry w e := by
  obtain ⟨number, x | s | l⟩ := e
  · rfl
  · rw [write, writeEntry, hasSub_byteSizeLong]
    split_ifs with hs
    · rw [getSub_byteSizeLong (hm.isSome s hs) hs, writeMessage_byteSizeLong s.coherent (hsized.sub s hs)]
    · rfl
  · change (((m.list l).map fun o => (l.cls.byteSizeLong w o).2).map (writeMessage w l.cls number)).flatten = _
    rw [List.map_map, writeEntry]
    refine congrArg List.flatten (List.map_congr_left fun o ho => ?_)
    exact writeMessage_byteSizeLong l.coherent (hsized.list l o ho) number

theorem serialize_eq (hm : m.Wf w) (hsized : m.Sized w) : (m.byteSizeLong w).2.serializeWithCachedSizes w =
    (writes.map (m.writeEntry w)).flatten ++ m.base.writeUnknown w := by
  rw [serializeWithCachedSizes]
  refine congrArg (fun bs => List.flatten bs ++ _) (List.map_congr_left fun e _ => ?_)
  exact write_byteSizeLong hm hsized e

theorem length_writeEntry (hsized : m.Sized w) (hpos : 0 < number) (hlt : number < 16) (slot : Slot) :
    (m.writeEntry w (number, slot)).length = m.entrySize w slot := by
  cases slot with
  | field x => exact Msg.length_writeField rfl hpos hlt hsized.base
  | sub s =>
    rw [writeEntry, entrySize, subSize]
    split_ifs with hs
    · exact length_written s.coherent (hsized.sub s hs) hpos hlt
    · rfl
  | rep l =>
    rw [writeEntry, entrySize, listSize, List.length_flatten, List.map_map]
    have hlist := hsized.list l
    generalize m.list l = os at hlist ⊢
    induction os with
    | nil => rfl
    | cons o os ih =>
      have hos := ih fun o' ho' => hlist o' (by simp [ho'])
      have ho := length_written l.coherent (hlist o (by simp)) hpos hlt
      rw [List.map_cons, List.sum_cons, Function.comp_apply, hos, ho, List.length_cons, List.map_cons, List.sum_cons]
      omega

/-- `ByteSizeLong` is the number of bytes that are written after it. -/
theorem length_serialize (hm : m.Wf w) (h : m.byteSize w ≤ intMax) :
    ((m.byteSizeLong w).2.serializeWithCachedSizes w).length = m.byteSize w := by
  have hsized := sized_of_byteSize h
  rw [serialize_eq hm hsized, List.length_append, Msg.length_writeUnknown, List.length_flatten, byteSize_eq,
    Nat.add_comm, List.map_map]
  refine congrArg (fun l : List ℕ => m.base.unknownSize w + l.sum) (List.map_congr_left fun e he => ?_)
  obtain ⟨hpos, hlt, -⟩ := dispatches.tag _ (writes_case e he)
  exact length_writeEntry hsized hpos hlt e.2

/-! ### Reading -/

theorem parseField_of_dispatch {slot : Slot} (h : dispatch switch t = some (number, slot)) :
    m.parseField w t bs = m.readSlot w number bs slot := by
  rw [parseField, h]

theorem parseField_of_none (h : dispatch switch t = none) : m.parseField w t bs = m.skipField w t bs := by
  rw [parseField, h]

theorem keeps_of_skip {u : UnknownField} {rest : Bytes} (h : dispatch switch t = none)
    (hskip : w.skip 0 t bs = some (u, rest)) : Keeps w u := by
  intro m rest'
  obtain ⟨bs', hread, hskip'⟩ := w.skip_writeUnknown hskip rest'
  refine ⟨t, bs', hread, ?_⟩
  rw [parseField_of_none h, skipField, Msg.skipField, hskip']
  rfl

/-- A submessage is read into every object alike. -/
theorem uniform_readMessage {σ M : Type} {R : M → σ → σ → Prop} {merge : Bytes → σ → Option (σ × Bool)}
    (h : ∀ bs, Uniform R (merge bs)) (bs : Bytes) : Uniform R (readMessage w merge bs) := by
  rcases hlimit : w.readLimit bs with _ | ⟨body, rest⟩
  · exact Or.inl fun o => by rw [readMessage, hlimit, Option.bind_none]
  · rcases h body with hnone | ⟨consumed, e, hsome⟩
    · exact Or.inl fun o => by rw [readMessage, hlimit, Option.bind_some, hnone, Option.bind_none]
    · cases consumed with
      | false =>
        refine Or.inl fun o => ?_
        obtain ⟨o', ho', -⟩ := hsome o
        rw [readMessage, hlimit, Option.bind_some, ho', Option.bind_some, if_neg Bool.false_ne_true]
      | true =>
        refine Or.inr ⟨rest, e, fun o => ?_⟩
        obtain ⟨o', ho', hR⟩ := hsome o
        refine ⟨o', ?_, hR⟩
        rw [readMessage, hlimit, Option.bind_some, ho', Option.bind_some, if_pos rfl]

theorem readMessage_le {σ : Type} {merge : Bytes → σ → Option (σ × Bool)} {o o' : σ} {rest : Bytes}
    (h : readMessage w merge bs o = some (o', rest)) : rest.length ≤ bs.length := by
  obtain ⟨p, hlimit, h⟩ := Option.bind_eq_some_iff.1 h
  obtain ⟨q, -, h⟩ := Option.bind_eq_some_iff.1 h
  split_ifs at h
  cases h
  exact w.readLimit_le hlimit

theorem parseField_le {m' : Interaction} {rest : Bytes} (h : m.parseField w t bs = some (m', rest)) :
    rest.length ≤ bs.length := by
  rcases hcase : dispatch switch t with _ | ⟨number, slot⟩
  · rw [parseField_of_none hcase] at h
    obtain ⟨p, hskip, h⟩ := Option.map_eq_some_iff.1 h
    cases h
    exact Msg.skipField_le hskip
  · rw [parseField_of_dispatch hcase] at h
    cases slot with
    | field x =>
      obtain ⟨p, hread, h⟩ := Option.map_eq_some_iff.1 h
      cases h
      exact Msg.readField_le hread
    | sub s =>
      obtain ⟨p, hread, h⟩ := Option.map_eq_some_iff.1 h
      cases h
      exact readMessage_le hread
    | rep l =>
      obtain ⟨p, hread, h⟩ := Option.map_eq_some_iff.1 h
      cases h
      exact readMessage_le hread

/-- A round for each byte, and one for the end, are enough: more rounds read the same. -/
theorem mergePartial_rounds {n : ℕ} (hn : bs.length < n) (m : Interaction) :
    loop w.readTag (parseField w) n bs m = mergePartialFromCodedStream w bs m :=
  loop_fuel w.readTag_lt parseField_le hn (Nat.lt_succ_self _)

theorem uniform_readSlot (w : Wire) (number : ℕ) (bs : Bytes) (slot : Slot) :
    Uniform (Adds w) (readSlot w number bs slot) := by
  cases slot with
  | field x =>
    rcases Msg.readField_cases coherent_layout w number x bs with hnone | ⟨v, rest, -, hset⟩ | ⟨v, rest, -, hv, -⟩
    · exact Or.inl fun m => by rw [readSlot, hnone, Option.map_none]
    · exact Or.inr ⟨rest, _, fun m => ⟨m.set x v, by rw [readSlot, hset, Option.map_some, set], adds_set v⟩⟩
    · cases hv
  | sub s =>
    rcases uniform_readMessage (w := w) (MessageClass.uniform_mergePartial s.coherent w 1) bs with
      hnone | ⟨rest, a, hsome⟩
    · exact Or.inl fun m => by rw [readSlot, hnone, Option.map_none]
    · refine Or.inr ⟨rest, .ofSub s a, fun m => ?_⟩
      obtain ⟨o, ho, hadds⟩ := hsome (m.getSub s)
      refine ⟨m.mutableSub s fun _ => o, ?_, adds_mutableSub hadds⟩
      rw [readSlot, ho, Option.map_some]
  | rep l =>
    rcases uniform_readMessage (w := w) (MessageClass.uniform_mergePartial l.coherent w 1) bs with
      hnone | ⟨rest, a, hsome⟩
    · exact Or.inl fun m => by rw [readSlot, hnone, Option.map_none]
    · obtain ⟨o, ho, hview, hwf⟩ := hsome (Msg.new _)
      exact Or.inr ⟨rest, _, fun m => ⟨m.add l o, by rw [readSlot, ho, Option.map_some], adds_add (hwf Msg.wf_new)⟩⟩

theorem uniform_parseField (w : Wire) (t : ℕ) (bs : Bytes) : Uniform (Adds w) (parseField w t bs) := by
  rcases hcase : dispatch switch t with _ | ⟨number, slot⟩
  · rcases hskip : w.skip 0 t bs with _ | ⟨u, rest⟩
    · refine Or.inl fun m => ?_
      rw [parseField_of_none hcase, skipField, Msg.skipField, hskip, Option.map_none, Option.map_none]
    · refine Or.inr ⟨rest, .ofBase (.unknownField u), fun m => ⟨{ m with base := m.base.addUnknown u }, ?_, ?_⟩⟩
      · rw [parseField_of_none hcase, skipField, Msg.skipField, hskip, Option.map_some, Option.map_some]
      · exact adds_base (fun s => rfl) (Msg.adds_addUnknown (keeps_of_skip hcase hskip))
  · rcases uniform_readSlot w number bs slot with hnone | ⟨rest, e, hsome⟩
    · exact Or.inl fun m => (parseField_of_dispatch hcase).trans (hnone m)
    · refine Or.inr ⟨rest, e, fun m => ?_⟩
      obtain ⟨m', hm', hadds⟩ := hsome m
      exact ⟨m', (parseField_of_dispatch hcase).trans hm', hadds⟩

/-- Input is read into every object alike. -/
theorem uniform_mergePartial (w : Wire) (bs : Bytes) : Uniform (Adds w) (mergePartialFromCodedStream w bs) :=
  uniform_loop (fun _ => adds_one) Adds.mul (fun t rest => uniform_parseField w t rest) _ bs

/-! ### Round trip -/

/-- What a statement writes, as bytes and views of the fields. -/
def entryChunks (w : Wire) (m : Interaction) : ℕ × Slot → List (Bytes × InteractionView)
  | (number, .field x) => (m.base.fieldChunks w (layout.mask x, number, x)).map fun c => (c.1, .ofBase c.2)
  | (number, .sub s) =>
    if m.hasSub s then [(written w s.cls number (m.getSub s), .ofSub s (m.getSub s).view)] else []
  | (number, .rep l) => (m.list l).map fun o => (written w l.cls number o, .ofList l [o.view])

def unknownChunks (w : Wire) (m : Interaction) : List (Bytes × InteractionView) :=
  (m.base.unknownChunks w).map fun c => (c.1, .ofBase c.2)

/-- A written submessage is read as one, wherever it stands. -/
theorem readMessage_written {C : MessageClass} (hC : C.Coherent) {o : C.Object} (ho : o.Wf (C.Keeps w 1))
    (h : C.byteSize w o ≤ intMax) (hpos : 0 < number) (hlt : number < 16) (o₀ : C.Object) (rest : Bytes) :
    ∃ bs o', w.readTag (written w C number o ++ rest) = .tag (8 * number + 2) bs ∧
      readMessage w (C.mergePartialFromCodedStream w 1) bs o₀ = some (o', rest) ∧
      Msg.Adds (C.Keeps w 1) o.view o₀ o' := by
  have hlen := MessageClass.length_serialize hC h
  have hle : (C.serializeWithCachedSizes w o).length ≤ intMax := by omega
  obtain ⟨bs, hread, hlimit⟩ := w.readLimit_writeMessage hpos hlt hle rest
  obtain ⟨o', hmerge, hadds⟩ := MessageClass.exists_mergePartial_serialize hC ho h o₀
  refine ⟨bs, o', hread, ?_, hadds⟩
  rw [readMessage, hlimit, Option.bind_some, hmerge, Option.bind_some, if_pos rfl]

/-- Each field of a well-formed object is read back. -/
theorem reads_entryChunks (hm : m.Wf w) (hsized : m.Sized w) {slot : Slot} (he : (number, slot) ∈ writes) :
    ∀ c ∈ m.entryChunks w (number, slot), Reads w.readTag (parseField w) (Adds w) c.1 c.2 := by
  obtain ⟨hpos, hlt, -⟩ := dispatches.tag _ (writes_case _ he)
  have hcase := dispatches.dispatch_of_mem (writes_case _ he) slot.wireType_lt
  dsimp only at hpos hlt hcase
  rcases slot with x | s | l
  · intro c hc m₀ rest
    obtain ⟨c', hc', rfl⟩ := List.mem_map.1 hc
    rw [Msg.fieldChunks] at hc'
    split_ifs at hc' with hhas
    · rw [List.mem_singleton.1 hc']
      obtain ⟨bs, hread, hval⟩ := w.read_write hpos hlt (hsized.base x hhas) rest
      refine ⟨_, bs, m₀.set x (m.base.val x), hread, ?_, adds_set _⟩
      exact (parseField_of_dispatch hcase).trans (by rw [readSlot, Msg.readField_write hval rfl, Option.map_some, set])
    · cases hc'
  · intro c hc m₀ rest
    rw [entryChunks] at hc
    split_ifs at hc with hs
    · rw [List.mem_singleton.1 hc]
      obtain ⟨bs, o, hread, hmessage, hadds⟩ := readMessage_written s.coherent (hm.sub s) (hsized.sub s hs) hpos hlt
        (m₀.getSub s) rest
      refine ⟨_, bs, _, hread, ?_, adds_mutableSub (f := fun _ => o) hadds⟩
      exact (parseField_of_dispatch hcase).trans (by rw [readSlot, hmessage, Option.map_some])
    · cases hc
  · intro c hc m₀ rest
    obtain ⟨o, ho, rfl⟩ := List.mem_map.1 hc
    obtain ⟨bs, o', hread, hmessage, hview, hwf⟩ := readMessage_written l.coherent (hm.list l o ho) (hsized.list l o ho)
      hpos hlt (Msg.new _) rest
    rw [Msg.view_new, one_mul] at hview
    refine ⟨_, bs, m₀.add l o', hread, ?_, hview ▸ adds_add (hwf Msg.wf_new)⟩
    exact (parseField_of_dispatch hcase).trans (by rw [readSlot, hmessage, Option.map_some])

theorem reads_unknownChunks (hm : m.Wf w) :
    ∀ c ∈ m.unknownChunks w, Reads w.readTag (parseField w) (Adds w) c.1 c.2 := by
  intro c hc m₀ rest
  obtain ⟨c', hc', rfl⟩ := List.mem_map.1 hc
  obtain ⟨u, hu, rfl⟩ := List.mem_map.1 hc'
  obtain ⟨t, bs, hread, hparse⟩ := hm.base.unknown u hu m₀ rest
  exact ⟨t, bs, _, hread, hparse, adds_base (fun s => rfl) (Msg.adds_addUnknown (hm.base.unknown u hu))⟩

/-- The view of what a statement writes. -/
def entryView (m : Interaction) : Slot → InteractionView
  | .field x => .ofBase ⟨Pi.mulSingle x (m.base.field x), []⟩
  | .sub s => .ofSub s (m.viewSub s)
  | .rep l => .ofList l ((m.list l).map Msg.view)

theorem flatten_entryChunks (e : ℕ × Slot) : ((m.entryChunks w e).map Prod.fst).flatten = m.writeEntry w e := by
  obtain ⟨number, x | s | l⟩ := e
  · rw [entryChunks, List.map_map]
    exact Msg.flatten_fieldChunks _
  · rw [entryChunks, writeEntry]
    split_ifs
    · exact List.append_nil _
    · rfl
  · rw [entryChunks, writeEntry, List.map_map]
    rfl

theorem prod_ofList (l : Rep) (as : List (View l.cls.toLayout)) :
    (as.map fun a => InteractionView.ofList l [a]).prod = .ofList l as := by
  induction as with
  | nil =>
    refine InteractionView.ext rfl rfl (funext fun l' => ?_)
    by_cases hl : l' = l
    · subst hl
      exact (InteractionView.list_ofList_self ..).symm
    · exact (InteractionView.list_ofList_of_ne hl _).symm
  | cons a as ih =>
    rw [List.map_cons, List.prod_cons, ih]
    refine InteractionView.ext (mul_one _) (mul_one _) (funext fun l' => ?_)
    rw [InteractionView.list_mul]
    by_cases hl : l' = l
    · subst hl
      rw [InteractionView.list_ofList_self, InteractionView.list_ofList_self, InteractionView.list_ofList_self]
      rfl
    · rw [InteractionView.list_ofList_of_ne hl, InteractionView.list_ofList_of_ne hl,
        InteractionView.list_ofList_of_ne hl, List.append_nil]

theorem prod_entryChunks (e : ℕ × Slot) : ((m.entryChunks w e).map Prod.snd).prod = m.entryView e.2 := by
  obtain ⟨number, x | s | l⟩ := e
  · change _ = InteractionView.ofBase ⟨Pi.mulSingle x (m.base.field x), []⟩
    rw [entryChunks, List.map_map, Msg.fieldChunks, Msg.field, Msg.has]
    dsimp only
    split_ifs
    · rfl
    · rw [Pi.mulSingle_one]
      rfl
  · change _ = InteractionView.ofSub s (m.viewSub s)
    rw [entryChunks, viewSub]
    split_ifs
    · exact mul_one _
    · exact (InteractionView.ofSub_one s).symm
  · change _ = InteractionView.ofList l ((m.list l).map Msg.view)
    rw [entryChunks, ← prod_ofList, List.map_map, List.map_map]
    rfl

/-- The statements of `SerializeWithCachedSizes` cover the object. -/
theorem prod_entryView :
    (writes.map fun e => m.entryView e.2).prod * .ofBase ⟨1, m.base.unknownFields⟩ = m.view := by
  refine InteractionView.ext (View.ext (funext fun x => ?_) ?_) (funext fun s => ?_) (funext fun l => ?_)
  · cases x <;> simp [writes, entryView, InteractionView.ofBase, InteractionView.ofSub, InteractionView.ofList] <;> rfl
  · simp [writes, entryView, InteractionView.ofBase, InteractionView.ofSub, InteractionView.ofList]
    rfl
  · cases s <;> simp [writes, entryView, InteractionView.ofBase, InteractionView.ofSub, InteractionView.ofList] <;> rfl
  · cases l <;> simp [writes, entryView, InteractionView.ofBase, InteractionView.ofSub, InteractionView.ofList] <;> rfl

def chunks (w : Wire) (m : Interaction) : List (Bytes × InteractionView) :=
  writes.flatMap (m.entryChunks w) ++ m.unknownChunks w

theorem flatten_chunks (hm : m.Wf w) (hsized : m.Sized w) :
    ((m.chunks w).map Prod.fst).flatten = (m.byteSizeLong w).2.serializeWithCachedSizes w := by
  have hunknown : ((m.unknownChunks w).map Prod.fst).flatten = m.base.writeUnknown w := by
    rw [unknownChunks, List.map_map]
    exact Msg.flatten_unknownChunks
  rw [serialize_eq hm hsized, chunks, List.map_append, List.flatten_append, hunknown, List.map_flatMap,
    List.flatMap_def, List.flatten_flatten, List.map_map]
  exact congrArg (fun bs => List.flatten bs ++ _) (List.map_congr_left fun e _ => flatten_entryChunks e)

theorem prod_chunks : ((m.chunks w).map Prod.snd).prod = m.view := by
  have hwrites (es : List (ℕ × Slot)) :
      ((es.flatMap (m.entryChunks w)).map Prod.snd).prod = (es.map fun e => m.entryView e.2).prod := by
    induction es with
    | nil => rfl
    | cons e es ih =>
      rw [List.flatMap_cons, List.map_append, List.prod_append, prod_entryChunks, ih, List.map_cons, List.prod_cons]
  have hunknown : ((m.unknownChunks w).map Prod.snd).prod = .ofBase ⟨1, m.base.unknownFields⟩ := by
    rw [← Msg.prod_unknownChunks (w := w), unknownChunks]
    induction m.base.unknownChunks w with
    | nil => rfl
    | cons c cs ih =>
      rw [List.map_cons, List.map_cons, List.prod_cons, ih, List.map_cons, List.prod_cons]
      rfl
  rw [chunks, List.map_append, List.prod_append, hwrites, hunknown, prod_entryView]

theorem reads_chunks (hm : m.Wf w) (hsized : m.Sized w) :
    ∀ c ∈ m.chunks w, Reads w.readTag (parseField w) (Adds w) c.1 c.2 := by
  intro c hc
  rcases List.mem_append.1 hc with hc | hc
  · obtain ⟨e, he, hmem⟩ := List.mem_flatMap.1 hc
    exact reads_entryChunks hm hsized he c hmem
  · exact reads_unknownChunks hm c hc

/-- The bytes that `SerializeToOstream` writes. -/
def bytes (w : Wire) (m : Interaction) : Bytes := (m.byteSizeLong w).2.serializeWithCachedSizes w

/-- Objects written one after the other are read as the product of their views. -/
theorem exists_mergePartial_bytes {srcs : List Interaction} (hsrcs : ∀ src ∈ srcs, src.Wf w ∧ src.byteSize w ≤ intMax)
    (m : Interaction) : ∃ m', mergePartialFromCodedStream w (srcs.flatMap (bytes w)) m = some (m', true) ∧
      Adds w (srcs.map view).prod m m' := by
  have hreads : ∀ c ∈ srcs.flatMap (chunks w), Reads w.readTag (parseField w) (Adds w) c.1 c.2 := by
    intro c hc
    obtain ⟨src, hsrc, hmem⟩ := List.mem_flatMap.1 hc
    exact reads_chunks (hsrcs src hsrc).1 (sized_of_byteSize (hsrcs src hsrc).2) c hmem
  have hbytes : ((srcs.flatMap (chunks w)).map Prod.fst).flatten = srcs.flatMap (bytes w) := by
    rw [List.map_flatMap, List.flatMap_def, List.flatten_flatten, List.map_map, List.flatMap_def]
    exact congrArg List.flatten (List.map_congr_left fun src hsrc =>
      flatten_chunks (hsrcs src hsrc).1 (sized_of_byteSize (hsrcs src hsrc).2))
  have hviews : ((srcs.flatMap (chunks w)).map Prod.snd).prod = (srcs.map view).prod := by
    rw [List.map_flatMap, List.flatMap_def, List.prod_flatten, List.map_map]
    exact congrArg List.prod (List.map_congr_left fun src _ => prod_chunks)
  have hlen : (srcs.flatMap (chunks w)).length ≤ (srcs.flatMap (bytes w)).length := by
    rw [← hbytes, ← List.length_map Prod.fst]
    refine length_le_flatten fun chunk hchunk => ?_
    obtain ⟨c, hc, rfl⟩ := List.mem_map.1 hchunk
    exact (hreads c hc).ne_nil w.readTag_nil m
  obtain ⟨m', hloop, hadds⟩ := exists_loop_chunks (fun _ => adds_one) Adds.mul w.readTag_nil hreads
    (Nat.lt_succ_of_le hlen) m
  rw [hbytes] at hloop
  rw [hviews] at hadds
  exact ⟨m', hloop, hadds⟩

/-- Merging one object after the other. -/
theorem adds_foldl_mergeFrom {srcs : List Interaction} (hsrcs : ∀ src ∈ srcs, src.Wf w) (m : Interaction) :
    Adds w (srcs.map view).prod m (srcs.foldl (fun m src => mergeFrom src m) m) := by
  induction srcs generalizing m with
  | nil => exact adds_one
  | cons src srcs ih =>
    rw [List.map_cons, List.prod_cons]
    exact (adds_mergeFrom (hsrcs src (by simp)) m).mul (ih (fun s hs => hsrcs s (by simp [hs])) _)

/-! ### What is written and read -/

theorem serializeToOstream_eq {bs : Bytes} (h : (src.serializeToOstream w).1 = some bs) :
    src.byteSize w ≤ intMax ∧ bs = src.bytes w := by
  rw [serializeToOstream] at h
  dsimp only at h
  split_ifs at h with hle
  exact ⟨hle, (Option.some.inj h).symm⟩

/-- Reading into a cleared object: the view is the product of what is read. -/
theorem parseFromIstream_of_mergePartial {m' : Interaction} {e : InteractionView} (hm : m.Wf w)
    (h : mergePartialFromCodedStream w bs m.clear = some (m', true)) (hadds : Adds w e m.clear m') :
    m'.view = e ∧ m'.Wf w ∧ m.parseFromIstream w bs = if m'.isInitialized then some m' else none := by
  obtain ⟨hview, hwf⟩ := hadds (wf_clear hm)
  rw [view_clear hm, one_mul] at hview
  refine ⟨hview, hwf, ?_⟩
  rw [parseFromIstream, h, Option.bind_some, Bool.and_true]

/-- `ParseFromIstream` does the same whatever the object was before. -/
theorem parseFromIstream_uniform (w : Wire) (bs : Bytes) :
    (∀ m : Interaction, m.Wf w → m.parseFromIstream w bs = none) ∨
      ∃ e : InteractionView, e.Complete ∧ ∀ m : Interaction, m.Wf w →
        ∃ m', m.parseFromIstream w bs = some m' ∧ m'.view = e ∧ m'.Wf w := by
  rcases uniform_mergePartial w bs with hnone | ⟨consumed, e, hsome⟩
  · exact Or.inl fun m _ => by rw [parseFromIstream, hnone, Option.bind_none]
  · cases consumed with
    | false =>
      refine Or.inl fun m _ => ?_
      obtain ⟨m', hm', -⟩ := hsome m.clear
      rw [parseFromIstream, hm', Option.bind_some, Bool.and_false, if_neg Bool.false_ne_true]
    | true =>
      by_cases he : e.Complete
      · refine Or.inr ⟨e, he, fun m hm => ?_⟩
        obtain ⟨m', hm', hadds⟩ := hsome m.clear
        obtain ⟨hview, hwf, hparse⟩ := parseFromIstream_of_mergePartial hm hm' hadds
        rw [if_pos (isInitialized_iff.2 (hview ▸ he))] at hparse
        exact ⟨m', hparse, hview, hwf⟩
      · refine Or.inl fun m hm => ?_
        obtain ⟨m', hm', hadds⟩ := hsome m.clear
        obtain ⟨hview, -, hparse⟩ := parseFromIstream_of_mergePartial hm hm' hadds
        rwa [if_neg fun hinit => he (hview ▸ isInitialized_iff.1 hinit)] at hparse

/-- A written object is read into every object, if it has its required members. -/
theorem parse_serialize {bs : Bytes} (hsrc : src.Wf w) (hbs : (src.serializeToOstream w).1 = some bs) (hm : m.Wf w) :
    ∃ m' : Interaction, m'.view = src.view ∧ m'.Wf w ∧
      m.parseFromIstream w bs = if src.isInitialized then some m' else none := by
  obtain ⟨hle, rfl⟩ := serializeToOstream_eq hbs
  have hsrcs : ∀ s ∈ [src], s.Wf w ∧ s.byteSize w ≤ intMax := by
    intro s hs
    rw [List.mem_singleton.1 hs]
    exact ⟨hsrc, hle⟩
  obtain ⟨m', hmerge, hadds⟩ := exists_mergePartial_bytes hsrcs m.clear
  rw [List.flatMap_singleton] at hmerge
  obtain ⟨hview, hwf, hparse⟩ := parseFromIstream_of_mergePartial hm hmerge hadds
  rw [List.map_singleton, List.prod_singleton] at hview
  refine ⟨m', hview, hwf, ?_⟩
  have hinit : m'.isInitialized = src.isInitialized := by
    rw [Bool.eq_iff_iff, isInitialized_iff, isInitialized_iff, hview]
  rw [hparse, hinit]

/-- What was written one after the other, and is read into an object, is merged into it. -/
theorem written_read_merged {srcs : List Interaction} (hsrcs : ∀ src ∈ srcs, src.Wf w ∧ src.byteSize w ≤ intMax)
    (hm : m.Wf w) : ∃ m', mergePartialFromCodedStream w (srcs.flatMap (bytes w)) m = some (m', true) ∧
      m'.view = (srcs.foldl (fun m src => mergeFrom src m) m).view ∧ m'.Wf w ∧
      (srcs.flatMap (bytes w)).length = (srcs.map fun src => src.byteSize w).sum := by
  obtain ⟨m', hmerge, hadds⟩ := exists_mergePartial_bytes hsrcs m
  obtain ⟨hview, hwf⟩ := hadds hm
  refine ⟨m', hmerge, ?_, hwf, ?_⟩
  · rw [hview, (adds_foldl_mergeFrom (fun src hsrc => (hsrcs src hsrc).1) m hm).1]
  · rw [List.length_flatMap]
    exact congrArg List.sum (List.map_congr_left fun src hsrc => length_serialize (hsrcs src hsrc).1 (hsrcs src hsrc).2)

/-- A number, and a command with a text, one after the other. -/
theorem two_written_read : ∃ m', mergePartialFromCodedStream Wire.base128
    ([new.set Member.msgId 1, new.mutableSub .terminalCmdInfo (·.set CommandInfo.Member.cmdArg1 [72, 105])].flatMap
      (bytes Wire.base128)) new = some (m', true) ∧
    m'.view = ([new.set Member.msgId 1, new.mutableSub .terminalCmdInfo
      (·.set CommandInfo.Member.cmdArg1 [72, 105])].foldl (fun m src => mergeFrom src m) new).view ∧ m'.Wf Wire.base128 ∧
    ([new.set Member.msgId 1, new.mutableSub .terminalCmdInfo (·.set CommandInfo.Member.cmdArg1 [72, 105])].flatMap
      (bytes Wire.base128)).length =
    ([new.set Member.msgId 1, new.mutableSub .terminalCmdInfo (·.set CommandInfo.Member.cmdArg1 [72, 105])].map
      fun src => src.byteSize Wire.base128).sum := by
  refine written_read_merged (fun src hsrc => ?_) wf_new
  rcases List.mem_cons.1 hsrc with rfl | hsrc
  · exact ⟨(adds_set _ wf_new).2, by decide⟩
  · rw [List.mem_singleton.1 hsrc]
    exact ⟨(adds_mutableSub (Msg.adds_set (Sub.coherent .terminalCmdInfo).toCoherent rfl) wf_new).2, by decide⟩

/-- Input that is accepted is accepted by every object with the same meaning, and so is what is written for it. -/
theorem accepted_kept {m' : Interaction} (hm : m.Wf w) (h : m.parseFromIstream w bs = some m') :
    m'.Wf w ∧ m'.isInitialized = true ∧ ∀ m₁ : Interaction, m₁.Wf w →
      (∃ m₂, m₁.parseFromIstream w bs = some m₂ ∧ m₂.view = m'.view) ∧
      ∀ bs', (m'.serializeToOstream w).1 = some bs' →
        ∃ m₂, m₁.parseFromIstream w bs' = some m₂ ∧ m₂.view = m'.view := by
  rcases parseFromIstream_uniform w bs with hnone | ⟨e, he, hsome⟩
  · rw [hnone m hm] at h
    cases h
  · obtain ⟨m₀, hm₀, hview, hwf⟩ := hsome m hm
    cases hm₀.symm.trans h
    have hinit : m'.isInitialized = true := isInitialized_iff.2 (hview ▸ he)
    refine ⟨hwf, hinit, fun m₁ hm₁ => ⟨?_, fun bs' hbs' => ?_⟩⟩
    · obtain ⟨m₂, hparse, hview₂, -⟩ := hsome m₁ hm₁
      exact ⟨m₂, hparse, hview₂.trans hview.symm⟩
    · obtain ⟨m₂, hview₂, -, hparse⟩ := parse_serialize hwf hbs' hm₁
      rw [hinit, if_pos rfl] at hparse
      exact ⟨m₂, hparse, hview₂⟩

/-- Field 12, which the schema does not have, is kept. -/
theorem unknown_field_kept : ∃ m', new.parseFromIstream Wire.base128 [8, 1, 96, 5] = some m' ∧ m'.Wf Wire.base128 ∧
    m'.isInitialized = true ∧ ∀ m₁ : Interaction, m₁.Wf Wire.base128 →
      (∃ m₂, m₁.parseFromIstream Wire.base128 [8, 1, 96, 5] = some m₂ ∧ m₂.view = m'.view) ∧
      ∀ bs', (m'.serializeToOstream Wire.base128).1 = some bs' →
        ∃ m₂, m₁.parseFromIstream Wire.base128 bs' = some m₂ ∧ m₂.view = m'.view :=
  ⟨_, rfl, accepted_kept wf_new rfl⟩

end Interaction

end Protobuf

end LearnCpp
