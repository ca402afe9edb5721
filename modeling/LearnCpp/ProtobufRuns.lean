import LearnCpp.Lib.Lts
import LearnCpp.ProtobufRoundTrip

/-!
# Programs with several objects

A program calls functions of several objects of class `interaction`: accessors, `Clear`, `MergeFrom`, `CopyFrom`,
`Swap`, copies, `ParseFromIstream` and `SerializeToOstream`. Its objects are well-formed at any time, and all that it sees
depends on their views (`objects_refine_views`).
-/

namespace LearnCpp

namespace Protobuf

open TagLoop Lts

/-! ### What is seen of a view -/

namespace View

variable {L : Layout} {w : Wire} {m : Msg L} {x : L.Member} {K : UnknownField → Prop}

/-- `x()`: the value, or the default. -/
def get (a : View L) (x : L.Member) : (L.ty x).Value := (a.field x).get.getD (L.ty x).default

def fieldSize (w : Wire) (a : View L) (x : L.Member) : ℕ :=
  ((a.field x).get.map fun v => 1 + w.size (L.ty x) v).getD 0

def fieldBytes (w : Wire) (a : View L) (number : ℕ) (x : L.Member) : Bytes :=
  ((a.field x).get.map (w.write (L.ty x) number)).getD []

theorem get_field (m : Msg L) (x : L.Member) : (m.field x).get = if m.has x then some (m.val x) else none := by
  rw [Msg.field]
  split_ifs <;> rfl

theorem get_view (hm : m.Wf K) (x : L.Member) : m.view.get x = m.val x := by
  change (m.field x).get.getD (L.ty x).default = m.val x
  rw [get_field]
  cases hx : m.has x with
  | true => rfl
  | false => exact (hm.val_of_not_has x hx).symm

theorem fieldSize_view (w : Wire) (m : Msg L) (x : L.Member) : m.view.fieldSize w x = m.sizeIfHas w x := by
  change ((m.field x).get.map fun v => 1 + w.size (L.ty x) v).getD 0 = m.sizeIfHas w x
  rw [get_field, Msg.sizeIfHas]
  split_ifs <;> rfl

theorem fieldBytes_view (w : Wire) (m : Msg L) (number : ℕ) (x : L.Member) :
    m.view.fieldBytes w number x = m.writeField w (L.mask x, number, x) := by
  change ((m.field x).get.map (w.write (L.ty x) number)).getD [] = m.writeField w (L.mask x, number, x)
  rw [get_field, Msg.writeField, Msg.has]
  split_ifs <;> rfl

end View

namespace MessageClass

variable {C : MessageClass} {w : Wire} {m : C.Object}

def viewSize (C : MessageClass) (w : Wire) (a : View C.toLayout) : ℕ :=
  (a.unknown.map w.unknownSize).sum + (C.writes.map fun e => a.fieldSize w e.2.2).sum

def viewBytes (C : MessageClass) (w : Wire) (a : View C.toLayout) : Bytes :=
  (C.writes.map fun e => a.fieldBytes w e.2.1 e.2.2).flatten ++ (a.unknown.map w.writeUnknown).flatten

theorem byteSize_eq_viewSize (hC : C.Coherent) (m : C.Object) : C.byteSize w m = C.viewSize w m.view := by
  rw [byteSize_eq_sum hC, viewSize, List.map_map]
  refine congrArg (fun l : List ℕ => m.unknownSize w + l.sum) (List.map_congr_left fun e _ => ?_)
  exact (View.fieldSize_view w m e.2.2).symm

theorem serialize_eq_viewBytes (hC : C.Coherent) (m : C.Object) :
    C.serializeWithCachedSizes w m = C.viewBytes w m.view := by
  rw [serializeWithCachedSizes, viewBytes]
  refine congrArg (fun bs => List.flatten bs ++ _) (List.map_congr_left fun e he => ?_)
  rw [View.fieldBytes_view, ← hC.writes_mask e he]

end MessageClass

namespace InteractionView

def entrySize (w : Wire) (a : InteractionView) : Interaction.Slot → ℕ
  | .field x => a.base.fieldSize w x
  | .sub s => WithOne.recOneCoe 0 (fun b => 1 + w.messageSize (s.cls.viewSize w b)) (a.sub s)
  | .rep l => (a.list l).length + ((a.list l).map fun b => w.messageSize (l.cls.viewSize w b)).sum

def size (w : Wire) (a : InteractionView) : ℕ :=
  (a.base.unknown.map w.unknownSize).sum + (Interaction.writes.map fun e => a.entrySize w e.2).sum

/-- A submessage with its length. -/
def written (w : Wire) (C : MessageClass) (number : ℕ) (b : View C.toLayout) : Bytes :=
  w.writeMessage number (C.viewBytes w b).length (C.viewBytes w b)

def entryBytes (w : Wire) (a : InteractionView) : ℕ × Interaction.Slot → Bytes
  | (number, .field x) => a.base.fieldBytes w number x
  | (number, .sub s) => WithOne.recOneCoe [] (written w s.cls number) (a.sub s)
  | (number, .rep l) => ((a.list l).map (written w l.cls number)).flatten

def bytes (w : Wire) (a : InteractionView) : Bytes :=
  (Interaction.writes.map (a.entryBytes w)).flatten ++ (a.base.unknown.map w.writeUnknown).flatten

end InteractionView

namespace Interaction

variable {w : Wire} {m : Interaction}

theorem recOneCoe_viewSub {α : Type} (m : Interaction) (s : Sub) (z : α) (f : View s.cls.toLayout → α) :
    WithOne.recOneCoe z f (m.view.sub s) = if m.hasSub s then f (m.getSub s).view else z := by
  rw [show m.view.sub s = m.viewSub s from rfl, viewSub]
  split_ifs <;> rfl

theorem byteSize_eq_size (m : Interaction) : m.byteSize w = m.view.size w := by
  have hentry (slot : Slot) : m.entrySize w slot = m.view.entrySize w slot := by
    cases slot with
    | field x => exact (View.fieldSize_view w m.base x).symm
    | sub s =>
      rw [InteractionView.entrySize, recOneCoe_viewSub, entrySize, subSize,
        MessageClass.byteSize_eq_viewSize s.coherent]
    | rep l =>
      rw [InteractionView.entrySize, entrySize, listSize, show m.view.list l = (m.list l).map Msg.view from rfl,
        List.length_map, List.map_map]
      refine congrArg (fun l : List ℕ => _ + l.sum) (List.map_congr_left fun o _ => ?_)
      rw [Function.comp_apply, MessageClass.byteSize_eq_viewSize l.coherent]
  rw [byteSize_eq, InteractionView.size]
  refine congrArg (fun l : List ℕ => m.base.unknownSize w + l.sum) (List.map_congr_left fun e _ => ?_)
  exact hentry e.2

theorem bytes_eq (hm : m.Wf w) (h : m.byteSize w ≤ intMax) : m.bytes w = m.view.bytes w := by
  have hwritten {C : MessageClass} (hC : C.Coherent) (number : ℕ) (o : C.Object) :
      written w C number o = InteractionView.written w C number o.view := by
    rw [written, InteractionView.written, MessageClass.serialize_eq_viewBytes hC]
  have hentry (e : ℕ × Slot) : m.writeEntry w e = m.view.entryBytes w e := by
    obtain ⟨number, x | s | l⟩ := e
    · exact (View.fieldBytes_view w m.base number x).symm
    · rw [InteractionView.entryBytes, recOneCoe_viewSub, writeEntry, hwritten s.coherent]
    · rw [InteractionView.entryBytes, writeEntry, show m.view.list l = (m.list l).map Msg.view from rfl, List.map_map]
      exact congrArg List.flatten (List.map_congr_left fun o _ => hwritten l.coherent number o)
  rw [bytes, serialize_eq hm (sized_of_byteSize h), InteractionView.bytes]
  exact congrArg (fun bs => List.flatten bs ++ _) (List.map_congr_left fun e _ => hentry e)

end Interaction

/-! ### Programs -/

/-- `set_x`, with its `assert(x_IsValid(value))`, and `clear_x`. -/
inductive Edit (L : Layout)
  | set (x : L.Member) (v : (L.ty x).Value)
  | clear (x : L.Member)

/-- A call that changes one object. -/
inductive Call
  | edit (e : Edit Interaction.layout)
  | mutableSub (s : Sub) (e : Edit s.cls.toLayout)
  | clearSub (s : Sub)
  | add (l : Rep)
  | mutableRep (l : Rep) (index : ℕ) (e : Edit l.cls.toLayout)
  | clearRep (l : Rep)
  | clear
  | parseFromIstream (bs : Bytes)

/-- A call that asks one object. -/
inductive Query
  | has (x : Interaction.Member)
  | get (x : Interaction.Member)
  | hasSub (s : Sub)
  | getSub (s : Sub) (x : s.cls.Member)
  | hasInSub (s : Sub) (x : s.cls.Member)
  | listSize (l : Rep)
  | getRep (l : Rep) (index : ℕ) (x : l.cls.Member)
  | hasInRep (l : Rep) (index : ℕ) (x : l.cls.Member)
  | isInitialized
  | serializeToOstream

inductive Answer
  | done
  | bool (b : Bool)
  | nat (n : ℕ)
  | value (ty : FieldType) (v : ty.Value)
  | bytes (bs : Option Bytes)

/-- A call of the object `i`, of which `j` may be the argument. -/
inductive Act
  | call (i : ℕ) (c : Call)
  | ask (i : ℕ) (q : Query)
  | copy (i j : ℕ)
  | mergeFrom (i j : ℕ)
  | copyFrom (i j : ℕ)
  | swap (i j : ℕ)

/-- What the calls do to objects of a type `σ`. A call that fails, or must not be made, ends the program. -/
structure Calls (σ : Type) where
  call : Call → σ → Option σ
  ask : Query → σ → Option (Answer × σ)
  copy : σ → σ
  mergeFrom : σ → σ → σ
  copyFrom : σ → σ → σ

/-- `MergeFrom` checks that the argument is another object; `CopyFrom` and `Swap` return if it is not. -/
def Calls.step {σ : Type} (K : Calls σ) (s : ℕ → σ) : Act → Except Unit (Answer × (ℕ → σ))
  | .call i c => (K.call c (s i)).elim (.error ()) fun m => .ok (.done, Function.update s i m)
  | .ask i q => (K.ask q (s i)).elim (.error ()) fun p => .ok (p.1, Function.update s i p.2)
  | .copy i j => .ok (.done, Function.update s i (K.copy (s j)))
  | .mergeFrom i j => if i = j then .error () else .ok (.done, Function.update s i (K.mergeFrom (s j) (s i)))
  | .copyFrom i j => .ok (.done, if i = j then s else Function.update s i (K.copyFrom (s j) (s i)))
  | .swap i j => .ok (.done, s ∘ Equiv.swap i j)

/-- `abs` takes objects of the invariant `I` to objects of other calls that do the same. -/
structure Calls.Refines {σ τ : Type} (K : Calls σ) (A : Calls τ) (I : σ → Prop) (abs : σ → τ) : Prop where
  call : ∀ c m, I m → (K.call c m).map abs = A.call c (abs m) ∧ ∀ m', K.call c m = some m' → I m'
  ask : ∀ q m, I m → (K.ask q m).map (Prod.map id abs) = A.ask q (abs m) ∧ ∀ p, K.ask q m = some p → I p.2
  copy : ∀ m, I m → abs (K.copy m) = A.copy (abs m) ∧ I (K.copy m)
  mergeFrom : ∀ src m, I src → I m →
    abs (K.mergeFrom src m) = A.mergeFrom (abs src) (abs m) ∧ I (K.mergeFrom src m)
  copyFrom : ∀ src m, I src → I m →
    abs (K.copyFrom src m) = A.copyFrom (abs src) (abs m) ∧ I (K.copyFrom src m)

namespace Calls

variable {σ τ : Type} {K : Calls σ} {A : Calls τ} {I : σ → Prop} {abs : σ → τ} {s : ℕ → σ}

theorem forall_update (hs : ∀ k, I (s k)) {i : ℕ} {m : σ} (hm : I m) : ∀ k, I (Function.update s i m k) := by
  intro k
  by_cases hk : k = i
  · rwa [hk, Function.update_self]
  · rw [Function.update_of_ne hk]
    exact hs k

/-- Two results agree: the objects are related, and keep the invariant. -/
def Agree (I : σ → Prop) (abs : σ → τ) (r : Except Unit (Answer × (ℕ → σ))) (r' : Except Unit (Answer × (ℕ → τ))) :
    Prop := r.map (Prod.map id (abs ∘ ·)) = r' ∧ ∀ o s', r = .ok (o, s') → ∀ k, I (s' k)

theorem agree_error : Agree I abs (.error ()) (.error ()) := ⟨rfl, fun o s' h => by cases h⟩

theorem agree_update (hs : ∀ k, I (s k)) (i : ℕ) {m : σ} (hm : I m) (o : Answer) :
    Agree I abs (.ok (o, Function.update s i m)) (.ok (o, Function.update (abs ∘ s) i (abs m))) := by
  refine ⟨congrArg (fun t => Except.ok (o, t)) (Function.comp_update ..), fun o' s' h => ?_⟩
  cases h
  exact forall_update hs hm

theorem Refines.step (h : K.Refines A I abs) (s : ℕ → σ) (a : Act) (hs : ∀ k, I (s k)) :
    Agree I abs (K.step s a) (A.step (abs ∘ s) a) := by
  cases a with
  | call i c =>
    obtain ⟨hmap, hkeep⟩ := h.call c (s i) (hs i)
    rw [Calls.step, Calls.step, Function.comp_apply, ← hmap]
    rcases hcall : K.call c (s i) with _ | m
    · exact agree_error
    · exact agree_update hs i (hkeep m hcall) _
  | ask i q =>
    obtain ⟨hmap, hkeep⟩ := h.ask q (s i) (hs i)
    rw [Calls.step, Calls.step, Function.comp_apply, ← hmap]
    rcases hask : K.ask q (s i) with _ | p
    · exact agree_error
    · exact agree_update hs i (hkeep p hask) _
  | copy i j =>
    obtain ⟨hmap, hkeep⟩ := h.copy (s j) (hs j)
    rw [Calls.step, Calls.step, Function.comp_apply, ← hmap]
    exact agree_update hs i hkeep _
  | mergeFrom i j =>
    obtain ⟨hmap, hkeep⟩ := h.mergeFrom (s j) (s i) (hs j) (hs i)
    rw [Calls.step, Calls.step, Function.comp_apply, Function.comp_apply, ← hmap]
    split_ifs
    · exact agree_error
    · exact agree_update hs i hkeep _
  | copyFrom i j =>
    obtain ⟨hmap, hkeep⟩ := h.copyFrom (s j) (s i) (hs j) (hs i)
    rw [Calls.step, Calls.step, Function.comp_apply, Function.comp_apply, ← hmap]
    split_ifs
    · refine ⟨rfl, fun o s' ho => ?_⟩
      cases ho
      exact hs
    · exact agree_update hs i hkeep _
  | swap i j =>
    refine ⟨rfl, fun o s' ho => ?_⟩
    cases ho
    exact fun k => hs _

/-- Programs see the same at both levels. -/
theorem Refines.run (h : K.Refines A I abs) (acts : List Act) (hs : ∀ k, I (s k)) :
    (runMealy K.step s acts).map (Prod.map id (abs ∘ ·)) = runMealy A.step (abs ∘ s) acts ∧
      ∀ os s', runMealy K.step s acts = .ok (os, s') → ∀ k, I (s' k) := by
  have hok : StepsOk (ofMealy K.step) (fun _ _ => True) s acts := fun _ _ _ _ _ => trivial
  exact runMealy_map (abs ∘ ·) (fun s => ∀ k, I (s k)) (fun s a hs _ => h.step s a hs) hs hok

end Calls

/-! ### The calls of `interaction` -/

namespace Edit

variable {L : Layout}

def run : Edit L → Msg L → Option (Msg L)
  | .set x v, m => if L.isValid x v then some (m.set x v) else none
  | .clear x, m => some (m.clear x)

def runView : Edit L → View L → Option (View L)
  | .set x v, a => if L.isValid x v then some (a * .single x v) else none
  | .clear x, a => some (a.erase x)

theorem run_spec {K : UnknownField → Prop} {m : Msg L} (hL : L.Coherent) (e : Edit L) (hm : m.Wf K) :
    (e.run m).map Msg.view = e.runView m.view ∧ ∀ m', e.run m = some m' → m'.Wf K := by
  cases e with
  | set x v =>
    rw [run, runView]
    split_ifs with hv
    · refine ⟨congrArg some (Msg.view_set hL), fun m' h => ?_⟩
      cases h
      exact hm.set hL hv
    · exact ⟨rfl, fun m' h => by cases h⟩
  | clear x =>
    refine ⟨congrArg some (Msg.view_clear hL), fun m' h => ?_⟩
    cases h
    exact hm.clear hL

end Edit

namespace Interaction

variable (w : Wire)

def call : Call → Interaction → Option Interaction
  | .edit e, m => (e.run m.base).map fun base => { m with base := base }
  | .mutableSub s e, m => (e.run (m.getSub s)).map fun o => m.mutableSub s fun _ => o
  | .clearSub s, m => some (m.clearSub s)
  | .add l, m => some (m.add l (Msg.new _))
  | .mutableRep l index e, m => ((m.list l)[index]?.bind e.run).map fun o => m.mutableRep l index o
  | .clearRep l, m => some (m.clearRep l)
  | .clear, m => some m.clear
  | .parseFromIstream bs, m => m.parseFromIstream w bs

def ask : Query → Interaction → Option (Answer × Interaction)
  | .has x, m => some (.bool (m.base.has x), m)
  | .get x, m => some (.value _ (m.base.val x), m)
  | .hasSub s, m => some (.bool (m.hasSub s), m)
  | .getSub s x, m => some (.value _ ((m.getSub s).val x), m)
  | .hasInSub s x, m => some (.bool ((m.getSub s).has x), m)
  | .listSize l, m => some (.nat (m.list l).length, m)
  | .getRep l index x, m => (m.list l)[index]?.map fun o => (.value _ (o.val x), m)
  | .hasInRep l index x, m => (m.list l)[index]?.map fun o => (.bool (o.has x), m)
  | .isInitialized, m => some (.bool m.isInitialized, m)
  | .serializeToOstream, m => some (.bytes (m.serializeToOstream w).1, (m.serializeToOstream w).2)

def calls : Calls Interaction where
  call := call w
  ask := ask w
  copy := copy
  mergeFrom := mergeFrom
  copyFrom := copyFrom

end Interaction

namespace InteractionView

variable (w : Wire)

/-- A submessage that is not there is as a new one. -/
def getSub (a : InteractionView) (s : Sub) : View s.cls.toLayout := WithOne.unoneD 1 (a.sub s)

def setList (a : InteractionView) (l : Rep) (bs : List (View l.cls.toLayout)) : InteractionView :=
  { a with list := Function.update a.list l bs }

/-- `ParseFromIstream` replaces a view by what the input means to a new object. -/
def call : Call → InteractionView → Option InteractionView
  | .edit e, a => (e.runView a.base).map fun base => { a with base := base }
  | .mutableSub s e, a => (e.runView (a.getSub s)).map fun b => a.mutateSub s fun _ => b
  | .clearSub s, a => some { a with sub := Function.update a.sub s 1 }
  | .add l, a => some (a.setList l (a.list l ++ [1]))
  | .mutableRep l index e, a =>
    ((a.list l)[index]?.bind e.runView).map fun b => a.setList l ((a.list l).set index b)
  | .clearRep l, a => some (a.setList l [])
  | .clear, _ => some 1
  | .parseFromIstream bs, _ => (Interaction.new.parseFromIstream w bs).map Interaction.view

open Classical in
noncomputable def ask : Query → InteractionView → Option (Answer × InteractionView)
  | .has x, a => some (.bool (a.base.has x), a)
  | .get x, a => some (.value _ (a.base.get x), a)
  | .hasSub s, a => some (.bool (decide (a.sub s ≠ 1)), a)
  | .getSub s x, a => some (.value _ ((a.getSub s).get x), a)
  | .hasInSub s x, a => some (.bool ((a.getSub s).has x), a)
  | .listSize l, a => some (.nat (a.list l).length, a)
  | .getRep l index x, a => (a.list l)[index]?.map fun b => (.value _ (b.get x), a)
  | .hasInRep l index x, a => (a.list l)[index]?.map fun b => (.bool (b.has x), a)
  | .isInitialized, a => some (.bool (decide a.Complete), a)
  | .serializeToOstream, a => some (.bytes (if a.size w ≤ intMax then some (a.bytes w) else none), a)

/-- What an `interaction` is for: `MergeFrom` is multiplication, and copies are equal. -/
noncomputable def calls : Calls InteractionView where
  call := call w
  ask := ask w
  copy := id
  mergeFrom src a := a * src
  copyFrom src _ := src

end InteractionView

namespace Interaction

variable {w : Wire} {m : Interaction}

theorem getSub_view (hm : m.Wf w) (s : Sub) : m.view.getSub s = (m.getSub s).view := (view_getSub hm s).symm

theorem edit_spec (e : Edit layout) (hm : m.Wf w) : (m.call w (.edit e)).map view = m.view.call w (.edit e) ∧
    ∀ m', m.call w (.edit e) = some m' → m'.Wf w := by
  cases e with
  | set x v =>
    obtain ⟨hview, hwf⟩ := adds_set (x := x) v hm
    refine ⟨congrArg some (hview.trans (InteractionView.ext rfl (mul_one _) (funext fun l => List.append_nil _))), ?_⟩
    intro m' h
    cases h
    exact hwf
  | clear x =>
    obtain ⟨hview, hwf⟩ := view_clearField x hm
    refine ⟨congrArg some hview, fun m' h => ?_⟩
    cases h
    exact hwf

theorem setList_spec {l : Rep} {os : List l.cls.Object} {bs : List (View l.cls.toLayout)} (hm : m.Wf w)
    (hos : ∀ o ∈ os, o.Wf (l.cls.Keeps w 1)) (hbs : os.map Msg.view = bs) :
    view { m with list := Function.update m.list l os } = m.view.setList l bs ∧
      Wf w { m with list := Function.update m.list l os } := by
  subst hbs
  exact view_updateList hm hos

theorem getElem?_view (l : Rep) (index : ℕ) : (m.view.list l)[index]? = (m.list l)[index]?.map Msg.view :=
  List.getElem?_map ..

theorem mutableRep_spec (l : Rep) (index : ℕ) (e : Edit l.cls.toLayout) (hm : m.Wf w) :
    (m.call w (.mutableRep l index e)).map view = m.view.call w (.mutableRep l index e) ∧
      ∀ m', m.call w (.mutableRep l index e) = some m' → m'.Wf w := by
  rw [call, InteractionView.call, getElem?_view]
  rcases hold : (m.list l)[index]? with _ | o
  · exact ⟨rfl, fun m' h => by cases h⟩
  · obtain ⟨hmap, hkeep⟩ := e.run_spec l.coherent.toCoherent (hm.list l o (List.mem_of_getElem? hold))
    rw [Option.bind_some, Option.map_some, Option.bind_some, ← hmap]
    rcases hrun : e.run o with _ | o'
    · exact ⟨rfl, fun m' h => by cases h⟩
    · have hos : ∀ o₁ ∈ (m.list l).set index o', o₁.Wf (l.cls.Keeps w 1) := by
        intro o₁ ho₁
        rcases List.mem_or_eq_of_mem_set ho₁ with ho₁ | rfl
        · exact hm.list l o₁ ho₁
        · exact hkeep o₁ hrun
      obtain ⟨hview, hwf⟩ := setList_spec hm hos List.map_set
      refine ⟨congrArg some hview, fun m' h => ?_⟩
      cases h
      exact hwf

theorem parse_spec (bs : Bytes) (hm : m.Wf w) :
    (m.parseFromIstream w bs).map view = (new.parseFromIstream w bs).map view ∧
      ∀ m', m.parseFromIstream w bs = some m' → m'.Wf w := by
  rcases parseFromIstream_uniform w bs with hnone | ⟨e, -, hsome⟩
  · rw [hnone m hm, hnone new wf_new]
    exact ⟨rfl, fun m' h => by cases h⟩
  · obtain ⟨m', hm', hview, hwf⟩ := hsome m hm
    obtain ⟨m₀, hm₀, hview₀, -⟩ := hsome new wf_new
    rw [hm', hm₀]
    refine ⟨congrArg some (hview.trans hview₀.symm), fun m'' h => ?_⟩
    cases h
    exact hwf

theorem call_spec (c : Call) (hm : m.Wf w) :
    (m.call w c).map view = m.view.call w c ∧ ∀ m', m.call w c = some m' → m'.Wf w := by
  have hone {m₁ : Interaction} {a : InteractionView} (h : m₁.view = a ∧ m₁.Wf w) :
      (some m₁).map view = some a ∧ ∀ m', some m₁ = some m' → m'.Wf w := by
    refine ⟨congrArg some h.1, fun m' h' => ?_⟩
    cases h'
    exact h.2
  cases c with
  | edit e => exact edit_spec e hm
  | mutableSub s e =>
    obtain ⟨hmap, hkeep⟩ := e.run_spec s.coherent.toCoherent (hm.sub s)
    rw [call, InteractionView.call, getSub_view hm, ← hmap]
    rcases hrun : e.run (m.getSub s) with _ | o
    · exact ⟨rfl, fun m' h => by cases h⟩
    · exact hone (mutableSub_spec hm rfl (hkeep o hrun))
  | clearSub s => exact hone (view_clearSub s hm)
  | add l =>
    refine hone (setList_spec hm (fun o ho => ?_) ?_)
    · rcases List.mem_append.1 ho with ho | ho
      · exact hm.list l o ho
      · rw [List.mem_singleton.1 ho]
        exact Msg.wf_new
    · rw [List.map_append, List.map_singleton, Msg.view_new]
      rfl
  | mutableRep l index e => exact mutableRep_spec l index e hm
  | clearRep l => exact hone (setList_spec hm (fun o ho => absurd ho List.not_mem_nil) rfl)
  | clear => exact hone ⟨view_clear hm, wf_clear hm⟩
  | parseFromIstream bs => exact parse_spec bs hm

/-- The sizes that are left in the objects are not seen. -/
theorem adds_byteSizeLong : Adds w 1 m (m.byteSizeLong w).2 := by
  intro hm
  have hbase : Msg.Adds (Keeps w) 1 m.base (m.byteSizeLong w).2.base := Msg.adds_one_of_same rfl rfl fun _ => rfl
  have hnot {s : Sub} (hs : m.hasSub s = false) : (m.byteSizeLong w).2.sub s = m.sub s :=
    if_neg (ne_true_of_eq_false hs)
  have hsub (s : Sub) : Msg.Adds (s.cls.Keeps w 1) 1 (m.getSub s) ((m.byteSizeLong w).2.getSub s) := by
    cases hs : m.hasSub s with
    | false =>
      rw [getSub, getSub, hnot hs]
      exact Msg.adds_one
    | true =>
      rw [getSub_byteSizeLong (hm.isSome s hs) hs]
      exact MessageClass.adds_byteSizeLong
  refine ⟨InteractionView.ext hbase.1 (funext fun s => ?_) (funext fun l => ?_), hbase.2 hm.base,
    fun s => (hsub s).2 (hm.sub s), fun s hs => ?_, fun s hs => ?_, fun l o ho => ?_⟩
  · change (m.byteSizeLong w).2.viewSub s = m.viewSub s * 1
    rw [mul_one, viewSub, (hsub s).1, mul_one]
    rfl
  · change ((m.list l).map fun o => (l.cls.byteSizeLong w o).2).map Msg.view = (m.list l).map Msg.view ++ []
    rw [List.map_map, List.append_nil]
    rfl
  · change (if m.hasSub s = true then (m.sub s).map _ else m.sub s).isSome = true
    have hhas : m.hasSub s = true := hs
    rw [if_pos hhas, Option.isSome_map]
    exact hm.isSome s hhas
  · rw [(hsub s).1, mul_one]
    exact hm.empty s hs
  · obtain ⟨o', ho', rfl⟩ := List.mem_map.1 ho
    exact MessageClass.adds_byteSizeLong.2 (hm.list l o' ho')

theorem serialize_spec (hm : m.Wf w) : (m.serializeToOstream w).1 =
    if m.view.size w ≤ intMax then some (m.view.bytes w) else none := by
  change (if m.byteSize w ≤ intMax then some (m.bytes w) else none) = _
  rw [← byteSize_eq_size]
  split_ifs with hle
  · rw [bytes_eq hm hle]
  · rfl

open Classical in
theorem ask_spec (q : Query) (hm : m.Wf w) :
    (m.ask w q).map (Prod.map id view) = m.view.ask w q ∧ ∀ p, m.ask w q = some p → p.2.Wf w := by
  have hsame {o o' : Answer} (h : o = o') : (some (o, m)).map (Prod.map id view) = some (o', m.view) ∧
      ∀ p, some (o, m) = some p → p.2.Wf w := by
    subst h
    refine ⟨rfl, fun p h => ?_⟩
    cases h
    exact hm
  cases q with
  | has x => exact hsame (congrArg _ (View.has_view m.base x).symm)
  | get x => exact hsame (congrArg _ (View.get_view hm.base x).symm)
  | hasSub s =>
    refine hsame (congrArg _ ?_)
    rw [show m.view.sub s = m.viewSub s from rfl, viewSub]
    cases m.hasSub s with
    | true => exact (decide_eq_true WithOne.coe_ne_one).symm
    | false => exact (decide_eq_false fun h => h rfl).symm
  | getSub s x =>
    refine hsame (congrArg _ ?_)
    rw [getSub_view hm, View.get_view (hm.sub s)]
  | hasInSub s x =>
    refine hsame (congrArg _ ?_)
    rw [getSub_view hm, View.has_view]
  | listSize l => exact hsame (congrArg _ (List.length_map _).symm)
  | getRep l index x =>
    rw [ask, InteractionView.ask, getElem?_view]
    rcases hold : (m.list l)[index]? with _ | o
    · exact ⟨rfl, fun p h => by cases h⟩
    · exact hsame (congrArg _ (View.get_view (hm.list l o (List.mem_of_getElem? hold)) x).symm)
  | hasInRep l index x =>
    rw [ask, InteractionView.ask, getElem?_view]
    rcases (m.list l)[index]? with _ | o
    · exact ⟨rfl, fun p h => by cases h⟩
    · exact hsame (congrArg _ (View.has_view o x).symm)
  | isInitialized =>
    refine hsame (congrArg _ ?_)
    rw [Bool.eq_iff_iff, isInitialized_iff, decide_eq_true_iff]
  | serializeToOstream =>
    obtain ⟨hview, hwf⟩ := adds_byteSizeLong (w := w) hm
    rw [mul_one] at hview
    refine ⟨congrArg some (Prod.ext (congrArg Answer.bytes (serialize_spec hm)) hview), fun p h => ?_⟩
    cases h
    exact hwf

theorem refines (w : Wire) : (calls w).Refines (InteractionView.calls w) (Wf w) view where
  call c _ hm := call_spec c hm
  ask q _ hm := ask_spec q hm
  copy _ hm := view_copy hm
  mergeFrom _ m hsrc hm := adds_mergeFrom hsrc m hm
  copyFrom _ _ hsrc hm := view_copyFrom hsrc hm

/-- Objects that start new are well-formed at any time, and programs see of them what they would see of their views. -/
theorem objects_refine_views (w : Wire) (acts : List Act) :
    (runMealy (calls w).step (fun _ => new) acts).map (Prod.map id (view ∘ ·)) =
        runMealy (InteractionView.calls w).step (fun _ => 1) acts ∧
      ∀ os s', runMealy (calls w).step (fun _ => new) acts = .ok (os, s') → ∀ k, (s' k).Wf w := by
  obtain ⟨hmap, hwf⟩ := (refines w).run acts fun _ => wf_new
  refine ⟨?_, hwf⟩
  rw [hmap, show view ∘ (fun _ : ℕ => new) = fun _ => 1 from funext fun _ => view_new]

end Interaction

end Protobuf

end LearnCpp
