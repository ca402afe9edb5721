import LearnCpp.AQueueWf

/-!
# The lifecycles of an `AQueue`

A queue is well-formed, or has capacity zero and no elements: without a block after `AQueue()` and after a `resize`
whose `new` failed, over an empty block after `AQueue(0)`. Every guard holds off the second kind but one: the empty
block is not null and its queue is full, so `push_back` makes room by a remainder by zero (`survives_iff`). Builds
without asserts.
-/

namespace LearnCpp.AQueue

variable {T : Type} {q : AQueue T} {buff : Option (List T)}

/-- A call of a mutator or of one of the two observers that are safe to call at any time. -/
inductive Call (T : Type)
  | change (op : Op T)
  | front
  | read (index : UInt32)

/-- Capacities are at most `2^31`; a `resize` may be refused, and its `new` may fail. -/
def Call.Fits : Call T → Prop
  | .change (.resize cap _) => cap.toNat ≤ 2 ^ 31
  | _ => True

/-- One call in a build without asserts: what it returns, and the queue afterwards. -/
def call (q : AQueue T) : Call T → Except Fault ((Option Int ⊕ T) × AQueue T)
  | .change op => do let (r, q) ← q.step false op; return (.inl r, q)
  | .front => do let x ← q.front false; return (.inr x, q)
  | .read index => do let x ← q.read false index; return (.inr x, q)

/-- The constructors. -/
inductive Start (T : Type)
  | default
  | sized (cap : UInt32) (mem : Block T cap)

def Start.Fits : Start T → Prop
  | .default => True
  | .sized cap _ => cap.toNat ≤ 2 ^ 31

def Start.make [Zero T] : Start T → AQueue T
  | .default => newDefault
  | .sized cap mem => new cap mem

/-- The queue is made over an empty block. -/
def Start.IsZero : Start T → Prop
  | .default => False
  | .sized cap _ => cap = 0

/-- Every access to a block that lies inside it is one below `_capacity`. -/
def Sound (q : AQueue T) : Prop := ∀ b, q.buff = some b → b.length = q.capacity.toNat

/-- No call of the sequence faults, and `_capacity` is the length of the block after each of them. -/
def Survives (q : AQueue T) (calls : List (Call T)) : Prop :=
  ∀ pre, pre <+: calls → ∃ os q', Lts.runMealy call q pre = .ok (os, q') ∧ Sound q'

/-- No `push_back` comes before the first `resize` to a capacity that is not zero. -/
def PushesAfterResize : List (Call T) → Prop
  | [] => True
  | .change (.pushBack _) :: _ => False
  | .change (.resize cap _) :: calls => cap ≠ 0 ∨ PushesAfterResize calls
  | _ :: calls => PushesAfterResize calls

/-! ### Queues of capacity zero -/

@[simp] theorem cAssert_false (c : Bool) : cAssert false c = .ok () := rfl

/-- A queue without elements whose capacity is zero, over no block or an empty one. -/
structure Vacant (q : AQueue T) (buff : Option (List T)) : Prop where
  buff : q.buff = buff
  capacity : q.capacity = 0
  size : q.currentSize = 0

namespace Vacant

theorem empty (h : Vacant q buff) : q.empty = true := by simp [AQueue.empty, h.size]

theorem full (h : Vacant q buff) : q.full = true := by simp [AQueue.full, h.size, h.capacity]

theorem clear (h : Vacant q buff) : Vacant q.clear buff := ⟨h.buff, h.capacity, rfl⟩

theorem front (h : Vacant q buff) : q.front false = .ok q.errorData := by
  simp only [AQueue.front, cAssert_false, h.empty, Bool.or_true, if_true]
  rfl

theorem read (h : Vacant q buff) (index : UInt32) : q.read false index = .ok q.errorData := by
  simp only [AQueue.read, cAssert_false, h.empty, Bool.or_true, Bool.true_or, if_true]
  rfl

theorem popFront (h : Vacant q buff) : q.popFront = .ok q := popFront_of_empty (by rw [h.size]; rfl)

theorem popBack (h : Vacant q buff) : q.popBack = q := popBack_of_empty (by rw [h.size]; rfl)

theorem pushFront (h : Vacant q buff) (el : T) : ∃ re, q.pushFront false el = .ok (re, q) := by
  cases buff with
  | none =>
    refine ⟨-1, ?_⟩
    simp only [AQueue.pushFront, cAssert_false, h.buff, Option.isNone_none, if_true]
    rfl
  | some b =>
    refine ⟨1, ?_⟩
    simp only [AQueue.pushFront, cAssert_false, h.buff, Option.isNone_some, h.full, if_true]
    rfl

theorem pushBack_none (h : Vacant q none) (el : T) : q.pushBack false el = .ok (-1, q) := by
  simp only [AQueue.pushBack, cAssert_false, h.buff, Option.isNone_none, if_true]
  rfl

/-- The empty block is full, and room for the element is made by a remainder by zero. -/
theorem pushBack_some {b : List T} (h : Vacant q (some b)) (el : T) : q.pushBack false el = .error .modZero := by
  simp only [AQueue.pushBack, cAssert_false, h.buff, Option.isNone_some, evict, h.full, if_true, umod, h.capacity]
  rfl

end Vacant

def Fine (q : AQueue T) : Prop := (∃ b, Wf q b) ∨ Vacant q none

theorem Fine.sound (h : Fine q) : Sound q := by
  intro b' hb'
  rcases h with ⟨b, h⟩ | h
  · obtain rfl : b = b' := Option.some.inj (h.buff.symm.trans hb')
    exact h.len
  · cases h.buff.symm.trans hb'

theorem toNat_pos {x : UInt32} (h : x ≠ 0) : 0 < x.toNat :=
  Nat.pos_of_ne_zero fun hz => h (UInt32.toNat_inj.1 hz)

theorem fine_of_resize {cap : UInt32} (hne : cap ≠ 0) (hle : cap.toNat ≤ 2 ^ 31) (mem : Option (Block T cap)) :
    ∃ q', q.resize false cap mem = .ok (1, q') ∧ Fine q' := by
  have hpos := toNat_pos hne
  cases mem with
  | some mem => exact ⟨_, resize_some hpos mem, .inl ⟨_, .of_resize hpos hle mem⟩⟩
  | none =>
    have hcap := not_le_zero hpos
    refine ⟨{ q with buff := none, capacity := 0, currentSize := 0, head := 0, tail := -1 }, ?_, .inr ⟨rfl, rfl, rfl⟩⟩
    simp only [AQueue.resize, cAssert_false, if_neg hcap]
    rfl

/-! ### One call -/

theorem Wf.front_ok {b : List T} (h : Wf q b) : ∃ x, q.front false = .ok x := by
  rcases Nat.eq_zero_or_pos q.currentSize.toNat with hs | hs
  · have hempty : q.empty = true := empty_iff.2 hs
    refine ⟨q.errorData, ?_⟩
    simp only [front, cAssert_false, hempty, Bool.or_true, if_true]
    rfl
  · have hhead : q.head.toNat < b.length := by rw [h.len]; exact h.head_lt
    exact ⟨b[q.head.toNat], front_eq h hs (List.getElem?_eq_getElem hhead)⟩

theorem Wf.read_ok {b : List T} (h : Wf q b) (index : UInt32) : ∃ x, q.read false index = .ok x := by
  have hslot : ((index + q.head) % q.capacity).toNat < b.length := by
    rw [UInt32.toNat_mod, h.len]
    exact Nat.mod_lt _ h.pos
  simp only [read, cAssert_false, umod_of_pos h.pos, bind, Except.bind]
  split
  · exact ⟨_, rfl⟩
  · exact ⟨b[((index + q.head) % q.capacity).toNat], by rw [h.buff]; exact load_some (List.getElem?_eq_getElem hslot)⟩

theorem call_change {op : Op T} {r : Option Int} {q' : AQueue T} (h : q.step false op = .ok (r, q')) :
    q.call (.change op) = .ok (.inl r, q') := by
  rw [call, h]
  rfl

theorem call_front {x : T} (h : q.front false = .ok x) : q.call .front = .ok (.inr x, q) := by
  rw [call, h]
  rfl

theorem call_read {index : UInt32} {x : T} (h : q.read false index = .ok x) :
    q.call (.read index) = .ok (.inr x, q) := by
  rw [call, h]
  rfl

/-- The calls that leave a vacant queue as it is: all but `push_back` and a `resize` to another capacity. -/
def Call.Idle : Call T → Prop
  | .change (.pushBack _) => False
  | .change (.resize cap _) => cap = 0
  | _ => True

theorem Vacant.call_idle (h : Vacant q buff) {c : Call T} (hc : c.Idle) :
    ∃ o q', q.call c = .ok (o, q') ∧ Vacant q' buff := by
  cases c with
  | front => exact ⟨_, q, call_front h.front, h⟩
  | read index => exact ⟨_, q, call_read (h.read index), h⟩
  | change op =>
    cases op with
    | pushBack el => exact hc.elim
    | pushFront el =>
      obtain ⟨re, hre⟩ := h.pushFront el
      refine ⟨.inl (some re), q, call_change ?_, h⟩
      rw [step, hre]
      rfl
    | popFront =>
      refine ⟨.inl none, q, call_change ?_, h⟩
      rw [step, h.popFront]
      rfl
    | popBack =>
      refine ⟨.inl none, q, call_change ?_, h⟩
      rw [step, h.popBack]
      rfl
    | clear => exact ⟨.inl none, q.clear, rfl, h.clear⟩
    | resize cap mem =>
      obtain rfl : cap = 0 := hc
      exact ⟨.inl (some 0), q, rfl, h⟩

theorem call_resize {cap : UInt32} (hne : cap ≠ 0) (hle : cap.toNat ≤ 2 ^ 31) (mem : Option (Block T cap)) :
    ∃ o q', q.call (.change (.resize cap mem)) = .ok (o, q') ∧ Fine q' := by
  obtain ⟨q', hq, hfine⟩ := fine_of_resize (q := q) hne hle mem
  refine ⟨.inl (some 1), q', call_change ?_, hfine⟩
  rw [step, hq]
  rfl

theorem Wf.call {b : List T} (h : Wf q b) {c : Call T} (hc : c.Fits) : ∃ o q', q.call c = .ok (o, q') ∧ Fine q' := by
  cases c with
  | front =>
    obtain ⟨x, hx⟩ := h.front_ok
    exact ⟨.inr x, q, call_front hx, .inl ⟨b, h⟩⟩
  | read index =>
    obtain ⟨x, hx⟩ := h.read_ok index
    exact ⟨.inr x, q, call_read hx, .inl ⟨b, h⟩⟩
  | change op =>
    have hdoes : op.Fits → ∃ o q', q.call (.change op) = .ok (o, q') ∧ Fine q' := by
      intro hop
      obtain ⟨r, q', b', hstep, hd⟩ := h.does false hop
      exact ⟨.inl r, q', call_change hstep, .inl ⟨b', hd.wf h⟩⟩
    cases op with
    | resize cap mem =>
      rcases eq_or_ne cap 0 with rfl | hne
      · exact ⟨.inl (some 0), q, rfl, .inl ⟨b, h⟩⟩
      · exact call_resize hne hc mem
    | pushBack | pushFront | popFront | popBack | clear => exact hdoes trivial

theorem Fine.call (h : Fine q) {c : Call T} (hc : c.Fits) : ∃ o q', q.call c = .ok (o, q') ∧ Fine q' := by
  rcases h with ⟨b, h⟩ | h
  · exact h.call hc
  · have hidle : c.Idle → ∃ o q', q.call c = .ok (o, q') ∧ Fine q' := fun hi => by
      obtain ⟨o, q', hq, h'⟩ := h.call_idle hi
      exact ⟨o, q', hq, .inr h'⟩
    cases c with
    | front | read => exact hidle trivial
    | change op =>
      cases op with
      | pushBack el =>
        refine ⟨.inl (some (-1)), q, call_change ?_, .inr h⟩
        rw [step, h.pushBack_none]
        rfl
      | resize cap mem =>
        rcases eq_or_ne cap 0 with hz | hne
        · exact hidle hz
        · exact call_resize hne hc mem
      | pushFront | popFront | popBack | clear => exact hidle trivial

/-! ### Whole lives -/

theorem Fine.survives (h : Fine q) {calls : List (Call T)} (hcalls : ∀ c ∈ calls, c.Fits) : Survives q calls := by
  intro pre hpre
  obtain ⟨os, q', hrun, h'⟩ :=
    Lts.runMealy_ok Fine Call.Fits (fun hc h => h.call hc) (fun c hc => hcalls c (hpre.subset hc)) h
  exact ⟨os, q', hrun, h'.sound⟩

theorem survives_cons {c : Call T} {calls : List (Call T)} {o : Option Int ⊕ T} {q' : AQueue T} (hs : Sound q)
    (hc : q.call c = .ok (o, q')) : Survives q (c :: calls) ↔ Survives q' calls := by
  constructor
  · intro h pre hpre
    obtain ⟨os, q'', hrun, hs⟩ := h (c :: pre) ((List.prefix_cons_inj c).2 hpre)
    obtain ⟨o', q₁, os', hc', hrun', -⟩ := Lts.runMealy_cons.1 hrun
    cases hc.symm.trans hc'
    exact ⟨os', q'', hrun', hs⟩
  · intro h pre hpre
    rcases List.prefix_cons_iff.1 hpre with rfl | ⟨pre, rfl, hpre'⟩
    · exact ⟨[], q, rfl, hs⟩
    · obtain ⟨os, q'', hrun, hs⟩ := h pre hpre'
      exact ⟨o :: os, q'', Lts.runMealy_cons.2 ⟨o, q', os, hc, hrun, rfl⟩, hs⟩

theorem Vacant.sound (h : Vacant q (some [])) : Sound q := by
  intro b hb
  obtain rfl : [] = b := Option.some.inj (h.buff.symm.trans hb)
  rw [h.capacity]
  rfl

theorem Vacant.survives_iff_pushes (h : Vacant q (some [])) {calls : List (Call T)} (hcalls : ∀ c ∈ calls, c.Fits) :
    Survives q calls ↔ PushesAfterResize calls := by
  induction calls generalizing q with
  | nil =>
    refine iff_of_true (fun pre hpre => ?_) trivial
    rw [List.prefix_nil.1 hpre]
    exact ⟨[], q, rfl, h.sound⟩
  | cons c calls ih =>
    have hrest : ∀ c ∈ calls, c.Fits := fun c hc => hcalls c (by simp [hc])
    have hidle : c.Idle → (Survives q (c :: calls) ↔ PushesAfterResize calls) := by
      intro hi
      obtain ⟨o, q', hq, h'⟩ := h.call_idle hi
      rw [survives_cons h.sound hq]
      exact ih h' hrest
    cases c with
    | front | read => exact hidle trivial
    | change op =>
      cases op with
      | pushFront | popFront | popBack | clear => exact hidle trivial
      | pushBack el =>
        -- the remainder by zero
        refine iff_of_false (fun hsurvives => ?_) id
        obtain ⟨os, q', hrun, -⟩ := hsurvives _ List.prefix_rfl
        obtain ⟨o, q₁, os', hstep, -⟩ := Lts.runMealy_cons.1 hrun
        rw [call, step, h.pushBack_some] at hstep
        cases hstep
      | resize cap mem =>
        have hle : cap.toNat ≤ 2 ^ 31 := hcalls (.change (.resize cap mem)) (by simp)
        rcases eq_or_ne cap 0 with hz | hne
        · rw [hidle hz, PushesAfterResize, or_iff_right (not_not_intro hz)]
        · -- from here on the queue has a block, or is refused one and has no capacity either
          obtain ⟨o, q', hq, h'⟩ := call_resize (q := q) hne hle mem
          rw [survives_cons h.sound hq]
          exact iff_of_true (h'.survives hrest) (.inl hne)

/-- From either constructor, through every sequence of calls: nothing is undefined and every access to the block is
below `_capacity`, unless the queue was made with capacity zero and something is pushed at the back before it gets a
capacity. -/
theorem survives_iff [Zero T] {start : Start T} (hstart : start.Fits) {calls : List (Call T)}
    (hcalls : ∀ c ∈ calls, c.Fits) : Survives start.make calls ↔ (start.IsZero → PushesAfterResize calls) := by
  cases start with
  | default => exact iff_of_true (Fine.survives (.inr ⟨rfl, rfl, rfl⟩) hcalls) nofun
  | sized cap mem =>
    rcases eq_or_ne cap 0 with rfl | hne
    · have hmem : mem.1 = [] := List.length_eq_zero_iff.1 mem.2
      have hvacant : Vacant (new 0 mem) (some []) := ⟨congrArg some hmem, rfl, rfl⟩
      exact (hvacant.survives_iff_pushes hcalls).trans ⟨fun h _ => h, fun h => h rfl⟩
    · have hfine : Fine (new cap mem) := .inl ⟨mem.1, .of_block mem (toNat_pos hne) hstart⟩
      exact iff_of_true (hfine.survives hcalls) fun hz => absurd hz hne

def lifecycle : List (Call ℕ) :=
  [.change (.pushFront 1), .front, .change (.resize 2 (some ⟨[0, 0], rfl⟩)), .change (.pushBack 1), .read 1,
    .change (.resize 4 none), .change (.pushBack 2), .read 7]

theorem survives_iff_lifecycle : Survives (Start.sized 0 ⟨([] : List ℕ), rfl⟩).make lifecycle :=
  (survives_iff (show Start.Fits (.sized 0 _) by simp [Start.Fits]) (by simp [lifecycle, Call.Fits])).2
    fun _ => .inl (by decide)

/-- `push_back` on `AQueue(0)` computes `% 0`. -/
theorem zero_capacity_push :
    (Start.sized 0 ⟨([] : List ℕ), rfl⟩).Fits ∧
      ¬ Survives (Start.sized 0 ⟨([] : List ℕ), rfl⟩).make [.change (.pushBack 1)] := by
  refine ⟨by simp [Start.Fits], fun h => ?_⟩
  obtain ⟨os, q', hrun, -⟩ := h _ List.prefix_rfl
  cases hrun

end LearnCpp.AQueue
