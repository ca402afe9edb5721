import LearnCpp.AQueueSim
import LearnCpp.Lib.Heap

/-!
# Several queues and their blocks (`Utility/AQueue.h`)

The objects a program makes of the template, with their blocks on the heap. The class has a destructor and an
`operator=` that copies the cells, but no copy constructor of its own: the implicit one copies `_buff`, so two objects
share a block. Every other step of a program in which each block belongs to one object keeps that so, and does what it
does to the queues of `AQueue.lean`, each with its block for itself (`agree_step`).
-/

namespace LearnCpp

namespace AQueue

variable {T : Type} {q q' : AQueue T} {dbg : Bool}

/-- A method called on one queue. -/
inductive Method (T : Type)
  | change (op : Op T)
  | front
  | back
  | read (index : UInt32)

def method (dbg : Bool) (q : AQueue T) : Method T → Except Fault ((Option Int ⊕ T) × AQueue T)
  | .change op => do let (r, q) ← q.step dbg op; return (.inl r, q)
  | .front => do let x ← q.front dbg; return (.inr x, q)
  | .back => do let x ← q.back dbg; return (.inr x, q)
  | .read index => do let x ← q.read dbg index; return (.inr x, q)

/-- `q = aq`, of two different queues. -/
def assign (q aq : AQueue T) : Except Fault (AQueue T) := do
  if q.capacity ≠ aq.capacity then return q
  let q := { q with currentSize := aq.currentSize, head := aq.head, tail := aq.tail }
  let buff ← memcpy q.buff 0 aq.buff 0 q.capacity.toNat
  return { q with buff := buff }

/-- What a program does with its queues; they are numbered as they are made. The result of a `new` is given with it. -/
inductive Act (T : Type)
  | default
  | sized (cap : UInt32) (mem : Option (Block T cap))
  | copied (y : ℕ)
  | assign (x y : ℕ)
  | call (x : ℕ) (m : Method T)
  | destroy (x : ℕ)

/-- With a block in each queue. No queue is made when `new` throws, and nothing is done to a queue that is not there. -/
def act [Zero T] (dbg : Bool) (qs : Heap (AQueue T)) :
    Act T → Except Fault ((Option Int ⊕ T) × Heap (AQueue T))
  | .default => return (.inl none, qs.alloc newDefault)
  | .sized _ none => return (.inl none, qs)
  | .sized cap (some mem) => return (.inl none, qs.alloc (new cap mem))
  | .copied y => match qs.cells y with
    | none => return (.inl none, qs)
    | some q => return (.inl none, qs.alloc q)
  | .assign x y => match qs.cells x, qs.cells y with
    | some q, some aq => do
      if x = y then return (.inl none, qs)
      let q ← q.assign aq
      return (.inl none, qs.write x q)
    | _, _ => return (.inl none, qs)
  | .call x m => match qs.cells x with
    | none => return (.inl none, qs)
    | some q => do
      let (r, q) ← q.method dbg m
      return (r, qs.write x q)
  | .destroy x => match qs.cells x with
    | none => return (.inl none, qs)
    | some q => do
      cAssert dbg q.buff.isSome
      return (.inl none, qs.free x)

end AQueue

/-- `delete[] p`. -/
def deleteBlock {T : Type} (mem : Heap (List T)) : Option ℕ → Except Fault (Heap (List T))
  | none => .ok mem
  | some a => if (mem.cells a).isSome then .ok (mem.free a) else .error .badAccess

/-- The object itself; `buff` is the address of its block. -/
structure QueueObj (T : Type) where
  buff : Option ℕ
  capacity : UInt32
  currentSize : UInt32
  head : UInt32
  tail : UInt32
  errorData : T
deriving DecidableEq, Repr

namespace QueueObj

open AQueue

variable {T : Type}

/-- The queue its methods see. A block that is gone has no cell to access. -/
def view (mem : Heap (List T)) (o : QueueObj T) : AQueue T :=
  ⟨o.buff.map fun a => (mem.cells a).getD [], o.capacity, o.currentSize, o.head, o.tail, o.errorData⟩

/-- What a method that keeps the block leaves in the block and in the fields. -/
def save (mem : Heap (List T)) (o : QueueObj T) (q : AQueue T) : Heap (List T) × QueueObj T :=
  (match o.buff, q.buff with
    | some a, some b => mem.write a b
    | _, _ => mem,
    { o with capacity := q.capacity, currentSize := q.currentSize, head := q.head, tail := q.tail })

def resize (dbg : Bool) (mem : Heap (List T)) (o : QueueObj T) (cap : UInt32) (new : Option (Block T cap)) :
    Except Fault (UInt32 × Heap (List T) × QueueObj T) := do
  cAssert dbg (cap > 0)
  if cap ≤ 0 then return (0, mem, o)
  let mem ← deleteBlock mem o.buff
  let (mem, o) := match new with
    | some b => (mem.alloc b.1, { o with buff := some mem.next, capacity := cap })
    | none => (mem, { o with buff := none, capacity := 0 })
  return (1, mem, { o with currentSize := 0, head := 0, tail := -1 })

def method (dbg : Bool) (mem : Heap (List T)) (o : QueueObj T) :
    Method T → Except Fault ((Option Int ⊕ T) × Heap (List T) × QueueObj T)
  | .change (.resize cap new) => do
    let (re, mem, o) ← o.resize dbg mem cap new
    return (.inl (some re.toNat), mem, o)
  | m => do
    let (r, q) ← (o.view mem).method dbg m
    return (r, o.save mem q)

end QueueObj

/-- The objects made so far and not destroyed, and the blocks. -/
structure Queues (T : Type) where
  objs : Heap (QueueObj T)
  mem : Heap (List T)

namespace Queues

open AQueue

variable {T : Type} {s s' : Queues T} {dbg : Bool}

def init : Queues T := ⟨.empty, .empty⟩

def step [Zero T] (dbg : Bool) (s : Queues T) : Act T → Except Fault ((Option Int ⊕ T) × Queues T)
  | .default => return (.inl none, { s with objs := s.objs.alloc ⟨none, 0, 0, 0, -1, 0⟩ })
  | .sized _ none => return (.inl none, s)
  | .sized cap (some new) =>
    return (.inl none, ⟨s.objs.alloc ⟨some s.mem.next, cap, 0, 0, -1, 0⟩, s.mem.alloc new.1⟩)
  | .copied y => match s.objs.cells y with
    | none => return (.inl none, s)
    | some o => return (.inl none, { s with objs := s.objs.alloc o })
  | .assign x y => match s.objs.cells x, s.objs.cells y with
    | some o, some p => do
      if x = y then return (.inl none, s)
      -- between cells of one block `memcpy` is undefined
      if o.capacity = p.capacity ∧ o.buff = p.buff then throw .badAccess
      let q ← (o.view s.mem).assign (p.view s.mem)
      let (mem, o) := o.save s.mem q
      return (.inl none, ⟨s.objs.write x o, mem⟩)
    | _, _ => return (.inl none, s)
  | .call x m => match s.objs.cells x with
    | none => return (.inl none, s)
    | some o => do
      let (r, mem, o) ← o.method dbg s.mem m
      return (r, ⟨s.objs.write x o, mem⟩)
  | .destroy x => match s.objs.cells x with
    | none => return (.inl none, s)
    | some o => do
      cAssert dbg o.buff.isSome
      let mem ← deleteBlock s.mem o.buff
      return (.inl none, ⟨s.objs.free x, mem⟩)

end Queues

/-! ### What the methods keep of a queue -/

namespace AQueue

variable {T : Type} {q q' : AQueue T} {dbg : Bool}

theorem bind_ok {α β : Type} {x : Except Fault α} {f : α → Except Fault β} {b : β} :
    x >>= f = .ok b ↔ ∃ a, x = .ok a ∧ f a = .ok b := by
  cases x <;> simp [bind, Except.bind]

/-- The block stays, with other cells perhaps, or there is none. -/
structure Kept (q q' : AQueue T) : Prop where
  buff : q'.buff.isSome = q.buff.isSome
  errorData : q'.errorData = q.errorData

namespace Kept

theorem refl (q : AQueue T) : Kept q q := ⟨rfl, rfl⟩

theorem isSome_store {buff buff' : Option (List T)} {i : UInt32} {x : T} (h : store buff i x = .ok buff') :
    buff'.isSome = buff.isSome := by
  cases buff with
  | none => cases h
  | some b =>
    simp only [store] at h
    split at h
    · cases h
      rfl
    · cases h

theorem popFront (h : q.popFront = .ok q') : Kept q q' := by
  rw [AQueue.popFront] at h
  split at h
  · cases h
    exact refl q
  · obtain ⟨head, -, h⟩ := bind_ok.1 h
    cases h
    exact ⟨rfl, rfl⟩

theorem popBack (q : AQueue T) : Kept q q.popBack := by
  rw [AQueue.popBack]
  split
  · exact refl q
  · exact ⟨rfl, rfl⟩

theorem evict {re : Int} (h : q.evict = .ok (re, q')) : Kept q q' := by
  rw [AQueue.evict] at h
  split at h
  · obtain ⟨head, -, h⟩ := bind_ok.1 h
    cases h
    exact ⟨rfl, rfl⟩
  · cases h
    exact refl q

theorem pushBack {el : T} {re : Int} (h : q.pushBack dbg el = .ok (re, q')) : Kept q q' := by
  rw [AQueue.pushBack] at h
  obtain ⟨-, -, h⟩ := bind_ok.1 h
  split at h
  · cases h
    exact refl q
  · obtain ⟨⟨re', q₁⟩, hevict, h⟩ := bind_ok.1 h
    obtain ⟨tail, -, h⟩ := bind_ok.1 h
    obtain ⟨buff, hstore, h⟩ := bind_ok.1 h
    obtain ⟨-, -, h⟩ := bind_ok.1 h
    cases h
    exact ⟨(isSome_store hstore).trans (evict hevict).buff, (evict hevict).errorData⟩

theorem pushFront {el : T} {re : Int} (h : q.pushFront dbg el = .ok (re, q')) : Kept q q' := by
  rw [AQueue.pushFront] at h
  obtain ⟨-, -, h⟩ := bind_ok.1 h
  split at h
  · cases h
    exact refl q
  split at h
  · cases h
    exact refl q
  · obtain ⟨head, -, h⟩ := bind_ok.1 h
    obtain ⟨buff, hstore, h⟩ := bind_ok.1 h
    obtain ⟨-, -, h⟩ := bind_ok.1 h
    cases h
    exact ⟨isSome_store hstore, rfl⟩

theorem step {op : Op T} {r : Option Int} (hop : ∀ cap mem, op ≠ .resize cap mem)
    (h : q.step dbg op = .ok (r, q')) : Kept q q' := by
  cases op with
  | pushBack el =>
    obtain ⟨⟨re, q₁⟩, hpush, h⟩ := bind_ok.1 h
    cases h
    exact pushBack hpush
  | pushFront el =>
    obtain ⟨⟨re, q₁⟩, hpush, h⟩ := bind_ok.1 h
    cases h
    exact pushFront hpush
  | popFront =>
    obtain ⟨q₁, hpop, h⟩ := bind_ok.1 h
    cases h
    exact popFront hpop
  | popBack =>
    cases h
    exact popBack q
  | clear =>
    cases h
    exact ⟨rfl, rfl⟩
  | resize cap mem => exact absurd rfl (hop cap mem)

theorem method {m : Method T} {r : Option Int ⊕ T} (hm : ∀ cap mem, m ≠ .change (.resize cap mem))
    (h : q.method dbg m = .ok (r, q')) : Kept q q' := by
  cases m with
  | change op =>
    obtain ⟨⟨r, q₁⟩, hstep, h⟩ := bind_ok.1 h
    cases h
    exact step (fun cap mem hop => hm cap mem (hop ▸ rfl)) hstep
  | front | back | read =>
    obtain ⟨x, -, h⟩ := bind_ok.1 h
    cases h
    exact refl q

theorem assign {aq : AQueue T} (h : q.assign aq = .ok q') : Kept q q' := by
  rw [AQueue.assign] at h
  split at h
  · cases h
    exact refl q
  · obtain ⟨buff, hcopy, h⟩ := bind_ok.1 h
    cases h
    refine ⟨?_, rfl⟩
    simp only [memcpy] at hcopy
    split at hcopy
    · next hq _ =>
      split at hcopy
      · cases hcopy
        rw [hq]
        rfl
      · cases hcopy
    · cases hcopy

end Kept

end AQueue

/-! ### Blocks and their queues -/

namespace QueueObj

open AQueue

variable {T : Type} {mem mem' : Heap (List T)} {o : QueueObj T} {q : AQueue T}

theorem view_congr (h : ∀ a, o.buff = some a → mem'.cells a = mem.cells a) : o.view mem' = o.view mem := by
  cases hbuff : o.buff with
  | none => simp only [view, hbuff, Option.map_none]
  | some a => simp only [view, hbuff, Option.map_some, h a hbuff]

theorem view_save (hlive : ∀ a, o.buff = some a → (mem.cells a).isSome) (hq : Kept (o.view mem) q) :
    (o.save mem q).2.view (o.save mem q).1 = q := by
  have hbuff := hq.buff
  have herror : q.errorData = o.errorData := hq.errorData
  rcases q with ⟨buff, capacity, currentSize, head, tail, errorData⟩
  cases ho : o.buff with
  | none =>
    cases buff with
    | none => simp only [view, save, ho, Option.map_none, ← herror]
    | some b => simp [view, ho] at hbuff
  | some a =>
    cases buff with
    | none => simp [view, ho] at hbuff
    | some b =>
      simp only [view, save, ho, Heap.cells_write (hlive a ho), Option.map_some, Function.update_self,
        Option.getD_some, ← herror]

end QueueObj

namespace Queues

open AQueue

variable {T : Type} {s s' : Queues T} {dbg : Bool} {x y : ℕ} {o p : QueueObj T} {q : AQueue T}

/-- Where the block of each object is. -/
def own (s : Queues T) : ℕ → Option ℕ := (fun c => c.bind QueueObj.buff) ∘ s.objs.cells

/-- Every block belongs to exactly one object, and no object points at a block that is gone. -/
def Owned (s : Queues T) : Prop := Heap.Owned s.own s.mem

/-- The queues, each with what is in its block. -/
def values (s : Queues T) : Heap (AQueue T) := s.objs.map (QueueObj.view s.mem)

theorem own_of_cells (hx : s.objs.cells x = some o) : s.own x = o.buff := by
  simp only [own, Function.comp_apply, hx, Option.bind_some]

theorem own_write (hx : s.objs.cells x = some o) (mem : Heap (List T)) :
    (⟨s.objs.write x p, mem⟩ : Queues T).own = Function.update s.own x p.buff := by
  have hsome : (s.objs.cells x).isSome := by rw [hx]; rfl
  rw [own, Heap.cells_write hsome, Function.comp_update]
  rfl

theorem own_alloc (mem : Heap (List T)) :
    (⟨s.objs.alloc p, mem⟩ : Queues T).own = Function.update s.own s.objs.next p.buff := by
  rw [own, Heap.cells_alloc, Function.comp_update]
  rfl

theorem own_free (mem : Heap (List T)) :
    (⟨s.objs.free x, mem⟩ : Queues T).own = Function.update s.own x none := by
  rw [own, Heap.cells_free, Function.comp_update]
  rfl

theorem own_next : s.own s.objs.next = none := by
  simp only [own, Function.comp_apply, s.objs.fresh _ (Nat.le_refl _), Option.bind_none]

/-- In `mem` the object `x` points at `buff`, and nothing has changed for the others. -/
structure Moved (s : Queues T) (x : ℕ) (buff : Option ℕ) (mem : Heap (List T)) : Prop where
  owned : Heap.Owned (Function.update s.own x buff) mem
  others : ∀ y p, y ≠ x → s.objs.cells y = some p → p.view mem = p.view s.mem

namespace Moved

variable {mem : Heap (List T)} {buff : Option ℕ}

theorem write (hm : Moved s x p.buff mem) (hx : s.objs.cells x = some o) :
    Owned ⟨s.objs.write x p, mem⟩ ∧ values ⟨s.objs.write x p, mem⟩ = s.values.write x (p.view mem) := by
  refine ⟨?_, Heap.map_write p hm.others⟩
  rw [Owned, own_write hx]
  exact hm.owned

theorem free (hm : Moved s x none mem) :
    Owned ⟨s.objs.free x, mem⟩ ∧ values ⟨s.objs.free x, mem⟩ = s.values.free x := by
  refine ⟨?_, Heap.map_free hm.others⟩
  rw [Owned, own_free]
  exact hm.owned

theorem alloc (hm : Moved s s.objs.next p.buff mem) :
    Owned ⟨s.objs.alloc p, mem⟩ ∧ values ⟨s.objs.alloc p, mem⟩ = s.values.alloc (p.view mem) := by
  refine ⟨?_, Heap.map_alloc p fun y p hy => hm.others y p ?_ hy⟩
  · rw [Owned, own_alloc]
    exact hm.owned
  · rintro rfl
    rw [s.objs.fresh _ (Nat.le_refl _)] at hy
    cases hy

theorem of_same (h : s.Owned) (hx : s.own x = buff) : Moved s x buff s.mem :=
  ⟨by rw [← hx, Function.update_eq_self]; exact h, fun _ _ _ _ => rfl⟩

theorem ne_of_owned (h : s.Owned) (hx : s.own x = buff) {a : ℕ} (ha : buff = some a) (hne : y ≠ x)
    (hy : s.objs.cells y = some p) : p.buff ≠ some a := fun hp =>
  hne (h.alone y x a ((own_of_cells hy).trans hp) (hx.trans ha))

/-- A method that keeps the block. -/
theorem save (h : s.Owned) (hx : s.objs.cells x = some o) (q : AQueue T) :
    Moved s x (o.save s.mem q).2.buff (o.save s.mem q).1 := by
  have hown := own_of_cells hx
  refine ⟨?_, fun y p hne hy => QueueObj.view_congr fun a ha => ?_⟩
  · have hsame : Function.update s.own x (o.save s.mem q).2.buff = s.own := by
      rw [show (o.save s.mem q).2.buff = o.buff from rfl, ← hown, Function.update_eq_self]
    rw [hsame, QueueObj.save]
    split
    · exact Heap.Owned.write h _ _
    · exact h
  · rw [QueueObj.save]
    split
    next c b hbuff _ =>
      have hne' : a ≠ c := fun hac => ne_of_owned h hown hbuff hne hy (hac ▸ ha)
      exact Function.update_of_ne hne' ..
    next => rfl

/-- The destructor, and the first half of `resize`. -/
theorem delete (h : s.Owned) (hx : s.objs.cells x = some o) :
    ∃ mem, deleteBlock s.mem o.buff = .ok mem ∧ Moved s x none mem := by
  have hown := own_of_cells hx
  cases hbuff : o.buff with
  | none => exact ⟨s.mem, rfl, of_same h (hown.trans hbuff)⟩
  | some a =>
    refine ⟨s.mem.free a, ?_, h.drop (hown.trans hbuff), fun y p hne hy => QueueObj.view_congr fun c hc => ?_⟩
    · rw [deleteBlock, if_pos (h.live x a (hown.trans hbuff))]
    · have hne' : c ≠ a := fun hca => ne_of_owned h hown hbuff hne hy (hca ▸ hc)
      exact Function.update_of_ne hne' ..

/-- The second half of `resize`, and the constructor. -/
theorem take (hm : Moved s x none mem) (b : List T) : Moved s x (some mem.next) (mem.alloc b) := by
  have htake := hm.owned.take (Function.update_self x none s.own) b
  rw [Function.update_idem] at htake
  refine ⟨htake, fun y p hne hy => (QueueObj.view_congr fun c hc => ?_).trans (hm.others y p hne hy)⟩
  have hlive : (mem.cells c).isSome := hm.owned.live y c (by rw [Function.update_of_ne hne, own_of_cells hy, hc])
  exact Function.update_of_ne (Nat.ne_of_lt (Heap.lt_next hlive)) ..

end Moved

/-! ### One step -/

/-- The two fail alike, or answer alike and leave the same queues, each block with its owner. -/
def Agree (f : Except Fault ((Option Int ⊕ T) × Queues T)) (g : Except Fault ((Option Int ⊕ T) × Heap (AQueue T))) :
    Prop :=
  match f with
  | .error e => g = .error e
  | .ok (r, s) => s.Owned ∧ g = .ok (r, s.values)

/-- `x` names a queue that has a block. -/
def HasBlock (s : Queues T) (x : ℕ) : Prop := (s.own x).isSome

theorem resize_spec (dbg : Bool) (h : s.Owned) (hx : s.objs.cells x = some o) (cap : UInt32)
    (new : Option (Block T cap)) :
    (∃ e, o.resize dbg s.mem cap new = .error e ∧ (o.view s.mem).resize dbg cap new = .error e) ∨
      ∃ re mem o', o.resize dbg s.mem cap new = .ok (re, mem, o') ∧
        (o.view s.mem).resize dbg cap new = .ok (re, o'.view mem) ∧ Moved s x o'.buff mem := by
  simp only [QueueObj.resize, AQueue.resize]
  cases cAssert dbg (cap > 0) with
  | error e => exact .inl ⟨e, rfl, rfl⟩
  | ok u =>
    refine .inr ?_
    simp only [bind, Except.bind]
    split
    · exact ⟨0, s.mem, o, rfl, rfl, .of_same h (own_of_cells hx)⟩
    · obtain ⟨mem, hdelete, hmoved⟩ := Moved.delete h hx
      rw [hdelete]
      cases new with
      | none => exact ⟨1, mem, _, rfl, rfl, hmoved⟩
      | some b =>
        refine ⟨1, mem.alloc b.1, _, rfl, ?_, hmoved.take b.1⟩
        simp only [QueueObj.view, Heap.cells_alloc, Option.map_some, Function.update_self, Option.getD_some]
        rfl

theorem method_spec (dbg : Bool) (h : s.Owned) (hx : s.objs.cells x = some o) (m : Method T) :
    (∃ e, o.method dbg s.mem m = .error e ∧ (o.view s.mem).method dbg m = .error e) ∨
      ∃ r mem o', o.method dbg s.mem m = .ok (r, mem, o') ∧
        (o.view s.mem).method dbg m = .ok (r, o'.view mem) ∧ Moved s x o'.buff mem := by
  by_cases hm : ∃ cap new, m = .change (.resize cap new)
  · obtain ⟨cap, new, rfl⟩ := hm
    rcases resize_spec dbg h hx cap new with ⟨e, hobj, hval⟩ | ⟨re, mem, o', hobj, hval, hmoved⟩
    · refine .inl ⟨e, ?_, ?_⟩
      · simp only [QueueObj.method, hobj]
        rfl
      · simp only [AQueue.method, AQueue.step, hval]
        rfl
    · refine .inr ⟨.inl (some re.toNat), mem, o', ?_, ?_, hmoved⟩
      · simp only [QueueObj.method, hobj]
        rfl
      · simp only [AQueue.method, AQueue.step, hval]
        rfl
  · have hm' : ∀ cap new, m ≠ .change (.resize cap new) := fun cap new hc => hm ⟨cap, new, hc⟩
    have hobj : o.method dbg s.mem m =
        ((o.view s.mem).method dbg m).bind fun rq => .ok (rq.1, o.save s.mem rq.2) := by
      rw [QueueObj.method]
      · rfl
      · exact hm'
    rw [hobj]
    cases hval : (o.view s.mem).method dbg m with
    | error e => exact .inl ⟨e, rfl, rfl⟩
    | ok rq =>
      have hlive : ∀ a, o.buff = some a → (s.mem.cells a).isSome := fun a ha =>
        h.live x a ((own_of_cells hx).trans ha)
      refine .inr ⟨rq.1, (o.save s.mem rq.2).1, (o.save s.mem rq.2).2, rfl, ?_, .save h hx rq.2⟩
      rw [QueueObj.view_save hlive (Kept.method hm' hval)]

theorem cells_values (s : Queues T) (x : ℕ) :
    s.values.cells x = (s.objs.cells x).map (QueueObj.view s.mem) := rfl

theorem agree_default [Zero T] (h : s.Owned) : Agree (s.step dbg .default) (act dbg s.values .default) := by
  have hnone : s.own s.objs.next = none := own_next
  obtain ⟨howned, hvalues⟩ := (Moved.of_same h hnone).alloc (p := (⟨none, 0, 0, 0, -1, 0⟩ : QueueObj T))
  refine ⟨howned, ?_⟩
  rw [hvalues]
  rfl

theorem agree_sized [Zero T] (h : s.Owned) (cap : UInt32) (new : Option (Block T cap)) :
    Agree (s.step dbg (.sized cap new)) (act dbg s.values (.sized cap new)) := by
  cases new with
  | none => exact ⟨h, rfl⟩
  | some b =>
    have hmoved : Moved s s.objs.next (some s.mem.next) (s.mem.alloc b.1) := (Moved.of_same h own_next).take b.1
    obtain ⟨howned, hvalues⟩ := hmoved.alloc (p := (⟨some s.mem.next, cap, 0, 0, -1, 0⟩ : QueueObj T))
    refine ⟨howned, ?_⟩
    rw [hvalues]
    simp only [act, AQueue.new, QueueObj.view, Heap.cells_alloc, Option.map_some, Function.update_self,
      Option.getD_some]
    rfl

/-- The copy of a queue without a block shares nothing. -/
theorem agree_copied [Zero T] (h : s.Owned) (hy : ¬ s.HasBlock y) :
    Agree (s.step dbg (.copied y)) (act dbg s.values (.copied y)) := by
  cases hcells : s.objs.cells y with
  | none =>
    simp only [step, act, cells_values, hcells]
    exact ⟨h, rfl⟩
  | some o =>
    have hbuff : o.buff = none := by rwa [HasBlock, own_of_cells hcells, Option.not_isSome_iff_eq_none] at hy
    have hmoved : Moved s s.objs.next o.buff s.mem := .of_same h (own_next.trans hbuff.symm)
    obtain ⟨howned, hvalues⟩ := hmoved.alloc
    simp only [step, act, cells_values, hcells]
    refine ⟨howned, ?_⟩
    rw [hvalues]
    rfl

theorem agree_assign [Zero T] (h : s.Owned) (x y : ℕ) :
    Agree (s.step dbg (.assign x y)) (act dbg s.values (.assign x y)) := by
  cases hx : s.objs.cells x with
  | none =>
    simp only [step, act, cells_values, hx]
    exact ⟨h, rfl⟩
  | some o =>
    cases hy : s.objs.cells y with
    | none =>
      simp only [step, act, cells_values, hx, hy]
      exact ⟨h, rfl⟩
    | some p =>
      simp only [step, act, cells_values, hx, hy, Option.map_some]
      by_cases hxy : x = y
      · rw [if_pos hxy, if_pos hxy]
        exact ⟨h, rfl⟩
      · rw [if_neg hxy, if_neg hxy]
        by_cases hsame : o.capacity = p.capacity ∧ o.buff = p.buff
        · -- two queues that own their blocks point at one only if they have none
          have hnone : o.buff = none := by
            by_contra hne
            obtain ⟨a, ha⟩ := Option.ne_none_iff_exists'.1 hne
            exact hxy (h.alone x y a ((own_of_cells hx).trans ha) ((own_of_cells hy).trans (hsame.2 ▸ ha)))
          rw [if_pos hsame]
          have hval : (o.view s.mem).assign (p.view s.mem) = .error .badAccess := by
            have hcap : ¬ (o.view s.mem).capacity ≠ (p.view s.mem).capacity := fun hne => hne hsame.1
            rw [AQueue.assign, if_neg hcap]
            simp only [QueueObj.view, hnone]
            rfl
          rw [hval]
          rfl
        · rw [if_neg hsame]
          cases hval : (o.view s.mem).assign (p.view s.mem) with
          | error e => rfl
          | ok q =>
            have hlive : ∀ a, o.buff = some a → (s.mem.cells a).isSome := fun a ha =>
              h.live x a ((own_of_cells hx).trans ha)
            obtain ⟨howned, hvalues⟩ := (Moved.save h hx q).write hx
            refine ⟨howned, ?_⟩
            rw [hvalues, QueueObj.view_save hlive (Kept.assign hval)]
            rfl

theorem agree_call [Zero T] (h : s.Owned) (x : ℕ) (m : Method T) :
    Agree (s.step dbg (.call x m)) (act dbg s.values (.call x m)) := by
  cases hx : s.objs.cells x with
  | none =>
    simp only [step, act, cells_values, hx]
    exact ⟨h, rfl⟩
  | some o =>
    simp only [step, act, cells_values, hx, Option.map_some]
    rcases method_spec dbg h hx m with ⟨e, hobj, hval⟩ | ⟨r, mem, o', hobj, hval, hmoved⟩
    · rw [hobj, hval]
      rfl
    · obtain ⟨howned, hvalues⟩ := hmoved.write hx
      rw [hobj, hval]
      refine ⟨howned, ?_⟩
      rw [hvalues]
      rfl

theorem agree_destroy [Zero T] (h : s.Owned) (x : ℕ) :
    Agree (s.step dbg (.destroy x)) (act dbg s.values (.destroy x)) := by
  cases hx : s.objs.cells x with
  | none =>
    simp only [step, act, cells_values, hx]
    exact ⟨h, rfl⟩
  | some o =>
    have hbuff : (o.view s.mem).buff.isSome = o.buff.isSome := Option.isSome_map
    simp only [step, act, cells_values, hx, Option.map_some, hbuff]
    cases cAssert dbg o.buff.isSome with
    | error e => rfl
    | ok u =>
      obtain ⟨mem, hdelete, hmoved⟩ := Moved.delete h hx
      obtain ⟨howned, hvalues⟩ := hmoved.free
      rw [hdelete]
      refine ⟨howned, ?_⟩
      rw [hvalues]
      rfl

/-- The copy constructor is called only on queues without a block. -/
def CopiesNoBlock (s : Queues T) (a : Act T) : Prop := ∀ y, a = .copied y → ¬ s.HasBlock y

theorem agree_step [Zero T] (h : s.Owned) {a : Act T} (ha : s.CopiesNoBlock a) :
    Agree (s.step dbg a) (act dbg s.values a) := by
  cases a with
  | default => exact agree_default h
  | sized cap new => exact agree_sized h cap new
  | copied y => exact agree_copied h (ha y rfl)
  | assign x y => exact agree_assign h x y
  | call x m => exact agree_call h x m
  | destroy x => exact agree_destroy h x

end Queues

end LearnCpp
