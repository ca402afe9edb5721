import LearnCpp.AQueue
import LearnCpp.Lib.Circular

/-!
# What each call of `AQueue` does to a well-formed queue

`Wf q b`: the block `b` has `_capacity` cells, `_head` is one of them and `_current_size` does not
exceed their number. On such a queue no method faults, and `push_back`, `push_front` and `pop_front`
are compositions of three state changes: `dropHead`, `writeTail` and `writeHead`.

`Linked q`: the slot `push_back` writes next is the first one behind the elements. Only `_tail` knows
that slot, only `_head` and `_current_size` know the elements; the sentinel `_tail = 2^32 - 1` stands
for slot `0` next.
-/

namespace LearnCpp

@[simp] theorem cAssert_true (dbg : Bool) : cAssert dbg true = .ok () := by simp [cAssert]

theorem umod_of_pos {x y : UInt32} (h : 0 < y.toNat) : umod x y = .ok (x % y) := by
  have hy : y ≠ 0 := fun hy => by simp [hy] at h
  simp [umod, hy]

theorem load_some {T : Type} {b : List T} {i : UInt32} {x : T} (h : b[i.toNat]? = some x) :
    load (some b) i = .ok x := by
  simp [load, h]

theorem store_some {T : Type} {b : List T} {i : UInt32} {x : T} (h : i.toNat < b.length) :
    store (some b) i x = .ok (some (b.set i.toNat x)) := by
  simp [store, h]

namespace AQueue

variable {T : Type} {q : AQueue T} {b : List T} {dbg : Bool}

/-- A queue over the block `b`. -/
structure Wf (q : AQueue T) (b : List T) : Prop where
  buff : q.buff = some b
  len : b.length = q.capacity.toNat
  pos : 0 < q.capacity.toNat
  le : q.capacity.toNat ≤ 2 ^ 31
  head_lt : q.head.toNat < q.capacity.toNat
  size_le : q.currentSize.toNat ≤ q.capacity.toNat

/-- The slot the next `push_back` writes is the first one behind the elements. -/
def Linked (q : AQueue T) : Prop :=
  ((q.tail + 1) % q.capacity).toNat = (q.head.toNat + q.currentSize.toNat) % q.capacity.toNat

def dropHead (q : AQueue T) : AQueue T :=
  { q with head := (q.head + 1) % q.capacity, currentSize := q.currentSize - 1 }

def writeTail (q : AQueue T) (b : List T) (el : T) : AQueue T :=
  { q with
    buff := some (b.set ((q.tail + 1) % q.capacity).toNat el)
    tail := (q.tail + 1) % q.capacity
    currentSize := q.currentSize + 1 }

def writeHead (q : AQueue T) (b : List T) (el : T) : AQueue T :=
  { q with
    buff := some (b.set ((q.head + q.capacity - 1) % q.capacity).toNat el)
    head := (q.head + q.capacity - 1) % q.capacity
    currentSize := q.currentSize + 1 }

/-! ### Word arithmetic -/

theorem full_iff : q.full = true ↔ q.currentSize.toNat = q.capacity.toNat := by
  simp only [full, beq_iff_eq, ← UInt32.toNat_inj]
  exact eq_comm

theorem empty_iff : q.empty = true ↔ q.currentSize.toNat = 0 := by
  simp [empty, ← UInt32.toNat_inj]

theorem full_eq_false (h : q.currentSize.toNat < q.capacity.toNat) : q.full = false :=
  Bool.eq_false_iff.2 fun hc => Nat.ne_of_lt h (full_iff.1 hc)

theorem empty_eq_false (hs : 0 < q.currentSize.toNat) : q.empty = false :=
  Bool.eq_false_iff.2 fun hc => Nat.ne_of_gt hs (empty_iff.1 hc)

theorem not_le_zero {x : UInt32} (h : 0 < x.toNat) : ¬ x ≤ 0 := by
  rw [UInt32.le_iff_toNat_le, UInt32.toNat_zero]
  omega

theorem currentSize_le_zero : q.currentSize ≤ 0 ↔ q.currentSize.toNat = 0 := by
  simp [UInt32.le_iff_toNat_le]

theorem size_pred (hs : 0 < q.currentSize.toNat) : (q.currentSize - 1).toNat = q.currentSize.toNat - 1 := by
  rw [UInt32.toNat_sub_of_le _ _ (by rw [UInt32.le_iff_toNat_le, UInt32.toNat_one]; omega), UInt32.toNat_one]

namespace Wf

theorem head_next (h : Wf q b) :
    ((q.head + 1) % q.capacity).toNat = (q.head.toNat + 1) % q.capacity.toNat := by
  have := h.head_lt
  have := h.le
  rw [UInt32.toNat_mod, UInt32.toNat_add, UInt32.toNat_one, Nat.mod_eq_of_lt (a := q.head.toNat + 1) (by omega)]

theorem head_pred (h : Wf q b) :
    ((q.head + q.capacity - 1) % q.capacity).toNat =
      (q.head.toNat + q.capacity.toNat - 1) % q.capacity.toNat := by
  have := h.head_lt
  have := h.le
  have hadd : (q.head + q.capacity).toNat = q.head.toNat + q.capacity.toNat := by
    rw [UInt32.toNat_add, Nat.mod_eq_of_lt (by omega)]
  have hone : (1 : UInt32) ≤ q.head + q.capacity := by
    rw [UInt32.le_iff_toNat_le, hadd, UInt32.toNat_one]; omega
  rw [UInt32.toNat_mod, UInt32.toNat_sub_of_le _ _ hone, hadd, UInt32.toNat_one]

theorem size_succ (h : Wf q b) (hs : q.currentSize.toNat < q.capacity.toNat) :
    (q.currentSize + 1).toNat = q.currentSize.toNat + 1 := by
  have := h.le
  rw [UInt32.toNat_add, UInt32.toNat_one, Nat.mod_eq_of_lt (by omega)]

theorem tail_slot (h : Wf q b) : ((q.tail + 1) % q.capacity).toNat < q.capacity.toNat := by
  rw [UInt32.toNat_mod]
  exact Nat.mod_lt _ h.pos

theorem head_slot (h : Wf q b) : ((q.head + q.capacity - 1) % q.capacity).toNat < q.capacity.toNat := by
  rw [UInt32.toNat_mod]
  exact Nat.mod_lt _ h.pos

theorem head_pred_next (h : Wf q b) :
    (((q.head + q.capacity - 1) % q.capacity).toNat + 1) % q.capacity.toNat = q.head.toNat := by
  rw [h.head_pred]
  exact Circular.pred_next h.pos h.head_lt

/-! ### The state changes keep a queue well-formed -/

theorem dropHead (h : Wf q b) (hs : 0 < q.currentSize.toNat) : Wf q.dropHead b := by
  refine ⟨h.buff, h.len, h.pos, h.le, ?_, ?_⟩
  · show ((q.head + 1) % q.capacity).toNat < q.capacity.toNat
    rw [UInt32.toNat_mod]
    exact Nat.mod_lt _ h.pos
  · show (q.currentSize - 1).toNat ≤ q.capacity.toNat
    have := h.size_le
    rw [size_pred hs]; omega

theorem writeTail (h : Wf q b) (hs : q.currentSize.toNat < q.capacity.toNat) (el : T) :
    Wf (q.writeTail b el) (b.set ((q.tail + 1) % q.capacity).toNat el) :=
  ⟨rfl, by rw [List.length_set]; exact h.len, h.pos, h.le, h.head_lt, by
    show (q.currentSize + 1).toNat ≤ q.capacity.toNat
    rw [h.size_succ hs]; exact hs⟩

theorem writeHead (h : Wf q b) (hs : q.currentSize.toNat < q.capacity.toNat) (el : T) :
    Wf (q.writeHead b el) (b.set ((q.head + q.capacity - 1) % q.capacity).toNat el) :=
  ⟨rfl, by rw [List.length_set]; exact h.len, h.pos, h.le, h.head_slot, by
    show (q.currentSize + 1).toNat ≤ q.capacity.toNat
    rw [h.size_succ hs]; exact hs⟩

theorem clear (h : Wf q b) : Wf q.clear b :=
  ⟨h.buff, h.len, h.pos, h.le, h.pos, Nat.zero_le _⟩

theorem of_block [Zero T] {cap : UInt32} (mem : Block T cap) (hpos : 0 < cap.toNat)
    (hle : cap.toNat ≤ 2 ^ 31) : Wf (new cap mem) mem.1 :=
  ⟨rfl, mem.2, hpos, hle, hpos, Nat.zero_le _⟩

end Wf

/-! ### The methods as state changes -/

theorem popFront_of_empty (hs : q.currentSize.toNat = 0) : q.popFront = .ok q := by
  simp only [popFront, currentSize_le_zero.2 hs, if_true]
  rfl

theorem popFront_of_pos (h : Wf q b) (hs : 0 < q.currentSize.toNat) : q.popFront = .ok q.dropHead := by
  have hne := not_le_zero hs
  simp only [popFront, if_neg hne, umod_of_pos h.pos]
  rfl

theorem evict_of_full (h : Wf q b) (hf : q.full = true) : q.evict = .ok (1, q.dropHead) := by
  simp only [evict, hf, if_true, umod_of_pos h.pos]
  rfl

theorem evict_of_not_full (hf : q.full = false) : q.evict = .ok (0, q) := by
  simp only [evict, hf]
  rfl

theorem pushBack_of_evict {q' : AQueue T} {re : Int} (hb : q.buff = some b) (he : q.evict = .ok (re, q'))
    (h' : Wf q' b) (hs : q'.currentSize.toNat < q'.capacity.toNat) (el : T) :
    q.pushBack dbg el = .ok (re, q'.writeTail b el) := by
  have hst : store q'.buff ((q'.tail + 1) % q'.capacity) el =
      .ok (some (b.set ((q'.tail + 1) % q'.capacity).toNat el)) := by
    rw [h'.buff, store_some (by rw [h'.len]; exact h'.tail_slot)]
  have hle : (q'.currentSize + 1 ≤ q'.capacity) = True := eq_true (by
    rw [UInt32.le_iff_toNat_le, h'.size_succ hs]; exact hs)
  simp only [pushBack, hb, Option.isSome_some, cAssert_true, Option.isNone_some, he, umod_of_pos h'.pos,
    bind, Except.bind, pure, Except.pure, hst, size, hle, decide_true]
  rfl

theorem pos_of_full (h : Wf q b) (hf : q.full = true) : 0 < q.currentSize.toNat := by
  rw [full_iff.1 hf]
  exact h.pos

theorem dropHead_lt (h : Wf q b) (hs : 0 < q.currentSize.toNat) :
    q.dropHead.currentSize.toNat < q.dropHead.capacity.toNat := by
  show (q.currentSize - 1).toNat < q.capacity.toNat
  have := h.size_le
  rw [size_pred hs]; omega

theorem pushBack_of_full (h : Wf q b) (hf : q.full = true) (el : T) :
    q.pushBack dbg el = .ok (1, q.dropHead.writeTail b el) := by
  have hs := pos_of_full h hf
  exact pushBack_of_evict h.buff (evict_of_full h hf) (h.dropHead hs) (dropHead_lt h hs) el

theorem lt_of_not_full (h : Wf q b) (hf : q.full = false) : q.currentSize.toNat < q.capacity.toNat :=
  Nat.lt_of_le_of_ne h.size_le fun hc => by simp [full_iff.2 hc] at hf

theorem pushBack_of_not_full (h : Wf q b) (hf : q.full = false) (el : T) :
    q.pushBack dbg el = .ok (0, q.writeTail b el) :=
  pushBack_of_evict h.buff (evict_of_not_full hf) h (lt_of_not_full h hf) el

theorem pushFront_of_full (h : Wf q b) (hf : q.full = true) (el : T) : q.pushFront dbg el = .ok (1, q) := by
  simp only [pushFront, h.buff, Option.isSome_some, cAssert_true, Option.isNone_some, hf, if_true]
  rfl

theorem pushFront_of_not_full (h : Wf q b) (hf : q.full = false) (el : T) :
    q.pushFront dbg el = .ok (0, q.writeHead b el) := by
  have hst : store (some b) ((q.head + q.capacity - 1) % q.capacity) el =
      .ok (some (b.set ((q.head + q.capacity - 1) % q.capacity).toNat el)) :=
    store_some (by rw [h.len]; exact h.head_slot)
  have hle : (q.currentSize + 1 ≤ q.capacity) = True := eq_true (by
    rw [UInt32.le_iff_toNat_le, h.size_succ (lt_of_not_full h hf)]; exact lt_of_not_full h hf)
  simp only [pushFront, h.buff, Option.isSome_some, cAssert_true, Option.isNone_some, hf,
    umod_of_pos h.pos, bind, Except.bind, pure, Except.pure, hst, size, hle, decide_true]
  rfl

theorem popBack_of_empty (hs : q.currentSize.toNat = 0) : q.popBack = q := by
  simp only [popBack, currentSize_le_zero.2 hs, if_true]

theorem popBack_of_pos (hs : 0 < q.currentSize.toNat) :
    q.popBack = { q with currentSize := q.currentSize - 1, tail := q.tail - 1 } := by
  have hne := not_le_zero hs
  have hlt : ¬ q.tail - 1 < 0 := fun hc => by simp [UInt32.lt_iff_toNat_lt] at hc
  simp only [popBack, if_neg hne, if_neg hlt]

theorem Wf.popBack (h : Wf q b) (hs : 0 < q.currentSize.toNat) : Wf q.popBack b := by
  have hsize := h.size_le
  rw [popBack_of_pos hs]
  refine ⟨h.buff, h.len, h.pos, h.le, h.head_lt, ?_⟩
  show (q.currentSize - 1).toNat ≤ q.capacity.toNat
  rw [size_pred hs]
  omega

theorem resize_some {cap : UInt32} (hpos : 0 < cap.toNat) (mem : Block T cap) :
    q.resize dbg cap (some mem) =
      .ok (1, { q with buff := some mem.1, capacity := cap, currentSize := 0, head := 0, tail := -1 }) := by
  have hgt : (cap > 0) = True := eq_true (UInt32.lt_iff_toNat_lt.2 hpos)
  have hne := not_le_zero hpos
  simp only [resize, hgt, decide_true, cAssert_true, if_neg hne]
  rfl

theorem Wf.of_resize {cap : UInt32} (hpos : 0 < cap.toNat) (hle : cap.toNat ≤ 2 ^ 31) (mem : Block T cap) :
    Wf { q with buff := some mem.1, capacity := cap, currentSize := 0, head := 0, tail := -1 } mem.1 :=
  ⟨rfl, mem.2, hpos, hle, hpos, Nat.zero_le _⟩

/-- What an admitted call does to a well-formed queue over `b`: the value returned, and the queue and its block
afterwards. -/
inductive Does (q : AQueue T) (b : List T) : Op T → Option Int → AQueue T → List T → Prop
  | append (el : T) (hf : q.full = false) :
      Does q b (.pushBack el) (some 0) (q.writeTail b el) (b.set ((q.tail + 1) % q.capacity).toNat el)
  | evict (el : T) (hf : q.full = true) :
      Does q b (.pushBack el) (some 1) (q.dropHead.writeTail b el) (b.set ((q.tail + 1) % q.capacity).toNat el)
  | prepend (el : T) (hf : q.full = false) :
      Does q b (.pushFront el) (some 0) (q.writeHead b el)
        (b.set ((q.head + q.capacity - 1) % q.capacity).toNat el)
  | refuse (el : T) (hf : q.full = true) : Does q b (.pushFront el) (some 1) q b
  | drop (hs : 0 < q.currentSize.toNat) : Does q b .popFront none q.dropHead b
  | noFront (hs : q.currentSize.toNat = 0) : Does q b .popFront none q b
  | retreat (hs : 0 < q.currentSize.toNat) : Does q b .popBack none q.popBack b
  | noBack (hs : q.currentSize.toNat = 0) : Does q b .popBack none q b
  | clear : Does q b .clear none q.clear b
  | renew {cap : UInt32} (mem : Block T cap) (hpos : 0 < cap.toNat) (hle : cap.toNat ≤ 2 ^ 31) :
      Does q b (.resize cap (some mem)) (some 1)
        { q with buff := some mem.1, capacity := cap, currentSize := 0, head := 0, tail := -1 } mem.1

theorem Wf.does (h : Wf q b) (dbg : Bool) {op : Op T} (hop : op.Fits) :
    ∃ r q' b', q.step dbg op = .ok (r, q') ∧ Does q b op r q' b' := by
  cases op with
  | pushBack el =>
    cases hf : q.full with
    | false =>
      refine ⟨_, _, _, ?_, .append el hf⟩
      rw [step, pushBack_of_not_full h hf]
      rfl
    | true =>
      refine ⟨_, _, _, ?_, .evict el hf⟩
      rw [step, pushBack_of_full h hf]
      rfl
  | pushFront el =>
    cases hf : q.full with
    | false =>
      refine ⟨_, _, _, ?_, .prepend el hf⟩
      rw [step, pushFront_of_not_full h hf]
      rfl
    | true =>
      refine ⟨_, _, _, ?_, .refuse el hf⟩
      rw [step, pushFront_of_full h hf]
      rfl
  | popFront =>
    rcases Nat.eq_zero_or_pos q.currentSize.toNat with hs | hs
    · refine ⟨_, _, _, ?_, .noFront hs⟩
      rw [step, popFront_of_empty hs]
      rfl
    · refine ⟨_, _, _, ?_, .drop hs⟩
      rw [step, popFront_of_pos h hs]
      rfl
  | popBack =>
    rcases Nat.eq_zero_or_pos q.currentSize.toNat with hs | hs
    · refine ⟨_, _, _, ?_, .noBack hs⟩
      rw [step, popBack_of_empty hs]
      rfl
    · exact ⟨_, _, _, rfl, .retreat hs⟩
  | clear => exact ⟨_, _, _, rfl, .clear⟩
  | resize cap mem =>
    rcases hop with ⟨hpos, hle, hmem⟩
    obtain ⟨mem, rfl⟩ := Option.isSome_iff_exists.1 hmem
    refine ⟨_, _, _, ?_, .renew mem hpos hle⟩
    rw [step, resize_some hpos]
    rfl

theorem Does.wf {op : Op T} {r : Option Int} {q' : AQueue T} {b' : List T} (h : Wf q b) (hd : Does q b op r q' b') :
    Wf q' b' := by
  cases hd with
  | append el hf => exact h.writeTail (lt_of_not_full h hf) el
  | evict el hf =>
    have hs := pos_of_full h hf
    exact (h.dropHead hs).writeTail (dropHead_lt h hs) el
  | prepend el hf => exact h.writeHead (lt_of_not_full h hf) el
  | drop hs => exact h.dropHead hs
  | retreat hs => exact h.popBack hs
  | refuse | noFront | noBack => exact h
  | clear => exact h.clear
  | renew mem hpos hle => exact .of_resize hpos hle mem

theorem wf_of_run [Zero T] {cap : UInt32} (hpos : 1 ≤ cap.toNat) (hle : cap.toNat ≤ 2 ^ 31) (mem : Block T cap)
    {ops : List (Op T)} (hops : ∀ op ∈ ops, op.Fits) {os : List (Option Int)}
    (hrun : Lts.runMealy (step dbg) (new cap mem) ops = .ok (os, q)) : ∃ b, Wf q b := by
  refine Lts.runMealy_inv (fun q => ∃ b, Wf q b) Op.Fits ?_ hops ⟨_, .of_block mem hpos hle⟩ hrun
  rintro q op r q' hop ⟨b, h⟩ hstep
  obtain ⟨r', q'', b', hq, hdoes⟩ := h.does dbg hop
  rw [hstep] at hq
  cases hq
  exact ⟨b', hdoes.wf h⟩

/-! ### The observers -/

theorem read_eq (h : Wf q b) {i : UInt32} (hi : i.toNat < q.currentSize.toNat) {x : T}
    (hx : b[(q.head.toNat + i.toNat) % b.length]? = some x) : q.read dbg i = .ok x := by
  have hhead := h.head_lt
  have hle := h.le
  have hsize := h.size_le
  have hlt : (i < q.capacity) = True := eq_true (UInt32.lt_iff_toNat_lt.2 (by omega))
  have hge : (i ≥ q.capacity) = False := eq_false (fun hc => by
    have := UInt32.le_iff_toNat_le.1 hc; omega)
  have hne := empty_eq_false (q := q) (by omega)
  have hslot : ((i + q.head) % q.capacity).toNat = (q.head.toNat + i.toNat) % b.length := by
    rw [UInt32.toNat_mod, UInt32.toNat_add, Nat.mod_eq_of_lt (b := 2 ^ 32) (by omega), h.len, Nat.add_comm]
  rw [← hslot] at hx
  simp only [read, hlt, decide_true, cAssert_true, h.buff, Option.isSome_some, Option.isNone_some, hne, hge,
    decide_false, Bool.or_false, Bool.false_eq_true, if_false, umod_of_pos h.pos, bind, Except.bind,
    load_some hx]

theorem front_eq (h : Wf q b) (hs : 0 < q.currentSize.toNat) {x : T} (hx : b[q.head.toNat]? = some x) :
    q.front dbg = .ok x := by
  have hne := empty_eq_false hs
  simp only [front, h.buff, Option.isSome_some, cAssert_true, Option.isNone_some, hne, Bool.or_false,
    Bool.false_eq_true, if_false, bind, Except.bind, load_some hx]

theorem back_eq_load (h : Wf q b) (hs : 0 < q.currentSize.toNat) : q.back dbg = load (some b) q.tail := by
  have hne := empty_eq_false hs
  simp only [back, h.buff, Option.isSome_some, cAssert_true, Option.isNone_some, hne, Bool.or_false,
    Bool.false_eq_true, if_false, bind, Except.bind]

/-! ### The link between the two ends -/

namespace Linked

theorem of_restart (hc : q.currentSize = 0) (hh : q.head = 0) (ht : q.tail = -1) : Linked q := by
  simp [Linked, hc, hh, ht]

theorem dropHead (h : Wf q b) (hl : Linked q) (hs : 0 < q.currentSize.toNat) : Linked q.dropHead := by
  show ((q.tail + 1) % q.capacity).toNat =
    (((q.head + 1) % q.capacity).toNat + (q.currentSize - 1).toNat) % q.capacity.toNat
  rw [hl, h.head_next, size_pred hs, Circular.next_add, Nat.sub_add_cancel hs]

theorem writeTail (h : Wf q b) (hl : Linked q) (hs : q.currentSize.toNat < q.capacity.toNat) (el : T) :
    Linked (q.writeTail b el) := by
  have hslot := h.tail_slot
  have hle := h.le
  show (((q.tail + 1) % q.capacity + 1) % q.capacity).toNat =
    (q.head.toNat + (q.currentSize + 1).toNat) % q.capacity.toNat
  rw [UInt32.toNat_mod, UInt32.toNat_add, UInt32.toNat_one, Nat.mod_eq_of_lt (b := 2 ^ 32) (by omega), hl,
    h.size_succ hs, Nat.mod_add_mod, Nat.add_assoc]

theorem writeHead (h : Wf q b) (hl : Linked q) (hs : q.currentSize.toNat < q.capacity.toNat) (el : T) :
    Linked (q.writeHead b el) := by
  show ((q.tail + 1) % q.capacity).toNat =
    (((q.head + q.capacity - 1) % q.capacity).toNat + (q.currentSize + 1).toNat) % q.capacity.toNat
  rw [hl, h.size_succ hs, ← Circular.next_add, h.head_pred_next]

end Linked

end AQueue

end LearnCpp
