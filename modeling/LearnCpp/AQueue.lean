import Mathlib.Algebra.Group.Nat.Even
import Mathlib.Data.List.Basic
import LearnCpp.Lib.Lts

/-!
# `AQueue` (`Utility/AQueue.h`)

The fixed-length queue as the template computes it. The index fields are 32-bit unsigned words, so the
initial `_tail = -1` is `2^32 - 1`. What C++ leaves undefined is a `Fault`: a remainder by zero, an
access to `_buff` that is null or outside the block. A failed `assert` is one too; `dbg` says whether
the build has asserts. `new T[n]` returns a block with arbitrary contents, or fails (`none`).
-/

namespace LearnCpp

/-- Behaviour C++ does not define, and failed asserts. -/
inductive Fault
  | assertFailed
  | modZero
  | badAccess
deriving DecidableEq, Repr

/-- What `new T[n]` returns: `n` cells holding anything. -/
abbrev Block (T : Type) (n : UInt32) := { b : List T // b.length = n.toNat }

structure AQueue (T : Type) where
  buff : Option (List T)
  capacity : UInt32
  currentSize : UInt32
  head : UInt32
  tail : UInt32
  errorData : T
deriving DecidableEq, Repr

/-- `assert(c)`. -/
def cAssert (dbg c : Bool) : Except Fault Unit := if dbg && !c then .error .assertFailed else .ok ()

/-- `x % y` on unsigned words. -/
def umod (x y : UInt32) : Except Fault UInt32 := if y = 0 then .error .modZero else .ok (x % y)

/-- `buff[i]`. -/
def load {T : Type} (buff : Option (List T)) (i : UInt32) : Except Fault T :=
  match buff with
  | none => .error .badAccess
  | some b => match b[i.toNat]? with
    | none => .error .badAccess
    | some x => .ok x

/-- `buff[i] = x`. -/
def store {T : Type} (buff : Option (List T)) (i : UInt32) (x : T) : Except Fault (Option (List T)) :=
  match buff with
  | none => .error .badAccess
  | some b => if i.toNat < b.length then .ok (some (b.set i.toNat x)) else .error .badAccess

/-- `memcpy(dst + i, src + j, n)`, in cells: undefined unless both ranges lie inside their blocks. -/
def memcpy {T : Type} (dst : Option (List T)) (i : Int) (src : Option (List T)) (j n : Int) :
    Except Fault (Option (List T)) :=
  match dst, src with
  | some d, some s =>
    if 0 ≤ i ∧ 0 ≤ j ∧ 0 ≤ n ∧ i + n ≤ d.length ∧ j + n ≤ s.length then
      .ok (some (d.take i.toNat ++ (s.drop j.toNat).take n.toNat ++ d.drop (i + n).toNat))
    else .error .badAccess
  | _, _ => .error .badAccess

namespace AQueue

variable {T : Type}

/-- `AQueue()`. -/
def newDefault [Zero T] : AQueue T := ⟨none, 0, 0, 0, -1, 0⟩

/-- `AQueue(unsigned cap)`, its `new T[cap]` having succeeded. -/
def new [Zero T] (cap : UInt32) (mem : Block T cap) : AQueue T :=
  ⟨some mem.1, cap, 0, 0, -1, 0⟩

def full (q : AQueue T) : Bool := q.capacity == q.currentSize

def empty (q : AQueue T) : Bool := q.currentSize == 0

def size (q : AQueue T) : UInt32 := q.currentSize

def front (dbg : Bool) (q : AQueue T) : Except Fault T := do
  cAssert dbg q.buff.isSome
  if q.buff.isNone || q.empty then return q.errorData
  load q.buff q.head

def popFront (q : AQueue T) : Except Fault (AQueue T) := do
  if q.currentSize ≤ 0 then return q
  let head ← umod (q.head + 1) q.capacity
  return { q with head := head, currentSize := q.currentSize - 1 }

def back (dbg : Bool) (q : AQueue T) : Except Fault T := do
  cAssert dbg q.buff.isSome
  if q.buff.isNone || q.empty then return q.errorData
  load q.buff q.tail

def evict (q : AQueue T) : Except Fault (Int × AQueue T) :=
  if q.full then do
    let head ← umod (q.head + 1) q.capacity
    return (1, { q with head := head, currentSize := q.currentSize - 1 })
  else
    return (0, q)

def pushBack (dbg : Bool) (q : AQueue T) (el : T) : Except Fault (Int × AQueue T) := do
  cAssert dbg q.buff.isSome
  if q.buff.isNone then return (-1, q)
  let (re, q) ← q.evict
  let tail ← umod (q.tail + 1) q.capacity
  let buff ← store q.buff tail el
  let q := { q with buff := buff, tail := tail, currentSize := q.currentSize + 1 }
  cAssert dbg (q.size ≤ q.capacity)
  return (re, q)

def pushFront (dbg : Bool) (q : AQueue T) (el : T) : Except Fault (Int × AQueue T) := do
  cAssert dbg q.buff.isSome
  if q.buff.isNone then return (-1, q)
  if q.full then return (1, q)
  let head ← umod (q.head + q.capacity - 1) q.capacity
  let buff ← store q.buff head el
  let q := { q with buff := buff, head := head, currentSize := q.currentSize + 1 }
  cAssert dbg (q.size ≤ q.capacity)
  return (0, q)

/-- `_tail` is unsigned, so the test `_tail < 0` never holds. -/
def popBack (q : AQueue T) : AQueue T :=
  if q.currentSize ≤ 0 then q
  else
    let tail := q.tail - 1
    { q with currentSize := q.currentSize - 1, tail := if tail < 0 then 0 else tail }

/-- `resize(cap)`; `mem` is the outcome of its `new T[cap]`. -/
def resize (dbg : Bool) (q : AQueue T) (cap : UInt32) (mem : Option (Block T cap)) :
    Except Fault (UInt32 × AQueue T) := do
  cAssert dbg (cap > 0)
  if cap ≤ 0 then return (0, q)
  let q := match mem with
    | some b => { q with buff := some b.1, capacity := cap }
    | none => { q with buff := none, capacity := 0 }
  return (1, { q with currentSize := 0, head := 0, tail := -1 })

def clear (q : AQueue T) : AQueue T := { q with currentSize := 0, head := 0, tail := -1 }

def read (dbg : Bool) (q : AQueue T) (index : UInt32) : Except Fault T := do
  cAssert dbg (index < q.capacity)
  cAssert dbg q.buff.isSome
  if q.buff.isNone || q.empty || index ≥ q.capacity then return q.errorData
  load q.buff (← umod (index + q.head) q.capacity)

def index (dbg : Bool) (q : AQueue T) (index : UInt32) : Except Fault T := q.read dbg index

def «at» (dbg : Bool) (q : AQueue T) (index : UInt32) : Except Fault T := q.read dbg index

/-- `read(sindex, len, buff)`; `buff` is the caller's block or null. The signed `first_part` goes back to unsigned
in the difference. -/
def readSindex (dbg : Bool) (q : AQueue T) (sindex len : UInt32) (buff : Option (List T)) :
    Except Fault (UInt32 × Option (List T)) := do
  if q.buff.isNone || q.empty || buff.isNone then return (0, buff)
  if sindex + len ≤ q.capacity then
    let j ← umod sindex q.capacity
    let buff ← memcpy buff 0 q.buff j.toNat len.toNat
    return (len, buff)
  else
    let firstPart := (q.capacity - sindex).toInt32
    cAssert dbg (firstPart ≥ 0)
    let buff ← memcpy buff 0 q.buff sindex.toNat firstPart.toInt
    let buff ← memcpy buff firstPart.toInt q.buff 0 (len - firstPart.toUInt32).toNat
    return (len, buff)

/-- `read(buff, len)`, whose `_read` is the read from an index. -/
def readBuff (dbg : Bool) (q : AQueue T) (buff : Option (List T)) (len : UInt32) :
    Except Fault (UInt32 × Option (List T)) := do
  if q.empty then return (0, buff)
  q.readSindex dbg (← umod (q.tail - len + q.capacity) q.capacity) len buff

/-! ### Calls -/

/-- A call of one of the mutators, with what the allocator answers to `resize`. -/
inductive Op (T : Type)
  | pushBack (el : T)
  | pushFront (el : T)
  | popFront
  | popBack
  | clear
  | resize (cap : UInt32) (mem : Option (Block T cap))

/-- Every `resize` succeeds, with a capacity from `1` to `2^31`. -/
def Op.Fits : Op T → Prop
  | .resize cap mem => 0 < cap.toNat ∧ cap.toNat ≤ 2 ^ 31 ∧ mem.isSome
  | _ => True

/-- One call: the returned value, if the method has one, and the queue afterwards. -/
def step (dbg : Bool) (q : AQueue T) : Op T → Except Fault (Option Int × AQueue T)
  | .pushBack el => do let (re, q) ← q.pushBack dbg el; return (some re, q)
  | .pushFront el => do let (re, q) ← q.pushFront dbg el; return (some re, q)
  | .popFront => do let q ← q.popFront; return (none, q)
  | .popBack => return (none, q.popBack)
  | .clear => return (none, q.clear)
  | .resize cap mem => do let (re, q) ← q.resize dbg cap mem; return (some re.toNat, q)

end AQueue

end LearnCpp
