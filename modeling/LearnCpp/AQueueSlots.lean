import LearnCpp.AQueueWf

/-!
# The slots of `AQueue` at every capacity

The four remainders that choose a slot, taken out of the methods they stand in, on a queue of any capacity from `1`
to `2^32 - 1`. Past `_head` and `_tail` the slot is the successor at every capacity. The sums of `push_front` and
`read` wrap before the remainder once the capacity is above `2^31` and the head far enough along, and then they are
never right by luck: no such capacity divides `2^32`.
-/

namespace LearnCpp
namespace AQueue

variable {T : Type} {q : AQueue T} {dbg : Bool} {index : UInt32} {el : T}

/-- Where `push_front` writes. -/
def frontSlot (q : AQueue T) : Except Fault UInt32 := umod (q.head + q.capacity - 1) q.capacity

/-- Where `read(index)` reads. -/
def readSlot (q : AQueue T) (index : UInt32) : Except Fault UInt32 := umod (index + q.head) q.capacity

/-- Where `_head` goes in `pop_front`, and in `push_back` on a full queue. -/
def nextHead (q : AQueue T) : Except Fault UInt32 := umod (q.head + 1) q.capacity

/-- Where `push_back` writes. -/
def nextTail (q : AQueue T) : Except Fault UInt32 := umod (q.tail + 1) q.capacity

/-! ### The methods use these slots -/

theorem pushFront_frontSlot (hbuff : q.buff.isSome = true) (hfull : q.full = false) :
    q.pushFront dbg el = do
      let head ← q.frontSlot
      let buff ← LearnCpp.store q.buff head el
      cAssert dbg (q.currentSize + 1 ≤ q.capacity)
      return (0, { q with buff := buff, head := head, currentSize := q.currentSize + 1 }) := by
  obtain ⟨b, hb⟩ := Option.isSome_iff_exists.1 hbuff
  simp [pushFront, hb, hfull, frontSlot, size]
  rfl

theorem pushFront_ok {b : List T} {slot : UInt32} (hbuff : q.buff = some b) (hfull : q.full = false)
    (hslot : q.frontSlot = .ok slot) (hlt : slot.toNat < b.length) :
    q.pushFront false el =
      .ok (0, { q with buff := some (b.set slot.toNat el), head := slot, currentSize := q.currentSize + 1 }) := by
  rw [pushFront_frontSlot (by rw [hbuff]; rfl) hfull, hslot, hbuff]
  change (LearnCpp.store (some b) slot el >>= _) = _
  rw [store_some hlt]
  rfl

theorem popFront_nextHead (hsize : ¬ q.currentSize ≤ 0) :
    q.popFront = do
      let head ← q.nextHead
      return { q with head := head, currentSize := q.currentSize - 1 } := by
  rw [popFront, if_neg hsize]
  rfl

theorem evict_nextHead (hfull : q.full = true) :
    q.evict = do
      let head ← q.nextHead
      return (1, { q with head := head, currentSize := q.currentSize - 1 }) := by
  rw [evict, if_pos hfull]
  rfl

theorem pushBack_nextTail (hbuff : q.buff.isSome = true) :
    q.pushBack dbg el = do
      let (re, q) ← q.evict
      let tail ← q.nextTail
      let buff ← LearnCpp.store q.buff tail el
      cAssert dbg (q.currentSize + 1 ≤ q.capacity)
      return (re, { q with buff := buff, tail := tail, currentSize := q.currentSize + 1 }) := by
  obtain ⟨b, hb⟩ := Option.isSome_iff_exists.1 hbuff
  simp [pushBack, hb, nextTail, size]
  rfl

theorem read_readSlot (hbuff : q.buff.isSome = true) (hempty : q.empty = false) (hindex : index < q.capacity) :
    q.read dbg index = q.readSlot index >>= load q.buff := by
  obtain ⟨b, hb⟩ := Option.isSome_iff_exists.1 hbuff
  have hnot : ¬ q.capacity ≤ index := UInt32.not_le.2 hindex
  simp [read, hb, hempty, hindex, hnot, readSlot]
  rfl

/-! ### The slots as numbers -/

/-- The slot `_tail` stands for; `-1` is the one before the first. -/
def tailIndex (q : AQueue T) : Int := if q.tail = -1 then -1 else q.tail.toNat

structure SlotsExact (q : AQueue T) (index : UInt32) : Prop where
  pushFront : ∃ slot, q.frontSlot = .ok slot ∧ (slot.toNat : Int) = ((q.head.toNat : Int) - 1) % q.capacity.toNat
  read : ∃ slot, q.readSlot index = .ok slot ∧ slot.toNat = (index.toNat + q.head.toNat) % q.capacity.toNat
  popFront : ∃ slot, q.nextHead = .ok slot ∧ slot.toNat = (q.head.toNat + 1) % q.capacity.toNat
  pushBack : ∃ slot, q.nextTail = .ok slot ∧ (slot.toNat : Int) = (q.tailIndex + 1) % q.capacity.toNat

theorem umod_ok_iff {x y : UInt32} (hy : 0 < y.toNat) {P : UInt32 → Prop} :
    (∃ slot, umod x y = .ok slot ∧ P slot) ↔ P (x % y) := by
  simp [umod_of_pos hy]

theorem nextHead_exact (hcap : 0 < q.capacity.toNat) (hhead : q.head.toNat < q.capacity.toNat) :
    ∃ slot, q.nextHead = .ok slot ∧ slot.toNat = (q.head.toNat + 1) % q.capacity.toNat := by
  have hword := q.capacity.toNat_lt
  rw [nextHead, umod_ok_iff hcap, UInt32.toNat_mod, UInt32.toNat_add, UInt32.toNat_one]
  rw [Nat.mod_eq_of_lt (a := q.head.toNat + 1) (by omega)]

/-- The sentinel wraps to slot `0`, and no other `_tail` wraps. -/
theorem nextTail_exact (hcap : 0 < q.capacity.toNat) :
    ∃ slot, q.nextTail = .ok slot ∧ (slot.toNat : Int) = (q.tailIndex + 1) % q.capacity.toNat := by
  rw [nextTail, umod_ok_iff hcap, tailIndex]
  split_ifs with htail
  · rw [htail]
    simp
  · have hne : q.tail.toNat ≠ 2 ^ 32 - 1 := fun h => htail (UInt32.toNat_inj.1 h)
    have hword := q.tail.toNat_lt
    rw [UInt32.toNat_mod, UInt32.toNat_add, UInt32.toNat_one, Nat.mod_eq_of_lt (a := q.tail.toNat + 1) (by omega)]
    push_cast
    rfl

theorem frontSlot_exact_iff (hcap : 0 < q.capacity.toNat) (hhead : q.head.toNat < q.capacity.toNat) :
    (∃ slot, q.frontSlot = .ok slot ∧ (slot.toNat : Int) = ((q.head.toNat : Int) - 1) % q.capacity.toNat) ↔
      q.head.toNat + q.capacity.toNat ≤ 2 ^ 32 := by
  have hword := q.capacity.toNat_lt
  rw [frontSlot, umod_ok_iff hcap, UInt32.toNat_mod, UInt32.toNat_sub, UInt32.toNat_add, UInt32.toNat_one]
  have hpred : ((q.head.toNat : Int) - 1) % q.capacity.toNat =
      ((q.head.toNat + q.capacity.toNat - 1) % q.capacity.toNat : ℕ) := by
    rw [Int.natCast_emod, ← Int.add_emod_right]
    congr 1
    omega
  rw [hpred, Int.natCast_inj]
  by_cases hfit : q.head.toNat + q.capacity.toNat ≤ 2 ^ 32
  · refine iff_of_true ?_ hfit
    congr 1
    omega
  · -- the sum wraps to less than the head, which is below the capacity
    refine iff_of_false ?_ hfit
    have hgot : (2 ^ 32 - 1 + (q.head.toNat + q.capacity.toNat) % 2 ^ 32) % 2 ^ 32 =
        q.head.toNat + q.capacity.toNat - 1 - 2 ^ 32 := by omega
    have hwant : (q.head.toNat + q.capacity.toNat - 1) % q.capacity.toNat = q.head.toNat - 1 := by
      rw [show q.head.toNat + q.capacity.toNat - 1 = q.head.toNat - 1 + q.capacity.toNat by omega,
        Nat.add_mod_right, Nat.mod_eq_of_lt (by omega)]
    rw [hgot, hwant, Nat.mod_eq_of_lt (by omega)]
    omega

theorem readSlot_exact_iff (hcap : 0 < q.capacity.toNat) (hhead : q.head.toNat < q.capacity.toNat)
    (hindex : index.toNat < q.capacity.toNat) :
    (∃ slot, q.readSlot index = .ok slot ∧ slot.toNat = (index.toNat + q.head.toNat) % q.capacity.toNat) ↔
      index.toNat + q.head.toNat < 2 ^ 32 := by
  have hword := q.capacity.toNat_lt
  rw [readSlot, umod_ok_iff hcap, UInt32.toNat_mod, UInt32.toNat_add]
  by_cases hfit : index.toNat + q.head.toNat < 2 ^ 32
  · refine iff_of_true ?_ hfit
    rw [Nat.mod_eq_of_lt hfit]
  · refine iff_of_false ?_ hfit
    have hgot : (index.toNat + q.head.toNat) % 2 ^ 32 = index.toNat + q.head.toNat - 2 ^ 32 := by omega
    have hwant : (index.toNat + q.head.toNat) % q.capacity.toNat =
        index.toNat + q.head.toNat - q.capacity.toNat := by
      rw [Nat.mod_eq_sub_mod (by omega), Nat.mod_eq_of_lt (by omega)]
    rw [hgot, hwant, Nat.mod_eq_of_lt (by omega)]
    omega

end AQueue

open AQueue

/-- On a queue of any capacity, every slot is the mathematical one exactly when neither the sum of `push_front` nor
the one of `read` wraps. -/
theorem slots_exact_iff {T : Type} (q : AQueue T) (index : UInt32) (hcap : 0 < q.capacity.toNat)
    (hhead : q.head.toNat < q.capacity.toNat) (hindex : index.toNat < q.capacity.toNat) :
    q.SlotsExact index ↔
      q.head.toNat + q.capacity.toNat ≤ 2 ^ 32 ∧ index.toNat + q.head.toNat < 2 ^ 32 := by
  rw [← frontSlot_exact_iff hcap hhead, ← readSlot_exact_iff hcap hhead hindex]
  constructor
  · intro h
    exact ⟨h.pushFront, h.read⟩
  · rintro ⟨hfront, hread⟩
    exact ⟨hfront, hread, nextHead_exact hcap hhead, nextTail_exact hcap⟩

theorem slots_exact_iff_spread :
    (⟨none, 2863311530, 1, 1908874353, 1908874353, 0⟩ : AQueue ℕ).SlotsExact 954437176 ↔
      1908874353 + 2863311530 ≤ 2 ^ 32 ∧ 954437176 + 1908874353 < 2 ^ 32 :=
  slots_exact_iff _ _ (by decide) (by decide) (by decide)

/-- Two `push_front`s on a queue of capacity 3221225472: the second sum wraps, and the head goes to slot 2147483646
instead of slot 3221225470. -/
theorem push_front_wraps :
    ∃ q q' : AQueue ℕ,
      (AQueue.new 3221225472 ⟨List.replicate (3221225472 : UInt32).toNat 0, List.length_replicate⟩).pushFront false 1 =
          .ok (0, q) ∧
        q.pushFront false 2 = .ok (0, q') ∧ q'.head.toNat = 2147483646 ∧
        ((q.head.toNat : Int) - 1) % q.capacity.toNat = 3221225470 ∧ ¬ q.SlotsExact 0 := by
  refine ⟨_, _, pushFront_ok rfl rfl rfl ?_, pushFront_ok rfl rfl rfl ?_, rfl, rfl, ?_⟩
  · rw [List.length_replicate]
    decide
  · rw [List.length_set, List.length_replicate]
    decide
  · rintro ⟨⟨slot, hslot, hexact⟩, _, _, _⟩
    cases hslot
    have hne : ¬ (2147483646 : Int) = 3221225470 := by omega
    exact hne hexact

end LearnCpp
