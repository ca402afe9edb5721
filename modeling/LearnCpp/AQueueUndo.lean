import LearnCpp.AQueueSim
import Mathlib.Algebra.Group.Nat.Units

/-!
# `pop_back` against `push_back`

Pushing a list and popping as many elements leaves size and elements as they were, but `_tail` is stepped down
without going round at slot `0`: where the list went past the end of the array, the next slot to be written is
computed from a word below zero. It is the right one only where the capacity divides `2 ^ 32`
(`undone_iff`).
-/

namespace LearnCpp.AQueue

variable {T : Type} {q q' : AQueue T} {b b' L xs ys : List T} {dbg : Bool}

def pushes (xs : List T) : List (Op T) := xs.map .pushBack

def pops (n : ℕ) : List (Op T) := List.replicate n .popBack

/-- The slot the next `push_back` writes. -/
def nextSlot (q : AQueue T) : ℕ := ((q.tail + 1) % q.capacity).toNat

def SameContents (dbg : Bool) (q q' : AQueue T) : Prop :=
  q.size = q'.size ∧ ∀ i : UInt32, i.toNat < q.size.toNat → q.read dbg i = q'.read dbg i

/-- Pushing `xs`, popping as many elements and pushing `ys` leaves the contents that pushing `ys` leaves. -/
def Undone (dbg : Bool) (q : AQueue T) (xs ys : List T) : Prop :=
  ∃ os q₁ os' q₂,
    Lts.runMealy (step dbg) q (pushes xs ++ pops xs.length ++ pushes ys) = .ok (os, q₁) ∧
    Lts.runMealy (step dbg) q (pushes ys) = .ok (os', q₂) ∧ SameContents dbg q₁ q₂

/-! ### Queues and their elements -/

/-- The queue `q` over the block `b` has the elements `L`; nothing is said of `_tail`. -/
structure Contains (q : AQueue T) (b L : List T) : Prop where
  wf : Wf q b
  holds : Circular.Holds b q.head.toNat L
  size : L.length = q.currentSize.toNat

theorem Contains.same (h : Contains q b L) (h' : Contains q' b' L) : SameContents dbg q q' := by
  have hsize : q.size = q'.size := UInt32.toNat_inj.1 (h.size.symm.trans h'.size)
  refine ⟨hsize, fun i hi => ?_⟩
  change i.toNat < q.currentSize.toNat at hi
  have hiL : i.toNat < L.length := by rw [h.size]; exact hi
  rw [read_eq h.wf hi (h.holds _ hiL), read_eq h'.wf (by rw [← h'.size]; exact hiL) (h'.holds _ hiL)]

/-! ### Pushing a list -/

/-- The queue `q` over `b` after the list `xs` was pushed, with room for it. -/
structure Pushed (q : AQueue T) (b xs : List T) (q' : AQueue T) : Prop where
  wf : Wf q' (Circular.writeFrom b q.nextSlot xs)
  head : q'.head = q.head
  capacity : q'.capacity = q.capacity
  size : q'.currentSize.toNat = q.currentSize.toNat + xs.length
  tail : xs ≠ [] → q'.tail.toNat = (q.nextSlot + xs.length - 1) % q.capacity.toNat
  same : xs = [] → q' = q

theorem nextSlot_lt (h : Wf q b) : q.nextSlot < q.capacity.toNat := h.tail_slot

theorem nextSlot_writeTail (h : Wf q b) (el : T) :
    (q.writeTail b el).nextSlot = (q.nextSlot + 1) % q.capacity.toNat := by
  have hslot := h.tail_slot
  have hle := h.le
  show (((q.tail + 1) % q.capacity + 1) % q.capacity).toNat = _
  rw [UInt32.toNat_mod, UInt32.toNat_add, UInt32.toNat_one, Nat.mod_eq_of_lt (b := 2 ^ 32) (by omega)]
  rfl

theorem Pushed.nil (h : Wf q b) : Pushed q b [] q :=
  ⟨h, rfl, rfl, rfl, fun hne => absurd rfl hne, fun _ => rfl⟩

theorem Pushed.cons {x : T} (h : Wf q b) (hs : q.currentSize.toNat < q.capacity.toNat)
    (hp : Pushed (q.writeTail b x) (b.set q.nextSlot x) xs q') : Pushed q b (x :: xs) q' := by
  have hsize : (q.writeTail b x).currentSize.toNat = q.currentSize.toNat + 1 := h.size_succ hs
  have hcap : (q.writeTail b x).capacity = q.capacity := rfl
  have hslot := nextSlot_lt h
  have hnext := nextSlot_writeTail h x
  refine ⟨?_, hp.head, hp.capacity, ?_, fun _ => ?_, fun h => absurd h (List.cons_ne_nil x xs)⟩
  · have hwf := hp.wf
    have hlen : (b.set q.nextSlot x).length = b.length := List.length_set
    rw [hnext, ← h.len, ← hlen, Circular.writeFrom_mod] at hwf
    rwa [Circular.writeFrom, Nat.mod_eq_of_lt (by rw [h.len]; exact hslot)]
  · rw [hp.size, hsize, List.length_cons]
    omega
  · cases xs with
    | nil =>
      rw [hp.same rfl]
      show q.nextSlot = _
      rw [List.length_singleton, Nat.add_sub_cancel, Nat.mod_eq_of_lt hslot]
    | cons y ys =>
      have hpred : ∀ a, a + (ys.length + 1) - 1 = a + ys.length := fun a => by omega
      rw [hp.tail (List.cons_ne_nil y ys), hnext, hcap]
      simp only [List.length_cons]
      rw [hpred, Nat.mod_add_mod]
      congr 1
      omega

theorem run_pushes (dbg : Bool) (h : Wf q b) (xs : List T)
    (hroom : q.currentSize.toNat + xs.length ≤ q.capacity.toNat) :
    ∃ os q', Lts.runMealy (step dbg) q (pushes xs) = .ok (os, q') ∧ Pushed q b xs q' := by
  induction xs generalizing q b with
  | nil => exact ⟨[], q, rfl, .nil h⟩
  | cons x xs ih =>
    rw [List.length_cons] at hroom
    have hs : q.currentSize.toNat < q.capacity.toNat := by omega
    have hsize : (q.writeTail b x).currentSize.toNat = q.currentSize.toNat + 1 := h.size_succ hs
    have hcap : (q.writeTail b x).capacity = q.capacity := rfl
    obtain ⟨os, q', hrun, hp⟩ := ih (h.writeTail hs x) (by rw [hsize, hcap]; omega)
    have hstep : q.step dbg (.pushBack x) = .ok (some 0, q.writeTail b x) := by
      rw [step, pushBack_of_not_full h (full_eq_false hs)]
      rfl
    exact ⟨some 0 :: os, q', Lts.runMealy_cons.2 ⟨_, _, _, hstep, hrun, rfl⟩, hp.cons h hs⟩

theorem Pushed.contains (h : Contains q b L) (hslot : q.nextSlot = (q.head.toNat + L.length) % b.length)
    (hp : Pushed q b xs q') (hroom : q.currentSize.toNat + xs.length ≤ q.capacity.toNat) :
    Contains q' (Circular.writeFrom b q.nextSlot xs) (L ++ xs) := by
  refine ⟨hp.wf, ?_, ?_⟩
  · rw [hp.head, hslot, Circular.writeFrom_mod]
    exact h.holds.append_all (by rw [h.size, h.wf.len]; exact hroom)
  · rw [List.length_append, hp.size, h.size]

/-! ### Popping as many -/

/-- `pop_back` called `n` times on a queue of that many elements. -/
def retreat (q : AQueue T) (n : ℕ) : AQueue T :=
  { q with currentSize := q.currentSize - .ofNat n, tail := q.tail - .ofNat n }

theorem sub_ofNat_succ (x : UInt32) (n : ℕ) : x - 1 - UInt32.ofNat n = x - UInt32.ofNat (n + 1) := by
  have hsucc : UInt32.ofNat (n + 1) = UInt32.ofNat n + 1 := UInt32.ofNat_add n 1
  rw [hsucc]
  grind

theorem run_pops (dbg : Bool) (q : AQueue T) {n : ℕ} (hn : n ≤ q.currentSize.toNat) :
    ∃ os, Lts.runMealy (step dbg) q (pops n) = .ok (os, q.retreat n) := by
  induction n generalizing q with
  | zero => exact ⟨[], by simp [pops, retreat, Lts.runMealy]⟩
  | succ n ih =>
    have hs : 0 < q.currentSize.toNat := by omega
    have hpop := popBack_of_pos hs
    have hsize : q.popBack.currentSize.toNat = q.currentSize.toNat - 1 := by
      rw [hpop]
      exact size_pred hs
    obtain ⟨os, hrun⟩ := ih q.popBack (by rw [hsize]; omega)
    have hretreat : q.popBack.retreat n = q.retreat (n + 1) := by
      rw [hpop]
      simp only [retreat, sub_ofNat_succ]
    rw [hretreat] at hrun
    exact ⟨none :: os, Lts.runMealy_cons.2 ⟨none, q.popBack, os, rfl, hrun, rfl⟩⟩

theorem Contains.retreat (h : Contains q b (L ++ xs)) : Contains (q.retreat xs.length) b L := by
  have hsize := h.wf.size_le
  have hle := h.wf.le
  have hlen := h.size
  rw [List.length_append] at hlen
  have hword : (UInt32.ofNat xs.length).toNat = xs.length :=
    UInt32.toNat_ofNat_of_lt' (by change _ < 2 ^ 32; omega)
  have hnew : (q.retreat xs.length).currentSize.toNat = L.length := by
    show (q.currentSize - .ofNat xs.length).toNat = L.length
    rw [UInt32.toNat_sub_of_le _ _ (by rw [UInt32.le_iff_toNat_le, hword]; omega), hword]
    omega
  refine ⟨⟨h.wf.buff, h.wf.len, h.wf.pos, h.wf.le, h.wf.head_lt, ?_⟩, h.holds.left, hnew.symm⟩
  rw [hnew]
  show L.length ≤ q.capacity.toNat
  omega

/-- The slot after the pops: that of before the pushes, unless these went past the end of the array. -/
theorem nextSlot_retreat (hp : Pushed q b xs q') (h : Wf q b) (hlen : xs.length ≤ q.capacity.toNat) :
    (q'.retreat xs.length).nextSlot =
      if q.nextSlot + xs.length ≤ q.capacity.toNat then q.nextSlot
      else (2 ^ 32 + q.nextSlot - q.capacity.toNat) % q.capacity.toNat := by
  have hslot := nextSlot_lt h
  have hle := h.le
  rcases List.eq_nil_or_concat xs with rfl | ⟨ys, y, hys⟩
  · rw [List.length_nil, Nat.add_zero, if_pos (Nat.le_of_lt hslot), hp.same rfl]
    simp [nextSlot, retreat]
  have hxs : xs ≠ [] := by simp [hys]
  have hpos : 0 < xs.length := List.length_pos_iff.2 hxs
  have hword : (UInt32.ofNat xs.length).toNat = xs.length :=
    UInt32.toNat_ofNat_of_lt' (by change _ < 2 ^ 32; omega)
  have htail := hp.tail hxs
  show ((q'.tail - .ofNat xs.length + 1) % q'.capacity).toNat = _
  rw [hp.capacity, UInt32.toNat_mod, UInt32.toNat_add, UInt32.toNat_sub, hword, UInt32.toNat_one, htail]
  split_ifs with hend
  · rw [Nat.mod_eq_of_lt (a := q.nextSlot + xs.length - 1) (by omega),
      show (2 ^ 32 - xs.length + (q.nextSlot + xs.length - 1)) % 2 ^ 32 + 1 = _ from rfl]
    have hback : ((2 ^ 32 - xs.length + (q.nextSlot + xs.length - 1)) % 2 ^ 32 + 1) % 2 ^ 32 = q.nextSlot := by omega
    rw [hback, Nat.mod_eq_of_lt hslot]
  · have hround : (q.nextSlot + xs.length - 1) % q.capacity.toNat = q.nextSlot + xs.length - 1 - q.capacity.toNat := by
      rw [Nat.mod_eq_sub_mod (by omega), Nat.mod_eq_of_lt (by omega)]
    rw [hround]
    congr 1
    omega

theorem below_zero_iff {w c : ℕ} (hw : w < c) (hc : c ≤ 2 ^ 32) : (2 ^ 32 + w - c) % c = w ↔ c ∣ 2 ^ 32 := by
  rw [← Nat.mod_eq_sub_mod (by omega), ← Nat.modEq_zero_iff_dvd]
  constructor
  · intro h
    have hm : 2 ^ 32 + w ≡ 0 + w [MOD c] := by
      rw [Nat.ModEq, h, Nat.zero_add, Nat.mod_eq_of_lt hw]
    exact hm.add_right_cancel' w
  · intro h
    have hm : 2 ^ 32 + w ≡ 0 + w [MOD c] := h.add_right w
    rwa [Nat.ModEq, Nat.zero_add, Nat.mod_eq_of_lt hw] at hm

/-! ### When the pops undo the pushes -/

theorem Contains.nextSlot (h : Contains q b L) (hl : Linked q) :
    q.nextSlot = (q.head.toNat + L.length) % b.length := by
  rw [h.size, h.wf.len]
  exact hl

section
variable {r q₁ q₂ : AQueue T} {b₁ : List T}

theorem same_of_slot (h : Contains q b L) (hl : Linked q) (hr : Contains r b₁ L) (hhead : r.head = q.head)
    (hcap : r.capacity = q.capacity) (hslot : r.nextSlot = q.nextSlot) (hp₁ : Pushed r b₁ ys q₁)
    (hp₂ : Pushed q b ys q₂) (hroom : q.currentSize.toNat + ys.length ≤ q.capacity.toNat) :
    SameContents dbg q₁ q₂ := by
  have hsize : r.currentSize.toNat = q.currentSize.toNat := hr.size.symm.trans h.size
  have hrslot : r.nextSlot = (r.head.toNat + L.length) % b₁.length := by
    rw [hslot, h.nextSlot hl, hhead, h.wf.len, hr.wf.len, hcap]
  exact (hp₁.contains hr hrslot (by rw [hsize, hcap]; exact hroom)).same (hp₂.contains h (h.nextSlot hl) hroom)

/-- Pushed from another slot, `a` followed by copies of `x` leaves the slot that held `x` with `x` in it. -/
theorem getElem_writeFrom_off {s w m : ℕ} {a x : T} (hs : s < b.length) (hw : b[w]? = some x) (hne : s ≠ w)
    (hm : m < b.length) : (Circular.writeFrom b s (a :: List.replicate m x))[w]? = some x := by
  have hlen : (a :: List.replicate m x).length = m + 1 := by simp
  by_cases hhit : ∃ j < m + 1, (s + j) % b.length = w
  · rcases hhit with ⟨j, hj, rfl⟩
    rw [Circular.writeFrom_written (by omega) (by rw [hlen]; exact hj)]
    cases j with
    | zero =>
      rw [Nat.add_zero, Nat.mod_eq_of_lt hs] at hne
      exact absurd rfl hne
    | succ j => simp
  · rw [Circular.writeFrom_other, hw]
    intro j hj hc
    exact hhit ⟨j, by rwa [hlen] at hj, hc⟩

/-- Pushed at different slots, some list of any positive length comes out differently. -/
theorem differ_of_slot [Nontrivial T] (dbg : Bool) (h : Contains q b L) (hl : Linked q) (hr : Contains r b₁ L)
    (hhead : r.head = q.head) (hcap : r.capacity = q.capacity) (hslot : r.nextSlot ≠ q.nextSlot) {m : ℕ}
    (hroom : q.currentSize.toNat + (m + 1) ≤ q.capacity.toNat) :
    ∃ ys : List T, ys.length = m + 1 ∧ ∀ q₁ q₂, Pushed r b₁ ys q₁ → Pushed q b ys q₂ → ¬ SameContents dbg q₁ q₂ := by
  have hblen : b₁.length = q.capacity.toNat := by rw [hr.wf.len, hcap]
  have hw : q.nextSlot < b₁.length := by rw [hblen]; exact nextSlot_lt h.wf
  have hs : r.nextSlot < b₁.length := by rw [hr.wf.len]; exact nextSlot_lt hr.wf
  obtain ⟨x, hx⟩ : ∃ x, b₁[q.nextSlot]? = some x := ⟨_, List.getElem?_eq_getElem hw⟩
  obtain ⟨a, ha⟩ := exists_ne x
  refine ⟨a :: List.replicate m x, by simp, fun q₁ q₂ hp₁ hp₂ hsame => ?_⟩
  have hlen : (a :: List.replicate m x).length = m + 1 := by simp
  have hsize : r.currentSize.toNat = q.currentSize.toNat := hr.size.symm.trans h.size
  have hfirst : q.nextSlot = (q.head.toNat + q.currentSize.toNat) % b.length := by
    rw [h.nextSlot hl, h.size]
  -- both are read at the first place behind the old elements
  have hread₁ : q₁.read dbg q.currentSize = .ok x := by
    refine read_eq hp₁.wf (by rw [hp₁.size, hlen, hsize]; omega) ?_
    rw [Circular.length_writeFrom, hp₁.head, hhead, hr.wf.len, hcap, ← h.wf.len, ← hfirst]
    exact getElem_writeFrom_off hs hx hslot (by rw [hblen]; omega)
  have hread₂ : q₂.read dbg q.currentSize = .ok a := by
    refine read_eq hp₂.wf (by rw [hp₂.size, hlen]; omega) ?_
    have hwritten : (Circular.writeFrom b q.nextSlot (a :: List.replicate m x))[(q.nextSlot + 0) % b.length]? = _ :=
      Circular.writeFrom_written (by rw [hlen, h.wf.len]; omega) (by rw [hlen]; omega)
    rw [Nat.add_zero, Nat.mod_eq_of_lt (by rw [h.wf.len]; exact nextSlot_lt h.wf)] at hwritten
    rw [Circular.length_writeFrom, hp₂.head, ← hfirst]
    exact hwritten
  have heq := hsame.2 q.currentSize (by
    change q.currentSize.toNat < q₁.currentSize.toNat
    rw [hp₁.size, hlen, hsize]
    omega)
  rw [hread₁, hread₂] at heq
  cases heq
  exact ha rfl

end

/-- Pushing a list and popping as many leaves the elements, and another slot to write next where the list went past
the end of the array and the capacity does not divide `2 ^ 32`. -/
theorem Contains.run_undo (dbg : Bool) (h : Contains q b L) (hl : Linked q)
    (hxs : q.currentSize.toNat + xs.length ≤ q.capacity.toNat) :
    ∃ os r b₁, Lts.runMealy (step dbg) q (pushes xs ++ pops xs.length) = .ok (os, r) ∧ Contains r b₁ L ∧
      r.head = q.head ∧ r.capacity = q.capacity ∧
      (r.nextSlot = q.nextSlot ↔ q.capacity.toNat ∣ 2 ^ 32 ∨ q.nextSlot + xs.length ≤ q.capacity.toNat) := by
  have hle := h.wf.le
  obtain ⟨os, q', hpush, hp⟩ := run_pushes dbg h.wf xs hxs
  obtain ⟨os', hpop⟩ := run_pops dbg q' (n := xs.length) (by rw [hp.size]; omega)
  refine ⟨_, _, _, Lts.runMealy_append hpush hpop, (hp.contains h (h.nextSlot hl) hxs).retreat, hp.head,
    hp.capacity, ?_⟩
  rw [nextSlot_retreat hp h.wf (by omega)]
  split_ifs with hend
  · exact iff_of_true rfl (.inr hend)
  · rw [below_zero_iff (nextSlot_lt h.wf) (by omega), or_iff_left hend]

theorem Contains.forall_undone_iff [Nontrivial T] (h : Contains q b L) (hl : Linked q)
    (hxs : q.currentSize.toNat + xs.length ≤ q.capacity.toNat) {m : ℕ}
    (hm : q.currentSize.toNat + m ≤ q.capacity.toNat) :
    (∀ ys, ys.length = m → Undone dbg q xs ys) ↔
      m = 0 ∨ q.capacity.toNat ∣ 2 ^ 32 ∨ q.nextSlot + xs.length ≤ q.capacity.toNat := by
  obtain ⟨os, r, b₁, hback, hr, hrhead, hrcap, hslot⟩ := h.run_undo dbg hl hxs
  have hrsize : r.currentSize.toNat = q.currentSize.toNat := hr.size.symm.trans h.size
  rw [← hslot]
  constructor
  · intro hall
    by_contra hc
    obtain ⟨hm0, hne⟩ := not_or.1 hc
    obtain ⟨m, rfl⟩ := Nat.exists_eq_succ_of_ne_zero hm0
    -- the next push goes to another slot, and there is a list that shows it
    obtain ⟨ys, hys, hdiffer⟩ := differ_of_slot dbg h hl hr hrhead hrcap hne hm
    obtain ⟨os₁, q₁, os₂, q₂, hrun₁, hrun₂, hsame⟩ := hall ys hys
    obtain ⟨os₁', q₁', hrun₁', hp₁⟩ := run_pushes dbg hr.wf ys (by rw [hrsize, hrcap]; omega)
    obtain ⟨os₂', q₂', hrun₂', hp₂⟩ := run_pushes dbg h.wf ys (by omega)
    rw [Lts.runMealy_append hback hrun₁'] at hrun₁
    rw [hrun₂'] at hrun₂
    cases hrun₁
    cases hrun₂
    exact hdiffer _ _ hp₁ hp₂ hsame
  · intro hc ys hys
    obtain ⟨os₁, q₁, hrun₁, hp₁⟩ := run_pushes dbg hr.wf ys (by rw [hrsize, hrcap]; omega)
    obtain ⟨os₂, q₂, hrun₂, hp₂⟩ := run_pushes dbg h.wf ys (by omega)
    refine ⟨_, q₁, _, q₂, Lts.runMealy_append hback hrun₁, hrun₂, ?_⟩
    rcases hc with hm0 | hc
    · obtain rfl : ys = [] := List.length_eq_zero_iff.1 (hys.trans hm0)
      rw [hp₁.same rfl, hp₂.same rfl]
      exact hr.same h
    · exact same_of_slot h hl hr hrhead hrcap hc hp₁ hp₂ (by omega)

/-- On every queue an admitted run leaves, with room for `xs` and for `m` elements: pushing `xs`, popping them off
the back and pushing any `m` elements is pushing these directly, exactly when `m` is zero, the capacity divides
`2 ^ 32` or the pushes of `xs` stay short of the end of the array. -/
theorem undone_iff [Zero T] [Nontrivial T] (dbg : Bool) {cap : UInt32} (hpos : 1 ≤ cap.toNat)
    (hle : cap.toNat ≤ 2 ^ 31) (mem : Block T cap) {ops : List (Op T)} (hops : ∀ op ∈ ops, op.Basic)
    {os : List (Option Int)} (hrun : Lts.runMealy (step dbg) (new cap mem) ops = .ok (os, q)) (xs : List T)
    (hxs : q.size.toNat + xs.length ≤ q.capacity.toNat) {m : ℕ} (hm : q.size.toNat + m ≤ q.capacity.toNat) :
    (∀ ys, ys.length = m → Undone dbg q xs ys) ↔
      m = 0 ∨ q.capacity.toNat ∣ 2 ^ 32 ∨ q.nextSlot + xs.length ≤ q.capacity.toNat := by
  obtain ⟨q', hrun', b, h⟩ := sim_run dbg hpos hle mem ops hops
  rw [hrun] at hrun'
  cases hrun'
  exact Contains.forall_undone_iff ⟨h.wf, h.holds, h.size⟩ h.linked hxs hm

theorem undone_iff_three :
    (∀ ys : List ℕ, ys.length = 1 → Undone true ⟨some [1, 2, 0], 3, 1, 1, 1, 0⟩ [8] ys) ↔
      1 = 0 ∨ (3 : UInt32).toNat ∣ 2 ^ 32 ∨
        (⟨some [1, 2, 0], 3, 1, 1, 1, 0⟩ : AQueue ℕ).nextSlot + [8].length ≤ (3 : UInt32).toNat := by
  have hrun : Lts.runMealy (step true) (new 3 ⟨[0, 0, 0], rfl⟩) [.pushBack 1, .pushBack 2, .popFront] =
      .ok ([some 0, some 0, none], (⟨some [1, 2, 0], 3, 1, 1, 1, 0⟩ : AQueue ℕ)) := rfl
  exact undone_iff true (by decide) (by decide) _ (by simp [Op.Basic, Op.Fits]) hrun [8] (by decide) (by decide)

/-- In a block of three the pushes of `8` and `9` go round, the pops leave `_tail` at `2 ^ 32 - 2`, and `5` is pushed
at slot `0`, in front of the only element, where `read(1)` does not find it. -/
theorem undone_not :
    Lts.runMealy (step true) (new 3 ⟨[0, 0, 0], rfl⟩) [.pushBack 1, .pushBack 2, .popFront] =
        .ok ([some 0, some 0, none], (⟨some [1, 2, 0], 3, 1, 1, 1, 0⟩ : AQueue ℕ)) ∧
      ¬ Undone true (⟨some [1, 2, 0], 3, 1, 1, 1, 0⟩ : AQueue ℕ) [8, 9] [5] := by
  refine ⟨rfl, ?_⟩
  rintro ⟨os, q₁, os', q₂, hrun₁, hrun₂, -, hsame⟩
  have h₁ : Lts.runMealy (step true) (⟨some [1, 2, 0], 3, 1, 1, 1, 0⟩ : AQueue ℕ)
      (pushes [8, 9] ++ pops [8, 9].length ++ pushes [5]) =
        .ok ([some 0, some 0, none, none, some 0], ⟨some [5, 2, 8], 3, 2, 1, 0, 0⟩) := rfl
  have h₂ : Lts.runMealy (step true) (⟨some [1, 2, 0], 3, 1, 1, 1, 0⟩ : AQueue ℕ) (pushes [5]) =
        .ok ([some 0], ⟨some [1, 2, 5], 3, 2, 1, 2, 0⟩) := rfl
  rw [h₁] at hrun₁
  rw [h₂] at hrun₂
  cases hrun₁
  cases hrun₂
  exact absurd (hsame 1 (by decide)) (by decide)

end LearnCpp.AQueue
