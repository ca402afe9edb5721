import LearnCpp.AQueueWf

/-!
# The tail of `AQueue`

`back()` reads `_buff[_tail]`, so on a non-empty queue `_tail` should be the slot of the newest element
(`TailInv`). Two calls break this: `push_front` on an empty queue whose `_tail` is still the sentinel
`2^32 - 1` leaves it there, and `pop_back` of an element in slot `0` steps `_tail` down to `2^32 - 1`
while elements remain, its guard `_tail < 0` being vacuous on an unsigned word. `tail_inv_iff`: a run
keeps `TailInv` exactly when it makes neither call (`KeepsTail`).
-/

namespace LearnCpp.AQueue

variable {T : Type} {q : AQueue T} {b : List T} {dbg : Bool}

/-- On a non-empty queue `_tail` is the slot of the newest element, and `back()` returns that element. -/
def TailInv (dbg : Bool) (q : AQueue T) : Prop :=
  0 < q.size.toNat →
    q.head.toNat < q.capacity.toNat ∧ q.tail.toNat < q.capacity.toNat ∧
    q.tail.toNat = (q.head.toNat + q.currentSize.toNat - 1) % q.capacity.toNat ∧
    ∃ x, q.back dbg = .ok x ∧ q.read dbg (q.size - 1) = .ok x

/-- The call is neither a `push_front` on an empty queue whose `_tail` is the sentinel, nor a `pop_back`
from slot `0` that leaves elements behind. -/
def KeepsTail (q : AQueue T) : Op T → Prop
  | .pushFront _ => ¬ (q.currentSize.toNat = 0 ∧ q.tail = -1)
  | .popBack => ¬ (2 ≤ q.currentSize.toNat ∧ q.tail = 0)
  | _ => True

/-- Well-formed and linked, with the sentinel as `_tail` at most on an empty queue. -/
structure TailOk (q : AQueue T) (b : List T) : Prop where
  wf : Wf q b
  linked : Linked q
  tail : q.tail.toNat < q.capacity.toNat ∨ q.currentSize.toNat = 0 ∧ q.tail = -1

namespace TailOk

theorem tail_lt (h : TailOk q b) (hs : 0 < q.currentSize.toNat) : q.tail.toNat < q.capacity.toNat := by
  rcases h.tail with ht | ⟨hc, -⟩
  · exact ht
  · omega

theorem tail_eq (h : TailOk q b) (hs : 0 < q.currentSize.toNat) :
    q.tail.toNat = (q.head.toNat + q.currentSize.toNat - 1) % q.capacity.toNat := by
  have ht := h.tail_lt hs
  have hle := h.wf.le
  have hl := h.linked
  rw [Linked, UInt32.toNat_mod, UInt32.toNat_add, UInt32.toNat_one,
    Nat.mod_eq_of_lt (b := 2 ^ 32) (by omega)] at hl
  have hm : q.tail.toNat + 1 ≡ q.head.toNat + q.currentSize.toNat - 1 + 1 [MOD q.capacity.toNat] := by
    rw [Nat.sub_add_cancel (by omega)]; exact hl
  have := hm.add_right_cancel'
  rwa [Nat.ModEq, Nat.mod_eq_of_lt ht] at this

theorem tailInv (h : TailOk q b) : TailInv dbg q := by
  intro hs
  change 0 < q.currentSize.toNat at hs
  have ht := h.tail_lt hs
  have he := h.tail_eq hs
  have hlt : q.tail.toNat < b.length := by rw [h.wf.len]; exact ht
  refine ⟨h.wf.head_lt, ht, he, b[q.tail.toNat], ?_, ?_⟩
  · rw [back_eq_load h.wf hs]
    exact load_some (List.getElem?_eq_getElem hlt)
  · have hpred : (q.size - 1).toNat = q.currentSize.toNat - 1 := size_pred hs
    refine read_eq h.wf (by rw [hpred]; omega) ?_
    have hslot : (q.head.toNat + (q.size - 1).toNat) % b.length = q.tail.toNat := by
      rw [hpred, h.wf.len, ← Nat.add_sub_assoc hs, he]
    rw [hslot]
    exact List.getElem?_eq_getElem hlt

theorem of_restart (h : Wf q b) (hc : q.currentSize = 0) (hh : q.head = 0) (ht : q.tail = -1) : TailOk q b :=
  ⟨h, .of_restart hc hh ht, .inr ⟨by rw [hc]; rfl, ht⟩⟩

theorem dropHead (h : TailOk q b) (hs : 0 < q.currentSize.toNat) : TailOk q.dropHead b :=
  ⟨h.wf.dropHead hs, h.linked.dropHead h.wf hs, .inl (h.tail_lt hs)⟩

theorem writeTail (h : TailOk q b) (hs : q.currentSize.toNat < q.capacity.toNat) (el : T) :
    TailOk (q.writeTail b el) (b.set ((q.tail + 1) % q.capacity).toNat el) :=
  ⟨h.wf.writeTail hs el, h.linked.writeTail h.wf hs el, .inl h.wf.tail_slot⟩

theorem writeHead (h : TailOk q b) (hs : q.currentSize.toNat < q.capacity.toNat)
    (hk : ¬ (q.currentSize.toNat = 0 ∧ q.tail = -1)) (el : T) :
    TailOk (q.writeHead b el) (b.set ((q.head + q.capacity - 1) % q.capacity).toNat el) := by
  refine ⟨h.wf.writeHead hs el, h.linked.writeHead h.wf hs el, .inl ?_⟩
  rcases h.tail with ht | hc
  · exact ht
  · exact absurd hc hk

/-- Stepping `_tail` down keeps the ends linked: `_tail + 1` is then the slot just freed. -/
theorem popBack (h : TailOk q b) (hs : 0 < q.currentSize.toNat)
    (hk : ¬ (2 ≤ q.currentSize.toNat ∧ q.tail = 0)) : TailOk q.popBack b := by
  have ht := h.tail_lt hs
  refine ⟨h.wf.popBack hs, ?_, ?_⟩ <;> rw [popBack_of_pos hs]
  · show ((q.tail - 1 + 1) % q.capacity).toNat =
      (q.head.toNat + (q.currentSize - 1).toNat) % q.capacity.toNat
    rw [UInt32.sub_add_cancel, UInt32.toNat_mod, Nat.mod_eq_of_lt ht, size_pred hs, ← Nat.add_sub_assoc hs]
    exact h.tail_eq hs
  · by_cases h0 : q.tail = 0
    · right
      refine ⟨?_, by show q.tail - 1 = -1; rw [h0]; rfl⟩
      show (q.currentSize - 1).toNat = 0
      have : ¬ 2 ≤ q.currentSize.toNat := fun h2 => hk ⟨h2, h0⟩
      rw [size_pred hs]; omega
    · left
      have hpos : 0 < q.tail.toNat := Nat.pos_of_ne_zero fun hc => h0 (UInt32.toNat_inj.1 hc)
      show (q.tail - 1).toNat < q.capacity.toNat
      rw [UInt32.toNat_sub_of_le _ _ (by rw [UInt32.le_iff_toNat_le, UInt32.toNat_one]; omega),
        UInt32.toNat_one]
      omega

theorem step (dbg : Bool) (h : TailOk q b) (op : Op T) (hop : op.Fits) (hk : KeepsTail q op) :
    ∃ r q' b', q.step dbg op = .ok (r, q') ∧ TailOk q' b' := by
  obtain ⟨r, q', b', hq, hdoes⟩ := h.wf.does dbg hop
  refine ⟨r, q', b', hq, ?_⟩
  cases hdoes with
  | append el hf => exact h.writeTail (lt_of_not_full h.wf hf) el
  | evict el hf =>
    have hs := pos_of_full h.wf hf
    exact (h.dropHead hs).writeTail (dropHead_lt h.wf hs) el
  | prepend el hf => exact h.writeHead (lt_of_not_full h.wf hf) hk el
  | drop hs => exact h.dropHead hs
  | retreat hs => exact h.popBack hs hk
  | refuse | noFront | noBack => exact h
  | clear => exact of_restart h.wf.clear rfl rfl rfl
  | renew mem hpos hle => exact of_restart (Wf.of_resize hpos hle mem) rfl rfl rfl

theorem step_bad (dbg : Bool) (h : TailOk q b) (op : Op T) (hk : ¬ KeepsTail q op) :
    ∃ q', Lts.ofMealy (AQueue.step dbg) q op q' ∧ ¬ TailInv dbg q' := by
  have hle := h.wf.le
  have hpos := h.wf.pos
  have hm1 : (-1 : UInt32).toNat = 2 ^ 32 - 1 := rfl
  cases op with
  | pushFront el =>
    obtain ⟨hs, ht⟩ := Classical.not_not.1 hk
    have hf : q.full = false := full_eq_false (by omega)
    refine ⟨q.writeHead b el, ⟨some 0, ?_⟩, ?_⟩
    · simp only [AQueue.step, pushFront_of_not_full h.wf hf]
      rfl
    · -- `_tail` is still the sentinel
      intro hinv
      have hsize : (q.currentSize + 1).toNat = q.currentSize.toNat + 1 := h.wf.size_succ (by omega)
      obtain ⟨-, htail, -⟩ := hinv (by show 0 < (q.currentSize + 1).toNat; omega)
      change q.tail.toNat < q.capacity.toNat at htail
      rw [ht, hm1] at htail
      omega
  | popBack =>
    obtain ⟨hs, ht⟩ := Classical.not_not.1 hk
    refine ⟨q.popBack, ⟨none, rfl⟩, fun hinv => ?_⟩
    -- `_tail` goes from slot `0` to the sentinel
    rw [popBack_of_pos (by omega)] at hinv
    have hsize : (q.currentSize - 1).toNat = q.currentSize.toNat - 1 := size_pred (by omega)
    obtain ⟨-, htail, -⟩ := hinv (by show 0 < (q.currentSize - 1).toNat; omega)
    change (q.tail - 1).toNat < q.capacity.toNat at htail
    rw [ht, UInt32.zero_sub, hm1] at htail
    omega
  | pushBack | popFront | clear | resize => exact absurd trivial hk

end TailOk

/-- A run on a new queue keeps `_tail` on the newest element exactly when it makes neither a
`push_front` on an empty queue with the sentinel nor a `pop_back` from slot `0` with elements left. -/
theorem tail_inv_iff [Zero T] (dbg : Bool) {cap : UInt32} (hpos : 1 ≤ cap.toNat) (hle : cap.toNat ≤ 2 ^ 31)
    (mem : Block T cap) (ops : List (Op T)) (hops : ∀ op ∈ ops, op.Fits) :
    Lts.Along (Lts.ofMealy (step dbg)) (TailInv dbg) (new cap mem) ops ↔
      Lts.StepsOk (Lts.ofMealy (step dbg)) KeepsTail (new cap mem) ops := by
  refine Lts.along_iff_stepsOk (fun q => ∃ b, TailOk q b) Op.Fits ?_ ?_ ?_ hops ?_
  · rintro q ⟨b, h⟩
    exact h.tailInv
  · rintro q op q' hop ⟨b, h⟩ ⟨r, hr⟩ hk
    obtain ⟨r', q'', b', hstep, h'⟩ := h.step dbg op hop hk
    rw [hstep] at hr
    cases hr
    exact ⟨b', h'⟩
  · rintro q op hop ⟨b, h⟩ hk
    exact h.step_bad dbg op hk
  · exact ⟨mem.1, .of_restart (Wf.of_block mem hpos hle) rfl rfl rfl⟩

theorem tail_inv_iff_three :
    Lts.Along (Lts.ofMealy (step true)) (TailInv true) (new 3 ⟨[0, 0, 0], rfl⟩)
        [.pushBack 1, .pushFront 2, .popBack] ↔
      Lts.StepsOk (Lts.ofMealy (step true)) KeepsTail (new 3 ⟨[0, 0, 0], rfl⟩)
        [.pushBack (1 : ℕ), .pushFront 2, .popBack] :=
  tail_inv_iff (T := ℕ) true (by decide) (by decide) _ _ (by simp [Op.Fits])

/-- `AQueue(4)`, then `push_front(7)`: the queue has one element and `_tail` is `2^32 - 1`. -/
theorem push_front_first :
    ∃ q, Lts.runMealy (step true) (new 4 ⟨[0, 0, 0, 0], rfl⟩) [.pushFront (7 : ℕ)] = .ok ([some 0], q) ∧
      0 < q.size.toNat ∧ q.tail.toNat = 2 ^ 32 - 1 ∧ q.back true = .error .badAccess ∧ ¬ TailInv true q := by
  refine ⟨_, rfl, by decide, by decide, by decide, fun h => ?_⟩
  exact absurd (h (by decide)).2.1 (by decide)

end LearnCpp.AQueue
