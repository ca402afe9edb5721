import LearnCpp.AQueueWf
import LearnCpp.Lib.BoundedDeque

/-!
# `AQueue` refines a bounded double-ended list

`Sim q d b`: the queue `q` over the block `b` is well-formed and linked, and its cells from `_head` on
hold the elements of the abstract list `d`. Every call that `Op.Basic` admits keeps the relation and
returns what the abstract machine `absStep` returns (`sim_step`), so whole runs agree (`run_refines`).
-/

namespace LearnCpp.AQueue

variable {T : Type} {q : AQueue T} {d : BoundedDeque T} {b : List T} {dbg : Bool}

/-- The calls the abstract list answers: all but `pop_back`, every `resize` succeeding. -/
def Op.Basic : Op T → Prop
  | .popBack => False
  | op => op.Fits

/-- What the queue is for: a list that drops its oldest element when appended to while full. Calls that
are not `Op.Basic` leave it alone. -/
def absStep (d : BoundedDeque T) : Op T → Option Int × BoundedDeque T
  | .pushBack el => (some (if d.full then 1 else 0), d.pushBack el)
  | .pushFront el => (some (if d.full then 1 else 0), d.pushFront el)
  | .popFront => (none, d.popFront)
  | .popBack => (none, d)
  | .clear => (none, d.clear)
  | .resize cap _ => (some 1, if h : 0 < cap.toNat then .empty cap.toNat h else d)

/-- The queue `q` over the block `b` holds the list `d`. -/
structure Sim (q : AQueue T) (d : BoundedDeque T) (b : List T) : Prop where
  wf : Wf q b
  linked : Linked q
  holds : Circular.Holds b q.head.toNat d.items
  size : d.items.length = q.currentSize.toNat
  capacity : d.capacity = q.capacity.toNat

/-- All the observers of `q` answer as the list `d` does. -/
structure Agrees (dbg : Bool) (q : AQueue T) (d : BoundedDeque T) : Prop where
  size : q.size.toNat = d.items.length
  capacity : q.capacity.toNat = d.capacity
  full : q.full = d.full
  empty : q.empty = d.items.isEmpty
  front : ∀ x, d.items.head? = some x → q.front dbg = .ok x
  read : ∀ (i : UInt32) (hi : i.toNat < d.items.length), q.read dbg i = .ok d.items[i.toNat]
  at_ : ∀ (i : UInt32) (hi : i.toNat < d.items.length), q.at dbg i = .ok d.items[i.toNat]
  index : ∀ (i : UInt32) (hi : i.toNat < d.items.length), q.index dbg i = .ok d.items[i.toNat]

namespace Sim

theorem full_eq (h : Sim q d b) : q.full = d.full := by
  rw [Bool.eq_iff_iff, full_iff, BoundedDeque.full_iff, h.size, h.capacity]

theorem read (h : Sim q d b) (i : UInt32) (hi : i.toNat < d.items.length) :
    q.read dbg i = .ok d.items[i.toNat] :=
  read_eq h.wf (by rw [← h.size]; exact hi) (h.holds _ hi)

theorem agrees (h : Sim q d b) : Agrees dbg q d where
  size := h.size.symm
  capacity := h.capacity.symm
  full := h.full_eq
  empty := by
    rw [Bool.eq_iff_iff, empty_iff, List.isEmpty_iff, ← List.length_eq_zero_iff, h.size]
  front x hx := by
    obtain ⟨hpos, hx⟩ : ∃ hpos : 0 < d.items.length, d.items[0] = x := by
      rw [List.head?_eq_getElem?, List.getElem?_eq_some_iff] at hx
      exact hx
    have h0 := h.holds 0 hpos
    rw [Nat.add_zero, Nat.mod_eq_of_lt (by rw [h.wf.len]; exact h.wf.head_lt), hx] at h0
    exact front_eq h.wf (by rw [← h.size]; exact hpos) h0
  read i hi := h.read i hi
  at_ i hi := h.read i hi
  index i hi := h.read i hi

theorem lt_length (h : Sim q d b) (hf : d.full = false) : d.items.length < b.length := by
  rw [h.size, h.wf.len]
  exact lt_of_not_full h.wf (h.full_eq.trans hf)

theorem dropHead (h : Sim q d b) (hs : 0 < d.items.length) : Sim q.dropHead d.popFront b := by
  have hs' : 0 < q.currentSize.toNat := by rw [← h.size]; exact hs
  refine ⟨h.wf.dropHead hs', h.linked.dropHead h.wf hs', ?_, ?_, h.capacity⟩
  · obtain ⟨x, L, hL⟩ := List.exists_cons_of_length_pos hs
    show Circular.Holds b ((q.head + 1) % q.capacity).toNat d.items.tail
    rw [h.wf.head_next, ← h.wf.len, hL]
    exact (hL ▸ h.holds).tail
  · show d.items.tail.length = (q.currentSize - 1).toNat
    rw [List.length_tail, size_pred hs', h.size]

theorem writeTail (h : Sim q d b) (hf : d.full = false) (el : T) :
    Sim (q.writeTail b el) (d.pushBack el) (b.set ((q.tail + 1) % q.capacity).toNat el) := by
  have hs := lt_of_not_full h.wf (h.full_eq.trans hf)
  refine ⟨h.wf.writeTail hs el, h.linked.writeTail h.wf hs el, ?_, ?_, h.capacity⟩
  · have hslot : ((q.tail + 1) % q.capacity).toNat = (q.head.toNat + d.items.length) % b.length := by
      rw [h.size, h.wf.len]; exact h.linked
    rw [BoundedDeque.items_pushBack_of_not_full hf, hslot]
    exact h.holds.append (h.lt_length hf)
  · show (d.pushBack el).items.length = (q.currentSize + 1).toNat
    rw [BoundedDeque.items_pushBack_of_not_full hf, List.length_append, List.length_singleton,
      h.wf.size_succ hs, h.size]

theorem writeHead (h : Sim q d b) (hf : d.full = false) (el : T) :
    Sim (q.writeHead b el) (d.pushFront el) (b.set ((q.head + q.capacity - 1) % q.capacity).toNat el) := by
  have hs := lt_of_not_full h.wf (h.full_eq.trans hf)
  refine ⟨h.wf.writeHead hs el, h.linked.writeHead h.wf hs el, ?_, ?_, h.capacity⟩
  · rw [BoundedDeque.items_pushFront_of_not_full hf]
    refine h.holds.cons (h.lt_length hf) (by rw [h.wf.len]; exact h.wf.head_slot) ?_
    rw [h.wf.len]; exact h.wf.head_pred_next
  · show (d.pushFront el).items.length = (q.currentSize + 1).toNat
    rw [BoundedDeque.items_pushFront_of_not_full hf, List.length_cons, h.wf.size_succ hs, h.size]

theorem evict (h : Sim q d b) (hf : d.full = true) (el : T) :
    Sim (q.dropHead.writeTail b el) (d.pushBack el) (b.set ((q.tail + 1) % q.capacity).toNat el) := by
  have hlen : d.items.length = d.capacity := (BoundedDeque.full_iff d).1 hf
  have hpos : 0 < d.items.length := by rw [hlen]; exact d.pos
  have hroom : d.popFront.full = false := Bool.eq_false_iff.2 fun hc => by
    have := (BoundedDeque.full_iff _).1 hc
    simp only [BoundedDeque.items_popFront, List.length_tail, BoundedDeque.capacity_popFront] at this
    omega
  have hsame : d.popFront.pushBack el = d.pushBack el := by
    simp [BoundedDeque.pushBack, hroom, hf]
  exact hsame ▸ (h.dropHead hpos).writeTail hroom el

end Sim

theorem Sim.of_restart (h : Wf q b) (hc : q.currentSize = 0) (hh : q.head = 0) (ht : q.tail = -1) :
    Sim q (.empty q.capacity.toNat h.pos) b :=
  ⟨h, .of_restart hc hh ht, Circular.holds_nil, by rw [hc]; rfl, rfl⟩

theorem Op.Basic.fits {op : Op T} (hop : op.Basic) : op.Fits := by
  cases op with
  | popBack => exact hop.elim
  | pushBack | pushFront | popFront | clear | resize => exact hop

theorem sim_step (dbg : Bool) (op : Op T) (hop : op.Basic) (h : Sim q d b) :
    ∃ q' b', q.step dbg op = .ok ((absStep d op).1, q') ∧ Sim q' (absStep d op).2 b' := by
  obtain ⟨r, q', b', hq, hdoes⟩ := h.wf.does dbg hop.fits
  have hfull := h.full_eq
  cases hdoes with
  | append el hf =>
    rw [hf] at hfull
    refine ⟨_, _, ?_, h.writeTail hfull.symm el⟩
    rw [hq, absStep, ← hfull]
    rfl
  | evict el hf =>
    rw [hf] at hfull
    refine ⟨_, _, ?_, h.evict hfull.symm el⟩
    rw [hq, absStep, ← hfull]
    rfl
  | prepend el hf =>
    rw [hf] at hfull
    refine ⟨_, _, ?_, h.writeHead hfull.symm el⟩
    rw [hq, absStep, ← hfull]
    rfl
  | refuse el hf =>
    rw [hf] at hfull
    refine ⟨q, b, ?_, ?_⟩
    · rw [hq, absStep, ← hfull]
      rfl
    · rw [absStep, BoundedDeque.pushFront_of_full hfull.symm]
      exact h
  | drop hs => exact ⟨_, b, hq, h.dropHead (h.size ▸ hs)⟩
  | noFront hs =>
    refine ⟨q, b, hq, ?_⟩
    rw [absStep, BoundedDeque.popFront_of_nil (List.length_eq_zero_iff.1 (h.size.trans hs))]
    exact h
  | retreat | noBack => exact hop.elim
  | clear =>
    have hsim : Sim q.clear (.empty q.capacity.toNat h.wf.pos) b := .of_restart h.wf.clear rfl rfl rfl
    refine ⟨q.clear, b, hq, ?_⟩
    simpa only [absStep, BoundedDeque.clear, h.capacity] using hsim
  | renew mem hpos hle =>
    refine ⟨_, mem.1, hq, ?_⟩
    rw [absStep, dif_pos hpos]
    exact .of_restart (Wf.of_resize hpos hle mem) rfl rfl rfl

theorem sim_run [Zero T] (dbg : Bool) {cap : UInt32} (hpos : 1 ≤ cap.toNat) (hle : cap.toNat ≤ 2 ^ 31)
    (mem : Block T cap) (ops : List (Op T)) (hops : ∀ op ∈ ops, op.Basic) :
    ∃ q, Lts.runMealy (step dbg) (new cap mem) ops =
        .ok ((Lts.runTotal absStep (.empty cap.toNat hpos) ops).1, q) ∧
      ∃ b, Sim q (Lts.runTotal absStep (.empty cap.toNat hpos) ops).2 b := by
  have h0 : Sim (new cap mem) (.empty cap.toNat hpos) mem.1 :=
    Sim.of_restart (Wf.of_block mem hpos hle) rfl rfl rfl
  refine Lts.lockstep (fun q d => ∃ b, Sim q d b) Op.Basic ?_ hops ⟨mem.1, h0⟩
  rintro q d op hop ⟨b, h⟩
  obtain ⟨q', b', hq, h'⟩ := sim_step dbg op hop h
  exact ⟨q', hq, b', h'⟩

/-- Every run of admitted calls on a new queue of capacity `cap` returns what the abstract list of that
capacity returns, and leaves a queue whose observers all agree with it. -/
theorem run_refines [Zero T] (dbg : Bool) {cap : UInt32} (hpos : 1 ≤ cap.toNat) (hle : cap.toNat ≤ 2 ^ 31)
    (mem : Block T cap) (ops : List (Op T)) (hops : ∀ op ∈ ops, op.Basic) :
    ∃ q, Lts.runMealy (step dbg) (new cap mem) ops =
        .ok ((Lts.runTotal absStep (.empty cap.toNat hpos) ops).1, q) ∧
      Agrees dbg q (Lts.runTotal absStep (.empty cap.toNat hpos) ops).2 := by
  obtain ⟨q, hrun, b, hsim⟩ := sim_run dbg hpos hle mem ops hops
  exact ⟨q, hrun, hsim.agrees⟩

theorem run_refines_evict :
    ∃ q, Lts.runMealy (step true) (new 2 ⟨[9, 9], rfl⟩)
        [.pushFront 5, .pushBack 6, .pushBack 7, .pushFront 8] = .ok ([some 0, some 0, some 1, some 1], q) ∧
      Agrees true q ⟨2, [6, 7], by decide, by decide⟩ :=
  run_refines (T := ℕ) true (by decide) (by decide) _ _ (by simp [Op.Basic, Op.Fits])

end LearnCpp.AQueue
