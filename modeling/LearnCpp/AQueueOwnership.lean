import LearnCpp.AQueueBlock
import LearnCpp.AQueueHeap

/-!
# Runs of several queues

From one step to whole programs. The blocks are owned as long as no queue with a block is copied by construction
(`blocks_owned_iff`); until then the objects refine queues that hold their blocks (`objects_refine_values`), and those
of a capacity from one to `2^31` refine bounded lists, `operator=` being the assignment of the list where the
capacities are equal and nothing else (`objects_refine_lists`).
-/

namespace LearnCpp

namespace Queues

open AQueue Lts

variable {T : Type} {s s' : Queues T} {dbg : Bool} {acts : List (Act T)}

theorem owned_init : (init : Queues T).Owned := Heap.Owned.empty

section
variable {f : Except Fault ((Option Int ⊕ T) × Queues T)} {g : Except Fault ((Option Int ⊕ T) × Heap (AQueue T))}

theorem Agree.map_eq (h : Agree f g) : f.map (Prod.map id values) = g := by
  cases f with
  | error e => exact h.symm
  | ok r => exact h.2.symm

theorem Agree.owned (h : Agree f g) {r : Option Int ⊕ T} (hf : f = .ok (r, s')) : s'.Owned := by
  subst hf
  exact h.1

end

/-- A queue with a block and its copy point at one block. -/
theorem not_owned_of_copied [Zero T] {y : ℕ} (hy : s.HasBlock y) :
    ∃ s', ofMealy (step dbg) s (.copied y) s' ∧ ¬ s'.Owned := by
  obtain ⟨a, ha⟩ := Option.isSome_iff_exists.1 hy
  obtain ⟨o, hcells, hbuff⟩ := Option.bind_eq_some_iff.1 ha
  refine ⟨{ s with objs := s.objs.alloc o }, ⟨.inl none, by simp only [step, hcells]; rfl⟩, ?_⟩
  have hne : y ≠ s.objs.next := by
    rintro rfl
    rw [own_next] at ha
    cases ha
  refine Heap.Owned.not_of_shared (a := a) hne ?_ ?_
  · rw [own_alloc, Function.update_of_ne hne]
    exact ha
  · rw [own_alloc, Function.update_self]
    exact hbuff

/-- In a program every block belongs to one object at all times exactly when the copy constructor is called only on
queues without a block. -/
theorem blocks_owned_iff [Zero T] (dbg : Bool) (acts : List (Act T)) :
    Along (ofMealy (step dbg)) Owned init acts ↔ StepsOk (ofMealy (step dbg)) CopiesNoBlock init acts := by
  refine along_iff_stepsOk Owned (fun _ => True) (fun _ h => h) ?_ ?_ (fun _ _ => trivial) owned_init
  · rintro s a s' - h ⟨r, hstep⟩ ha
    exact (agree_step h ha).owned hstep
  · intro s a _ _ ha
    simp only [CopiesNoBlock, not_forall, not_not] at ha
    obtain ⟨y, rfl, hy⟩ := ha
    exact not_owned_of_copied hy

theorem run_values [Zero T] (dbg : Bool) (hacts : StepsOk (ofMealy (step dbg)) CopiesNoBlock init acts) :
    (runMealy (step dbg) init acts).map (Prod.map id values) = runMealy (act dbg) Heap.empty acts ∧
      ∀ rs s', runMealy (step dbg) init acts = .ok (rs, s') → s'.Owned :=
  runMealy_map values Owned
    (fun _ _ h ha => ⟨(agree_step h ha).map_eq, fun _ _ => (agree_step h ha).owned⟩) owned_init hacts

theorem own_of_destroyed (h : ∀ x, s.objs.cells x = none) (x : ℕ) : s.own x = none := by
  simp only [own, Function.comp_apply, h x, Option.bind_none]

/-- Such a program answers, or fails, as it would with a block in each queue, and when its queues are destroyed no
block is left. -/
theorem objects_refine_values [Zero T] (dbg : Bool) (acts : List (Act T))
    (hacts : StepsOk (ofMealy (step dbg)) CopiesNoBlock init acts) :
    (runMealy (step dbg) init acts).map (Prod.map id values) = runMealy (act dbg) Heap.empty acts ∧
      ∀ rs s', runMealy (step dbg) init acts = .ok (rs, s') → (∀ x, s'.objs.cells x = none) →
        ∀ a, s'.mem.cells a = none := by
  obtain ⟨hmap, howned⟩ := run_values dbg hacts
  refine ⟨hmap, fun rs s' hrun hnone => ?_⟩
  exact (howned rs s' hrun).cells_eq_none (own_of_destroyed hnone)

theorem stepsOk_of_no_copy [Zero T] (hacts : ∀ a ∈ acts, ∀ y, a ≠ .copied y) :
    StepsOk (ofMealy (step dbg)) CopiesNoBlock init acts := by
  rintro pre a s' hpre - y hy
  have hmem : a ∈ acts := hpre.subset (by simp)
  exact absurd hy (hacts a hmem y)

/-- Two queues of capacity two, one assigned to the other, and both destroyed. -/
def twoQueues : List (Act ℕ) :=
  [.sized 2 (some ⟨[9, 9], rfl⟩), .sized 2 (some ⟨[8, 8], rfl⟩), .call 0 (.change (.pushBack 5)), .assign 1 0,
    .call 0 (.change (.pushBack 6)), .destroy 0, .call 1 .back, .destroy 1]

theorem assigned_queue_lives_on : (runMealy (step true) init twoQueues).map Prod.fst =
      .ok [.inl none, .inl none, .inl (some 0), .inl none, .inl (some 0), .inl none, .inr 5, .inl none] ∧
    ∀ rs s, runMealy (step true) init twoQueues = .ok (rs, s) → ∀ a, s.mem.cells a = none := by
  have hacts : StepsOk (ofMealy (step true)) CopiesNoBlock init twoQueues :=
    stepsOk_of_no_copy (by simp [twoQueues])
  obtain ⟨hmap, hleft⟩ := objects_refine_values true twoQueues hacts
  obtain ⟨qs, hqs, hnone⟩ : ∃ qs, runMealy (act true) Heap.empty twoQueues =
      .ok ([.inl none, .inl none, .inl (some 0), .inl none, .inl (some 0), .inl none, .inr 5, .inl none], qs) ∧
      ∀ x, qs.cells x = none :=
    ⟨_, rfl, fun x => match x with | 0 | 1 | _ + 2 => rfl⟩
  rw [hqs] at hmap
  cases hrun : runMealy (step true) init twoQueues with
  | error e =>
    rw [hrun] at hmap
    cases hmap
  | ok r =>
    rcases r with ⟨rs, s⟩
    rw [hrun] at hmap
    obtain ⟨rfl, hvalues⟩ := Prod.mk.inj (Except.ok.inj hmap)
    refine ⟨rfl, fun rs' s' hrun' => hleft rs' s' (hrun.trans hrun') fun x => ?_⟩
    obtain ⟨-, rfl⟩ := Prod.mk.inj (Except.ok.inj hrun')
    have hcells := hnone x
    rw [← hvalues] at hcells
    exact Option.map_eq_none_iff.1 hcells

/-! ### Bounded lists -/

/-- What the queues are for: bounded lists that can be assigned where the capacities are equal. -/
def absAct (ds : Heap (BoundedDeque T)) : Act T → (Option Int ⊕ T) × Heap (BoundedDeque T)
  | .sized cap (some _) => (.inl none, if h : 0 < cap.toNat then ds.alloc (.empty cap.toNat h) else ds)
  | .assign x y => match ds.cells x, ds.cells y with
    | some d, some e => (.inl none, if x ≠ y ∧ d.capacity = e.capacity then ds.write x e else ds)
    | _, _ => (.inl none, ds)
  | .call x (.change op) => match ds.cells x with
    | none => (.inl none, ds)
    | some d => (.inl (absStep d op).1, ds.write x (absStep d op).2)
  | .destroy x => (.inl none, ds.free x)
  | _ => (.inl none, ds)

/-- The steps the lists answer: queues of capacities from one to `2^31` and no copies, calls as in `Op.Basic`. -/
def Basic : Act T → Prop
  | .sized cap _ => 0 < cap.toNat ∧ cap.toNat ≤ 2 ^ 31
  | .assign _ _ => True
  | .call _ (.change op) => op.Basic
  | .destroy _ => True
  | _ => False

variable {qs : Heap (AQueue T)} {ds : Heap (BoundedDeque T)}

/-- Each queue is well-formed and holds its list. -/
def Holds (qs : Heap (AQueue T)) (ds : Heap (BoundedDeque T)) : Prop := Heap.Rel (fun q d => ∃ b, Sim q d b) qs ds

theorem cells_cases (h : Holds qs ds) (x : ℕ) : (qs.cells x = none ∧ ds.cells x = none) ∨
    ∃ q d b, qs.cells x = some q ∧ ds.cells x = some d ∧ Sim q d b := by
  have hcells := h.cells x
  generalize qs.cells x = u, ds.cells x = v at hcells
  cases hcells with
  | none => exact .inl ⟨rfl, rfl⟩
  | some hsim =>
    obtain ⟨b, hsim⟩ := hsim
    exact .inr ⟨_, _, b, rfl, rfl, hsim⟩

theorem assign_of_ne {q aq : AQueue T} (hcap : q.capacity ≠ aq.capacity) : q.assign aq = .ok q := by
  rw [AQueue.assign, if_pos hcap]
  rfl

/-- Assignment copies the whole block. -/
theorem assign_sim {q aq : AQueue T} {d e : BoundedDeque T} {b c : List T} (hq : Sim q d b) (haq : Sim aq e c)
    (hcap : q.capacity = aq.capacity) : ∃ q', q.assign aq = .ok q' ∧ Sim q' e c := by
  have hlen : b.length = c.length := by rw [hq.wf.len, haq.wf.len, hcap]
  have hcopy : memcpy (some b) 0 (some c) 0 q.capacity.toNat = .ok (some c) := by
    have hcells := memcpy_some (d := b) (s := c) (i := 0) (j := 0) (n := b.length) (by omega) (by omega)
    rw [List.take_zero, List.drop_zero, hlen, List.take_length, Nat.zero_add, ← hlen, List.drop_length,
      List.nil_append, List.append_nil, hq.wf.len] at hcells
    exact hcells
  refine ⟨⟨some c, q.capacity, aq.currentSize, aq.head, aq.tail, q.errorData⟩, ?_, ?_⟩
  · rw [AQueue.assign, if_neg (not_not.2 hcap)]
    simp only [hq.wf.buff, haq.wf.buff, hcopy]
    rfl
  · rw [hcap]
    exact ⟨⟨rfl, haq.wf.len, haq.wf.pos, haq.wf.le, haq.wf.head_lt, haq.wf.size_le⟩, haq.linked, haq.holds, haq.size,
      haq.capacity⟩

theorem holds_act [Zero T] (dbg : Bool) (h : Holds qs ds) {a : Act T} (ha : Basic a) :
    ∃ qs', act dbg qs a = .ok ((absAct ds a).1, qs') ∧ Holds qs' (absAct ds a).2 := by
  cases a with
  | default => exact ha.elim
  | copied y => exact ha.elim
  | sized cap new =>
    cases new with
    | none => exact ⟨qs, rfl, h⟩
    | some mem =>
      refine ⟨_, rfl, ?_⟩
      rw [absAct, dif_pos ha.1]
      exact h.alloc ⟨mem.1, .of_restart (Wf.of_block mem ha.1 ha.2) rfl rfl rfl⟩
  | assign x y =>
    rcases cells_cases h x with ⟨hq, hd⟩ | ⟨q, d, b, hq, hd, hsim⟩
    · simp only [act, absAct, hq, hd]
      exact ⟨qs, rfl, h⟩
    rcases cells_cases h y with ⟨haq, he⟩ | ⟨aq, e, c, haq, he, hsim'⟩
    · simp only [act, absAct, hq, hd, haq, he]
      exact ⟨qs, rfl, h⟩
    simp only [act, absAct, hq, hd, haq, he]
    by_cases hxy : x = y
    · rw [if_pos hxy, if_neg fun hne => hne.1 hxy]
      exact ⟨qs, rfl, h⟩
    rw [if_neg hxy]
    by_cases hcap : q.capacity = aq.capacity
    · have hcap' : d.capacity = e.capacity := by rw [hsim.capacity, hsim'.capacity, hcap]
      obtain ⟨q', hassign, hq'⟩ := assign_sim hsim hsim' hcap
      rw [hassign, if_pos ⟨hxy, hcap'⟩]
      exact ⟨_, rfl, h.write ⟨c, hq'⟩ x⟩
    · have hcap' : d.capacity ≠ e.capacity := fun hc =>
        hcap (UInt32.toNat_inj.1 (by rw [← hsim.capacity, ← hsim'.capacity, hc]))
      rw [assign_of_ne hcap, if_neg fun hc => hcap' hc.2]
      refine ⟨_, rfl, ?_⟩
      rw [Heap.write_self hq]
      exact h
  | call x m =>
    cases m with
    | front => exact ha.elim
    | back => exact ha.elim
    | read index => exact ha.elim
    | change op =>
      rcases cells_cases h x with ⟨hq, hd⟩ | ⟨q, d, b, hq, hd, hsim⟩
      · simp only [act, absAct, hq, hd]
        exact ⟨qs, rfl, h⟩
      · obtain ⟨q', b', hstep, hsim'⟩ := sim_step dbg op ha hsim
        simp only [act, absAct, hq, hd, AQueue.method, hstep]
        exact ⟨_, rfl, h.write ⟨b', hsim'⟩ x⟩
  | destroy x =>
    rcases cells_cases h x with ⟨hq, hd⟩ | ⟨q, d, b, hq, hd, hsim⟩
    · simp only [act, absAct, hq]
      rw [Heap.free_of_none hd]
      exact ⟨qs, rfl, h⟩
    · simp only [act, absAct, hq, hsim.wf.buff, Option.isSome_some, cAssert_true]
      exact ⟨_, rfl, h.free x⟩

theorem no_copy_of_basic {a : Act T} (ha : Basic a) (y : ℕ) : a ≠ .copied y := by
  rintro rfl
  exact ha

/-- Programs of such steps never fail, return what the lists return, and leave queues whose observers all agree with
the lists; an assignment to one queue and a call on one leave the other queues alone. -/
theorem objects_refine_lists [Zero T] (dbg : Bool) (acts : List (Act T)) (hacts : ∀ a ∈ acts, Basic a) :
    ∃ s, runMealy (step dbg) init acts = .ok ((runTotal absAct Heap.empty acts).1, s) ∧ s.Owned ∧
      ∀ x, Option.Rel (fun o d => Agrees dbg (o.view s.mem) d) (s.objs.cells x)
        ((runTotal absAct Heap.empty acts).2.cells x) := by
  obtain ⟨hmap, howned⟩ := run_values dbg (stepsOk_of_no_copy fun a ha => no_copy_of_basic (hacts a ha))
  obtain ⟨qs, hqs, hholds⟩ := lockstep (f := act dbg) Holds Basic (fun _ _ _ ha h => holds_act dbg h ha) hacts .empty
  rw [hqs] at hmap
  cases hrun : runMealy (step dbg) init acts with
  | error e =>
    rw [hrun] at hmap
    cases hmap
  | ok r =>
    rcases r with ⟨rs, s⟩
    rw [hrun] at hmap
    obtain ⟨rfl, rfl⟩ := Prod.mk.inj (Except.ok.inj hmap)
    refine ⟨s, rfl, howned _ s hrun, fun x => ?_⟩
    have hcells := hholds.cells x
    rw [cells_values] at hcells
    generalize s.objs.cells x = u, (runTotal absAct Heap.empty acts).2.cells x = v at hcells
    cases u with
    | none =>
      cases hcells
      exact .none
    | some o =>
      cases hcells with
      | some hsim =>
        obtain ⟨b, hsim⟩ := hsim
        exact .some hsim.agrees

theorem assigned_queues_differ : ∃ s o, runMealy (step true) init
      [.sized 2 (some ⟨[9, 9], rfl⟩), .sized 2 (some ⟨[8, 8], rfl⟩), .call 0 (.change (.pushBack 5)), .assign 1 0,
        .call 0 (.change (.pushBack 6)), .call 1 (.change (.pushFront 4))] =
      .ok ([.inl none, .inl none, .inl (some 0), .inl none, .inl (some 0), .inl (some 0)], s) ∧
    s.objs.cells 1 = some o ∧ Agrees true (o.view s.mem) ⟨2, [4, 5], by decide, by decide⟩ := by
  obtain ⟨s, hrun, -, hagrees⟩ := objects_refine_lists (T := ℕ) true
    [.sized 2 (some ⟨[9, 9], rfl⟩), .sized 2 (some ⟨[8, 8], rfl⟩), .call 0 (.change (.pushBack 5)), .assign 1 0,
      .call 0 (.change (.pushBack 6)), .call 1 (.change (.pushFront 4))] (by simp [Basic, Op.Basic, Op.Fits])
  have hone := hagrees 1
  cases hcells : s.objs.cells 1 with
  | none =>
    rw [hcells] at hone
    cases hone
  | some o =>
    rw [hcells] at hone
    cases hone with
    | some h => exact ⟨s, o, hrun, hcells, h⟩

end Queues

end LearnCpp
