import LearnCpp.AQueueTail

/-!
# The block reads of `AQueue`

`read(sindex, len, buff)` copies the cells from `sindex` on in one piece or, past the end of the array, in two. On
every queue a run leaves, from the slot of an element it copies the elements from that one on
(`block_read_agrees`).

`read(buff, len)` is to copy the newest `len` elements, and starts at `_tail - len`, one cell too early: the
newest element is at `_tail` itself. What it copies are the newest elements only where the cells are all alike
(`newest_read_iff`).
-/

namespace LearnCpp

theorem toInt_toInt32 {x : UInt32} (h : x.toNat < 2 ^ 31) : x.toInt32.toInt = x.toNat := by
  have hlt : 2 * x.toBitVec.toNat < 2 ^ 32 := by
    change 2 * x.toNat < 2 ^ 32
    omega
  exact BitVec.toInt_eq_toNat_of_lt hlt

theorem memcpy_some {T : Type} {d s : List T} {i j n : ℕ} (hd : i + n ≤ d.length) (hs : j + n ≤ s.length) :
    memcpy (some d) i (some s) j n = .ok (some (d.take i ++ (s.drop j).take n ++ d.drop (i + n))) := by
  have hin : (0 : Int) ≤ i ∧ (0 : Int) ≤ j ∧ (0 : Int) ≤ n ∧ (i : Int) + n ≤ d.length ∧ (j : Int) + n ≤ s.length := by
    omega
  simp only [memcpy, if_pos hin]
  norm_cast

namespace AQueue

variable {T : Type} {q : AQueue T} {b dst : List T} {dbg : Bool} {i sindex len : UInt32}

theorem toNat_add_of_wf (h : Wf q b) (hi : sindex.toNat < q.capacity.toNat) (hlen : len.toNat ≤ q.capacity.toNat) :
    (sindex + len).toNat = sindex.toNat + len.toNat := by
  have hle := h.le
  rw [UInt32.toNat_add, Nat.mod_eq_of_lt (by omega)]

/-- The branch with one `memcpy`. -/
theorem readSindex_straight (h : Wf q b) (hne : q.empty = false) (hi : sindex.toNat < q.capacity.toNat)
    (hend : sindex.toNat + len.toNat ≤ q.capacity.toNat) (hdst : len.toNat ≤ dst.length) :
    q.readSindex dbg sindex len (some dst) =
      .ok (len, some (Circular.segment b sindex.toNat len.toNat ++ dst.drop len.toNat)) := by
  have hblen := h.len
  have hone : sindex + len ≤ q.capacity := by
    rw [UInt32.le_iff_toNat_le, toNat_add_of_wf h hi (by omega)]
    exact hend
  have hj : (sindex % q.capacity).toNat = sindex.toNat := by
    rw [UInt32.toNat_mod, Nat.mod_eq_of_lt hi]
  have hcopy := memcpy_some (d := dst) (s := b) (i := 0) (j := sindex.toNat) (n := len.toNat) (by omega) (by omega)
  simp only [readSindex, h.buff, hne, Option.isNone_some, Bool.or_self, Bool.false_eq_true, if_false, if_pos hone,
    umod_of_pos h.pos, bind, Except.bind, hj]
  rw [show (0 : Int) = (0 : ℕ) from rfl, hcopy, Circular.segment_straight (by omega), List.take_zero,
    List.nil_append, Nat.zero_add]
  rfl

/-- The branch with two, the first to the end of the array. -/
theorem readSindex_round (h : Wf q b) (hne : q.empty = false) (hi : sindex.toNat < q.capacity.toNat)
    (hlen : len.toNat ≤ q.capacity.toNat) (hend : q.capacity.toNat < sindex.toNat + len.toNat)
    (hdst : len.toNat ≤ dst.length) :
    q.readSindex dbg sindex len (some dst) =
      .ok (len, some (Circular.segment b sindex.toNat len.toNat ++ dst.drop len.toNat)) := by
  have hle := h.le
  have hblen := h.len
  have hone : ¬ sindex + len ≤ q.capacity := by
    rw [UInt32.le_iff_toNat_le, toNat_add_of_wf h hi hlen]
    omega
  have hfirst : (q.capacity - sindex).toNat = b.length - sindex.toNat := by
    rw [hblen]
    exact UInt32.toNat_sub_of_le _ _ (UInt32.le_iff_toNat_le.2 (by omega))
  have hsecond : (len - (q.capacity - sindex)).toNat = len.toNat - (b.length - sindex.toNat) := by
    rw [UInt32.toNat_sub_of_le _ _ (UInt32.le_iff_toNat_le.2 (by omega)), hfirst]
  have hint : (q.capacity - sindex).toInt32.toInt = ((b.drop sindex.toNat).length : Int) := by
    rw [toInt_toInt32 (by omega), hfirst, List.length_drop]
  have hpos : decide ((q.capacity - sindex).toInt32 ≥ 0) = true := by
    refine decide_eq_true (Int32.le_iff_toInt_le.2 ?_)
    rw [hint]
    exact Int.natCast_nonneg _
  have hfirstlen : (b.drop sindex.toNat).length = b.length - sindex.toNat := List.length_drop
  have hcopy := memcpy_some (d := dst) (s := b) (i := 0) (j := sindex.toNat) (n := (b.drop sindex.toNat).length)
    (by omega) (by omega)
  have hrest := memcpy_some (d := b.drop sindex.toNat ++ dst.drop (b.drop sindex.toNat).length) (s := b)
    (i := (b.drop sindex.toNat).length) (j := 0) (n := len.toNat - (b.length - sindex.toNat))
    (by rw [List.length_append, List.length_drop (l := dst)]; omega) (by omega)
  simp only [readSindex, h.buff, hne, Option.isNone_some, Bool.or_self, Bool.false_eq_true, if_false, if_neg hone,
    hpos, cAssert_true, bind, Except.bind, hint, UInt32.toUInt32_toInt32, hsecond]
  rw [show (0 : Int) = (0 : ℕ) from rfl, hcopy, List.take_zero, List.nil_append, Nat.zero_add, List.take_length]
  dsimp only
  rw [hrest, Circular.segment_round (by omega), List.take_left, List.drop_zero, ← List.drop_drop, List.drop_left,
    List.drop_drop, show (b.drop sindex.toNat).length + (len.toNat - (b.length - sindex.toNat)) = len.toNat by omega]
  rfl

theorem readSindex_eq (h : Wf q b) (hs : 0 < q.currentSize.toNat) (hi : sindex.toNat < q.capacity.toNat)
    (hlen : len.toNat ≤ q.capacity.toNat) (hdst : len.toNat ≤ dst.length) :
    q.readSindex dbg sindex len (some dst) =
      .ok (len, some (Circular.segment b sindex.toNat len.toNat ++ dst.drop len.toNat)) := by
  have hne := empty_eq_false hs
  by_cases hend : sindex.toNat + len.toNat ≤ q.capacity.toNat
  · exact readSindex_straight h hne hi hend hdst
  · exact readSindex_round h hne hi hlen (by omega) hdst

/-! ### From the slot of an element -/

/-- The block read of `len` elements from element `i` on returns `len`, copies what the element reads return to the
first cells of the buffer `dst`, and leaves the others alone. -/
def BlockAgrees (dbg : Bool) (q : AQueue T) (i len : UInt32) (dst : List T) : Prop :=
  ∃ out, q.readSindex dbg ((q.head + i) % q.capacity) len (some dst) = .ok (len, some out) ∧
    (∀ j < len.toNat, ∃ x, out[j]? = some x ∧ q.read dbg (i + .ofNat j) = .ok x) ∧
    out.drop len.toNat = dst.drop len.toNat

theorem Wf.slot (h : Wf q b) (hi : i.toNat ≤ q.capacity.toNat) :
    ((q.head + i) % q.capacity).toNat = (q.head.toNat + i.toNat) % b.length := by
  rw [UInt32.toNat_mod, toNat_add_of_wf h h.head_lt hi, h.len]

theorem toNat_add_ofNat {j : ℕ} (h : i.toNat + j < 2 ^ 32) : (i + UInt32.ofNat j).toNat = i.toNat + j := by
  rw [UInt32.toNat_add, UInt32.toNat_ofNat_of_lt' (by change j < 2 ^ 32; omega), Nat.mod_eq_of_lt h]

theorem Wf.blockAgrees (h : Wf q b) (hlen : i.toNat + len.toNat ≤ q.size.toNat) (hdst : len.toNat ≤ dst.length) :
    BlockAgrees dbg q i len dst := by
  have hsize := h.size_le
  have hle := h.le
  have hblen := h.len
  have hpos := h.pos
  change i.toNat + len.toNat ≤ q.currentSize.toNat at hlen
  rcases Nat.eq_zero_or_pos q.currentSize.toNat with hs | hs
  · -- the empty queue, of which nothing is asked
    have hz : len = 0 := UInt32.toNat_inj.1 (by rw [UInt32.toNat_zero]; omega)
    subst hz
    refine ⟨dst, ?_, fun j hj => absurd hj (Nat.not_lt_zero j), rfl⟩
    simp only [readSindex, empty_iff.2 hs, Bool.or_true, Bool.true_or, if_true]
    rfl
  · have hslot := h.slot (i := i) (by omega)
    have hs' : (q.head.toNat + i.toNat) % b.length < b.length := Nat.mod_lt _ (by omega)
    have hread : q.readSindex dbg ((q.head + i) % q.capacity) len (some dst) = _ :=
      readSindex_eq h hs (by rw [hslot]; omega) (by omega) hdst
    have hseg := Circular.length_segment (b := b) hs' (n := len.toNat) (by omega)
    rw [hslot] at hread
    refine ⟨_, hread, fun j hj => ?_, List.drop_left' hseg⟩
    have hcell : (q.head.toNat + (i.toNat + j)) % b.length < b.length := Nat.mod_lt _ (by omega)
    have hij := toNat_add_ofNat (i := i) (j := j) (by omega)
    refine ⟨b[(q.head.toNat + (i.toNat + j)) % b.length], ?_, read_eq h (by omega) ?_⟩
    · rw [List.getElem?_append_left (by omega), Circular.segment_getElem hs' (by omega) hj, Nat.mod_add_mod,
        Nat.add_assoc]
      exact List.getElem?_eq_getElem hcell
    · rw [hij]
      exact List.getElem?_eq_getElem hcell

/-- On every queue a run leaves, for `i` and `len` within its size: the block read from the slot of element `i`
faults nowhere and agrees with the element reads. -/
theorem block_read_agrees [Zero T] (dbg : Bool) {cap : UInt32} (hpos : 1 ≤ cap.toNat) (hle : cap.toNat ≤ 2 ^ 31)
    (mem : Block T cap) {ops : List (Op T)} (hops : ∀ op ∈ ops, op.Fits) {os : List (Option Int)}
    (hrun : Lts.runMealy (step dbg) (new cap mem) ops = .ok (os, q)) (hlen : i.toNat + len.toNat ≤ q.size.toNat)
    (hdst : len.toNat ≤ dst.length) : BlockAgrees dbg q i len dst := by
  obtain ⟨b, h⟩ := wf_of_run hpos hle mem hops hrun
  exact h.blockAgrees hlen hdst

theorem block_read_agrees_round :
    BlockAgrees true (⟨some [4, 2, 3], 3, 3, 1, 0, 0⟩ : AQueue ℕ) 0 3 [9, 9, 9, 9] := by
  have hrun : Lts.runMealy (step true) (new 3 ⟨[0, 0, 0], rfl⟩)
      [.pushBack 1, .pushBack 2, .pushBack 3, .pushBack 4] =
        .ok ([some 0, some 0, some 0, some 1], (⟨some [4, 2, 3], 3, 3, 1, 0, 0⟩ : AQueue ℕ)) := rfl
  exact block_read_agrees true (by decide) (by decide) _ (by simp [Op.Fits]) hrun (by decide) (by decide)

/-! ### The newest elements -/

/-- The calls that keep `_tail` on the newest element. -/
def Op.Fifo : Op T → Prop
  | .pushBack _ | .popFront | .clear => True
  | _ => False

/-- The read of the newest `len` elements returns `len` and copies them, the oldest of them first. -/
def NewestRead (dbg : Bool) (q : AQueue T) (len : UInt32) (dst : List T) : Prop :=
  ∃ out, q.readBuff dbg (some dst) len = .ok (len, some out) ∧
    ∀ j < len.toNat, ∃ x, out[j]? = some x ∧ q.read dbg (q.size - len + .ofNat j) = .ok x

/-- The cell `k` before `_tail`, going round. -/
def cellBack (q : AQueue T) (k : ℕ) : Except Fault T :=
  load q.buff (.ofNat ((q.tail.toNat + q.capacity.toNat - k) % q.capacity.toNat))

theorem Op.Fifo.fits {op : Op T} (hop : op.Fifo) : op.Fits := by
  cases op with
  | pushBack | popFront | clear => trivial
  | pushFront | popBack | resize => exact hop.elim

theorem Op.Fifo.keepsTail {op : Op T} (hop : op.Fifo) : KeepsTail q op := by
  cases op with
  | pushBack | popFront | clear => trivial
  | pushFront | popBack | resize => exact hop.elim

theorem cellBack_iff (h : Wf q b) (k : ℕ) (x : T) :
    q.cellBack k = .ok x ↔ b[(q.tail.toNat + b.length - k) % b.length]? = some x := by
  have hle := h.le
  have hlt : (q.tail.toNat + b.length - k) % b.length < b.length := Nat.mod_lt _ (by rw [h.len]; exact h.pos)
  have hword : (UInt32.ofNat ((q.tail.toNat + b.length - k) % b.length)).toNat =
      (q.tail.toNat + b.length - k) % b.length :=
    UInt32.toNat_ofNat_of_lt' (by change _ < 2 ^ 32; have := h.len; omega)
  rw [cellBack, h.buff, ← h.len, load_some (by rw [hword]; exact List.getElem?_eq_getElem hlt)]
  rw [List.getElem?_eq_getElem hlt, Except.ok.injEq, Option.some.injEq]

theorem readBuff_eq (h : TailOk q b) (hlen : 0 < len.toNat) (hsize : len.toNat ≤ q.currentSize.toNat)
    (hdst : len.toNat ≤ dst.length) :
    q.readBuff dbg (some dst) len =
      .ok (len, some (Circular.segment b ((q.tail.toNat + b.length - len.toNat) % b.length) len.toNat ++
        dst.drop len.toNat)) := by
  have hs : 0 < q.currentSize.toNat := by omega
  have htail := h.tail_lt hs
  have hle := h.wf.le
  have hcap := h.wf.size_le
  have hpos := h.wf.pos
  have hne := empty_eq_false hs
  have hstart : ((q.tail - len + q.capacity) % q.capacity).toNat =
      (q.tail.toNat + b.length - len.toNat) % b.length := by
    rw [UInt32.toNat_mod, UInt32.toNat_add, UInt32.toNat_sub, h.wf.len]
    congr 1
    omega
  have hread : q.readSindex dbg ((q.tail - len + q.capacity) % q.capacity) len (some dst) = _ :=
    readSindex_eq h.wf hs (by rw [UInt32.toNat_mod]; exact Nat.mod_lt _ hpos) (by omega) hdst
  rw [hstart] at hread
  simp only [readBuff, hne, Bool.false_eq_true, if_false, umod_of_pos hpos, bind, Except.bind]
  exact hread

/-- The element `k` before the newest is in the cell `k` before `_tail`. -/
theorem TailOk.read_back (h : TailOk q b) {k : ℕ} (hk : k < q.currentSize.toNat) {i : UInt32}
    (hi : i.toNat + (k + 1) = q.currentSize.toNat) {x : T}
    (hx : b[(q.tail.toNat + b.length - k) % b.length]? = some x) : q.read dbg i = .ok x := by
  refine read_eq h.wf (by omega) ?_
  have hlen := h.wf.len
  have hcap := h.wf.size_le
  have hslot : (q.tail.toNat + b.length - k) % b.length = (q.head.toNat + i.toNat) % b.length := by
    rw [h.tail_eq (by omega), ← hlen, Nat.add_sub_assoc (by omega), Nat.mod_add_mod,
      show q.head.toNat + q.currentSize.toNat - 1 + (b.length - k) = q.head.toNat + i.toNat + b.length by omega,
      Nat.add_mod_right]
  rwa [← hslot]

theorem TailOk.back_lt (h : TailOk q b) (k : ℕ) : (q.tail.toNat + b.length - k) % b.length < b.length :=
  Nat.mod_lt _ (by rw [h.wf.len]; exact h.wf.pos)

theorem TailOk.newest_out (h : TailOk q b) (hlen : len.toNat ≤ b.length) {j : ℕ} (hj : j < len.toNat) :
    (Circular.segment b ((q.tail.toNat + b.length - len.toNat) % b.length) len.toNat ++ dst.drop len.toNat)[j]? =
      b[(q.tail.toNat + b.length - (len.toNat - j)) % b.length]? := by
  have hseg := Circular.length_segment (b := b) (h.back_lt len.toNat) hlen
  rw [List.getElem?_append_left (by omega), Circular.segment_getElem (h.back_lt _) hlen hj, Nat.mod_add_mod]
  congr 2
  omega

theorem TailOk.read_newest_iff (h : TailOk q b) (hsize : len.toNat ≤ q.currentSize.toNat) {j : ℕ}
    (hj : j < len.toNat) (x : T) :
    q.read dbg (q.size - len + .ofNat j) = .ok x ↔
      b[(q.tail.toNat + b.length - (len.toNat - (j + 1))) % b.length]? = some x := by
  have hle := h.wf.le
  have hcap := h.wf.size_le
  have hfirst : (q.size - len).toNat = q.currentSize.toNat - len.toNat :=
    UInt32.toNat_sub_of_le _ _ (UInt32.le_iff_toNat_le.2 hsize)
  have hi := toNat_add_ofNat (i := q.size - len) (j := j) (by omega)
  have hcell := List.getElem?_eq_getElem (h.back_lt (len.toNat - (j + 1)))
  rw [h.read_back (k := len.toNat - (j + 1)) (by omega) (by omega) hcell, hcell, Except.ok.injEq, Option.some.injEq]

theorem TailOk.newestRead_iff_next (h : TailOk q b) (hlen : 0 < len.toNat) (hsize : len.toNat ≤ q.currentSize.toNat)
    (hdst : len.toNat ≤ dst.length) :
    NewestRead dbg q len dst ↔ ∀ k < len.toNat, b[(q.tail.toNat + b.length - (k + 1)) % b.length]? =
      b[(q.tail.toNat + b.length - k) % b.length]? := by
  have hcap : len.toNat ≤ b.length := by
    rw [h.wf.len]
    exact hsize.trans h.wf.size_le
  have hread : q.readBuff dbg (some dst) len = _ := readBuff_eq h hlen hsize hdst
  constructor
  · rintro ⟨out, hok, hnew⟩ k hk
    rw [hread] at hok
    cases hok
    -- place `len - (k + 1)` has got the cell `k + 1` before `_tail`, and should have got the one after it
    obtain ⟨x, hx, hr⟩ := hnew (len.toNat - (k + 1)) (by omega)
    rw [h.newest_out hcap (by omega), show len.toNat - (len.toNat - (k + 1)) = k + 1 by omega] at hx
    rw [h.read_newest_iff hsize (by omega), show len.toNat - (len.toNat - (k + 1) + 1) = k by omega] at hr
    rw [hx, hr]
  · intro hnext
    refine ⟨_, hread, fun j hj => ?_⟩
    have hcell := List.getElem?_eq_getElem (h.back_lt (len.toNat - (j + 1)))
    refine ⟨_, ?_, (h.read_newest_iff hsize hj _).2 hcell⟩
    rw [h.newest_out hcap hj, ← hcell, ← hnext (len.toNat - (j + 1)) (by omega)]
    congr 2
    omega

theorem TailOk.newestRead_iff (h : TailOk q b) (hlen : 0 < len.toNat) (hsize : len.toNat ≤ q.currentSize.toNat)
    (hdst : len.toNat ≤ dst.length) :
    NewestRead dbg q len dst ↔ ∃ x, ∀ k ≤ len.toNat, q.cellBack k = .ok x := by
  rw [h.newestRead_iff_next hlen hsize hdst]
  constructor
  · intro hnext
    obtain ⟨x, hx⟩ : ∃ x, b[(q.tail.toNat + b.length - 0) % b.length]? = some x :=
      ⟨_, List.getElem?_eq_getElem (h.back_lt 0)⟩
    refine ⟨x, fun k hk => (cellBack_iff h.wf k x).2 ?_⟩
    induction k with
    | zero => exact hx
    | succ k ih => rw [hnext k (by omega), ih (by omega)]
  · rintro ⟨x, hx⟩ k hk
    have hcell : ∀ i ≤ len.toNat, b[(q.tail.toNat + b.length - i) % b.length]? = some x :=
      fun i hi => (cellBack_iff h.wf i x).1 (hx i hi)
    rw [hcell _ (by omega), hcell _ (by omega)]

/-- On every queue that pushes at the back, pops at the front and clears leave, for `len` from one to its size: the
read of the newest `len` elements gives them exactly when the `len + 1` cells up to `_tail` all hold one value. -/
theorem newest_read_iff [Zero T] (dbg : Bool) {cap : UInt32} (hpos : 1 ≤ cap.toNat) (hle : cap.toNat ≤ 2 ^ 31)
    (mem : Block T cap) {ops : List (Op T)} (hops : ∀ op ∈ ops, op.Fifo) {os : List (Option Int)}
    (hrun : Lts.runMealy (step dbg) (new cap mem) ops = .ok (os, q)) (hlen : 1 ≤ len.toNat)
    (hsize : len.toNat ≤ q.size.toNat) (hdst : len.toNat ≤ dst.length) :
    NewestRead dbg q len dst ↔ ∃ x, ∀ k ≤ len.toNat, q.cellBack k = .ok x := by
  have hinit : TailOk (new cap mem) mem.1 := .of_restart (Wf.of_block mem hpos hle) rfl rfl rfl
  obtain ⟨b, h⟩ : ∃ b, TailOk q b := by
    refine Lts.runMealy_inv (fun q => ∃ b, TailOk q b) Op.Fifo ?_ hops ⟨_, hinit⟩ hrun
    rintro q op r q' hop ⟨b, h⟩ hstep
    obtain ⟨r', q'', b', hq, h'⟩ := h.step dbg op hop.fits hop.keepsTail
    rw [hstep] at hq
    cases hq
    exact ⟨b', h'⟩
  exact h.newestRead_iff hlen hsize hdst

theorem newest_read_iff_two :
    NewestRead true (⟨some [5, 6, 0], 3, 2, 0, 1, 0⟩ : AQueue ℕ) 1 [9] ↔
      ∃ x, ∀ k ≤ (1 : UInt32).toNat, (⟨some [5, 6, 0], 3, 2, 0, 1, 0⟩ : AQueue ℕ).cellBack k = .ok x := by
  have hrun : Lts.runMealy (step true) (new 3 ⟨[0, 0, 0], rfl⟩) [.pushBack 5, .pushBack 6] =
      .ok ([some 0, some 0], (⟨some [5, 6, 0], 3, 2, 0, 1, 0⟩ : AQueue ℕ)) := rfl
  exact newest_read_iff true (by decide) (by decide) _ (by simp [Op.Fifo]) hrun (by decide) (by decide) (by decide)

/-- Of the elements `5` and `6` the newest one is `6`, and the read of the newest one gives `5`. -/
theorem newest_is_older :
    Lts.runMealy (step true) (new 3 ⟨[0, 0, 0], rfl⟩) [.pushBack 5, .pushBack 6] =
        .ok ([some 0, some 0], (⟨some [5, 6, 0], 3, 2, 0, 1, 0⟩ : AQueue ℕ)) ∧
      (⟨some [5, 6, 0], 3, 2, 0, 1, 0⟩ : AQueue ℕ).readBuff true (some [9]) 1 = .ok (1, some [5]) ∧
      (⟨some [5, 6, 0], 3, 2, 0, 1, 0⟩ : AQueue ℕ).read true (2 - 1 + 0) = .ok 6 ∧
      ¬ NewestRead true (⟨some [5, 6, 0], 3, 2, 0, 1, 0⟩ : AQueue ℕ) 1 [9] := by
  have hread : (⟨some [5, 6, 0], 3, 2, 0, 1, 0⟩ : AQueue ℕ).readBuff true (some [9]) 1 = .ok (1, some [5]) := rfl
  refine ⟨rfl, hread, rfl, ?_⟩
  rintro ⟨out, hout, hnew⟩
  rw [hread] at hout
  cases hout
  obtain ⟨x, hx, hr⟩ := hnew 0 (by decide)
  cases hx
  cases hr

end AQueue

end LearnCpp
