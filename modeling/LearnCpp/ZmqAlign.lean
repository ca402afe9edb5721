import LearnCpp.ZmqRecv
import LearnCpp.Lib.Lts

/-!
# Receivers and message boundaries

Both receivers check that a title has a second part and neither looks at what follows it. Over any run of
receives, with messages arriving in between, each call hands out complete two-part messages only and ends
at a message boundary (`CallOk`) exactly when no call meets the messages it mishandles (`Meets`):
`Recv2Parts` must not start on a message of three or more parts, and `RecvAllMessages` not on a queue
whose messages all have an even number of parts without all having two. A message with an odd number of
parts makes `RecvAllMessages` fail at that message's end, so nothing is handed out with success.
-/

namespace LearnCpp

/-- What happens at the receiving socket: a call, or a message coming in. -/
inductive RecvOp
  | recv2Parts
  | recvAll (titles contents : List Bytes) (errNum : Int)
  | arrive (m : Msg)

namespace RecvOp

def step (s : RecvSocket) : RecvOp → RecvSocket
  | recv2Parts => (LearnCpp.recv2Parts s).2
  | recvAll titles contents errNum => (recvAllMessages ⟨s, titles, contents, errNum⟩).2.sock
  | arrive m => { s with queue := s.queue ++ [m] }

/-- The pairs a call hands out with success are the complete two-part messages it took off the queue, and
the call ends at a message boundary. `Recv2Parts` also returns `0` when nothing was there to read. -/
def CallOk (s : RecvSocket) : RecvOp → Prop
  | recv2Parts =>
    ((LearnCpp.recv2Parts s).1.rc = 0 → s.partsLeft = 0 ∨
      s.AtBoundary ∧ s.queue =
        ⟨(LearnCpp.recv2Parts s).1.title, [(LearnCpp.recv2Parts s).1.content]⟩ :: (LearnCpp.recv2Parts s).2.queue) ∧
    (LearnCpp.recv2Parts s).2.AtBoundary
  | recvAll titles contents errNum =>
    ((recvAllMessages ⟨s, titles, contents, errNum⟩).1 = 0 → s.AtBoundary ∧
      ∃ ps : List (Bytes × Bytes), s.queue = ps.map (fun p => ⟨p.1, [p.2]⟩) ∧
        (recvAllMessages ⟨s, titles, contents, errNum⟩).2.titles = titles ++ ps.map Prod.fst ∧
        (recvAllMessages ⟨s, titles, contents, errNum⟩).2.contents = contents ++ ps.map Prod.snd) ∧
    (recvAllMessages ⟨s, titles, contents, errNum⟩).2.sock.AtBoundary
  | arrive _ => True

def Meets (s : RecvSocket) : RecvOp → Prop
  | recv2Parts => ∀ m, s.queue.head? = some m → m.parts.length ≤ 2
  | recvAll _ _ _ => (∃ m ∈ s.queue, ¬ Even m.parts.length) ∨ ∀ m ∈ s.queue, m.parts.length = 2
  | arrive _ => True

end RecvOp

def Ready (s : RecvSocket) : Prop := s.AtBoundary ∧ s.broken = none

section
variable {s : RecvSocket}

theorem Ready.eq_ofQueue (h : Ready s) : s = .ofQueue s.queue s.errno := by
  rcases s with ⟨cur, queue, errno, broken⟩
  rcases h with ⟨rfl, rfl⟩
  rfl

theorem ready_ofQueue (queue : List Msg) (errno : Int) : Ready (.ofQueue queue errno) := ⟨rfl, rfl⟩

/-! ### `Recv2Parts` -/

theorem recv2Parts_one (p : Bytes) (queue : List Msg) (errno : Int) :
    recv2Parts (.ofQueue (⟨p, []⟩ :: queue) errno) = (⟨-1, p, []⟩, .ofQueue queue errno) := rfl

theorem recv2Parts_more (p c : Bytes) (ps : List Bytes) (queue : List Msg) (errno : Int) :
    recv2Parts (.ofQueue (⟨p, c :: ps⟩ :: queue) errno) = (⟨0, p, c⟩, ⟨ps, queue, errno, none⟩) := rfl

theorem recv2Parts_callOk_iff (h : Ready s) : RecvOp.CallOk s .recv2Parts ↔ RecvOp.Meets s .recv2Parts := by
  rw [h.eq_ofQueue]
  generalize s.queue = queue
  rcases queue with _ | ⟨⟨p, _ | ⟨c, ps⟩⟩, queue⟩
  · exact iff_of_true ⟨fun _ => .inl rfl, rfl⟩ fun m hm => by simp [RecvSocket.ofQueue] at hm
  · refine iff_of_true ⟨?_, rfl⟩ ?_
    · intro hrc
      rw [recv2Parts_one] at hrc
      cases hrc
    · intro m hm
      cases hm
      exact Nat.le_succ 1
  · simp only [RecvOp.CallOk, RecvOp.Meets, recv2Parts_more]
    constructor
    · rintro ⟨-, hps⟩ m hm
      cases hm
      cases (hps : ps = [])
      exact Nat.le_refl 2
    · intro hm
      have hlen := hm _ rfl
      simp only [Msg.parts, List.length_cons] at hlen
      obtain rfl : ps = [] := List.length_eq_zero_iff.1 (by omega)
      exact ⟨fun _ => .inr ⟨rfl, rfl⟩, rfl⟩

/-! ### `RecvAllMessages` -/

theorem eq_map_pairsOf {queue : List Msg} (h : ∀ m ∈ queue, m.parts.length = 2) :
    queue = (pairsOf queue).map fun p => ⟨p.1, [p.2]⟩ := by
  induction queue with
  | nil => rfl
  | cons m queue ih =>
    rcases m with ⟨p, ps⟩
    have hlen := h ⟨p, ps⟩ (by simp)
    simp only [Msg.parts, List.length_cons] at hlen
    obtain ⟨c, rfl⟩ := List.length_eq_one_iff.1 (by omega : ps.length = 1)
    have := ih fun m hm => h m (by simp [hm])
    rw [pairsOf, List.flatMap_cons, ← pairsOf, List.map_append, ← this]
    rfl

theorem recvAll_callOk_iff (h : Ready s) (titles contents : List Bytes) (errNum : Int) :
    RecvOp.CallOk s (.recvAll titles contents errNum) ↔ RecvOp.Meets s (.recvAll titles contents errNum) := by
  rw [h.eq_ofQueue]
  generalize s.queue = queue
  rcases odd_or_all_even queue with hodd | hev
  · refine iff_of_true ?_ (.inl hodd)
    obtain ⟨st', queue', h1, h2⟩ := recvAll_queue_odd queue
      ⟨.ofQueue queue s.errno, titles, contents, errNum⟩ hodd rfl
    simp only [RecvOp.CallOk, h1]
    exact ⟨fun hc => absurd hc (by decide), by rw [h2]; rfl⟩
  · simp only [RecvOp.CallOk, RecvOp.Meets]
    rw [recvAll_queue_even queue _ hev rfl]
    constructor
    · rintro ⟨hrc, -⟩
      obtain ⟨-, ps, hq, -⟩ := hrc rfl
      refine .inr fun m hm => ?_
      rw [hq] at hm
      obtain ⟨p, -, rfl⟩ := List.mem_map.1 hm
      rfl
    · rintro (⟨m, hm, hn⟩ | htwo)
      · exact absurd (hev m hm) hn
      · exact ⟨fun _ => ⟨rfl, pairsOf queue, eq_map_pairsOf htwo, rfl, rfl⟩, rfl⟩

/-! ### Runs -/

theorem callOk_iff (h : Ready s) (op : RecvOp) : op.CallOk s ↔ op.Meets s := by
  cases op with
  | recv2Parts => exact recv2Parts_callOk_iff h
  | recvAll titles contents errNum => exact recvAll_callOk_iff h titles contents errNum
  | arrive m => exact Iff.rfl

theorem ready_step (h : Ready s) (op : RecvOp) (hm : op.Meets s) : Ready (op.step s) := by
  have hok := (callOk_iff h op).2 hm
  rw [h.eq_ofQueue] at hok ⊢
  cases op with
  | recv2Parts =>
    refine ⟨hok.2, ?_⟩
    show (LearnCpp.recv2Parts (.ofQueue s.queue s.errno)).2.broken = none
    rcases s.queue with _ | ⟨⟨p, _ | ⟨c, ps⟩⟩, queue⟩ <;> rfl
  | recvAll titles contents errNum =>
    show Ready (recvAllMessages ⟨.ofQueue s.queue s.errno, titles, contents, errNum⟩).2.sock
    rcases odd_or_all_even s.queue with hodd | hev
    · obtain ⟨st', queue', h1, h2⟩ := recvAll_queue_odd s.queue
        ⟨.ofQueue s.queue s.errno, titles, contents, errNum⟩ hodd rfl
      rw [h1, h2]
      exact ready_ofQueue _ _
    · rw [recvAll_queue_even s.queue _ hev rfl]
      exact ready_ofQueue _ _
  | arrive m => exact ⟨rfl, rfl⟩

end

/-- For every queue and every sequence of receives and arrivals: each call hands out complete two-part
messages only and ends at a message boundary, exactly when each call meets only messages it handles. -/
theorem receivers_aligned_iff (queue : List Msg) (errno : Int) (ops : List RecvOp) :
    Lts.StepsOk (Lts.ofFun RecvOp.step) (fun s op => op.CallOk s) (.ofQueue queue errno) ops ↔
      Lts.StepsOk (Lts.ofFun RecvOp.step) (fun s op => op.Meets s) (.ofQueue queue errno) ops := by
  refine Lts.stepsOk_congr Ready (fun _ => True) ?_ ?_ (fun _ _ => trivial) (ready_ofQueue _ _)
  · rintro s op _ - h rfl hm
    exact ready_step h op hm
  · exact fun s op _ h => callOk_iff h op

/-- One message of three parts: `Recv2Parts` returns `0` with its first two, and the next part to be
read is its third. -/
theorem three_parts_misalign :
    recv2Parts (.ofQueue [⟨[97], [[98], [99]]⟩] 0) = (⟨0, [97], [98]⟩, ⟨[[99]], [], 0, none⟩) ∧
      ¬ Lts.StepsOk (Lts.ofFun RecvOp.step) (fun s op => op.CallOk s) (.ofQueue [⟨[97], [[98], [99]]⟩] 0)
        [.recv2Parts] := by
  refine ⟨by decide, fun h => ?_⟩
  have hb := ((Lts.stepsOk_cons.1 h).1).2
  exact absurd hb (by decide)

end LearnCpp
