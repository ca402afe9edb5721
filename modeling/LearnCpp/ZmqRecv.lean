import LearnCpp.MyZmq
import Mathlib.Algebra.Group.Nat.Even

/-!
# What the receivers read

On a healthy socket `RecvAllMessages` reads the parts two by two (`pairUp`). A message with an even
number of parts is read to its end and the loop goes on; one with an odd number ends the call with `-1`
when its last part turns out to have no successor. Either way the call ends at a message boundary.
-/

namespace LearnCpp

/-- The parts two by two; a last single one is left out. -/
def pairUp : List Bytes → List (Bytes × Bytes)
  | p :: c :: ps => (p, c) :: pairUp ps
  | _ => []

/-- The pairs of all messages, read from their first parts on. -/
def pairsOf (ms : List Msg) : List (Bytes × Bytes) := ms.flatMap fun m => pairUp m.parts

/-- The output arguments with the pairs `ps` appended. -/
def RecvAll.push (st : RecvAll) (ps : List (Bytes × Bytes)) : RecvAll :=
  { st with titles := st.titles ++ ps.map Prod.fst, contents := st.contents ++ ps.map Prod.snd }

namespace RecvAll
variable {st : RecvAll}

@[simp] theorem push_nil : st.push [] = st := by simp [push]

end RecvAll

section
variable {cur ps : List Bytes} {queue ms : List Msg} {m : Msg} {p c : Bytes} {errno : Int} {st : RecvAll}

theorem zmqMsgRecv_cons : zmqMsgRecv ⟨p :: ps, queue, errno, none⟩ = (some p, ⟨ps, queue, errno, none⟩) := rfl

theorem zmqMsgRecv_empty : zmqMsgRecv ⟨[], [], errno, none⟩ = (none, ⟨[], [], EAGAIN, none⟩) := rfl

theorem zmqMsgRecv_boundary :
    zmqMsgRecv ⟨[], m :: queue, errno, none⟩ = zmqMsgRecv ⟨m.parts, queue, errno, none⟩ := rfl

/-! ### Rounds of `RecvAllMessages` -/

theorem recvAll_two (h : st.sock = ⟨p :: c :: ps, queue, errno, none⟩) :
    recvAllMessages st =
      recvAllMessages { st.push [(p, c)] with sock := ⟨ps, queue, errno, none⟩ } := by
  refine Loop.total_inl _ ?_
  simp only [recvAllBody, h, zmqMsgRecv_cons]
  rfl

theorem recvAll_one (h : st.sock = ⟨[p], queue, errno, none⟩) :
    recvAllMessages st = (-1, { st with sock := ⟨[], queue, errno, none⟩, errNum := errno }) := by
  refine Loop.total_inr _ ?_
  simp only [recvAllBody, h, zmqMsgRecv_cons]
  rfl

theorem recvAll_empty (h : st.sock = .ofQueue [] errno) :
    recvAllMessages st = (0, { st with sock := .ofQueue [] EAGAIN, errNum := EAGAIN }) := by
  refine Loop.total_inr _ ?_
  simp only [recvAllBody, h, RecvSocket.ofQueue, zmqMsgRecv_empty]
  rfl

theorem recvAll_boundary (h : st.sock = .ofQueue (m :: queue) errno) :
    recvAllMessages st = recvAllMessages { st with sock := ⟨m.parts, queue, errno, none⟩ } := by
  refine Loop.total_congr _ ?_
  simp only [recvAllBody, h, RecvSocket.ofQueue, zmqMsgRecv_boundary]

/-! ### Whole messages -/

theorem even_length_cons_cons : Even (p :: c :: ps).length ↔ Even ps.length := by
  rw [List.length_cons, List.length_cons, Nat.even_add_one, Nat.even_add_one, Classical.not_not]

theorem odd_or_all_even (queue : List Msg) :
    (∃ m ∈ queue, ¬ Even m.parts.length) ∨ ∀ m ∈ queue, Even m.parts.length := by
  by_cases hodd : ∃ m ∈ queue, ¬ Even m.parts.length
  · exact .inl hodd
  · exact .inr fun m hm => Classical.not_not.1 fun hn => hodd ⟨m, hm, hn⟩

/-- The rest of a message with an even number of unread parts is read to its end. -/
theorem recvAll_even : ∀ (cur : List Bytes) (st : RecvAll), Even cur.length →
    st.sock = ⟨cur, queue, errno, none⟩ →
    recvAllMessages st = recvAllMessages { st.push (pairUp cur) with sock := .ofQueue queue errno }
  | [], st, _, h => by
    rcases st with ⟨sock, ts, cs, e⟩
    cases h
    simp only [pairUp, RecvAll.push_nil]
    rfl
  | [p], st, hev, h => by simp at hev
  | p :: c :: ps, st, hev, h => by
    rw [recvAll_two h, recvAll_even ps _ (even_length_cons_cons.1 hev) rfl]
    congr 1
    simp [RecvAll.push, pairUp]

/-- An odd number of unread parts ends the call with an error, at the boundary behind the message. -/
theorem recvAll_odd : ∀ (cur : List Bytes) (st : RecvAll), ¬ Even cur.length →
    st.sock = ⟨cur, queue, errno, none⟩ →
    ∃ st', recvAllMessages st = (-1, st') ∧ st'.sock = .ofQueue queue errno
  | [], st, hodd, _ => absurd (by decide) hodd
  | [p], st, _, h => ⟨_, recvAll_one h, rfl⟩
  | p :: c :: ps, st, hodd, h => by
    have hps : ¬ Even ps.length := fun hev => hodd (even_length_cons_cons.2 hev)
    obtain ⟨st', h1, h2⟩ := recvAll_odd ps _ hps
      (rfl : ({ st.push [(p, c)] with sock := ⟨ps, queue, errno, none⟩ } : RecvAll).sock = _)
    exact ⟨st', (recvAll_two h).trans h1, h2⟩

theorem recvAll_queue_even (queue : List Msg) (st : RecvAll) (hev : ∀ m ∈ queue, Even m.parts.length)
    (h : st.sock = .ofQueue queue errno) :
    recvAllMessages st =
      (0, { st.push (pairsOf queue) with sock := .ofQueue [] EAGAIN, errNum := EAGAIN }) := by
  induction queue generalizing st with
  | nil => rw [recvAll_empty h, pairsOf, List.flatMap_nil, RecvAll.push_nil]
  | cons m queue ih =>
    rw [recvAll_boundary h, recvAll_even m.parts _ (hev m (by simp)) rfl,
      ih _ (fun m' hm' => hev m' (by simp [hm'])) rfl]
    simp [RecvAll.push, pairsOf]

theorem recvAll_queue_odd (queue : List Msg) (st : RecvAll) (hodd : ∃ m ∈ queue, ¬ Even m.parts.length)
    (h : st.sock = .ofQueue queue errno) :
    ∃ st' queue', recvAllMessages st = (-1, st') ∧ st'.sock = .ofQueue queue' errno := by
  induction queue generalizing st with
  | nil =>
    rcases hodd with ⟨m, hm, -⟩
    simp at hm
  | cons m queue ih =>
    rw [recvAll_boundary h]
    by_cases hev : Even m.parts.length
    · rw [recvAll_even m.parts _ hev rfl]
      rcases hodd with ⟨m', hm', hodd'⟩
      rcases List.mem_cons.1 hm' with rfl | hm'
      · exact absurd hev hodd'
      · exact ih _ ⟨m', hm', hodd'⟩ rfl
    · obtain ⟨st', h1, h2⟩ := recvAll_odd m.parts { st with sock := ⟨m.parts, queue, errno, none⟩ } hev rfl
      exact ⟨st', queue, h1, h2⟩

end

end LearnCpp
