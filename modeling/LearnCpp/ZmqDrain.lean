import LearnCpp.ZmqAlign

/-!
# Draining one by one

A caller that takes the messages with `Recv2Parts`, one by one, can tell an empty queue from a message only by what it
was given: both are answered with `0`. A message whose title and content are both empty ends the draining, with the
messages behind it left in the queue; on every other queue of two-part messages the caller gets what one
`RecvAllMessages` would have given (`drain_agrees`).
-/

namespace LearnCpp

def Msg.twoParts (p : Bytes × Bytes) : Msg := ⟨p.1, [p.2]⟩

/-- The caller: its socket, and the pairs it has got. -/
structure Drain where
  sock : RecvSocket
  pairs : List (Bytes × Bytes)
deriving DecidableEq, Repr

/-- One `Recv2Parts`; nothing was available when it returns `0` with both parts empty, and any other result than
`0` is passed on. -/
def drainBody (st : Drain) : Drain ⊕ (Int × Drain) :=
  match recv2Parts st.sock with
  | (r, s) =>
    if r.rc = 0 then
      if r.title = [] ∧ r.content = [] then .inr (0, { st with sock := s })
      else .inl ⟨s, st.pairs ++ [(r.title, r.content)]⟩
    else .inr (r.rc, { st with sock := s })

theorem recv2Parts_partsLeft {s s' : RecvSocket} {r : Received} (h : recv2Parts s = (r, s')) (hrc : r.rc = 0)
    (hne : ¬ (r.title = [] ∧ r.content = [])) : s'.partsLeft < s.partsLeft := by
  unfold recv2Parts at h
  split at h
  · split at h <;> cases h
    · exact absurd ⟨rfl, rfl⟩ hne
    · cases hrc
  · next title s₁ hs₁ =>
    have h₁ := zmqMsgRecv_partsLeft hs₁
    split at h
    · cases h
      cases hrc
    · split at h
      · cases h
        cases hrc
      · next content s₂ hs₂ =>
        have h₂ := zmqMsgRecv_partsLeft hs₂
        cases h
        omega

theorem drainBody_lowers : Loop.Lowers drainBody fun st => st.sock.partsLeft := by
  intro st st' h
  unfold drainBody at h
  split at h
  next r s hr =>
  split at h
  · next hrc =>
    split at h
    · cases h
    · next hne =>
      cases h
      exact recv2Parts_partsLeft hr hrc hne
  · cases h

/-- `Recv2Parts` called until it reports that nothing was available. -/
def drain (st : Drain) : Int × Drain := Loop.total drainBody (fun st => st.sock.partsLeft) drainBody_lowers st

/-- Draining one by one gives the pairs, and leaves the queue, that one `RecvAllMessages` does. -/
def DrainsAlike (s : RecvSocket) : Prop :=
  ∀ titles contents errNum,
    (recvAllMessages ⟨s, titles, contents, errNum⟩).1 = (drain ⟨s, []⟩).1 ∧
    (recvAllMessages ⟨s, titles, contents, errNum⟩).2.titles = titles ++ (drain ⟨s, []⟩).2.pairs.map Prod.fst ∧
    (recvAllMessages ⟨s, titles, contents, errNum⟩).2.contents = contents ++ (drain ⟨s, []⟩).2.pairs.map Prod.snd ∧
    (recvAllMessages ⟨s, titles, contents, errNum⟩).2.sock = (drain ⟨s, []⟩).2.sock

section
variable {p : Bytes × Bytes} {ps pre post got : List (Bytes × Bytes)} {queue : List Msg} {errno : Int}

/-! ### One message -/

theorem drain_empty : drain ⟨.ofQueue [] errno, got⟩ = (0, ⟨.ofQueue [] EAGAIN, got⟩) :=
  Loop.total_inr _ rfl

theorem drain_blank :
    drain ⟨.ofQueue (.twoParts ([], []) :: queue) errno, got⟩ = (0, ⟨.ofQueue queue errno, got⟩) :=
  Loop.total_inr _ rfl

theorem drain_twoParts (hp : p ≠ ([], [])) :
    drain ⟨.ofQueue (.twoParts p :: queue) errno, got⟩ = drain ⟨.ofQueue queue errno, got ++ [p]⟩ := by
  refine Loop.total_inl _ ?_
  have hne : ¬ (p.1 = [] ∧ p.2 = []) := fun h => hp (Prod.ext h.1 h.2)
  simp only [drainBody, Msg.twoParts, recv2Parts_more, if_true]
  exact if_neg hne

/-! ### Whole queues -/

theorem drain_append (hps : ([], []) ∉ ps) :
    drain ⟨.ofQueue (ps.map .twoParts ++ queue) errno, got⟩ = drain ⟨.ofQueue queue errno, got ++ ps⟩ := by
  induction ps generalizing got with
  | nil => simp
  | cons p ps ih =>
    obtain ⟨hp, hps⟩ := not_or.1 fun h => hps (List.mem_cons.2 h)
    rw [List.map_cons, List.cons_append, drain_twoParts (Ne.symm hp), ih hps, List.append_assoc]
    rfl

theorem drain_stops (hpre : ([], []) ∉ pre) :
    drain ⟨.ofQueue ((pre ++ ([], []) :: post).map .twoParts) errno, []⟩ =
      (0, ⟨.ofQueue (post.map .twoParts) errno, pre⟩) := by
  rw [List.map_append, List.map_cons, drain_append hpre, drain_blank]
  rfl

theorem pairsOf_twoParts (ps : List (Bytes × Bytes)) : pairsOf (ps.map .twoParts) = ps := by
  induction ps with
  | nil => rfl
  | cons p ps ih =>
    rw [List.map_cons, pairsOf, List.flatMap_cons, ← pairsOf, ih]
    rfl

theorem recvAll_twoParts (st : RecvAll) (h : st.sock = .ofQueue (ps.map .twoParts) errno) :
    recvAllMessages st = (0, { st.push ps with sock := .ofQueue [] EAGAIN, errNum := EAGAIN }) := by
  have heven : ∀ m ∈ ps.map Msg.twoParts, Even m.parts.length := by
    intro m hm
    obtain ⟨p, -, rfl⟩ := List.mem_map.1 hm
    exact ⟨1, rfl⟩
  rw [recvAll_queue_even _ st heven h, pairsOf_twoParts]

theorem drainsAlike_iff : DrainsAlike (.ofQueue (ps.map .twoParts) errno) ↔ ([], []) ∉ ps := by
  constructor
  · intro h hmem
    obtain ⟨pre, post, rfl, hpre⟩ := List.eq_append_cons_of_mem hmem
    have htitles := (h [] [] 0).2.1
    rw [recvAll_twoParts _ rfl, drain_stops hpre] at htitles
    have hlen := congrArg List.length htitles
    simp [RecvAll.push] at hlen
  · intro hps titles contents errNum
    have hdrain : drain ⟨.ofQueue (ps.map .twoParts) errno, []⟩ = (0, ⟨.ofQueue [] EAGAIN, ps⟩) := by
      rw [← List.append_nil (ps.map Msg.twoParts), drain_append hps, drain_empty]
      rfl
    rw [recvAll_twoParts _ rfl, hdrain]
    exact ⟨rfl, rfl, rfl, rfl⟩

end

/-- On every queue of two-part messages: draining one by one is draining at once exactly when no message has both
parts empty; otherwise it ends at the first that has, with the messages in front of it handed out and the ones
behind it left. -/
theorem drain_agrees (ps : List (Bytes × Bytes)) (errno : Int) :
    (DrainsAlike (.ofQueue (ps.map .twoParts) errno) ↔ ([], []) ∉ ps) ∧
      ∀ pre post, ps = pre ++ ([], []) :: post → ([], []) ∉ pre →
        drain ⟨.ofQueue (ps.map .twoParts) errno, []⟩ = (0, ⟨.ofQueue (post.map .twoParts) errno, pre⟩) := by
  refine ⟨drainsAlike_iff, ?_⟩
  rintro pre post rfl hpre
  exact drain_stops hpre

/-- A blank message before another one: nothing is handed out, and the other one stays in the queue. -/
theorem blank_ends_drain :
    drain ⟨.ofQueue [.twoParts ([], []), .twoParts ([97], [98])] 0, []⟩ =
        (0, ⟨.ofQueue [.twoParts ([97], [98])] 0, []⟩) ∧
      ¬ DrainsAlike (.ofQueue [.twoParts ([], []), .twoParts ([97], [98])] 0) := by
  refine ⟨drain_blank, fun h => ?_⟩
  have hmem : ([], []) ∉ [(([], []) : Bytes × Bytes), ([97], [98])] := drainsAlike_iff.1 h
  exact hmem (by simp)

end LearnCpp
