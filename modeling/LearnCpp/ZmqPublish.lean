import LearnCpp.ZmqSend

/-!
# Two threads on one publishing socket (`zermq_sub_test.cpp`)

`main2` and `main3` run in two threads and loop over `Send2Parts` calls on the same `pub_socket`: each
round sends a "boy" and a "girl" message with the thread's own data. Between the calls they only sleep and
poll sockets of their own, so a run is a schedule of their `zmq_msg_send`s, each one atomic step.
`publish_whole_iff`: every message emitted is the title and the data of one call, one message a call,
exactly when no data part goes out while both threads are between their two sends.
-/

namespace LearnCpp

inductive Thread
  | main2
  | main3
deriving DecidableEq, Repr

namespace Thread

def other : Thread → Thread
  | main2 => main3
  | main3 => main2

def boyData : Thread → Bytes
  | main2 => [1, 2, 3, 4, 5]
  | main3 => [6, 7, 8, 9, 10]

def girlData : Thread → Bytes
  | main2 => [5, 4, 3, 2, 1]
  | main3 => [10, 9, 8, 7, 6]

/-- The `k`-th `Send2Parts` call of the thread: "boy" and "girl" by turns. -/
def call (t : Thread) (k : ℕ) : Send :=
  if k % 2 = 0 then .send2Parts [98, 111, 121] (some t.boyData)
  else .send2Parts [103, 105, 114, 108] (some t.girlData)

end Thread

/-- Where a thread is: the calls it has completed, and whether it is between the two sends of the next. -/
structure Progress where
  calls : ℕ
  mid : Bool
deriving DecidableEq, Repr

/-- `pub_socket`, the two threads, and the calls completed so far in order of completion. -/
structure Publish where
  sock : SendSocket
  main2 : Progress
  main3 : Progress
  done : List (Thread × ℕ)
deriving DecidableEq, Repr

namespace Publish

def init : Publish := ⟨.fresh, ⟨0, false⟩, ⟨0, false⟩, []⟩

def thread (s : Publish) : Thread → Progress
  | .main2 => s.main2
  | .main3 => s.main3

def setThread (s : Publish) (t : Thread) (p : Progress) : Publish :=
  match t with
  | .main2 => { s with main2 := p }
  | .main3 => { s with main3 := p }

/-- The next `zmq_msg_send` of thread `t`: the title of a new call, or the data of the call it is in. -/
def step (s : Publish) (t : Thread) : Publish :=
  let p := s.thread t
  let c := t.call p.calls
  if p.mid then
    { s.setThread t ⟨p.calls + 1, false⟩ with
      sock := (zmqMsgSend true c.content false s.sock).2
      done := s.done ++ [(t, p.calls)] }
  else
    { s.setThread t ⟨p.calls, true⟩ with sock := (zmqMsgSend true c.title true s.sock).2 }

/-- The messages emitted are those of the completed calls, and each thread has completed its first
calls, each once. -/
structure Whole (s : Publish) : Prop where
  emitted : s.sock.emitted = s.done.map fun p => (p.1.call p.2).msg
  once : ∀ t, (s.done.filter fun p => p.1 = t).map Prod.snd = List.range (s.thread t).calls

/-- Thread `t` does not send its data while the other thread is between its two sends. -/
def Exclusive (s : Publish) (t : Thread) : Prop := ¬ ((s.thread t).mid = true ∧ (s.thread t.other).mid = true)

/-- `Whole`, and what is pending: the title of the one thread that is in a call, or both titles. -/
structure PubOk (s : Publish) : Prop where
  whole : s.Whole
  idle : (∀ t, (s.thread t).mid = false) → s.sock.pending = []
  single : ∀ t, (s.thread t).mid = true → (s.thread t.other).mid = false →
    s.sock.pending = [(t.call (s.thread t).calls).title]
  both : (∀ t, (s.thread t).mid = true) → s.sock.pending.length = 2

section
variable {s : Publish} {t : Thread} {p : Progress}

@[simp] theorem thread_setThread : (s.setThread t p).thread t = p := by cases t <;> rfl
@[simp] theorem thread_setThread_other : (s.setThread t p).thread t.other = s.thread t.other := by
  cases t <;> rfl
@[simp] theorem sock_setThread : (s.setThread t p).sock = s.sock := by cases t <;> rfl
@[simp] theorem done_setThread : (s.setThread t p).done = s.done := by cases t <;> rfl
@[simp] theorem other_other : t.other.other = t := by cases t <;> rfl

theorem eq_or_other (t u : Thread) : u = t ∨ u = t.other := by cases t <;> cases u <;> simp [Thread.other]

theorem other_ne (t : Thread) : t.other ≠ t := by cases t <;> simp [Thread.other]

theorem forall_thread {P : Thread → Prop} (t : Thread) (h : P t) (ho : P t.other) : ∀ u, P u := fun u => by
  rcases eq_or_other t u with rfl | rfl
  · exact h
  · exact ho

/-! ### One step -/

theorem thread_step_other : (s.step t).thread t.other = s.thread t.other := by
  unfold step
  cases t <;> dsimp only [thread, setThread, Thread.other] <;> split <;> rfl

theorem thread_step_title (h : (s.thread t).mid = false) : (s.step t).thread t = ⟨(s.thread t).calls, true⟩ := by
  simp only [step, h, Bool.false_eq_true, if_false]
  cases t <;> rfl

theorem sock_step_title (h : (s.thread t).mid = false) :
    (s.step t).sock =
      { s.sock with pending := s.sock.pending ++ [(t.call (s.thread t).calls).title] } := by
  simp only [step, h, Bool.false_eq_true, if_false, zmqMsgSend, if_true]

theorem done_step_title (h : (s.thread t).mid = false) : (s.step t).done = s.done := by
  simp only [step, h, Bool.false_eq_true, if_false, done_setThread]

theorem thread_step_data (h : (s.thread t).mid = true) :
    (s.step t).thread t = ⟨(s.thread t).calls + 1, false⟩ := by
  simp only [step, h, if_true]
  cases t <;> rfl

theorem sock_step_data (h : (s.thread t).mid = true) :
    (s.step t).sock =
      ⟨[], s.sock.emitted ++ [Msg.complete s.sock.pending (t.call (s.thread t).calls).content]⟩ := by
  simp only [step, h, if_true, zmqMsgSend, Bool.false_eq_true, if_false]

theorem done_step_data (h : (s.thread t).mid = true) :
    (s.step t).done = s.done ++ [(t, (s.thread t).calls)] := by
  simp only [step, h, if_true]

/-- Two steps of a thread in a row are one call of `Send2Parts`. -/
theorem step_step (h : (s.thread t).mid = false) (title data : Bytes)
    (hc : t.call (s.thread t).calls = .send2Parts title (some data)) :
    ((s.step t).step t).sock = (send2Parts true true s.sock title (some data)).2 := by
  have hmid : ((s.step t).thread t).mid = true := by rw [thread_step_title h]
  have hrun := Attempt.run_of_full (a := ⟨t.call (s.thread t).calls, true, true⟩) (s := s.sock) ⟨rfl, rfl⟩
  simp only [Attempt.run, hc] at hrun
  rw [sock_step_data hmid, sock_step_title h, thread_step_title h, hc, hrun]

theorem once_step (h : ∀ t, (s.done.filter fun p => p.1 = t).map Prod.snd = List.range (s.thread t).calls)
    (t : Thread) :
    ∀ u, ((s.step t).done.filter fun p => p.1 = u).map Prod.snd = List.range ((s.step t).thread u).calls := by
  cases hm : (s.thread t).mid with
  | false =>
    rw [done_step_title hm]
    refine forall_thread t ?_ ?_
    · rw [thread_step_title hm]; exact h t
    · rw [thread_step_other]; exact h t.other
  | true =>
    rw [done_step_data hm]
    refine forall_thread t ?_ ?_
    · rw [thread_step_data hm, List.filter_append, List.map_append, h t, List.range_succ]
      simp
    · rw [thread_step_other, List.filter_append, List.map_append, h t.other]
      simp [(other_ne t).symm]

namespace PubOk

theorem init : PubOk Publish.init := by
  refine ⟨⟨rfl, fun t => by cases t <;> rfl⟩, fun _ => rfl, ?_, ?_⟩
  · intro t ht
    cases t <;> exact absurd ht (by decide)
  · intro h
    exact absurd (h .main2) (by decide)

theorem step_title (h : PubOk s) (hm : (s.thread t).mid = false) : PubOk (s.step t) := by
  have hmid : ((s.step t).thread t).mid = true := by rw [thread_step_title hm]
  refine ⟨⟨?_, once_step h.whole.once t⟩, ?_, ?_, ?_⟩
  · rw [sock_step_title hm, done_step_title hm]
    exact h.whole.emitted
  · intro hidle
    exact absurd (hmid.symm.trans (hidle t)) (by decide)
  · intro u hu hou
    rcases eq_or_other t u with rfl | rfl
    · rw [thread_step_other] at hou
      rw [sock_step_title hm, thread_step_title hm, h.idle (forall_thread u hm hou)]
      rfl
    · rw [other_other, hmid] at hou
      cases hou
  · intro hboth
    have ho := hboth t.other
    rw [thread_step_other] at ho
    have hsingle := h.single t.other ho (by rw [other_other]; exact hm)
    rw [sock_step_title hm, hsingle]
    rfl

theorem step_data (h : PubOk s) (hm : (s.thread t).mid = true) (ho : (s.thread t.other).mid = false) :
    PubOk (s.step t) := by
  have hmid : ((s.step t).thread t).mid = false := by rw [thread_step_data hm]
  have homid : ((s.step t).thread t.other).mid = false := by rw [thread_step_other]; exact ho
  have hnone := forall_thread (P := fun u => ((s.step t).thread u).mid = false) t hmid homid
  refine ⟨⟨?_, once_step h.whole.once t⟩, ?_, ?_, ?_⟩
  · rw [sock_step_data hm, done_step_data hm, h.single t hm ho, h.whole.emitted, List.map_append]
    rfl
  · intro _
    rw [sock_step_data hm]
  · intro u hu
    exact absurd (hu.symm.trans (hnone u)) (by decide)
  · intro hboth
    exact absurd ((hboth t).symm.trans hmid) (by decide)

theorem step (h : PubOk s) (hx : s.Exclusive t) : PubOk (s.step t) := by
  cases hm : (s.thread t).mid with
  | false => exact h.step_title hm
  | true => exact h.step_data hm (Bool.eq_false_iff.2 fun ho => hx ⟨hm, ho⟩)

/-- With both titles pending, the data part completes a message of three parts. -/
theorem not_whole_step (h : PubOk s) (hm : (s.thread t).mid = true) (ho : (s.thread t.other).mid = true) :
    ¬ (s.step t).Whole := by
  intro hw
  have hlen := h.both (forall_thread t hm ho)
  have he := hw.emitted
  rw [sock_step_data hm, done_step_data hm, h.whole.emitted, List.map_append] at he
  have hmsg := congrArg Msg.parts (List.singleton_injective (List.append_cancel_left he))
  have := congrArg List.length hmsg
  rw [Msg.parts_complete, List.length_append, hlen] at this
  exact absurd this (by simp [Send.msg, Msg.parts])

end PubOk

end

/-- Under every schedule of the two threads' sends, every message emitted is the title and the data of
one call and every completed call has emitted one message, exactly when no thread sends a data part while
the other one is between its two sends. -/
theorem publish_whole_iff (schedule : List Thread) :
    Lts.Along (Lts.ofFun step) Whole init schedule ↔ Lts.StepsOk (Lts.ofFun step) Exclusive init schedule := by
  refine Lts.along_iff_stepsOk PubOk (fun _ => True) (fun s h => h.whole) ?_ ?_ (fun _ _ => trivial) PubOk.init
  · rintro s t s' - h rfl hx
    exact h.step hx
  · intro s t _ h hx
    obtain ⟨hm, ho⟩ := Classical.not_not.1 hx
    exact ⟨_, rfl, h.not_whole_step hm ho⟩

/-- Both threads send the title "boy", then `main2` its data: one message of three parts. -/
theorem titles_crossed :
    ([.main2, .main3, .main2].foldl step init).sock.emitted =
        [⟨[98, 111, 121], [[98, 111, 121], [1, 2, 3, 4, 5]]⟩] ∧
      ¬ Lts.Along (Lts.ofFun step) Whole init [.main2, .main3, .main2] := by
  refine ⟨by decide, fun h => ?_⟩
  have hw := h _ _ List.prefix_rfl (Lts.run_ofFun.2 rfl)
  exact absurd hw.emitted (by decide)

end Publish

end LearnCpp
