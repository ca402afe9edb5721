import LearnCpp.MyZmq
import LearnCpp.Lib.Lts

/-!
# Sending two parts with failures

A call sends its title with `ZMQ_SNDMORE` and then its content. When the title goes out and the content
fails (`Attempt.Half`) the call returns an error, but the title stays pending on the socket and heads the
next message that is completed. `sends_atomic_iff`: the messages emitted are the two parts of the calls
that returned `0`, in order, exactly when no such call is followed by one that sends both its parts.
-/

namespace LearnCpp

inductive Send
  | send2Parts (title : Bytes) (data : Option Bytes)
  | send2Strings (title content : Bytes)
deriving DecidableEq, Repr

namespace Send

def title : Send → Bytes
  | send2Parts title _ => title
  | send2Strings title _ => title

/-- The second part as it goes on the wire: for an empty string `Send2Strings` sends one NUL byte. -/
def content : Send → Bytes
  | send2Parts _ data => data.getD []
  | send2Strings _ content => if content.isEmpty then [0] else content

def msg (c : Send) : Msg := ⟨c.title, [c.content]⟩

end Send

/-- A call and the outcomes of its two `zmq_msg_send`s. -/
structure Attempt where
  call : Send
  okTitle : Bool
  okContent : Bool
deriving DecidableEq, Repr

namespace Attempt

def run (s : SendSocket) (a : Attempt) : Int × SendSocket :=
  match a.call with
  | .send2Parts title data => LearnCpp.send2Parts a.okTitle a.okContent s title data
  | .send2Strings title content => LearnCpp.send2Strings a.okTitle a.okContent s title content

def Full (a : Attempt) : Prop := a.okTitle = true ∧ a.okContent = true

def Half (a : Attempt) : Prop := a.okTitle = true ∧ a.okContent = false

variable {a : Attempt} {s : SendSocket}

theorem run_eq (a : Attempt) (s : SendSocket) :
    a.run s =
      if a.okTitle then
        if a.okContent then (0, ⟨[], s.emitted ++ [Msg.complete (s.pending ++ [a.call.title]) a.call.content]⟩)
        else (-1, { s with pending := s.pending ++ [a.call.title] })
      else (-1, s) := by
  rcases a with ⟨call, okTitle, okContent⟩
  have hlen : ∀ p : Bytes, ¬ (p.length : Int) < 0 := fun p => by omega
  have hneg : (-1 : Int) < 0 := by decide
  cases call with
  | send2Parts title data =>
    cases okTitle <;> cases okContent <;> cases data <;>
      simp only [run, send2Parts, zmqMsgSend, hlen, hneg, if_true, if_false, Bool.false_eq_true] <;> rfl
  | send2Strings title content =>
    cases okTitle <;> cases okContent <;> cases content <;>
      simp only [run, send2Strings, zmqMsgSend, hlen, hneg, if_true, if_false, Bool.false_eq_true,
        List.isEmpty_nil, List.isEmpty_cons, Bool.not_true, Bool.not_false] <;> rfl

theorem run_of_full (h : a.Full) :
    a.run s = (0, ⟨[], s.emitted ++ [Msg.complete (s.pending ++ [a.call.title]) a.call.content]⟩) := by
  rw [run_eq, if_pos h.1, if_pos h.2]

theorem run_of_half (h : a.Half) : a.run s = (-1, { s with pending := s.pending ++ [a.call.title] }) := by
  rw [run_eq, if_pos h.1, h.2]; rfl

theorem run_of_no_title (h : a.okTitle = false) : a.run s = (-1, s) := by
  rw [run_eq, h]; rfl

theorem cases_outcome (a : Attempt) : a.okTitle = false ∨ a.Half ∨ a.Full := by
  unfold Half Full
  cases a.okTitle <;> cases a.okContent <;> simp

theorem not_full_of_half (h : a.Half) : ¬ a.Full := fun hf => Bool.false_ne_true (h.2.symm.trans hf.2)

theorem not_full_of_no_title (h : a.okTitle = false) : ¬ a.Full := fun hf =>
  Bool.false_ne_true (h.symm.trans hf.1)

end Attempt

/-- A sequence of calls on one socket: the return codes and the socket afterwards. -/
def sendAll (s : SendSocket) (as : List Attempt) : List Int × SendSocket :=
  Lts.runTotal (fun s (a : Attempt) => a.run s) s as

/-- The two parts of every call that returned `0`, in call order. -/
def returnedZero (as : List Attempt) (codes : List Int) : List (List Bytes) :=
  ((as.zip codes).filter fun p => p.2 = 0).map fun p => [p.1.call.title, p.1.call.content]

/-- From the socket `s` on, the messages emitted are the two parts, as they go on the wire, of the calls that return
`0`. -/
def SendsAtomic (s : SendSocket) (as : List Attempt) : Prop :=
  (sendAll s as).2.emitted.map Msg.parts =
    s.emitted.map Msg.parts ++ returnedZero as (sendAll s as).1

section
variable {a : Attempt} {as : List Attempt} {s : SendSocket}

theorem sendAll_cons :
    sendAll s (a :: as) = ((a.run s).1 :: (sendAll (a.run s).2 as).1, (sendAll (a.run s).2 as).2) := rfl

theorem returnedZero_cons (c : Int) (cs : List Int) :
    returnedZero (a :: as) (c :: cs) =
      (if c = 0 then [[a.call.title, a.call.content]] else []) ++ returnedZero as cs := by
  by_cases hc : c = 0 <;> simp [returnedZero, hc]

theorem emitted_prefix (s : SendSocket) (as : List Attempt) : s.emitted <+: (sendAll s as).2.emitted := by
  induction as generalizing s with
  | nil => exact List.prefix_rfl
  | cons a as ih =>
    refine List.IsPrefix.trans ?_ (ih (a.run s).2)
    rcases a.cases_outcome with h | h | h
    · rw [Attempt.run_of_no_title h]
    · rw [Attempt.run_of_half h]
    · rw [Attempt.run_of_full h]
      exact List.prefix_append _ _

theorem sendsAtomic_cons_of_error {t : SendSocket} (h : a.run s = (-1, t)) (ht : t.emitted = s.emitted) :
    SendsAtomic s (a :: as) ↔ SendsAtomic t as := by
  unfold SendsAtomic
  rw [sendAll_cons, h, returnedZero_cons, ht]
  rfl

theorem sendsAtomic_cons_of_full (h : a.Full) (hp : s.pending = []) :
    SendsAtomic s (a :: as) ↔ SendsAtomic ⟨[], s.emitted ++ [a.call.msg]⟩ as := by
  unfold SendsAtomic
  rw [sendAll_cons, Attempt.run_of_full h, returnedZero_cons, hp]
  simp only [List.nil_append, Msg.complete, if_true, List.map_append, List.append_assoc]
  rfl

/-- With parts pending, a call that sends both parts emits them as well. -/
theorem not_sendsAtomic_of_full (h : a.Full) (hp : s.pending ≠ []) : ¬ SendsAtomic s (a :: as) := by
  intro hat
  unfold SendsAtomic at hat
  rw [sendAll_cons, Attempt.run_of_full h, returnedZero_cons, if_pos rfl] at hat
  obtain ⟨ms, hms⟩ := emitted_prefix
    ⟨[], s.emitted ++ [Msg.complete (s.pending ++ [a.call.title]) a.call.content]⟩ as
  rw [← hms] at hat
  simp only [List.map_append, List.append_assoc, List.append_cancel_left_eq, List.map_cons,
    Msg.parts_complete, List.cons_append, List.nil_append, List.cons.injEq] at hat
  have := congrArg List.length hat.1
  simp only [List.length_append, List.length_cons, List.length_nil] at this
  have := List.length_pos_of_ne_nil hp
  omega

/-- Once a part is pending, atomicity needs that no call completes a message any more. -/
theorem sendsAtomic_of_pending (as : List Attempt) (s : SendSocket) (hp : s.pending ≠ []) :
    SendsAtomic s as ↔ ∀ a ∈ as, ¬ a.Full := by
  induction as generalizing s with
  | nil => simp [SendsAtomic, sendAll, Lts.runTotal, returnedZero]
  | cons a as ih =>
    rw [List.forall_mem_cons]
    rcases a.cases_outcome with h | h | h
    · rw [sendsAtomic_cons_of_error (Attempt.run_of_no_title h) rfl, ih s hp,
        and_iff_right (Attempt.not_full_of_no_title h)]
    · rw [sendsAtomic_cons_of_error (Attempt.run_of_half h) rfl, ih _ (by simp),
        and_iff_right (Attempt.not_full_of_half h)]
    · exact iff_of_false (not_sendsAtomic_of_full h hp) fun hf => hf.1 h

theorem sendsAtomic_of_not_pending (as : List Attempt) (s : SendSocket) (hp : s.pending = []) :
    SendsAtomic s as ↔ as.Pairwise fun a b => a.Half → ¬ b.Full := by
  induction as generalizing s with
  | nil => simp [SendsAtomic, sendAll, Lts.runTotal, returnedZero]
  | cons a as ih =>
    rw [List.pairwise_cons]
    rcases a.cases_outcome with h | h | h
    · have hnot : ¬ a.Half := fun hh => Bool.false_ne_true (h.symm.trans hh.1)
      rw [sendsAtomic_cons_of_error (Attempt.run_of_no_title h) rfl, ih s hp,
        and_iff_right fun b _ hh => absurd hh hnot]
    · rw [sendsAtomic_cons_of_error (Attempt.run_of_half h) rfl, sendsAtomic_of_pending as _ (by simp)]
      refine ⟨fun hf => ⟨fun b hb _ => hf b hb, ?_⟩, fun hf b hb => hf.1 b hb h⟩
      exact List.Pairwise.imp_of_mem (R := fun _ _ => True) (fun _ hb _ _ => hf _ hb)
        (List.pairwise_of_forall fun _ _ => trivial)
    · have hnot : ¬ a.Half := fun hh => Attempt.not_full_of_half hh h
      rw [sendsAtomic_cons_of_full h hp, ih _ rfl, and_iff_right fun b _ hh => absurd hh hnot]

end

/-- On a fresh socket every message emitted is the two parts of one call that returned `0`, in call
order, exactly when no call that sends its title and fails on its content comes before a call that
sends both parts. -/
theorem sends_atomic_iff (as : List Attempt) :
    SendsAtomic .fresh as ↔ as.Pairwise fun a b => a.Half → ¬ b.Full :=
  sendsAtomic_of_not_pending as .fresh rfl

/-- `Send2Parts("a", {1})` failing on its data, then `Send2Parts("b", {2})` succeeding: one message of
three parts. -/
theorem half_then_full :
    sendAll .fresh [⟨.send2Parts [97] (some [1]), true, false⟩, ⟨.send2Parts [98] (some [2]), true, true⟩] =
        ([-1, 0], ⟨[], [⟨[97], [[98], [2]]⟩]⟩) ∧
      ¬ SendsAtomic .fresh
        [⟨.send2Parts [97] (some [1]), true, false⟩, ⟨.send2Parts [98] (some [2]), true, true⟩] :=
  ⟨by decide, fun h => absurd h (by unfold SendsAtomic; decide)⟩

end LearnCpp
