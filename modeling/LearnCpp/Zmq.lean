import LearnCpp.Bytes
import Mathlib.Data.List.Basic

/-!
# What the code relies on in libzmq

Messages are multipart and atomic. A sending socket keeps the parts sent with `ZMQ_SNDMORE` pending
until a send without the flag completes the message; a failing send changes nothing. A receiving socket
hands out an in-order queue of messages part by part, and `ZMQ_RCVMORE` tells whether the part just
read has a successor in its message. `ZMQ_DONTWAIT` receives fail with `EAGAIN` when nothing is queued.
-/

namespace LearnCpp

structure Msg where
  first : Bytes
  rest : List Bytes
deriving DecidableEq, Repr

namespace Msg

def parts (m : Msg) : List Bytes := m.first :: m.rest

/-- The message of the pending parts and a last one. -/
def complete : List Bytes → Bytes → Msg
  | [], last => ⟨last, []⟩
  | p :: ps, last => ⟨p, ps ++ [last]⟩

@[simp] theorem parts_complete (ps : List Bytes) (last : Bytes) : (complete ps last).parts = ps ++ [last] := by
  cases ps <;> rfl

end Msg

/-- The sending side: the parts pending, and the messages emitted so far in order. -/
structure SendSocket where
  pending : List Bytes
  emitted : List Msg
deriving DecidableEq, Repr

def SendSocket.fresh : SendSocket := ⟨[], []⟩

/-- `zmq_msg_send` of a message holding `part`; `ok` says whether it succeeds. It returns the size of the
part or `-1`. -/
def zmqMsgSend (ok : Bool) (part : Bytes) (sndmore : Bool) (s : SendSocket) : Int × SendSocket :=
  if ok then
    (part.length,
      if sndmore then { s with pending := s.pending ++ [part] }
      else ⟨[], s.emitted ++ [Msg.complete s.pending part]⟩)
  else (-1, s)

def EAGAIN : Int := 11

/-- The receiving side: the unread parts of the message being read (none at a message boundary), the
messages behind it, the last `errno`, and the error every receive fails with once the socket is broken. -/
structure RecvSocket where
  cur : List Bytes
  queue : List Msg
  errno : Int
  broken : Option Int
deriving DecidableEq, Repr

namespace RecvSocket

def ofQueue (queue : List Msg) (errno : Int) : RecvSocket := ⟨[], queue, errno, none⟩

def AtBoundary (s : RecvSocket) : Prop := s.cur = []

instance (s : RecvSocket) : Decidable s.AtBoundary := inferInstanceAs (Decidable (s.cur = []))

def partsLeft (s : RecvSocket) : ℕ := s.cur.length + (s.queue.map fun m => m.parts.length).sum

/-- `ZMQ_RCVMORE` after a successful receive. -/
def rcvMore (s : RecvSocket) : Bool := !s.cur.isEmpty

end RecvSocket

/-- `zmq_msg_recv` with `ZMQ_DONTWAIT`: the part read, or `none` for `-1` with `errno` set. -/
def zmqMsgRecv (s : RecvSocket) : Option Bytes × RecvSocket :=
  match s.broken, s.cur, s.queue with
  | some e, _, _ => (none, { s with errno := e })
  | none, p :: ps, _ => (some p, { s with cur := ps })
  | none, [], m :: ms => (some m.first, { s with cur := m.rest, queue := ms })
  | none, [], [] => (none, { s with errno := EAGAIN })

theorem zmqMsgRecv_partsLeft {s s' : RecvSocket} {p : Bytes} (h : zmqMsgRecv s = (some p, s')) :
    s'.partsLeft + 1 = s.partsLeft := by
  rcases s with ⟨cur, queue, errno, broken⟩
  unfold zmqMsgRecv at h
  split at h <;> simp only [Prod.mk.injEq, Option.some.injEq, reduceCtorEq, false_and] at h
  · next hcur =>
    rcases h with ⟨-, rfl⟩
    cases hcur
    simp only [RecvSocket.partsLeft, List.length_cons]
    omega
  · next hcur hqueue =>
    rcases h with ⟨-, rfl⟩
    cases hcur
    cases hqueue
    simp only [RecvSocket.partsLeft, List.map_cons, List.sum_cons, Msg.parts, List.length_cons, List.length_nil]
    omega

end LearnCpp
