import LearnCpp.Zmq
import LearnCpp.Lib.Loop

/-!
# `MyZmq.h`

Two-part messages: a title and its data. `Send2Parts` and `Send2Strings` write them, `Recv2Parts` reads
one and `RecvAllMessages` all that are queued.
-/

namespace LearnCpp

/-- `Send2Parts(s, title, data, dataLen)`; `none` is a null `data`. `okTitle` and `okData` are the outcomes
of its two `zmq_msg_send`s. -/
def send2Parts (okTitle okData : Bool) (s : SendSocket) (title : Bytes) (data : Option Bytes) :
    Int × SendSocket :=
  let (rc, s) := zmqMsgSend okTitle title true s
  if rc < 0 then (rc, s)
  else
    match data with
    | some data =>
      let (rc, s) := zmqMsgSend okData data false s
      if rc < 0 then (rc, s) else (0, s)
    | none =>
      let (rc, s) := zmqMsgSend okData [] false s
      if rc < 0 then (rc, s) else (0, s)

/-- `Send2Strings(s, title, content)`: an empty content is sent as one NUL byte. -/
def send2Strings (okTitle okContent : Bool) (s : SendSocket) (title content : Bytes) : Int × SendSocket :=
  let (rc, s) := zmqMsgSend okTitle title true s
  if rc < 0 then (rc, s)
  else if !content.isEmpty then
    let (rc, s) := zmqMsgSend okContent content false s
    if rc < 0 then (rc, s) else (0, s)
  else
    let (rc, s) := zmqMsgSend okContent [0] false s
    if rc < 0 then (rc, s) else (0, s)

structure Received where
  rc : Int
  title : Bytes
  content : Bytes
deriving DecidableEq, Repr

def recv2Parts (s : RecvSocket) : Received × RecvSocket :=
  match zmqMsgRecv s with
  | (none, s) => if s.errno = EAGAIN then (⟨0, [], []⟩, s) else (⟨-1, [], []⟩, s)
  | (some title, s) =>
    if !s.rcvMore then (⟨-1, title, []⟩, s)
    else
      match zmqMsgRecv s with
      | (none, s) => (⟨-1, title, []⟩, s)
      | (some content, s) => (⟨0, title, content⟩, s)

structure RecvAll where
  sock : RecvSocket
  titles : List Bytes
  contents : List Bytes
  errNum : Int
deriving DecidableEq, Repr

/-- One round of its loop; it is left with the return value. -/
def recvAllBody (st : RecvAll) : RecvAll ⊕ (Int × RecvAll) :=
  match zmqMsgRecv st.sock with
  | (none, s) =>
    if s.errno = EAGAIN then .inr (0, { st with sock := s, errNum := s.errno })
    else .inr (-1, { st with sock := s, errNum := s.errno })
  | (some title, s) =>
    if !s.rcvMore then .inr (-1, { st with sock := s, errNum := s.errno })
    else
      match zmqMsgRecv s with
      | (none, s) => .inr (-1, { st with sock := s, errNum := s.errno })
      | (some content, s) =>
        .inl { st with sock := s, titles := st.titles ++ [title], contents := st.contents ++ [content] }

theorem recvAllBody_lowers : Loop.Lowers recvAllBody fun st => st.sock.partsLeft := by
  intro st st' h
  unfold recvAllBody at h
  split at h
  · split at h <;> cases h
  · next title s hs =>
    have h1 := zmqMsgRecv_partsLeft hs
    split at h
    · cases h
    · split at h
      · cases h
      · next content s' hs' =>
        have h2 := zmqMsgRecv_partsLeft hs'
        cases h
        show s'.partsLeft < st.sock.partsLeft
        omega

/-- `RecvAllMessages(s, titles, contents, errNum)`. -/
def recvAllMessages (st : RecvAll) : Int × RecvAll :=
  Loop.total recvAllBody (fun st => st.sock.partsLeft) recvAllBody_lowers st

end LearnCpp
