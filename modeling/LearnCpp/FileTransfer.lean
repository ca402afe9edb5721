import LearnCpp.IStream
import LearnCpp.Text

/-!
# The file transfer (`main1` of `zermq_req_test` and of `zermq_rep_test`)

The client sends a start text, then one 256-byte buffer for each `getline` on `test.txt`, then an end text,
and waits for an answer after each; the server appends what it gets to `recv.txt`, starts the file anew at the
start text and stops at the end text. Of libzmq the model has the alternation of a REQ socket, on which a
`zmq_send` that is not its turn returns `-1` and sends nothing, and in-order delivery both ways; the results
of the sends are ignored as in the code. A step of the system is one of the client up to its next socket call, or
one of the server; a step of a blocked party changes nothing.
-/

namespace LearnCpp

namespace FileTransfer

/-! ### The two programs -/

def beginStr : Bytes := chars "Start the config file transfer"

def endStr : Bytes := chars "Configuration file transfer complete"

/-- Where the client is: at the head of its loop, before `getline`, before the answer, and the same for the end
text. -/
inductive ClientPc
  | loop
  | line
  | recv
  | sendEnd
  | recvEnd
  | done
deriving DecidableEq, Repr

/-- Where the server is: at the poll, or about to answer a message of the given length. It is `done` after the end
text, and `failed` when a poll failed. -/
inductive ServerPc
  | poll
  | answer (recvLen : ℕ)
  | done
  | failed
deriving DecidableEq, Repr

/-- The client with its REQ socket, which is `awaiting` an answer or not, the messages under way in either
direction, and the server with its file. -/
structure Sys where
  client : ClientPc
  is : IStream
  beginFlag : Bool
  sendBuffer : Bytes
  awaiting : Bool
  wire : List Bytes
  back : List Bytes
  server : ServerPc
  finishFlag : Bool
  outOpen : Bool
  recvTxt : Bytes
deriving DecidableEq, Repr

namespace Sys

def init (file : Bytes) : Sys where
  client := .loop
  is := .open file
  beginFlag := true
  sendBuffer := List.replicate 256 0
  awaiting := false
  wire := []
  back := []
  server := .poll
  finishFlag := false
  outOpen := true
  recvTxt := []

def zmqSend (s : Sys) (msg : Bytes) : Sys :=
  if s.awaiting then s else { s with awaiting := true, wire := s.wire ++ [msg] }

/-- `zmq_recv` on the REQ socket and the step to `pc` behind it: it fails at once when no answer is due, and blocks
until there is one. -/
def zmqRecv (s : Sys) (pc : ClientPc) : Sys :=
  if s.awaiting then
    match s.back with
    | [] => s
    | _ :: back => { s with awaiting := false, back := back, client := pc }
  else { s with client := pc }

def clientStep (s : Sys) : Sys :=
  match s.client with
  | .loop =>
    if s.is.eofbit then { s with client := .sendEnd }
    else
      let s := if s.beginFlag then { s.zmqSend beginStr with beginFlag := false } else s
      { s with client := .line }
  | .line =>
    let (sendBuffer, is) := s.is.getline s.sendBuffer 256
    { ({ s with is := is, sendBuffer := sendBuffer } : Sys).zmqSend sendBuffer with client := .recv }
  | .recv => s.zmqRecv .loop
  | .sendEnd => { s.zmqSend endStr with client := .recvEnd }
  | .recvEnd => s.zmqRecv .done
  | .done => s

/-- The server's `buffer` after `memset` and `zmq_recv`. -/
def received (msg : Bytes) : Bytes := msg.take 256 ++ List.replicate (256 - msg.length) 0

def handle (s : Sys) (buffer : Bytes) : Sys :=
  if cstr buffer = beginStr then { s with recvTxt := [], outOpen := true }
  else if cstr buffer = endStr then { s with finishFlag := true, outOpen := false }
  else if s.outOpen then { s with recvTxt := s.recvTxt ++ cstr buffer ++ [newline] }
  else s

/-- `sprintf(str, "recv ok recv_len :%d", recv_len)`. -/
def answer (recvLen : ℕ) : Bytes := chars "recv ok recv_len :" ++ chars (toString recvLen)

def serverStep (s : Sys) : Sys :=
  match s.server with
  | .poll =>
    if s.finishFlag then { s with server := .done }
    else
      match s.wire with
      | [] => s
      | msg :: wire => { ({ s with wire := wire } : Sys).handle (received msg) with server := .answer msg.length }
  | .answer recvLen => { s with back := s.back ++ [answer recvLen], server := .poll }
  | .done => s
  | .failed => s

/-- `zmq_poll` fails, and the server returns `-1`. -/
def pollFails (s : Sys) : Sys :=
  if s.server = .poll ∧ s.finishFlag = false then { s with server := .failed } else s

end Sys

inductive Move
  | client
  | server
  | pollFails
deriving DecidableEq, Repr

def Sys.step (s : Sys) : Move → Sys
  | .client => s.clientStep
  | .server => s.serverStep
  | .pollFails => s.pollFails

def run (file : Bytes) (moves : List Move) : Sys := moves.foldl Sys.step (.init file)

def Sys.Finished (s : Sys) : Prop := s.client = .done ∧ (s.server = .done ∨ s.server = .failed)

instance : DecidablePred Sys.Finished := fun s => inferInstanceAs (Decidable (s.client = .done ∧ _))

end FileTransfer

end LearnCpp
