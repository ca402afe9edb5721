import LearnCpp.FileTransfer
import Mathlib.Data.List.Induction

/-!
# What the file transfer delivers

On a file with lines of at most 255 bytes and no NUL, the client's `getline`s store the segments of the file one
by one. The second `zmq_send` of the first round is out of turn, so the first segment is never sent: what
the server gets is `script`, the start text, the other segments and the end text. `Inv` says how much of
it is handled, under way and yet to be sent in every state; so when both have finished the server's file is what
it makes of the segments but the first (`finished_recvTxt`), which they do unless one of these is the end
text (`finishes`). `transfer_faithful_iff` says when that is the lines of the file.
-/

namespace LearnCpp.FileTransfer

open Lines IStream

variable {file : Bytes} {s : Sys} {handled todo ls ms : List Bytes}

def text (msg : Bytes) : Bytes := cstr (Sys.received msg)

theorem text_store {line buf : Bytes} (hlen : line.length ≤ 255) (h0 : 0 ∉ line) (hbuf : buf.length = 256) :
    text (IStream.store line buf) = line := by
  have hstore := length_store hlen hbuf
  rw [text, Sys.received, hstore, List.take_of_length_le (by omega), Nat.sub_self, List.replicate_zero,
    List.append_nil, IStream.store, cstr_append_nul h0]

theorem beginStr_ne_endStr : beginStr ≠ endStr := by decide

theorem text_beginStr : text beginStr = beginStr := by decide

theorem text_endStr : text endStr = endStr := by decide

/-- The texts the client gets to send. -/
def script (file : Bytes) : List Bytes := beginStr :: (file.splitOn newline).tail ++ [endStr]

def handleText (txt m : Bytes) : Bytes :=
  if m = beginStr then [] else if m = endStr then txt else txt ++ m ++ [newline]

def replay (ms : List Bytes) : Bytes := ms.foldl handleText []

def tokens (wire back : List Bytes) (server : ServerPc) : ℕ :=
  wire.length + back.length + match server with
    | .answer _ => 1
    | _ => 0

/-- What the client has yet to send in each place of its program. -/
def ClientAt (file : Bytes) (is : IStream) (beginFlag awaiting : Bool) (todo : List Bytes) : ClientPc → Prop
  | .loop => awaiting = false ∧
      (beginFlag = true ∧ is = .open file ∧ todo = script file ∨
        beginFlag = false ∧ ∃ ls, Left is ls ∧ todo = ls ++ [endStr])
  | .line => beginFlag = false ∧ is.eofbit = false ∧
      (awaiting = true ∧ is = .open file ∧ todo = (file.splitOn newline).tail ++ [endStr] ∨
        awaiting = false ∧ ∃ ls, Left is ls ∧ todo = ls ++ [endStr])
  | .recv => awaiting = true ∧ beginFlag = false ∧ ∃ ls, Left is ls ∧ todo = ls ++ [endStr]
  | .sendEnd => awaiting = false ∧ todo = [endStr]
  | .recvEnd => awaiting = true ∧ todo = []
  | .done => awaiting = false ∧ todo = []

/-- What the server has made of the texts handled. -/
structure ServerAt (recvTxt : Bytes) (finishFlag outOpen : Bool) (handled : List Bytes) : Prop where
  txt : recvTxt = replay handled
  finish : finishFlag = true ↔ endStr ∈ handled
  last : endStr ∉ handled.dropLast
  outOpen : finishFlag = false → outOpen = true

/-- Of the script a part has been handled, a part is under way, and a part is yet to be sent. -/
structure Inv (file : Bytes) (s : Sys) (handled todo : List Bytes) : Prop where
  buf : s.sendBuffer.length = 256
  script : script file = handled ++ s.wire.map text ++ todo
  tokens : tokens s.wire s.back s.server = if s.awaiting then 1 else 0
  client : ClientAt file s.is s.beginFlag s.awaiting todo s.client
  server : ServerAt s.recvTxt s.finishFlag s.outOpen handled

theorem Inv.init : Inv file (.init file) [] (FileTransfer.script file) where
  buf := List.length_replicate
  script := rfl
  tokens := rfl
  client := ⟨rfl, .inl ⟨rfl, rfl, rfl⟩⟩
  server := ⟨rfl, ⟨nofun, nofun⟩, List.not_mem_nil, fun _ => rfl⟩

/-! ### The steps, case by case -/

theorem zmqSend_idle (h : s.awaiting = false) (msg : Bytes) :
    s.zmqSend msg = { s with awaiting := true, wire := s.wire ++ [msg] } := by
  rw [Sys.zmqSend, h, if_neg Bool.false_ne_true]

theorem clientStep_begin (hpc : s.client = .loop) (heof : s.is.eofbit = false) (hbegin : s.beginFlag = true)
    (hawait : s.awaiting = false) :
    s.clientStep = { s with client := .line, beginFlag := false, awaiting := true, wire := s.wire ++ [beginStr] } := by
  simp only [Sys.clientStep, hpc, heof, hbegin, zmqSend_idle hawait, Bool.false_eq_true, if_false, if_true]

theorem clientStep_next (hpc : s.client = .loop) (heof : s.is.eofbit = false) (hbegin : s.beginFlag = false) :
    s.clientStep = { s with client := .line } := by
  simp only [Sys.clientStep, hpc, heof, hbegin, Bool.false_eq_true, if_false]

theorem clientStep_eof (hpc : s.client = .loop) (heof : s.is.eofbit = true) :
    s.clientStep = { s with client := .sendEnd } := by
  simp only [Sys.clientStep, hpc, heof, if_true]

/-- The `zmq_send` after the start text is out of turn. -/
theorem clientStep_first (hpc : s.client = .line) (hawait : s.awaiting = true) :
    s.clientStep = { s with
      client := .recv, is := (s.is.getline s.sendBuffer 256).2, sendBuffer := (s.is.getline s.sendBuffer 256).1 } := by
  simp only [Sys.clientStep, hpc, Sys.zmqSend, hawait, if_true]

theorem clientStep_line (hpc : s.client = .line) (hawait : s.awaiting = false) :
    s.clientStep = { s with
      client := .recv, is := (s.is.getline s.sendBuffer 256).2, sendBuffer := (s.is.getline s.sendBuffer 256).1,
      awaiting := true, wire := s.wire ++ [(s.is.getline s.sendBuffer 256).1] } := by
  simp only [Sys.clientStep, hpc, Sys.zmqSend, hawait, Bool.false_eq_true, if_false]

theorem clientStep_end (hpc : s.client = .sendEnd) (hawait : s.awaiting = false) :
    s.clientStep = { s with client := .recvEnd, awaiting := true, wire := s.wire ++ [endStr] } := by
  simp only [Sys.clientStep, hpc, zmqSend_idle hawait]

theorem zmqRecv_take {pc : ClientPc} {b : Bytes} {back : List Bytes} (hawait : s.awaiting = true)
    (hback : s.back = b :: back) :
    s.zmqRecv pc = { s with client := pc, awaiting := false, back := back } := by
  simp only [Sys.zmqRecv, hawait, hback, if_true]

theorem serverStep_take {m : Bytes} {wire : List Bytes} (hsrv : s.server = .poll) (hfin : s.finishFlag = false)
    (hwire : s.wire = m :: wire) (hopen : s.outOpen = true) :
    s.serverStep = { s with
      wire := wire, server := .answer m.length, recvTxt := handleText s.recvTxt (text m),
      finishFlag := decide (text m = endStr), outOpen := decide (text m ≠ endStr) } := by
  have hne := beginStr_ne_endStr
  simp only [Sys.serverStep, hsrv, hfin, hwire, Bool.false_eq_true, if_false, Sys.handle, handleText, text]
  split_ifs with hbegin hend <;> simp_all

/-! ### The invariant -/

namespace Inv

theorem sent (h : Inv file s handled todo) (hawait : s.awaiting = false) (msg : Bytes) :
    FileTransfer.tokens (s.wire ++ [msg]) s.back s.server = 1 := by
  have htok := h.tokens
  simp only [hawait, Bool.false_eq_true, if_false, FileTransfer.tokens, List.length_append,
    List.length_singleton] at htok ⊢
  omega

theorem script_sent {m : Bytes} (h : Inv file s handled (m :: todo)) {msg : Bytes} (hm : text msg = m) :
    FileTransfer.script file = handled ++ (s.wire ++ [msg]).map text ++ todo := by
  rw [h.script, List.map_append, List.map_singleton, hm]
  simp only [List.append_assoc, List.singleton_append]

theorem recv {pc : ClientPc} (h : Inv file s handled todo) (hawait : s.awaiting = true)
    (hnext : ClientAt file s.is s.beginFlag false todo pc) : Inv file (s.zmqRecv pc) handled todo := by
  cases hback : s.back with
  | nil =>
    rw [Sys.zmqRecv, if_pos hawait, hback]
    exact h
  | cons b back =>
    rw [zmqRecv_take hawait hback]
    refine ⟨h.buf, h.script, ?_, hnext, h.server⟩
    have htok := h.tokens
    simp only [hawait, hback, if_true, Bool.false_eq_true, if_false, FileTransfer.tokens, List.length_cons] at htok ⊢
    omega

theorem buf_getline {l : Bytes} (h : Inv file s handled todo) (hlen : l.length ≤ 255)
    (hstore : (s.is.getline s.sendBuffer 256).1 = IStream.store l s.sendBuffer) :
    (s.is.getline s.sendBuffer 256).1.length = 256 := by
  rw [hstore, length_store hlen h.buf]

theorem clientStep (hfile : Clean file) (h : Inv file s handled todo) :
    ∃ todo', Inv file s.clientStep handled todo' := by
  have hclient := h.client
  cases hpc : s.client with
  | loop =>
    rw [hpc] at hclient
    rcases hclient with ⟨hawait, ⟨hbegin, his, rfl⟩ | ⟨hbegin, ls, hls, rfl⟩⟩
    · -- the start text goes out
      have heof : s.is.eofbit = false := by rw [his]; rfl
      refine ⟨(file.splitOn newline).tail ++ [endStr], ?_⟩
      rw [clientStep_begin hpc heof hbegin hawait]
      exact ⟨h.buf, script_sent h text_beginStr, sent h hawait _, ⟨rfl, heof, .inl ⟨rfl, his, rfl⟩⟩, h.server⟩
    · refine ⟨ls ++ [endStr], ?_⟩
      cases heof : s.is.eofbit with
      | true =>
        have hnil : ls = [] := hls.eof_iff.1 heof
        rw [clientStep_eof hpc heof]
        exact ⟨h.buf, h.script, h.tokens, ⟨hawait, by rw [hnil]; rfl⟩, h.server⟩
      | false =>
        rw [clientStep_next hpc heof hbegin]
        exact ⟨h.buf, h.script, h.tokens, ⟨hbegin, heof, .inr ⟨hawait, ls, hls, rfl⟩⟩, h.server⟩
  | line =>
    rw [hpc] at hclient
    rcases hclient with ⟨hbegin, heof, ⟨hawait, his, rfl⟩ | ⟨hawait, ls, hls, rfl⟩⟩
    · -- the first string is stored but not sent
      have hleft : Left s.is (file.splitOn newline) := his ▸ .more hfile
      obtain ⟨l, more, hseg, hlen, -, hstore, hmore⟩ := hleft.getline heof s.sendBuffer
      refine ⟨(file.splitOn newline).tail ++ [endStr], ?_⟩
      rw [clientStep_first hpc hawait]
      exact ⟨buf_getline h hlen hstore, h.script, h.tokens, ⟨hawait, hbegin, more, hmore, by rw [hseg]; rfl⟩, h.server⟩
    · obtain ⟨l, more, rfl, hlen, h0, hstore, hmore⟩ := hls.getline heof s.sendBuffer
      refine ⟨more ++ [endStr], ?_⟩
      have htext : text (s.is.getline s.sendBuffer 256).1 = l := by rw [hstore, text_store hlen h0 h.buf]
      rw [clientStep_line hpc hawait]
      exact ⟨buf_getline h hlen hstore, script_sent h htext, sent h hawait _, ⟨rfl, hbegin, more, hmore, rfl⟩, h.server⟩
  | recv =>
    rw [hpc] at hclient
    rcases hclient with ⟨hawait, hbegin, hls⟩
    rw [Sys.clientStep, hpc]
    exact ⟨todo, h.recv hawait ⟨rfl, .inr ⟨hbegin, hls⟩⟩⟩
  | sendEnd =>
    rw [hpc] at hclient
    rcases hclient with ⟨hawait, rfl⟩
    refine ⟨[], ?_⟩
    rw [clientStep_end hpc hawait]
    exact ⟨h.buf, script_sent h text_endStr, sent h hawait _, ⟨rfl, rfl⟩, h.server⟩
  | recvEnd =>
    rw [hpc] at hclient
    rw [Sys.clientStep, hpc]
    exact ⟨todo, h.recv hclient.1 ⟨rfl, hclient.2⟩⟩
  | done =>
    rw [Sys.clientStep, hpc]
    exact ⟨todo, h⟩

theorem serverStep (h : Inv file s handled todo) : ∃ handled', Inv file s.serverStep handled' todo := by
  have htok := h.tokens
  cases hsrv : s.server with
  | poll =>
    cases hfin : s.finishFlag with
    | true =>
      refine ⟨handled, ?_⟩
      rw [Sys.serverStep, hsrv]
      simp only [hfin, if_true]
      rw [hsrv] at htok
      exact ⟨h.buf, h.script, htok, h.client, hfin ▸ h.server⟩
    | false =>
      cases hwire : s.wire with
      | nil =>
        refine ⟨handled, ?_⟩
        rw [Sys.serverStep, hsrv, hfin, hwire]
        exact h
      | cons m wire =>
        refine ⟨handled ++ [text m], ?_⟩
        have hmem : endStr ∉ handled := fun hm => Bool.false_ne_true (hfin ▸ h.server.finish.2 hm)
        rw [serverStep_take hsrv hfin hwire (h.server.outOpen hfin)]
        refine ⟨h.buf, ?_, ?_, h.client, ⟨?_, ?_, ?_, ?_⟩⟩
        · rw [h.script, hwire]
          simp only [List.map_cons, List.append_assoc, List.cons_append, List.nil_append]
        · rw [hsrv, hwire] at htok
          rw [← htok]
          simp only [FileTransfer.tokens, List.length_cons]
          omega
        · change handleText s.recvTxt (text m) = _
          rw [h.server.txt, replay, replay, List.foldl_append]
          rfl
        · simp [hmem, eq_comm]
        · rwa [List.dropLast_concat]
        · simp
  | answer n =>
    refine ⟨handled, ?_⟩
    rw [Sys.serverStep, hsrv]
    refine ⟨h.buf, h.script, ?_, h.client, h.server⟩
    rw [hsrv] at htok
    rw [← htok]
    simp only [FileTransfer.tokens, List.length_append, List.length_singleton]
    omega
  | done | failed =>
    rw [Sys.serverStep, hsrv]
    exact ⟨handled, h⟩

theorem pollFails (h : Inv file s handled todo) : Inv file s.pollFails handled todo := by
  unfold Sys.pollFails
  split_ifs with hpoll
  · refine ⟨h.buf, h.script, ?_, h.client, h.server⟩
    have htok := h.tokens
    rw [hpoll.1] at htok
    exact htok
  · exact h

theorem step (hfile : Clean file) (h : Inv file s handled todo) (m : Move) :
    ∃ handled' todo', Inv file (s.step m) handled' todo' := by
  cases m with
  | client => exact ⟨handled, h.clientStep hfile⟩
  | server =>
    rcases h.serverStep with ⟨handled', h'⟩
    exact ⟨handled', todo, h'⟩
  | pollFails => exact ⟨handled, todo, h.pollFails⟩

theorem run (hfile : Clean file) (moves : List Move) : ∃ handled todo, Inv file (run file moves) handled todo := by
  have hgen : ∀ s handled todo, Inv file s handled todo →
      ∃ handled' todo', Inv file (moves.foldl Sys.step s) handled' todo' := by
    induction moves with
    | nil => exact fun s handled todo h => ⟨handled, todo, h⟩
    | cons m moves ih =>
      intro s handled todo h
      obtain ⟨handled', todo', h'⟩ := h.step hfile m
      exact ih (s.step m) handled' todo' h'
  exact hgen _ _ _ .init

end Inv

/-- When both have finished, the server has handled the whole script; the end text came last. -/
theorem finished_recvTxt (hfile : Clean file) {moves : List Move} (hfin : (run file moves).Finished) :
    endStr ∉ (file.splitOn newline).tail ∧ (run file moves).recvTxt = replay (file.splitOn newline).tail := by
  obtain ⟨handled, todo, h⟩ := Inv.run hfile moves
  have hclient := h.client
  rw [hfin.1] at hclient
  rcases hclient with ⟨hawait, rfl⟩
  have htok := h.tokens
  have hwire : (run file moves).wire = [] := by
    rw [hawait] at htok
    simp only [tokens, Bool.false_eq_true, if_false] at htok
    exact List.length_eq_zero_iff.1 (by omega)
  have hscript := h.script
  rw [hwire, List.map_nil, List.append_nil, List.append_nil] at hscript
  have hend : endStr ∉ (file.splitOn newline).tail := by
    intro hmem
    have hlast := h.server.last
    rw [← hscript, script, List.dropLast_concat] at hlast
    exact hlast (List.mem_cons_of_mem _ hmem)
  refine ⟨hend, ?_⟩
  have hne := beginStr_ne_endStr.symm
  rw [h.server.txt, ← hscript]
  simp only [script, replay, List.foldl_append, List.foldl_cons, List.foldl_nil, handleText, if_true, if_neg hne]

/-! ### The two do finish -/

def atLoop (is : IStream) (buf txt : Bytes) : Sys where
  client := .loop
  is := is
  beginFlag := false
  sendBuffer := buf
  awaiting := false
  wire := []
  back := []
  server := .poll
  finishFlag := false
  outOpen := true
  recvTxt := txt

def sent (pc : ClientPc) (is : IStream) (buf txt msg : Bytes) : Sys :=
  { atLoop is buf txt with client := pc, awaiting := true, wire := [msg] }

def answered (pc : ClientPc) (is : IStream) (buf txt msg : Bytes) : Sys :=
  { atLoop is buf (handleText txt (text msg)) with
    client := pc, awaiting := true, back := [Sys.answer msg.length],
    finishFlag := decide (text msg = endStr), outOpen := decide (text msg ≠ endStr) }

theorem serve (pc : ClientPc) (is : IStream) (buf txt msg : Bytes) :
    (sent pc is buf txt msg).serverStep.serverStep = answered pc is buf txt msg := by
  rw [serverStep_take (s := sent pc is buf txt msg) rfl rfl rfl rfl]
  rfl

def round : List Move := [.client, .client, .server, .server, .client]

def ending : List Move := [.client, .client, .server, .server, .client, .server]

theorem run_round {is : IStream} {buf txt m : Bytes} (heof : is.eofbit = false)
    (hm : text (is.getline buf 256).1 = m) (hend : m ≠ endStr) :
    round.foldl Sys.step (atLoop is buf txt) =
      atLoop (is.getline buf 256).2 (is.getline buf 256).1 (handleText txt m) := by
  have hsent : (atLoop is buf txt).clientStep.clientStep =
      sent .recv (is.getline buf 256).2 (is.getline buf 256).1 txt (is.getline buf 256).1 := by
    rw [clientStep_next (s := atLoop is buf txt) rfl heof rfl]
    exact clientStep_line rfl rfl
  change (atLoop is buf txt).clientStep.clientStep.serverStep.serverStep.clientStep = _
  rw [hsent, serve, answered, hm, decide_eq_false hend, decide_eq_true hend]
  rfl

theorem run_first (file : Bytes) :
    round.foldl Sys.step (.init file) =
      atLoop ((IStream.open file).getline (List.replicate 256 0) 256).2
        ((IStream.open file).getline (List.replicate 256 0) 256).1 [] := by
  have hne := beginStr_ne_endStr
  have hsent : (Sys.init file).clientStep.clientStep =
      sent .recv ((IStream.open file).getline (List.replicate 256 0) 256).2
        ((IStream.open file).getline (List.replicate 256 0) 256).1 [] beginStr := by
    rw [clientStep_begin (s := .init file) rfl rfl rfl rfl]
    exact clientStep_first rfl rfl
  change (Sys.init file).clientStep.clientStep.serverStep.serverStep.clientStep = _
  rw [hsent, serve, answered, text_beginStr, decide_eq_false hne, decide_eq_true hne, handleText, if_pos rfl]
  rfl

theorem run_ending {is : IStream} {buf txt : Bytes} (heof : is.eofbit = true) :
    (ending.foldl Sys.step (atLoop is buf txt)).Finished := by
  have hsent : (atLoop is buf txt).clientStep.clientStep = sent .recvEnd is buf txt endStr := by
    rw [clientStep_eof (s := atLoop is buf txt) rfl heof]
    exact clientStep_end rfl rfl
  change (atLoop is buf txt).clientStep.clientStep.serverStep.serverStep.clientStep.serverStep.Finished
  rw [hsent, serve, answered, text_endStr]
  exact ⟨rfl, .inl rfl⟩

theorem finishes_atLoop {is : IStream} {buf : Bytes} (txt : Bytes) (hls : Left is ls) (hbuf : buf.length = 256)
    (hend : endStr ∉ ls) : ∃ moves : List Move, (moves.foldl Sys.step (atLoop is buf txt)).Finished := by
  induction ls generalizing is buf txt with
  | nil => exact ⟨ending, run_ending (hls.eof_iff.2 rfl)⟩
  | cons l ls ih =>
    have heof : is.eofbit = false := Bool.eq_false_iff.2 fun h => List.cons_ne_nil l ls (hls.eof_iff.1 h)
    obtain ⟨m, more, hcons, hlen, h0, hstore, hmore⟩ := hls.getline heof buf
    obtain ⟨rfl, rfl⟩ := List.cons.inj hcons
    have hm : text (is.getline buf 256).1 = l := by rw [hstore, text_store hlen h0 hbuf]
    have hbuf' : (is.getline buf 256).1.length = 256 := by rw [hstore, length_store hlen hbuf]
    obtain ⟨moves, hmoves⟩ := ih (handleText txt l) hmore hbuf' (fun h => hend (List.mem_cons_of_mem _ h))
    refine ⟨round ++ moves, ?_⟩
    rwa [List.foldl_append, run_round heof hm (fun h => hend (by simp [h]))]

theorem finishes (hfile : Clean file) (hend : endStr ∉ (file.splitOn newline).tail) :
    ∃ moves, (run file moves).Finished := by
  have hleft : Left (.open file) (file.splitOn newline) := .more hfile
  obtain ⟨l, more, hseg, hlen, -, hstore, hmore⟩ := hleft.getline rfl (List.replicate 256 0)
  rw [hseg] at hend
  have hbuf : ((IStream.open file).getline (List.replicate 256 0) 256).1.length = 256 := by
    rw [hstore, length_store hlen List.length_replicate]
  obtain ⟨moves, hmoves⟩ := finishes_atLoop [] hmore hbuf hend
  refine ⟨round ++ moves, ?_⟩
  rwa [run, List.foldl_append, run_first]

/-! ### When the two files agree -/

theorem replay_eq (hend : endStr ∉ ms) :
    ∃ ks, ks ⊆ ms ∧ replay ms = terminate newline ks ∧ (ks.length < ms.length ∨ ks = ms) ∧
      (beginStr ∉ ms → ks = ms) := by
  induction ms using List.reverseRecOn with
  | nil => exact ⟨[], List.nil_subset _, rfl, .inr rfl, fun _ => rfl⟩
  | append_singleton ms m ih =>
    obtain ⟨ks, hsub, hreplay, hlen, hall⟩ := ih (fun h => hend (by simp [h]))
    have hm : m ≠ endStr := fun h => hend (by simp [h])
    have hstep : replay (ms ++ [m]) = handleText (replay ms) m := List.foldl_concat _ _ _ _
    by_cases hbegin : m = beginStr
    · -- the start text empties the file
      refine ⟨[], List.nil_subset _, ?_, .inl (by simp), fun h => absurd (by simp [hbegin]) h⟩
      rw [hstep, handleText, if_pos hbegin]
      rfl
    · refine ⟨ks ++ [m], ?_, ?_, ?_, ?_⟩
      · exact List.append_subset.2 ⟨fun k hk => by simp [hsub hk], by simp⟩
      · rw [hstep, handleText, if_neg hbegin, if_neg hm, hreplay, terminate_append]
        simp [terminate]
      · rcases hlen with hlen | rfl
        · exact .inl (by simpa using hlen)
        · exact .inr rfl
      · intro h
        rw [hall fun hb => h (by simp [hb])]

theorem replay_tail_iff (hend : endStr ∉ (file.splitOn newline).tail) :
    replay (file.splitOn newline).tail = terminate newline (lines (file.splitOn newline)) ↔
      ∀ m ∈ file.splitOn newline, m = [] := by
  obtain ⟨l, ls, hsplit⟩ := List.exists_cons_of_ne_nil (List.splitOn_ne_nil newline file)
  have hfree : ∀ m ∈ l :: ls, newline ∉ m := fun m hm => not_mem_of_mem_splitOn (hsplit ▸ hm)
  rw [hsplit] at hend ⊢
  obtain ⟨ks, hsub, hreplay, hlen, hall⟩ := replay_eq hend
  rw [List.tail_cons] at *
  rw [hreplay, ← tail_eq_lines_iff]
  constructor
  · intro h
    have hks : ks = lines (l :: ls) :=
      terminate_inj (fun k hk => hfree k (List.mem_cons_of_mem _ (hsub hk)))
        (fun k hk => hfree k (mem_of_mem_lines hk)) h
    have hle := length_lines l ls
    rw [← hks] at hle ⊢
    rcases hlen with hlen | rfl
    · omega
    · rfl
  · intro h
    have hnil := (tail_eq_lines_iff l ls).1 h
    have hbegin : beginStr ∉ ls := by
      intro hb
      have hb := hnil beginStr (List.mem_cons_of_mem _ hb)
      exact absurd hb (by decide)
    rw [hall hbegin, ← h]

/-- The file transfer is faithful exactly to a file of newlines alone, and vacuously if a line but the first is the
end text, when the two programs do not both finish. -/
theorem transfer_faithful_iff (hfile : Clean file) :
    (∀ moves, (run file moves).Finished →
        (run file moves).recvTxt = terminate newline (IStream.open file).strings) ↔
      endStr ∈ (file.splitOn newline).tail ∨ ∀ c ∈ file, c = newline := by
  rw [← all_nil_iff, IStream.open, strings_eq hfile]
  by_cases hend : endStr ∈ (file.splitOn newline).tail
  · refine ⟨fun _ => .inl hend, fun _ moves hmoves => ?_⟩
    exact absurd hend (finished_recvTxt hfile hmoves).1
  · rw [or_iff_right hend, ← replay_tail_iff hend]
    obtain ⟨moves, hmoves⟩ := finishes hfile hend
    constructor
    · intro h
      rw [← h moves hmoves, (finished_recvTxt hfile hmoves).2]
    · intro h moves hmoves
      rw [(finished_recvTxt hfile hmoves).2, h]

/-- With the end text as second line the programs do not both finish; and where the first line is empty and the second
`b`, the empty one comes last. -/
theorem transfer_faithful_iff_lines :
    (∀ moves, (run (chars "a\nConfiguration file transfer complete\nb\n") moves).Finished →
        (run (chars "a\nConfiguration file transfer complete\nb\n") moves).recvTxt =
          terminate newline (IStream.open (chars "a\nConfiguration file transfer complete\nb\n")).strings) ∧
      ¬ ∀ moves, (run (chars "\nb\n") moves).Finished →
        (run (chars "\nb\n") moves).recvTxt = terminate newline (IStream.open (chars "\nb\n")).strings := by
  have hend : Clean (chars "a\nConfiguration file transfer complete\nb\n") := by unfold Clean; decide
  have hline : Clean (chars "\nb\n") := by unfold Clean; decide
  refine ⟨(transfer_faithful_iff hend).2 (.inl (by decide)), fun h => ?_⟩
  rcases (transfer_faithful_iff hline).1 h with hmem | hall
  · exact absurd hmem (by decide)
  · exact absurd hall (by decide)

/-- Of the lines `a` and `b` the first is lost, and the end of the file arrives as an empty line. -/
theorem first_line_lost :
    ¬ ∀ moves, (run (chars "a\nb\n") moves).Finished →
      (run (chars "a\nb\n") moves).recvTxt = terminate newline (IStream.open (chars "a\nb\n")).strings := by
  intro h
  have hclean : Clean (chars "a\nb\n") := by unfold Clean; decide
  have hrun := h (round ++ round ++ round ++ ending) (by decide)
  rw [IStream.open, strings_eq hclean] at hrun
  exact absurd hrun (by decide)

end LearnCpp.FileTransfer
