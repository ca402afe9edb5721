import LearnCpp.Text
import Mathlib.Data.List.TakeWhile

/-!
# The stream programs (`tcp_test/tcp_server.cpp`, `tcp_test/tcp_client.cpp`)

Client and server take turns on one connection: the client sends 18 bytes and waits, the server waits and answers with
19, the NUL of its text among them. A `recv` takes any bytes that have arrived, at most the array, so texts can be split
and joined; it can also fail, and the program goes on to its `send`, which takes all its bytes.
-/

namespace LearnCpp

namespace TcpTest

/-- `sizeof(buffer)` and `BUFFER_SIZE`. -/
def bufferSize : ℕ := 1024

/-- The client sends `strlen(sendbuf)` bytes. -/
def clientText : Bytes := chars "hello I am client\n"

/-- The server sends `sizeof(buf)` bytes. -/
def serverText : Bytes := chars "hello i am server\n" ++ [0]

inductive Pc
  | sends
  | waits
deriving DecidableEq, Repr

/-- Where the programs are, the bytes on their way, what each `recv` has taken and what was shown of it. -/
structure State where
  client : Pc
  server : Pc
  toServer : Bytes
  toClient : Bytes
  serverGot : List Bytes
  clientGot : List Bytes
  serverShown : List Bytes
  clientShown : List Bytes
deriving DecidableEq, Repr

/-- The calls that return, a `recv` with this many bytes; none if it returns zero or fails. -/
inductive Event
  | clientSend
  | clientRecv (n : ℕ)
  | serverSend
  | serverRecv (n : ℕ)
deriving DecidableEq, Repr

/-- What `if(len>0) printf("%s", buffer)` shows of the bytes received; the rest of the array is zero. -/
def shown (got : Bytes) : Option Bytes :=
  if got.length > 0 then arrayText (got ++ List.replicate (bufferSize - got.length) 0) else some []

/-- What a `recv` may return. -/
def CanRecv (n : ℕ) (stream : Bytes) : Prop := n ≤ bufferSize ∧ n ≤ stream.length

instance (n : ℕ) (stream : Bytes) : Decidable (CanRecv n stream) := inferInstanceAs (Decidable (_ ∧ _))

/-- `none` if more than the array is shown. A call that cannot return is no event. -/
def step (s : State) : Event → Option State
  | .clientSend =>
    if s.client = .sends then some { s with client := .waits, toServer := s.toServer ++ clientText } else some s
  | .clientRecv n =>
    if s.client = .waits ∧ CanRecv n s.toClient then do
      let text ← shown (s.toClient.take n)
      some { s with
        client := .sends, toClient := s.toClient.drop n, clientGot := s.clientGot ++ [s.toClient.take n],
        clientShown := s.clientShown ++ [text] }
    else some s
  | .serverSend =>
    if s.server = .sends then some { s with server := .waits, toClient := s.toClient ++ serverText } else some s
  | .serverRecv n =>
    if s.server = .waits ∧ CanRecv n s.toServer then do
      let text ← shown (s.toServer.take n)
      some { s with
        server := .sends, toServer := s.toServer.drop n, serverGot := s.serverGot ++ [s.toServer.take n],
        serverShown := s.serverShown ++ [text] }
    else some s

/-- The connection is made. -/
def init : State := ⟨.sends, .waits, [], [], [], [], [], []⟩

def run (es : List Event) : Option State := es.foldlM step init

/-! ### Streams that repeat a text -/

section
variable {α : Type} {a b c t : List α} {z : α} {k : ℕ}

/-- A window longer than `t` onto a repeated `t ++ [z]` shows a `z`. -/
theorem mem_of_window (h : a ++ (c ++ b) = (List.replicate k (t ++ [z])).flatten) (hc : t.length < c.length) :
    z ∈ c := by
  induction k generalizing a with
  | zero =>
    obtain ⟨-, hcb⟩ := List.append_eq_nil_iff.1 h
    rw [(List.append_eq_nil_iff.1 hcb).1] at hc
    exact absurd hc (Nat.not_lt_zero _)
  | succ k ih =>
    rw [List.replicate_succ, List.flatten_cons] at h
    rcases Nat.lt_or_ge t.length a.length with ha | ha
    · -- the window is behind the first text
      have hdrop := congrArg (List.drop (t ++ [z]).length) h
      have hlen : (t ++ [z]).length ≤ a.length := by rw [List.length_append, List.length_singleton]; omega
      rw [List.drop_append_of_le_length hlen, List.drop_left] at hdrop
      exact ih hdrop
    · have hat : (a ++ (c ++ b))[t.length]? = some z := by
        rw [h, List.append_assoc, List.getElem?_append_right (Nat.le_refl _), Nat.sub_self]
        rfl
      rw [List.getElem?_append_right ha, List.getElem?_append_left (by omega)] at hat
      exact List.mem_of_getElem? hat

end

/-! ### What is shown -/

variable {s s' : State} {es : List Event} {got stream : Bytes} {n : ℕ}

theorem cstr_append_zeros (got : Bytes) (m : ℕ) : cstr (got ++ List.replicate m 0) = cstr got := by
  induction got with
  | nil => cases m <;> simp [cstr, List.replicate_succ]
  | cons x got ih =>
    unfold cstr at ih ⊢
    by_cases hx : x = 0
    · simp [hx]
    · rw [List.cons_append, List.takeWhile_cons_of_pos (by simpa using hx), ih,
        List.takeWhile_cons_of_pos (by simpa using hx)]

theorem cstr_of_not_mem (h : 0 ∉ got) : cstr got = got := by
  rw [← cstr_append_zeros got 1]
  exact cstr_append_nul h []

/-- An array that is not full, or holds a NUL, is shown up to its first NUL. -/
theorem shown_eq (got : Bytes) (h : got.length < bufferSize ∨ 0 ∈ got) : shown got = some (cstr got) := by
  have hmem : (0 : UInt8) ∈ got ++ List.replicate (bufferSize - got.length) 0 := by
    rcases h with hlt | hmem
    · refine List.mem_append_right _ (List.mem_replicate.2 ⟨?_, rfl⟩)
      omega
    · exact List.mem_append_left _ hmem
  unfold shown
  split_ifs with hlen
  · rw [arrayText, if_pos hmem, cstr_append_zeros]
  · rw [List.length_eq_zero_iff.1 (by omega : got.length = 0)]
    rfl

theorem shown_full (hlen : got.length = bufferSize) (h : 0 ∉ got) : shown got = none := by
  rw [shown, if_pos (by rw [hlen]; decide), hlen, Nat.sub_self, List.replicate_zero, List.append_nil, arrayText_none h]

/-! ### One step -/

/-- Each stream is the texts sent into it; the server shows all it gets, the client each piece up to its first NUL;
and the two do not wait for each other. -/
structure Inv (s : State) : Prop where
  toServer : s.serverGot.flatten ++ s.toServer =
    (List.replicate (s.clientGot.length + if s.client = .waits then 1 else 0) clientText).flatten
  toClient : ∃ k, k + (if s.server = .sends then 1 else 0) = s.serverGot.length ∧
    s.clientGot.flatten ++ s.toClient = (List.replicate k serverText).flatten
  serverShown : s.serverShown = s.serverGot
  clientShown : s.clientShown = s.clientGot.map cstr
  moving : s.client = .waits → s.server = .waits → s.toServer ≠ [] ∨ s.toClient ≠ []

theorem inv_init : Inv init := by
  refine ⟨rfl, ⟨0, rfl, rfl⟩, rfl, rfl, fun hclient => ?_⟩
  cases hclient

theorem nul_not_mem_clientText : (0 : UInt8) ∉ clientText := by decide

theorem Inv.nul_not_mem (h : Inv s) : 0 ∉ s.toServer := by
  intro hmem
  have hstream : (0 : UInt8) ∈ s.serverGot.flatten ++ s.toServer := List.mem_append_right _ hmem
  rw [h.toServer, List.mem_flatten] at hstream
  obtain ⟨text, htext, hnul⟩ := hstream
  rw [List.eq_of_mem_replicate htext] at hnul
  exact nul_not_mem_clientText hnul

/-- Any nineteen bytes in a row that the server sent have a NUL among them. -/
theorem Inv.nul_mem (h : Inv s) (hn : 18 < n) (hlen : n ≤ s.toClient.length) : 0 ∈ s.toClient.take n := by
  obtain ⟨k, -, hstream⟩ := h.toClient
  rw [← List.take_append_drop n s.toClient] at hstream
  refine mem_of_window hstream ?_
  rw [List.length_take, Nat.min_eq_left hlen]
  exact hn

theorem shown_toServer (h : Inv s) (hrecv : CanRecv n s.toServer) (hn : n ≠ bufferSize) :
    shown (s.toServer.take n) = some (s.toServer.take n) := by
  have hnul : (0 : UInt8) ∉ s.toServer.take n := fun hmem => h.nul_not_mem (List.mem_of_mem_take hmem)
  have hlen : (s.toServer.take n).length = n := by rw [List.length_take, Nat.min_eq_left hrecv.2]
  rw [shown_eq, cstr_of_not_mem hnul]
  have hle := hrecv.1
  exact .inl (by omega)

theorem shown_toClient (h : Inv s) (hrecv : CanRecv n s.toClient) :
    shown (s.toClient.take n) = some (cstr (s.toClient.take n)) := by
  refine shown_eq _ ?_
  have hlen : (s.toClient.take n).length = n := by rw [List.length_take, Nat.min_eq_left hrecv.2]
  rcases Nat.lt_or_ge n bufferSize with hlt | hge
  · exact .inl (by omega)
  · refine .inr (h.nul_mem ?_ hrecv.2)
    have hsize : bufferSize = 1024 := rfl
    omega

theorem inv_clientSend (h : Inv s) (hpc : s.client = .sends) :
    Inv { s with client := .waits, toServer := s.toServer ++ clientText } := by
  have hstream := h.toServer
  rw [hpc, if_neg (by decide), Nat.add_zero] at hstream
  refine ⟨?_, h.toClient, h.serverShown, h.clientShown, fun _ _ => .inl ?_⟩
  · simp only [if_true, List.replicate_succ', List.flatten_append, ← hstream, List.flatten_singleton, List.append_assoc]
  · exact List.append_ne_nil_of_right_ne_nil _ (by decide)

theorem inv_serverSend (h : Inv s) (hpc : s.server = .sends) :
    Inv { s with server := .waits, toClient := s.toClient ++ serverText } := by
  obtain ⟨k, hk, hstream⟩ := h.toClient
  rw [hpc, if_pos rfl] at hk
  refine ⟨h.toServer, ⟨k + 1, hk, ?_⟩, h.serverShown, h.clientShown, fun _ _ => .inr ?_⟩
  · simp only [List.replicate_succ', List.flatten_append, ← hstream, List.flatten_singleton, List.append_assoc]
  · exact List.append_ne_nil_of_right_ne_nil _ (by decide)

theorem inv_clientRecv (h : Inv s) (hpc : s.client = .waits) (n : ℕ) : Inv { s with
    client := .sends, toClient := s.toClient.drop n, clientGot := s.clientGot ++ [s.toClient.take n],
    clientShown := s.clientShown ++ [cstr (s.toClient.take n)] } := by
  obtain ⟨k, hk, hstream⟩ := h.toClient
  have hserver := h.toServer
  rw [hpc, if_pos rfl] at hserver
  refine ⟨?_, ⟨k, hk, ?_⟩, h.serverShown, ?_, fun hclient => by cases hclient⟩
  · simpa using hserver
  · simpa using hstream
  · rw [h.clientShown, List.map_append, List.map_singleton]

theorem inv_serverRecv (h : Inv s) (hpc : s.server = .waits) (n : ℕ) : Inv { s with
    server := .sends, toServer := s.toServer.drop n, serverGot := s.serverGot ++ [s.toServer.take n],
    serverShown := s.serverShown ++ [s.toServer.take n] } := by
  obtain ⟨k, hk, hstream⟩ := h.toClient
  have hserver := h.toServer
  rw [hpc, if_neg (by decide), Nat.add_zero] at hk
  refine ⟨?_, ⟨k, by simp [hk], hstream⟩, ?_, h.clientShown, fun _ hs => by cases hs⟩
  · simpa using hserver
  · rw [h.serverShown]

/-- The server shows more than its array. -/
def Overreads (s : State) (e : Event) : Prop :=
  e = .serverRecv bufferSize ∧ s.server = .waits ∧ bufferSize ≤ s.toServer.length

theorem step_spec (h : Inv s) (e : Event) :
    (∃ s', step s e = some s' ∧ Inv s' ∧ ¬ Overreads s e) ∨ (step s e = none ∧ Overreads s e) := by
  cases e with
  | clientSend =>
    refine .inl ?_
    by_cases hpc : s.client = .sends
    · exact ⟨_, by simp only [step, if_pos hpc], inv_clientSend h hpc, fun ho => by cases ho.1⟩
    · exact ⟨s, by simp only [step, if_neg hpc], h, fun ho => by cases ho.1⟩
  | serverSend =>
    refine .inl ?_
    by_cases hpc : s.server = .sends
    · exact ⟨_, by simp only [step, if_pos hpc], inv_serverSend h hpc, fun ho => by cases ho.1⟩
    · exact ⟨s, by simp only [step, if_neg hpc], h, fun ho => by cases ho.1⟩
  | clientRecv n =>
    refine .inl ?_
    by_cases hpc : s.client = .waits ∧ CanRecv n s.toClient
    · refine ⟨_, ?_, inv_clientRecv h hpc.1 n, fun ho => by cases ho.1⟩
      simp only [step, if_pos hpc, shown_toClient h hpc.2]
      rfl
    · exact ⟨s, by simp only [step, if_neg hpc], h, fun ho => by cases ho.1⟩
  | serverRecv n =>
    by_cases hpc : s.server = .waits ∧ CanRecv n s.toServer
    · rcases eq_or_ne n bufferSize with rfl | hn
      · refine .inr ⟨?_, rfl, hpc.1, hpc.2.2⟩
        have hnul : (0 : UInt8) ∉ s.toServer.take bufferSize := fun hmem =>
          h.nul_not_mem (List.mem_of_mem_take hmem)
        have hlen : (s.toServer.take bufferSize).length = bufferSize := by
          rw [List.length_take, Nat.min_eq_left hpc.2.2]
        simp only [step, if_pos hpc, shown_full hlen hnul]
        rfl
      · refine .inl ⟨_, ?_, inv_serverRecv h hpc.1 n, fun ho => ?_⟩
        · simp only [step, if_pos hpc, shown_toServer h hpc.2 hn]
          rfl
        · exact hn (Event.serverRecv.inj ho.1)
    · refine .inl ⟨s, by simp only [step, if_neg hpc], h, fun ho => ?_⟩
      obtain ⟨hn, hwaits, hlen⟩ := ho
      obtain rfl := Event.serverRecv.inj hn
      exact hpc ⟨hwaits, Nat.le_refl _, hlen⟩

/-! ### Runs -/

theorem foldlM_spec (h : Inv s) (es : List Event) :
    (∃ s', es.foldlM step s = some s' ∧ Inv s') ∨ (es.foldlM step s = none ∧
      ∃ pre e post s', es = pre ++ e :: post ∧ pre.foldlM step s = some s' ∧ Overreads s' e) := by
  induction es generalizing s with
  | nil => exact .inl ⟨s, rfl, h⟩
  | cons e es ih =>
    rw [List.foldlM_cons]
    rcases step_spec h e with ⟨s₁, hstep, h₁, -⟩ | ⟨hstep, hover⟩
    · rw [hstep]
      rcases ih h₁ with hgood | ⟨hnone, pre, e', post, s', rfl, hpre, hover⟩
      · exact .inl hgood
      · refine .inr ⟨hnone, e :: pre, e', post, s', rfl, ?_, hover⟩
        rw [List.foldlM_cons, hstep]
        exact hpre
    · rw [hstep]
      exact .inr ⟨rfl, [], e, es, s, rfl, rfl, hover⟩

theorem inv_run (h : run es = some s) : Inv s := by
  rcases foldlM_spec inv_init es with ⟨s', hrun, hinv⟩ | ⟨hrun, -⟩
  · obtain rfl : s' = s := Option.some.inj (hrun.symm.trans h)
    exact hinv
  · cases hrun.symm.trans h

/-- The server shows past its array exactly when a `recv` of it fills the array; the client never does. -/
theorem overreads_iff (es : List Event) : run es = none ↔ ∃ pre post s, es = pre ++ .serverRecv 1024 :: post ∧
    run pre = some s ∧ s.server = .waits ∧ 1024 ≤ s.toServer.length := by
  constructor
  · intro h
    rcases foldlM_spec inv_init es with ⟨s', hrun, -⟩ | ⟨-, pre, e, post, s', rfl, hpre, rfl, hwaits, hlen⟩
    · cases hrun.symm.trans h
    · exact ⟨pre, post, s', rfl, hpre, hwaits, hlen⟩
  · rintro ⟨pre, post, s, rfl, hpre, hwaits, hlen⟩
    have hfold : pre.foldlM step init = some s := hpre
    rw [run, List.foldlM_append, hfold, Option.bind_eq_bind, Option.bind_some, List.foldlM_cons]
    rcases step_spec (inv_run hpre) (.serverRecv 1024) with ⟨s', -, -, hnot⟩ | ⟨hstep, -⟩
    · exact absurd ⟨rfl, hwaits, hlen⟩ hnot
    · rw [hstep]
      rfl

/-- The server waits and the client has sent more than its array holds. -/
theorem step_overreads (h : Inv s) (hwaits : s.server = .waits) (hlen : bufferSize ≤ s.toServer.length) :
    step s (.serverRecv bufferSize) = none := by
  rcases step_spec h (.serverRecv bufferSize) with ⟨s', -, -, hnot⟩ | ⟨hstep, -⟩
  · exact absurd ⟨rfl, hwaits, hlen⟩ hnot
  · exact hstep

theorem canRecv_one (h : 0 < stream.length) : CanRecv 1 stream := ⟨by decide, h⟩

theorem shown_one (h : 0 < stream.length) : shown (stream.take 1) = some (cstr (stream.take 1)) :=
  shown_eq _ (.inl (by rw [List.length_take, Nat.min_eq_left h]; decide))

/-- The client sends a text for each single byte it receives. -/
theorem foldlM_flood (m : ℕ) (hpc : s.client = .waits) (hm : m ≤ s.toClient.length) :
    ∃ s', (List.replicate m [Event.clientRecv 1, .clientSend]).flatten.foldlM step s = some s' ∧
      s'.client = .waits ∧ s'.server = s.server ∧ s'.toServer.length = s.toServer.length + 18 * m := by
  induction m generalizing s with
  | zero => exact ⟨s, rfl, hpc, rfl, rfl⟩
  | succ m ih =>
    have hrecv : s.client = .waits ∧ CanRecv 1 s.toClient := ⟨hpc, canRecv_one (by omega)⟩
    obtain ⟨s', hrun, hclient, hserver, hlen⟩ := ih (s := { s with
      client := .waits, toServer := s.toServer ++ clientText, toClient := s.toClient.drop 1,
      clientGot := s.clientGot ++ [s.toClient.take 1],
      clientShown := s.clientShown ++ [cstr (s.toClient.take 1)] }) rfl (by simp only [List.length_drop]; omega)
    refine ⟨s', ?_, hclient, hserver, ?_⟩
    · simp only [List.replicate_succ, List.flatten_cons, List.cons_append, List.nil_append, List.foldlM_cons, step,
        if_pos hrecv, shown_one (show 0 < s.toClient.length by omega), Option.bind_eq_bind, Option.bind_some, if_true]
      exact hrun
    · have htext : clientText.length = 18 := rfl
      rw [hlen, List.length_append, htext]
      omega

/-- The server answers each single byte it receives. -/
theorem foldlM_answers (m : ℕ) (hpc : s.server = .waits) (hm : m ≤ s.toServer.length) :
    ∃ s', (List.replicate m [Event.serverRecv 1, .serverSend]).flatten.foldlM step s = some s' ∧
      s'.server = .waits ∧ s'.client = s.client ∧ s'.toClient.length = s.toClient.length + 19 * m ∧
      s'.toServer.length = s.toServer.length - m := by
  induction m generalizing s with
  | zero => exact ⟨s, rfl, hpc, rfl, rfl, rfl⟩
  | succ m ih =>
    have hrecv : s.server = .waits ∧ CanRecv 1 s.toServer := ⟨hpc, canRecv_one (by omega)⟩
    obtain ⟨s', hrun, hserver, hclient, hlen, hleft⟩ := ih (s := { s with
      server := .waits, toClient := s.toClient ++ serverText, toServer := s.toServer.drop 1,
      serverGot := s.serverGot ++ [s.toServer.take 1],
      serverShown := s.serverShown ++ [cstr (s.toServer.take 1)] }) rfl (by simp only [List.length_drop]; omega)
    refine ⟨s', ?_, hserver, hclient, ?_, ?_⟩
    · simp only [List.replicate_succ, List.flatten_cons, List.cons_append, List.nil_append, List.foldlM_cons, step,
        if_pos hrecv, shown_one (show 0 < s.toServer.length by omega), Option.bind_eq_bind, Option.bind_some, if_true]
      exact hrun
    · have htext : serverText.length = 19 := rfl
      rw [hlen, List.length_append, htext]
      omega
    · rw [hleft, List.length_drop]
      omega

/-- Three bytes of one text are answered one by one, and the client answers each byte of that: 1041 bytes wait for the
server. -/
theorem server_flooded : ∃ es s, run es = some s ∧ s.server = .waits ∧ bufferSize ≤ s.toServer.length := by
  obtain ⟨s₁, hrun₁, hserver₁, hclient₁, hlen₁, hleft₁⟩ :=
    foldlM_answers 3 (s := ⟨.waits, .waits, clientText, [], [], [], [], []⟩) rfl (by decide)
  have hgot : 57 ≤ s₁.toClient.length := by
    rw [hlen₁]
    decide
  obtain ⟨s₂, hrun₂, -, hserver₂, hlen₂⟩ := foldlM_flood 57 hclient₁ hgot
  have hfirst : [Event.clientSend].foldlM step init = some ⟨.waits, .waits, clientText, [], [], [], [], []⟩ := rfl
  refine ⟨[.clientSend] ++ (List.replicate 3 [Event.serverRecv 1, .serverSend]).flatten ++
    (List.replicate 57 [Event.clientRecv 1, .clientSend]).flatten, s₂, ?_, hserver₂.trans hserver₁, ?_⟩
  · rw [run, List.foldlM_append, List.foldlM_append, hfirst]
    exact (congrArg (· >>= _) hrun₁).trans hrun₂
  · rw [hlen₂, hleft₁]
    decide

theorem server_overreads : ∃ es, run es = none := by
  obtain ⟨es, s, hrun, hwaits, hlen⟩ := server_flooded
  refine ⟨es ++ [.serverRecv bufferSize], ?_⟩
  have hfold : es.foldlM step init = some s := hrun
  rw [run, List.foldlM_append, hfold, Option.bind_eq_bind, Option.bind_some, List.foldlM_cons,
    step_overreads (inv_run hrun) hwaits hlen]
  rfl

/-! ### What the client misses -/

end TcpTest

end LearnCpp
