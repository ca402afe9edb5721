import LearnCpp.FileTransfer
import LearnCpp.Lib.Loop

/-!
# The loops `while(!is.eof())` over `getline`

The transfer client (`main1` of `zmq_test/zermq_req_test.cpp`) and the copier (`main5` of
`iostream_test/iostream_test/main.cpp`) call `getline` into 256 bytes until the end of the file has been met, and look
at no other bit. What they do with the line does not change the stream, so both loops end when the loop over the stream
alone does (`iter_stream`). A line of more than 255 bytes sets `failbit`; from then on nothing is extracted and the end
never met (`streamRound_stuck`).
-/

namespace LearnCpp

open Lines IStream

/-- A round that only reads. -/
def streamRound (is : IStream) : IStream ⊕ IStream :=
  if is.eofbit then .inr is else .inl (is.getline [] 256).2

/-! ### The client and the copier -/

/-- The state of the client's loop, with what it gives to `zmq_send`, the first line among it, which is refused. -/
structure ClientLoop where
  is : IStream
  sendBuffer : Bytes
  beginFlag : Bool
  sent : List Bytes
deriving DecidableEq, Repr

def ClientLoop.start (file : Bytes) : ClientLoop := ⟨.open file, List.replicate 256 0, true, []⟩

/-- A round of the client, whose socket calls return; the answer is printed and not looked at. -/
def clientRound (st : ClientLoop) : ClientLoop ⊕ ClientLoop :=
  if st.is.eofbit then .inr st
  else
    let sent := if st.beginFlag then st.sent ++ [FileTransfer.beginStr] else st.sent
    let (sendBuffer, is) := st.is.getline st.sendBuffer 256
    .inl ⟨is, sendBuffer, false, sent ++ [sendBuffer]⟩

/-- The state of the copier's loop, with what is written. -/
structure CopierLoop where
  is : IStream
  buffer : Bytes
  out : Bytes
deriving DecidableEq, Repr

def CopierLoop.start (file : Bytes) : CopierLoop := ⟨.open file, List.replicate 256 0, []⟩

def copierRound (st : CopierLoop) : CopierLoop ⊕ CopierLoop :=
  if st.is.eofbit then .inr st
  else
    let (buffer, is) := st.is.getline st.buffer 256
    .inl ⟨is, buffer, st.out ++ cstr buffer ++ [newline]⟩

def ClientEnds (file : Bytes) : Prop := ∃ n, (Loop.iter clientRound n (.start file)).isSome = true

def CopierEnds (file : Bytes) : Prop := ∃ n, (Loop.iter copierRound n (.start file)).isSome = true

section
variable {is : IStream} {line rest : Bytes}

/-- What a `getline` leaves of the stream does not depend on the buffer. -/
theorem getline_stream (is : IStream) (s s' : Bytes) (n : ℕ) : (is.getline s n).2 = (is.getline s' n).2 := by
  unfold IStream.getline
  split_ifs
  · dsimp only
    cases is.rest.drop (upTo is.rest n).length with
    | nil => rfl
    | cons c cs =>
      dsimp only
      split_ifs <;> rfl
  · rfl

/-- A loop that is left at the end of the file, and before that gets a line in every round. -/
theorem iter_stream {σ : Type} {round : σ → σ ⊕ σ} (stream : σ → IStream)
    (hleave : ∀ {st}, (stream st).eofbit = true → round st = .inr st)
    (hread : ∀ {st}, (stream st).eofbit = false →
      ∃ st' s, round st = .inl st' ∧ stream st' = ((stream st).getline s 256).2) (n : ℕ) (st : σ) :
    (Loop.iter round n st).isSome = (Loop.iter streamRound n (stream st)).isSome := by
  refine Loop.iter_isSome_sim (p := stream) ?_ ?_ n st
  · intro st st' hround
    cases heof : (stream st).eofbit with
    | true =>
      rw [hleave heof] at hround
      cases hround
    | false =>
      obtain ⟨st'', s, hst, hstream⟩ := hread heof
      rw [hst] at hround
      cases hround
      rw [hstream, streamRound, if_neg (by rw [heof]; exact Bool.false_ne_true), getline_stream]
  · intro st b hround
    cases heof : (stream st).eofbit with
    | true => exact ⟨_, if_pos heof⟩
    | false =>
      obtain ⟨st'', s, hst, -⟩ := hread heof
      rw [hst] at hround
      cases hround

theorem clientRound_read {st : ClientLoop} (heof : st.is.eofbit = false) :
    ∃ st' s, clientRound st = .inl st' ∧ st'.is = (st.is.getline s 256).2 := by
  have hgo : ¬ st.is.eofbit = true := by rw [heof]; exact Bool.false_ne_true
  exact ⟨_, st.sendBuffer, if_neg hgo, rfl⟩

theorem copierRound_read {st : CopierLoop} (heof : st.is.eofbit = false) :
    ∃ st' s, copierRound st = .inl st' ∧ st'.is = (st.is.getline s 256).2 := by
  have hgo : ¬ st.is.eofbit = true := by rw [heof]; exact Bool.false_ne_true
  exact ⟨_, st.buffer, if_neg hgo, rfl⟩

/-! ### The loop over the stream -/

theorem streamRound_stuck (heof : is.eofbit = false) (hfail : is.failbit = true) (n : ℕ) :
    Loop.iter streamRound n is = none := by
  refine Loop.iter_eq_none (I := fun is => is.eofbit = false ∧ is.failbit = true) ?_ ⟨heof, hfail⟩ n
  rintro is ⟨heof, hfail⟩
  refine ⟨{ is with failbit := true }, ?_, heof, rfl⟩
  simp [streamRound, IStream.getline, good, heof, hfail]

theorem upTo_long (h : newline ∉ line) (hlen : 255 < line.length) (tail : Bytes) :
    upTo (line ++ tail) 256 = line.take 255 := by
  rw [upTo, takeWhile_line h, List.take_append_of_le_length (by omega)]

/-- A line of more than 255 bytes sets `failbit`, and the end is not met. -/
theorem getline_long (h : newline ∉ line) (hlen : 255 < line.length) (tail buf : Bytes) :
    ((⟨line ++ tail, false, false⟩ : IStream).getline buf 256).2 = ⟨line.drop 255 ++ tail, false, true⟩ := by
  obtain ⟨c, cs, hc⟩ : ∃ c cs, line.drop 255 = c :: cs :=
    List.exists_cons_of_length_pos (by rw [List.length_drop]; omega)
  have hne : c ≠ newline := by
    rintro rfl
    exact h (List.mem_of_mem_drop (hc ▸ List.mem_cons_self ..))
  have hmin : min 255 line.length = 255 := Nat.min_eq_left (by omega)
  have hdrop : (line ++ tail).drop 255 = c :: (cs ++ tail) := by
    rw [List.drop_append_of_le_length (by omega), hc, List.cons_append]
  simp [IStream.getline, good, upTo_long h hlen, hmin, hdrop, hne, hc]

theorem stream_last (h : newline ∉ line) (hlen : line.length ≤ 255) (n : ℕ) :
    (Loop.iter streamRound (n + 2) ⟨line, false, false⟩).isSome = true := by
  have hround : streamRound ⟨line, false, false⟩ = .inl ⟨[], true, line.isEmpty⟩ := by
    simp [streamRound, getline_last h hlen]
  have hleave : streamRound ⟨[], true, line.isEmpty⟩ = .inr ⟨[], true, line.isEmpty⟩ := rfl
  rw [Loop.iter_inl hround, Loop.iter_inr hleave]
  rfl

theorem stream_line (h : newline ∉ line) (hlen : line.length ≤ 255) (n : ℕ) :
    Loop.iter streamRound (n + 1) ⟨line ++ newline :: rest, false, false⟩ =
      Loop.iter streamRound n ⟨rest, false, false⟩ := by
  refine Loop.iter_inl ?_
  simp [streamRound, getline_line h hlen]

theorem stream_long (h : newline ∉ line) (hlen : 255 < line.length) (tail : Bytes) (n : ℕ) :
    Loop.iter streamRound n ⟨line ++ tail, false, false⟩ = none := by
  cases n with
  | zero => rfl
  | succ n =>
    have hround : streamRound ⟨line ++ tail, false, false⟩ = .inl ⟨line.drop 255 ++ tail, false, true⟩ := by
      rw [streamRound, getline_long h hlen]
      rfl
    rw [Loop.iter_inl hround]
    exact streamRound_stuck rfl rfl n

/-- The loop ends if no line is long, and else gets to a long one. -/
theorem stream_ends_iff (rest : Bytes) :
    (∃ n, (Loop.iter streamRound n ⟨rest, false, false⟩).isSome = true) ↔
      ∀ l ∈ rest.splitOn newline, l.length ≤ 255 := by
  -- on the bytes left: behind the first line there are fewer
  induction hn : rest.length using Nat.strongRecOn generalizing rest with
  | _ k ih =>
    rcases cases_splitOn newline rest with ⟨hmem, hsplit⟩ | ⟨line, more, rfl, hline, hsplit⟩
    · rw [hsplit, List.forall_mem_singleton]
      constructor
      · rintro ⟨n, hend⟩
        by_contra hlong
        have hnone := stream_long hmem (by omega) [] n
        rw [List.append_nil] at hnone
        rw [hnone] at hend
        cases hend
      · intro hlen
        exact ⟨2, stream_last hmem hlen 0⟩
    · rw [hsplit, List.forall_mem_cons]
      by_cases hlen : line.length ≤ 255
      · have hlt : more.length < k := by rw [← hn]; simp; omega
        rw [← ih _ hlt more rfl, and_iff_right hlen]
        constructor
        · rintro ⟨n, hend⟩
          cases n with
          | zero => cases hend
          | succ n => exact ⟨n, by rw [← hend, stream_line hline hlen]⟩
        · rintro ⟨n, hend⟩
          exact ⟨n + 1, by rw [stream_line hline hlen, hend]⟩
      · refine iff_of_false ?_ fun hall => hlen hall.1
        rintro ⟨n, hend⟩
        rw [stream_long hline (by omega) (newline :: more) n] at hend
        cases hend

theorem clientEnds_iff (file : Bytes) : ClientEnds file ↔ ∀ l ∈ file.splitOn newline, l.length ≤ 255 := by
  have hstream : ∀ n st, (Loop.iter clientRound n st).isSome = (Loop.iter streamRound n st.is).isSome :=
    iter_stream ClientLoop.is (fun heof => if_pos heof) clientRound_read
  unfold ClientEnds
  simp only [hstream]
  exact stream_ends_iff file

theorem copierEnds_iff (file : Bytes) : CopierEnds file ↔ ∀ l ∈ file.splitOn newline, l.length ≤ 255 := by
  have hstream : ∀ n st, (Loop.iter copierRound n st).isSome = (Loop.iter streamRound n st.is).isSome :=
    iter_stream CopierLoop.is (fun heof => if_pos heof) copierRound_read
  unfold CopierEnds
  simp only [hstream]
  exact stream_ends_iff file

end

/-- The loops end on a file exactly when none of its lines is longer than 255 bytes. -/
theorem getline_loops_end_iff (file : Bytes) :
    ClientEnds file ∧ CopierEnds file ↔ ∀ l ∈ file.splitOn newline, l.length ≤ 255 := by
  rw [clientEnds_iff, copierEnds_iff, and_self_iff]

theorem getline_loops_long : ¬ ClientEnds (List.replicate 256 97) ∧ ¬ CopierEnds (List.replicate 256 97) := by
  have hsplit : (List.replicate 256 97 : Bytes).splitOn newline = [List.replicate 256 97] :=
    List.splitOn_eq_singleton fun hmem => absurd (List.eq_of_mem_replicate hmem) (by decide)
  have hlong : ¬ ∀ l ∈ (List.replicate 256 97 : Bytes).splitOn newline, l.length ≤ 255 := by
    rw [hsplit, List.forall_mem_singleton, List.length_replicate]
    decide
  exact ⟨fun h => hlong ((clientEnds_iff _).1 h), fun h => hlong ((copierEnds_iff _).1 h)⟩

end LearnCpp
