import LearnCpp.ZmqSend
import LearnCpp.ZmqRecv

/-!
# Sent messages are received

When every `zmq_msg_send` succeeds, the messages a list of calls puts on the wire are the two-part
messages of the calls, and one `RecvAllMessages` on the other end takes them all off in order. The content
of a `Send2Strings` call arrives as it was put into the second part: an empty one as a single NUL byte.
-/

namespace LearnCpp

/-- The pair as the caller passed it, a null data pointer being empty content. -/
def Send.given : Send → Bytes × Bytes
  | send2Parts title data => (title, data.getD [])
  | send2Strings title content => (title, content)

/-- The pair the other end is to receive: an empty `Send2Strings` content counts as one NUL byte. -/
def Send.pair : Send → Bytes × Bytes
  | send2Strings title [] => (title, [0])
  | c => c.given

def succeeding (cs : List Send) : List Attempt := cs.map fun c => ⟨c, true, true⟩

/-- The messages waiting at the other end after the calls `cs`. -/
def delivered (cs : List Send) : List Msg := (sendAll .fresh (succeeding cs)).2.emitted

/-- The output arguments of one `RecvAllMessages` after the calls `cs`. -/
def receive (cs : List Send) (titles contents : List Bytes) (errno errNum : Int) : Int × RecvAll :=
  recvAllMessages ⟨.ofQueue (delivered cs) errno, titles, contents, errNum⟩

section
variable {cs cs' : List Send}

theorem pair_eq (c : Send) : c.pair = (c.title, c.content) := by
  cases c with
  | send2Parts => rfl
  | send2Strings title content => cases content <;> rfl

theorem emitted_succeeding (cs : List Send) (ms : List Msg) :
    (sendAll ⟨[], ms⟩ (succeeding cs)).2.emitted = ms ++ cs.map Send.msg := by
  induction cs generalizing ms with
  | nil => simp [succeeding, sendAll, Lts.runTotal]
  | cons c cs ih =>
    have hfull : Attempt.Full ⟨c, true, true⟩ := ⟨rfl, rfl⟩
    show (sendAll ⟨[], ms⟩ (⟨c, true, true⟩ :: succeeding cs)).2.emitted = _
    rw [sendAll_cons, Attempt.run_of_full hfull, ih]
    simp [Send.msg, Msg.complete]

theorem delivered_eq (cs : List Send) : delivered cs = cs.map Send.msg :=
  (emitted_succeeding cs []).trans (List.nil_append _)

theorem pairsOf_msgs (cs : List Send) : pairsOf (cs.map Send.msg) = cs.map Send.pair := by
  induction cs with
  | nil => rfl
  | cons c cs ih =>
    rw [List.map_cons, pairsOf, List.flatMap_cons, ← pairsOf, ih, List.map_cons, pair_eq]
    rfl

theorem receive_eq (cs : List Send) (titles contents : List Bytes) (errno errNum : Int) :
    receive cs titles contents errno errNum =
      (0, ⟨.ofQueue [] EAGAIN, titles ++ cs.map Send.title, contents ++ cs.map Send.content, EAGAIN⟩) := by
  have hev : ∀ m ∈ delivered cs, Even m.parts.length := by
    rw [delivered_eq]
    intro m hm
    obtain ⟨c, -, rfl⟩ := List.mem_map.1 hm
    exact ⟨1, rfl⟩
  rw [receive, recvAll_queue_even _ _ hev rfl, delivered_eq, pairsOf_msgs]
  simp [RecvAll.push, pair_eq, Function.comp_def]

theorem received_lists_iff :
    (cs.map Send.title = cs'.map Send.title ∧ cs.map Send.content = cs'.map Send.content) ↔
      cs.map Send.pair = cs'.map Send.pair := by
  have hpair : Send.pair = fun c => (c.title, c.content) := funext pair_eq
  rw [hpair]
  constructor
  · rintro ⟨ht, hc⟩
    rw [← List.zip_map', ht, hc, List.zip_map']
  · intro h
    have hf := congrArg (List.map Prod.fst) h
    have hs := congrArg (List.map Prod.snd) h
    rw [List.map_map, List.map_map] at hf hs
    exact ⟨hf, hs⟩

end

/-- One `RecvAllMessages` returns `0` and appends the pairs of the calls in order, and two lists of calls
are received as the same lists exactly when their pairs agree. -/
theorem receive_roundtrip (cs : List Send) (titles contents : List Bytes) (errno errNum : Int) :
    (receive cs titles contents errno errNum).1 = 0 ∧
      (receive cs titles contents errno errNum).2.titles = titles ++ (cs.map Send.pair).map Prod.fst ∧
      (receive cs titles contents errno errNum).2.contents = contents ++ (cs.map Send.pair).map Prod.snd ∧
      ∀ cs' : List Send,
        ((receive cs titles contents errno errNum).2.titles = (receive cs' titles contents errno errNum).2.titles ∧
          (receive cs titles contents errno errNum).2.contents =
            (receive cs' titles contents errno errNum).2.contents) ↔
        cs.map Send.pair = cs'.map Send.pair := by
  have hfst : Prod.fst ∘ Send.pair = Send.title := funext fun c => by rw [Function.comp, pair_eq]
  have hsnd : Prod.snd ∘ Send.pair = Send.content := funext fun c => by rw [Function.comp, pair_eq]
  simp only [receive_eq, List.map_map, List.append_cancel_left_eq, true_and, hfst, hsnd]
  exact fun cs' => received_lists_iff

/-- `Send2Strings("t", "")` and `Send2Strings("t", "\0")` send different pairs that arrive alike. -/
theorem empty_content_arrives_as_nul :
    [Send.send2Strings [116] []].map Send.given ≠ [Send.send2Strings [116] [0]].map Send.given ∧
      (receive [.send2Strings [116] []] [] [] 0 0).2 = (receive [.send2Strings [116] [0]] [] [] 0 0).2 ∧
      (receive [.send2Strings [116] []] [] [] 0 0).2.contents ≠
        [Send.send2Strings [116] []].map fun c => c.given.2 := by
  refine ⟨by decide, ?_, ?_⟩
  · rw [receive_eq, receive_eq]; rfl
  · rw [receive_eq]; decide

end LearnCpp
