import LearnCpp.Text

/-!
# The datagram programs (`udp_broadcast/udpClient.c`, `udp_broadcast/udpServer.c`)

One client sends its arguments to a server, or to a broadcast address with a server on each host, and then takes one
reply; a server shows each datagram and answers with its host's name. The network may lose, delay, repeat and reorder
datagrams: those sent stay on their way, and a `recvfrom` takes any of them. A `recvfrom` cuts a datagram to the array.
-/

namespace LearnCpp

namespace UdpBroadcast

variable {κ : Type}

/-- `MAX_MSG`. -/
def maxMsg : ℕ := 100

structure State (κ : Type) where
  /-- The arguments the client has not sent yet; `none` when it has ended. -/
  client : Option (List CString)
  /-- What the client sent, for every server to receive. -/
  toServers : List Bytes
  /-- What the servers answered. -/
  toClient : List (κ × Bytes)
  /-- The texts the servers showed. -/
  shown : List (κ × Bytes)
  /-- The reply the client showed, and whose it was. -/
  reply : Option (κ × Bytes)

/-- `sendto` and `recvfrom` with their results; a `recvfrom` takes the datagram of this number. -/
inductive Event (κ : Type)
  | send (ok : Bool)
  | serve (k : κ) (i : ℕ) (ok : Bool)
  | receive (i : ℕ)
  | receiveFails

/-- The client ends at once if it is given nothing to send. -/
def init (args : List CString) : State κ := ⟨if args = [] then none else some args, [], [], [], none⟩

/-- A round of the server's loop: the text it shows and its reply. -/
def serverRound (name : CString) (payload : Bytes) : Option (Bytes × Bytes) := do
  let msg := payload.take maxMsg ++ List.replicate (maxMsg - payload.length) 0
  let text ← arrayText msg
  -- `memcpy(send_msg, h->h_name, strlen(h->h_name) + 1)`
  if name.1.length < maxMsg then some (text, name.1 ++ [0]) else none

/-- `none` if an array is read or written beyond its end. What a program in another state would have to do is no
event. -/
def step (names : κ → CString) (s : State κ) : Event κ → Option (State κ)
  | .send ok => match s.client with
    | some (a :: left) => if ok then some { s with client := some left, toServers := s.toServers ++ [a.1 ++ [0]] }
      else some { s with client := none }
    | _ => some s
  | .serve k i ok => match s.toServers[i]? with
    | some payload => do
      let (text, reply) ← serverRound (names k) payload
      some { s with
        shown := s.shown ++ [(k, text)], toClient := if ok then s.toClient ++ [(k, reply)] else s.toClient }
    | none => some s
  | .receive i => match s.client, s.toClient[i]? with
    | some [], some (k, payload) => do
      -- the array is not set before, so past the datagram it holds anything
      let text ← arrayText (payload.take maxMsg)
      some { s with client := none, reply := some (k, text) }
    | _, _ => some s
  | .receiveFails => match s.client with
    | some [] => some { s with client := none }
    | _ => some s

def run (names : κ → CString) (args : List CString) (es : List (Event κ)) : Option (State κ) :=
  es.foldlM (step names) (init args)

/-! ### One step -/

variable {names : κ → CString} {args : List CString} {s s' : State κ}

/-- What the client sent is the first of its arguments; what a server showed was sent; a reply on its way is the name
of a server that showed something; and what the client shows is such a name. -/
structure Inv (names : κ → CString) (args : List CString) (s : State κ) : Prop where
  sent : ∃ done, done <+: args ∧ s.toServers = done.map (fun a => a.1 ++ [0]) ∧
    ∀ left, s.client = some left → args = done ++ left
  shown : ∀ k t, (k, t) ∈ s.shown → ∃ a ∈ args, t = a.1 ∧ a.1 ++ [0] ∈ s.toServers
  replies : ∀ k p, (k, p) ∈ s.toClient → p = (names k).1 ++ [0] ∧ (names k).1.length < maxMsg ∧
    ∃ t, (k, t) ∈ s.shown
  reply : ∀ k t, s.reply = some (k, t) → t = (names k).1 ∧ (∃ t', (k, t') ∈ s.shown) ∧ s.client = none ∧
    s.toServers = args.map fun a => a.1 ++ [0]

/-- Every argument and every name fits an array with its NUL. -/
def Fits (names : κ → CString) (args : List CString) : Prop :=
  ∀ a ∈ args, ∀ k, a.1.length < maxMsg ∧ (names k).1.length < maxMsg

theorem inv_init (names : κ → CString) (args : List CString) : Inv names args (init args) := by
  refine ⟨⟨[], List.nil_prefix, rfl, fun left hleft => ?_⟩, ?_, ?_, ?_⟩
  · simp only [init] at hleft
    split at hleft
    · cases hleft
    · exact Option.some.inj hleft
  · simp [init]
  · simp [init]
  · simp [init]

/-- A server shows a whole argument, or reads past the end of `msg`. -/
theorem serverRound_eq (name a : CString) : serverRound name (a.1 ++ [0]) =
    if a.1.length < maxMsg ∧ name.1.length < maxMsg then some (a.1, name.1 ++ [0]) else none := by
  have hlen : (a.1 ++ [0]).length = a.1.length + 1 := List.length_append
  by_cases ha : a.1.length < maxMsg
  · have htake : (a.1 ++ [0]).take maxMsg = a.1 ++ [0] := List.take_of_length_le (by omega)
    simp only [serverRound, htake, List.append_assoc, List.singleton_append, arrayText_append_nul a.2]
    simp [ha]
  · have htake : (a.1 ++ [0]).take maxMsg = a.1.take maxMsg := by
      rw [List.take_append_of_le_length (by omega)]
    have hzeros : maxMsg - (a.1 ++ [0]).length = 0 := by omega
    have hnul : (0 : UInt8) ∉ a.1.take maxMsg := fun hc => a.2 (List.mem_of_mem_take hc)
    rw [if_neg fun hc => ha hc.1]
    simp only [serverRound, htake, hzeros, List.replicate_zero, List.append_nil, arrayText_none hnul]
    rfl

theorem inv_send (h : Inv names args s) {a : CString} {left : List CString} (hclient : s.client = some (a :: left)) :
    Inv names args { s with client := some left, toServers := s.toServers ++ [a.1 ++ [0]] } := by
  obtain ⟨done, hdone, hsent, hleft⟩ := h.sent
  have hargs : args = done ++ a :: left := hleft _ hclient
  refine ⟨⟨done ++ [a], ⟨left, by simp [hargs]⟩, by simp [hsent], fun left' hleft' => ?_⟩, ?_, h.replies, ?_⟩
  · cases hleft'
    simp [hargs]
  · intro k t hshown
    obtain ⟨a', ha', rfl, hmem⟩ := h.shown k t hshown
    exact ⟨a', ha', rfl, List.mem_append_left _ hmem⟩
  · intro k t hreply
    obtain ⟨-, -, hnone, -⟩ := h.reply k t hreply
    rw [hclient] at hnone
    cases hnone

/-- The client ends without a reply. -/
theorem inv_ends (h : Inv names args s) {left : List CString} (hclient : s.client = some left) :
    Inv names args { s with client := none } := by
  obtain ⟨done, hdone, hsent, -⟩ := h.sent
  refine ⟨⟨done, hdone, hsent, fun left' hleft' => by cases hleft'⟩, h.shown, h.replies, fun k t hreply => ?_⟩
  obtain ⟨-, -, hnone, -⟩ := h.reply k t hreply
  rw [hclient] at hnone
  cases hnone

theorem inv_serve (h : Inv names args s) {a : CString} (ha : a ∈ args) (hmem : a.1 ++ [0] ∈ s.toServers) {k : κ}
    (hname : (names k).1.length < maxMsg) (ok : Bool) : Inv names args { s with
      shown := s.shown ++ [(k, a.1)],
      toClient := if ok then s.toClient ++ [(k, (names k).1 ++ [0])] else s.toClient } := by
  have hshown : ∀ {k' t}, (k', t) ∈ s.shown → (k', t) ∈ s.shown ++ [(k, a.1)] := fun ht => List.mem_append_left _ ht
  have hold : ∀ k' p, (k', p) ∈ s.toClient → p = (names k').1 ++ [0] ∧ (names k').1.length < maxMsg ∧
      ∃ t, (k', t) ∈ s.shown ++ [(k, a.1)] := fun k' p hp => by
    obtain ⟨hpay, hlen, t, ht⟩ := h.replies k' p hp
    exact ⟨hpay, hlen, t, hshown ht⟩
  refine ⟨h.sent, fun k' t ht => ?_, fun k' p hp => ?_, fun k' t hreply => ?_⟩
  · rcases List.mem_append.1 ht with ht | ht
    · exact h.shown k' t ht
    · obtain ⟨rfl, rfl⟩ := Prod.mk.inj (List.mem_singleton.1 ht)
      exact ⟨a, ha, rfl, hmem⟩
  · cases ok with
    | false => exact hold k' p hp
    | true =>
      rcases List.mem_append.1 hp with hp | hp
      · exact hold k' p hp
      · obtain ⟨rfl, rfl⟩ := Prod.mk.inj (List.mem_singleton.1 hp)
        exact ⟨rfl, hname, a.1, List.mem_append_right _ (List.mem_singleton_self _)⟩
  · obtain ⟨hname', ⟨t', ht'⟩, hrest⟩ := h.reply k' t hreply
    exact ⟨hname', ⟨t', hshown ht'⟩, hrest⟩

theorem inv_receive (h : Inv names args s) (hclient : s.client = some []) {k : κ}
    (hmem : (k, (names k).1 ++ [0]) ∈ s.toClient) :
    Inv names args { s with client := none, reply := some (k, (names k).1) } := by
  obtain ⟨done, hdone, hsent, hleft⟩ := h.sent
  refine ⟨⟨done, hdone, hsent, fun left' hleft' => by cases hleft'⟩, h.shown, h.replies, fun k' t hreply => ?_⟩
  obtain ⟨rfl, rfl⟩ := Prod.mk.inj (Option.some.inj hreply)
  have hall : args = done := by rw [hleft [] hclient, List.append_nil]
  exact ⟨rfl, (h.replies k _ hmem).2.2, rfl, by rw [hsent, hall]⟩

/-- What one event does, in a state that the programs can reach. -/
theorem step_spec (h : Inv names args s) (e : Event κ) :
    (∃ s', step names s e = some s' ∧ Inv names args s') ∨ (step names s e = none ∧ ¬ Fits names args) := by
  cases e with
  | send ok =>
    refine .inl ?_
    cases hclient : s.client with
    | none => exact ⟨s, by simp only [step, hclient], h⟩
    | some todo =>
      cases todo with
      | nil => exact ⟨s, by simp only [step, hclient], h⟩
      | cons a left =>
        cases ok with
        | true => exact ⟨_, by simp only [step, hclient, if_true], inv_send h hclient⟩
        | false => exact ⟨_, by simp only [step, hclient, Bool.false_eq_true, if_false], inv_ends h hclient⟩
  | serve k i ok =>
    cases hi : s.toServers[i]? with
    | none => exact .inl ⟨s, by simp only [step, hi], h⟩
    | some payload =>
      have hmem : payload ∈ s.toServers := List.mem_of_getElem? hi
      obtain ⟨done, hdone, hsent, -⟩ := h.sent
      obtain ⟨a, ha, rfl⟩ : ∃ a ∈ done, a.1 ++ [0] = payload := by simpa only [hsent, List.mem_map] using hmem
      have hargs : a ∈ args := hdone.subset ha
      by_cases hfits : a.1.length < maxMsg ∧ (names k).1.length < maxMsg
      · refine .inl ⟨_, ?_, inv_serve h hargs hmem hfits.2 ok⟩
        simp only [step, hi, serverRound_eq, if_pos hfits]
        rfl
      · refine .inr ⟨?_, fun hall => hfits (hall a hargs k)⟩
        simp only [step, hi, serverRound_eq, if_neg hfits]
        rfl
  | receive i =>
    refine .inl ?_
    cases hclient : s.client with
    | none => exact ⟨s, by simp only [step, hclient], h⟩
    | some todo =>
      cases todo with
      | cons a left => exact ⟨s, by simp only [step, hclient], h⟩
      | nil =>
        cases hi : s.toClient[i]? with
        | none => exact ⟨s, by simp only [step, hclient, hi], h⟩
        | some kp =>
          rcases kp with ⟨k, p⟩
          have hmem : (k, p) ∈ s.toClient := List.mem_of_getElem? hi
          obtain ⟨rfl, hlen, -⟩ := h.replies k p hmem
          have htake : ((names k).1 ++ [0]).take maxMsg = (names k).1 ++ [0] :=
            List.take_of_length_le (by rw [List.length_append, List.length_singleton]; omega)
          refine ⟨_, ?_, inv_receive h hclient hmem⟩
          simp only [step, hclient, hi, htake, arrayText_append_nul (names k).2]
          rfl
  | receiveFails =>
    refine .inl ?_
    cases hclient : s.client with
    | none => exact ⟨s, by simp only [step, hclient], h⟩
    | some todo =>
      cases todo with
      | nil => exact ⟨_, by simp only [step, hclient], inv_ends h hclient⟩
      | cons a left => exact ⟨s, by simp only [step, hclient], h⟩

/-! ### Runs -/

theorem foldlM_spec (h : Inv names args s) (es : List (Event κ)) :
    (∃ s', es.foldlM (step names) s = some s' ∧ Inv names args s') ∨
      (es.foldlM (step names) s = none ∧ ¬ Fits names args) := by
  induction es generalizing s with
  | nil => exact .inl ⟨s, rfl, h⟩
  | cons e es ih =>
    rw [List.foldlM_cons]
    rcases step_spec h e with ⟨s₁, hstep, h₁⟩ | ⟨hstep, hfits⟩
    · rw [hstep]
      exact ih h₁
    · rw [hstep]
      exact .inr ⟨rfl, hfits⟩

theorem inv_run {es : List (Event κ)} (h : run names args es = some s) : Inv names args s := by
  rcases foldlM_spec (inv_init names args) es with ⟨s', hrun, hinv⟩ | ⟨hrun, -⟩
  · obtain rfl : s' = s := Option.some.inj (hrun.symm.trans h)
    exact hinv
  · cases hrun.symm.trans h

/-- The client sends the arguments `pre`, one after the other. -/
theorem foldlM_sends (pre left : List CString) (sent : List Bytes) :
    (pre.map fun _ => Event.send true).foldlM (step names) ⟨some (pre ++ left), sent, [], [], none⟩ =
      some ⟨some left, sent ++ pre.map fun a => a.1 ++ [0], [], [], none⟩ := by
  induction pre generalizing sent with
  | nil => simp
  | cons a pre ih =>
    rw [List.map_cons, List.foldlM_cons]
    simp only [List.cons_append, step, if_true, Option.bind_eq_bind, Option.bind_some]
    rw [ih, List.map_cons, List.append_assoc, List.singleton_append]

/-- No array is read or written beyond its end, whatever the network does, exactly when every argument and every name of
a server's host fits. -/
theorem arrays_kept_iff (names : κ → CString) (args : List CString) :
    (∀ es, (run names args es).isSome) ↔ ∀ a ∈ args, ∀ k, a.1.length < 100 ∧ (names k).1.length < 100 := by
  constructor
  · intro h a ha k
    obtain ⟨pre, post, rfl⟩ := List.append_of_mem ha
    by_contra hcond
    have hlong : ¬ (a.1.length < maxMsg ∧ (names k).1.length < maxMsg) := hcond
    -- the client sends up to `a`, and the server `k` receives `a`
    have hrun := h ((pre ++ [a]).map (fun _ => .send true) ++ [.serve k pre.length true])
    have hargs : pre ++ a :: post = (pre ++ [a]) ++ post := by simp
    have hne : (pre ++ [a]) ++ post ≠ [] := by simp
    have hlast : ([] ++ (pre ++ [a]).map fun a => a.1 ++ [0])[pre.length]? = some (a.1 ++ [0]) := by simp
    rw [hargs, run, init, if_neg hne, List.foldlM_append, foldlM_sends] at hrun
    simp only [Option.bind_eq_bind, Option.bind_some, List.foldlM_cons, step, hlast, serverRound_eq,
      if_neg hlong] at hrun
    exact Bool.false_ne_true hrun
  · intro hfits es
    rcases foldlM_spec (inv_init names args) es with ⟨s, hrun, -⟩ | ⟨-, hlong⟩
    · exact Option.isSome_iff_exists.2 ⟨s, hrun⟩
    · exact absurd hfits hlong

end UdpBroadcast

end LearnCpp
