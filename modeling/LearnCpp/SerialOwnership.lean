import LearnCpp.SerialDev
import LearnCpp.Lib.Lts

/-!
# Who closes the descriptors of a `SerialDev`

`_fd` is set on the last line of `serialOpen` and never reset. So the descriptor is lost when `wiringPiSetup` fails or
when the port is opened again without a close, and it is used, or closed a second time by the destructor, after
`serialClose`. `Phase` says which calls may follow which; `Owns` connects it to the object, and `owned_iff` says that
the descriptors are owned exactly by the runs `Phase` allows.
-/

namespace LearnCpp

/-- The descriptor `read`, `write` or `close` is called on. -/
def PortCall.on : PortCall → Option Int
  | .close fd => some fd
  | .read fd _ => some fd
  | .write fd _ _ _ => some fd
  | _ => none

namespace Serial

open Lts

variable {s : Serial} {cs : List PortCall} {d : ℕ} {fd : Int}

/-- The second call is no `read`, `write` or `close` of a descriptor that the first one closes. -/
def Leaves (a b : PortCall) : Prop := ∀ d : ℕ, a = .close d → b.on ≠ some (d : Int)

/-- Every descriptor obtained is closed exactly once, and none is read, written or closed after its close. -/
structure Owned (p : Port) : Prop where
  once : ∀ d : ℕ, d < p.opened → p.calls.count (.close d) = 1
  unused : p.calls.Pairwise Leaves

/-! ### The calls that may follow -/

/-- What the object holds: nothing yet, an open descriptor, or one it has closed. -/
inductive Phase
  | idle
  | held
  | closed
deriving DecidableEq, Repr

/-- A `serialOpen` that gets past `tcsetattr` must not fail any more and must find no open descriptor; on a closed
one there is nothing else to call. -/
def Phase.next (p : Phase) : Op → Option Phase
  | .serialOpen o =>
    if o.openOk && o.attrOk then (if o.wiringOk && p != .held then some .held else none) else some p
  | .serialClose => match p with
    | .idle => some .idle
    | .held => some .closed
    | .closed => none
  | .serialWrite buff _ _ => if p = .closed ∧ buff.isSome then none else some p
  | .serialRead _ _ => if p = .closed then none else some p
  | .serialPutchar _ _ => if p = .closed then none else some p

/-! ### The log -/

variable {p : Phase} {log : List PortCall}

theorem unused_append (hcs : ∀ e, .close e ∉ cs) :
    (log ++ cs).Pairwise Leaves ↔
      log.Pairwise Leaves ∧ ∀ c ∈ cs, ∀ d : ℕ, c.on = some (d : Int) → .close (d : Int) ∉ log := by
  have hpair : cs.Pairwise Leaves := List.pairwise_of_forall_mem_list fun a ha b _ d hd => absurd (hd ▸ ha) (hcs d)
  rw [List.pairwise_append, and_iff_right hpair]
  refine and_congr_right fun _ => ⟨fun h c hc d hon hd => h _ hd c hc d rfl hon, ?_⟩
  rintro h a ha c hc d rfl hon
  exact h c hc d hon ha

theorem unused_close : (log ++ [PortCall.close fd]).Pairwise Leaves ↔
    log.Pairwise Leaves ∧ ∀ d : ℕ, fd = d → .close (d : Int) ∉ log := by
  rw [List.pairwise_append, and_iff_right (List.pairwise_singleton _ _)]
  refine and_congr_right fun _ => ⟨?_, ?_⟩
  · rintro h d rfl hd
    exact h _ hd _ (List.mem_singleton_self _) d rfl rfl
  · rintro h a ha c hc d rfl hon
    obtain rfl := List.mem_singleton.1 hc
    exact h d (Option.some.inj hon) ha

theorem count_append (hcs : ∀ e, .close e ∉ cs) (e : Int) :
    (log ++ cs).count (.close e) = log.count (.close e) := by
  rw [List.count_append, List.count_eq_zero.2 (hcs e), Nat.add_zero]

theorem count_close (e : Int) :
    (log ++ [PortCall.close fd]).count (.close e) = log.count (.close e) + if fd = e then 1 else 0 := by
  rw [List.count_append, List.count_singleton]
  simp

/-! ### The object and the phase -/

/-- What the object's descriptor is in a phase. -/
def Holds (s : Serial) : Phase → Prop
  | .idle => s.dev.fd = -1
  | .held => ∃ d : ℕ, s.dev.fd = d ∧ d < s.port.opened ∧ s.port.calls.count (.close (d : Int)) = 0
  | .closed => ∃ d : ℕ, s.dev.fd = d ∧ d < s.port.opened ∧ s.port.calls.count (.close (d : Int)) = 1

theorem Holds.mono {s' : Serial} (h : Holds s p) (hfd : s'.dev.fd = s.dev.fd) (hn : s.port.opened ≤ s'.port.opened)
    (hc : ∀ d : ℕ, d < s.port.opened →
      s'.port.calls.count (.close (d : Int)) = s.port.calls.count (.close (d : Int))) : Holds s' p := by
  cases p with
  | idle => exact hfd.trans h
  | held | closed =>
    obtain ⟨d, hd, hlt, hcount⟩ := h
    exact ⟨d, hfd.trans hd, hlt.trans_le hn, (hc d hlt).trans hcount⟩

/-- All descriptors obtained but the object's have been closed once, none was used after its close, and nothing else
was closed. -/
structure Owns (s : Serial) (p : Phase) : Prop where
  holds : Holds s p
  unused : s.port.calls.Pairwise Leaves
  others : ∀ d : ℕ, d < s.port.opened → s.dev.fd ≠ d → s.port.calls.count (.close (d : Int)) = 1
  fresh : ∀ d : ℕ, s.port.opened ≤ d → s.port.calls.count (.close (d : Int)) = 0

/-- A descriptor was used after its close, or one the object does not hold has not been closed. -/
def Lost (s : Serial) : Prop :=
  ¬ s.port.calls.Pairwise Leaves ∨
    ∃ d : ℕ, d < s.port.opened ∧ s.dev.fd ≠ d ∧ s.port.calls.count (.close (d : Int)) = 0

theorem Owns.fd_lt (h : Owns s p) (hd : s.dev.fd = d) : d < s.port.opened := by
  have hh := h.holds
  cases p with
  | idle =>
    have hidle : s.dev.fd = -1 := hh
    omega
  | held | closed =>
    obtain ⟨e, he, hlt, -⟩ := hh
    omega

theorem Owns.unclosed (h : Owns s p) (hp : p ≠ .closed) (hd : s.dev.fd = d) :
    s.port.calls.count (.close (d : Int)) = 0 := by
  have hh := h.holds
  cases p with
  | idle =>
    have hidle : s.dev.fd = -1 := hh
    omega
  | held =>
    obtain ⟨e, he, -, hz⟩ := hh
    obtain rfl : d = e := by omega
    exact hz
  | closed => exact absurd rfl hp

/-- Reads and writes of the descriptor, made before its close if at all. -/
theorem Owns.calls (h : Owns s p) (hcs : ∀ e, .close e ∉ cs)
    (hon : ∀ c ∈ cs, ∀ e, c.on = some e → e = s.dev.fd ∧ p ≠ .closed) : Owns { s with port := s.port.call cs } p := by
  refine ⟨h.holds.mono rfl le_rfl fun d _ => count_append hcs d,
    (unused_append hcs).2 ⟨h.unused, fun c hc d hd => ?_⟩, fun d hd hne => ?_, fun d hd => ?_⟩
  · obtain ⟨hfd, hp⟩ := hon c hc d hd
    exact List.count_eq_zero.1 (h.unclosed hp hfd.symm)
  · exact (count_append hcs d).trans (h.others d hd hne)
  · exact (count_append hcs d).trans (h.fresh d hd)

theorem Owns.not_unused (h : Owns s .closed) {c : PortCall} (hc : c ∈ cs) (hon : c.on = some s.dev.fd) :
    ¬ (s.port.calls ++ cs).Pairwise Leaves := by
  obtain ⟨d, hfd, -, hcount⟩ := h.holds
  have hclosed : .close (d : Int) ∈ s.port.calls := List.count_pos_iff.1 (by omega)
  exact fun hp => (List.pairwise_append.1 hp).2.2 _ hclosed c hc d rfl (hfd ▸ hon)

theorem count_serialClose (s : Serial) (e : ℕ) : s.serialClose.port.calls.count (.close (e : Int)) =
    s.port.calls.count (.close (e : Int)) + if s.dev.fd = e then 1 else 0 := count_close _

theorem Owns.serialClose (h : Owns s .held) : Owns s.serialClose .closed := by
  obtain ⟨d, hfd, hlt, hcount⟩ := h.holds
  have hunused : ∀ e : ℕ, s.dev.fd = e → .close (e : Int) ∉ s.port.calls :=
    fun e he => List.count_eq_zero.1 (h.unclosed nofun he)
  refine ⟨⟨d, hfd, hlt, ?_⟩, unused_close.2 ⟨h.unused, hunused⟩, fun e he (hne : s.dev.fd ≠ e) => ?_,
    fun e (he : s.port.opened ≤ e) => ?_⟩
  · rw [count_serialClose, hcount, if_pos hfd]
  · rw [count_serialClose, if_neg hne]
    exact h.others e he hne
  · have hne : s.dev.fd ≠ e := fun heq => Nat.not_lt.2 he (h.fd_lt heq)
    rw [count_serialClose, if_neg hne]
    exact h.fresh e he

theorem Owns.serialClose_idle (h : Owns s .idle) : Owns s.serialClose .idle := by
  have hfd : s.dev.fd = -1 := h.holds
  have hne : ∀ d : ℕ, s.dev.fd ≠ d := fun d => by omega
  refine ⟨hfd, unused_close.2 ⟨h.unused, fun e he => absurd he (hne e)⟩, fun d hd _ => ?_, fun d hd => ?_⟩
  · rw [count_serialClose, if_neg (hne d)]
    exact h.others d hd (hne d)
  · rw [count_serialClose, if_neg (hne d)]
    exact h.fresh d hd

/-! ### `serialOpen` -/

theorem serialOpen_refused (s : Serial) (o : OpenOutcomes) (ho : o.openOk = false) : (s.serialOpen o).2 = s := by
  unfold serialOpen
  split
  · rfl
  · simp [ho, Port.open]

/-- The state after `open` succeeded and `cs` was called on the new descriptor, which the object does not keep. -/
def opened (s : Serial) (cs : List PortCall) : Serial := ⟨s.dev, ⟨s.port.opened + 1, s.port.calls ++ cs⟩⟩

theorem serialOpen_opened {speed : Int32} (hbaud : myBaud s.dev.baud = some speed) {o : OpenOutcomes}
    (ho : o.openOk = true) :
    ∃ cs, (∀ c ∈ cs, c.on = none) ∧ (s.serialOpen o).2 =
      if o.attrOk = false then (s.opened (cs ++ [.close s.port.opened]))
      else if o.wiringOk = false then s.opened cs
      else { s.opened cs with dev := { s.dev with fd := s.port.opened } } := by
  have hfd : ¬ (s.port.opened : Int) = -1 := by omega
  rcases o with ⟨openOk, attrOk, wiringOk⟩
  obtain rfl : openOk = true := ho
  unfold serialOpen
  simp only [hbaud, Port.open, if_true, hfd, if_false, Port.call, List.append_assoc, opened]
  cases attrOk with
  | false => exact ⟨[.tcsetattr s.port.opened speed], by simp [PortCall.on], rfl⟩
  | true =>
    cases wiringOk with
    | false => exact ⟨[.tcsetattr s.port.opened speed, .usleep 10000], by simp [PortCall.on], rfl⟩
    | true =>
      exact ⟨[.tcsetattr s.port.opened speed, .usleep 10000, .pinMode rs485Pin, .digitalWrite rs485Pin false],
        by simp [PortCall.on], rfl⟩

section
variable (hcs : ∀ c ∈ cs, c.on = none)
include hcs

theorem count_opened (s : Serial) (d : ℕ) :
    (s.opened cs).port.calls.count (.close (d : Int)) = s.port.calls.count (.close (d : Int)) :=
  count_append (fun _ he => nomatch hcs _ he) d

theorem Owns.unused_opened (h : Owns s p) : (s.opened cs).port.calls.Pairwise Leaves := by
  refine (unused_append fun _ he => nomatch hcs _ he).2 ⟨h.unused, fun c hc d hd => ?_⟩
  rw [hcs c hc] at hd
  cases hd

/-- A descriptor obtained and closed again. -/
theorem Owns.refused (h : Owns s p) : Owns (s.opened (cs ++ [.close s.port.opened])) p := by
  have hcount : ∀ d : ℕ, (s.opened (cs ++ [.close s.port.opened])).port.calls.count (.close (d : Int)) =
      s.port.calls.count (.close (d : Int)) + if s.port.opened = d then 1 else 0 := by
    intro d
    rw [← count_opened hcs s d]
    simp only [opened, ← List.append_assoc, count_close, Int.natCast_inj]
  have hunused : (s.opened (cs ++ [.close s.port.opened])).port.calls.Pairwise Leaves := by
    simp only [opened, ← List.append_assoc]
    refine unused_close.2 ⟨h.unused_opened hcs, fun d hd => List.count_eq_zero.1 ?_⟩
    exact (count_opened hcs s d).trans (h.fresh d (by omega))
  refine ⟨h.holds.mono rfl (Nat.le_succ _) fun d hd => ?_, hunused, fun d hd hne => ?_, fun d hd => ?_⟩
  · rw [hcount, if_neg (by omega), Nat.add_zero]
  · change d < s.port.opened + 1 at hd
    rw [hcount]
    split_ifs with hnew
    · rw [h.fresh d (by omega)]
    · exact h.others d (by omega) hne
  · change s.port.opened + 1 ≤ d at hd
    rw [hcount, if_neg (by omega)]
    exact h.fresh d (by omega)

/-- A descriptor obtained and not kept. -/
theorem Owns.leaked (h : Owns s p) : Lost (s.opened cs) := by
  refine .inr ⟨s.port.opened, Nat.lt_succ_self _, fun hfd => ?_, ?_⟩
  · exact Nat.lt_irrefl _ (h.fd_lt hfd)
  · exact (count_opened hcs s _).trans (h.fresh _ le_rfl)

/-- A descriptor obtained and kept, while none was open. -/
theorem Owns.obtained (h : Owns s p) (hp : p ≠ .held) :
    Owns { s.opened cs with dev := { s.dev with fd := s.port.opened } } .held := by
  refine ⟨⟨s.port.opened, rfl, Nat.lt_succ_self _, (count_opened hcs s _).trans (h.fresh _ le_rfl)⟩,
    h.unused_opened hcs, fun d hd hne => ?_, fun d hd => ?_⟩
  · change d < s.port.opened + 1 at hd
    change (s.port.opened : Int) ≠ d at hne
    refine (count_opened hcs s d).trans ?_
    have hlt : d < s.port.opened := by omega
    have hh := h.holds
    cases p with
    | idle =>
      have hfd : s.dev.fd = -1 := hh
      exact h.others d hlt (by omega)
    | held => exact absurd rfl hp
    | closed =>
      obtain ⟨e, hfd, -, hcount⟩ := hh
      rcases eq_or_ne d e with rfl | hde
      · exact hcount
      · exact h.others d hlt (by omega)
  · exact (count_opened hcs s d).trans (h.fresh d (Nat.le_of_succ_le hd))

/-- A descriptor obtained and kept in place of an open one. -/
theorem Owns.overwritten (h : Owns s .held) :
    Lost { s.opened cs with dev := { s.dev with fd := s.port.opened } } := by
  obtain ⟨d, -, hlt, hcount⟩ := h.holds
  refine .inr ⟨d, Nat.lt_succ_of_lt hlt, fun hfd => ?_, (count_opened hcs s d).trans hcount⟩
  change (s.port.opened : Int) = d at hfd
  omega

end

/-! ### Runs -/

theorem Owns.serialOpen {speed : Int32} (hbaud : myBaud s.dev.baud = some speed) (h : Owns s p) (o : OpenOutcomes) :
    Tracked Owns Lost (s.serialOpen o).2 (p.next (.serialOpen o)) := by
  rcases Bool.eq_false_or_eq_true o.openOk with ho | ho
  · obtain ⟨cs, hcs, heq⟩ := serialOpen_opened hbaud ho
    rw [heq]
    rcases o with ⟨openOk, attrOk, wiringOk⟩
    obtain rfl : openOk = true := ho
    cases attrOk with
    | false => exact h.refused hcs
    | true =>
      cases wiringOk with
      | false => exact h.leaked hcs
      | true =>
        cases p with
        | held => exact h.overwritten hcs
        | idle | closed => exact h.obtained hcs nofun
  · rw [serialOpen_refused s o ho]
    simp only [Phase.next, ho, Bool.false_and, Bool.false_eq_true, if_false]
    exact h

/-- Calls that use the object's descriptor and do not close it, allowed unless it has been closed. -/
theorem Owns.use (h : Owns s p) (hcs : ∀ e, .close e ∉ cs) (hon : ∀ c ∈ cs, ∀ e, c.on = some e → e = s.dev.fd)
    (huse : ∃ c ∈ cs, c.on = some s.dev.fd) :
    Tracked Owns Lost { s with port := s.port.call cs } (if p = .closed then none else some p) := by
  split_ifs with hp
  · subst hp
    obtain ⟨c, hc, hfd⟩ := huse
    exact .inl (h.not_unused hc hfd)
  · exact h.calls hcs fun c hc e he => ⟨hon c hc e he, hp⟩

theorem Owns.serialWrite (h : Owns s p) (buff : Option (List UInt8)) (len : UInt32) (ret : Int) :
    Tracked Owns Lost (s.serialWrite buff len ret).2 (p.next (.serialWrite buff len ret)) := by
  cases buff with
  | none =>
    simp only [Phase.next, Option.isSome_none, Bool.false_eq_true, and_false, if_false]
    exact h
  | some current =>
    simp only [Phase.next, Option.isSome_some, and_true]
    by_cases hneg : s.dev.fd < 0
    · have hp : p ≠ .closed := by
        rintro rfl
        obtain ⟨d, hfd, -⟩ := h.holds
        omega
      simp only [Serial.serialWrite, if_pos hneg, if_neg hp]
      exact h
    · simp only [Serial.serialWrite, if_neg hneg]
      exact h.use (by simp) (by simp [PortCall.on])
        ⟨.write s.dev.fd current len.toInt32.toInt64.toUInt64 ret, by simp, rfl⟩

theorem Owns.step {speed : Int32} (hbaud : myBaud s.dev.baud = some speed) (h : Owns s p) (op : Op) :
    Tracked Owns Lost (s.step op) (p.next op) := by
  cases op with
  | serialOpen o => exact h.serialOpen hbaud o
  | serialClose =>
    cases p with
    | idle => exact h.serialClose_idle
    | held => exact h.serialClose
    | closed => exact .inl (h.not_unused (List.mem_singleton_self _) rfl)
  | serialWrite buff len ret => exact h.serialWrite buff len ret
  | serialRead len got =>
    have heq : s.step (.serialRead len got) = { s with port := s.port.call [.read s.dev.fd len] } := by
      cases got <;> rfl
    rw [heq]
    exact h.use (by simp) (by simp [PortCall.on]) ⟨_, List.mem_singleton_self _, rfl⟩
  | serialPutchar c ret => exact h.use (by simp) (by simp [PortCall.on]) ⟨_, List.mem_singleton_self _, rfl⟩

/-- What every call does: it adds to the log, closing nothing but the object's descriptor or a new one. -/
structure Extends (s s' : Serial) : Prop where
  baud : s'.dev.baud = s.dev.baud
  fd : s'.dev.fd = s.dev.fd ∨ s'.dev.fd = s.port.opened
  opened : s.port.opened ≤ s'.port.opened
  calls : ∃ cs, s'.port.calls = s.port.calls ++ cs ∧ ∀ e, .close e ∈ cs → e = s.dev.fd ∨ e = s.port.opened

theorem Extends.call (s : Serial) (hcs : ∀ e, .close e ∈ cs → e = s.dev.fd ∨ e = s.port.opened) :
    Extends s { s with port := s.port.call cs } :=
  ⟨rfl, .inl rfl, le_rfl, cs, rfl, hcs⟩

theorem Extends.refl (s : Serial) : Extends s s :=
  ⟨rfl, .inl rfl, le_rfl, [], (List.append_nil _).symm, nofun⟩

theorem extends_serialOpen (s : Serial) (o : OpenOutcomes) : Extends s (s.serialOpen o).2 := by
  rcases Bool.eq_false_or_eq_true o.openOk with ho | ho
  · cases hbaud : myBaud s.dev.baud with
    | none =>
      simp only [Serial.serialOpen, hbaud]
      exact .refl s
    | some speed =>
      obtain ⟨cs, hcs, heq⟩ := serialOpen_opened hbaud ho
      rw [heq]
      have hnone : ∀ e, .close e ∉ cs := fun e he => nomatch hcs _ he
      split_ifs
      · refine ⟨rfl, .inl rfl, Nat.le_succ _, _, rfl, fun e he => ?_⟩
        rcases List.mem_append.1 he with he | he
        · exact absurd he (hnone e)
        · cases List.mem_singleton.1 he
          exact .inr rfl
      · exact ⟨rfl, .inl rfl, Nat.le_succ _, cs, rfl, fun e he => absurd he (hnone e)⟩
      · exact ⟨rfl, .inr rfl, Nat.le_succ _, cs, rfl, fun e he => absurd he (hnone e)⟩
  · rw [serialOpen_refused s o ho]
    exact .refl s

theorem extends_step (s : Serial) (op : Op) : Extends s (s.step op) := by
  cases op with
  | serialOpen o => exact extends_serialOpen s o
  | serialClose =>
    refine .call s fun e he => ?_
    cases List.mem_singleton.1 he
    exact .inl rfl
  | serialWrite buff len ret =>
    cases buff with
    | none => exact .refl s
    | some current =>
      simp only [step, Serial.serialWrite]
      split
      · exact .refl s
      · exact .call s (by simp)
  | serialRead len got => cases got <;> exact .call s (by simp)
  | serialPutchar c ret => exact .call s (by simp)

theorem Lost.step (h : Lost s) (op : Op) : Lost (s.step op) := by
  have he := extends_step s op
  obtain ⟨cs, hcalls, hclose⟩ := he.calls
  rcases h with hp | ⟨d, hd, hne, hcount⟩
  · refine .inl fun hp' => hp ?_
    rw [hcalls] at hp'
    exact (List.pairwise_append.1 hp').1
  · refine .inr ⟨d, hd.trans_le he.opened, fun hfd => ?_, ?_⟩
    · rcases he.fd with hsame | hnew
      · exact hne (hsame.symm.trans hfd)
      · omega
    · rw [hcalls, List.count_append, hcount, Nat.zero_add]
      refine List.count_eq_zero.2 fun hc => ?_
      rcases hclose d hc with heq | heq
      · exact hne heq.symm
      · omega

theorem Lost.not_owned (h : Lost s) : ¬ Owned s.destroy.port := by
  have hd : Lost s.destroy := h.step .serialClose
  intro ho
  rcases hd with hp | ⟨d, hlt, -, hcount⟩
  · exact hp ho.unused
  · exact absurd (ho.once d hlt) (by omega)

theorem Owns.owned_destroy_iff (h : Owns s p) : Owned s.destroy.port ↔ p ≠ .closed := by
  constructor
  · rintro ho rfl
    exact h.not_unused (List.mem_singleton_self _) rfl ho.unused
  · intro hp
    refine ⟨fun d hd => ?_, unused_close.2 ⟨h.unused, fun d hfd => List.count_eq_zero.1 (h.unclosed hp hfd)⟩⟩
    refine (count_serialClose s d).trans ?_
    split_ifs with hfd
    · rw [h.unclosed hp hfd]
    · exact h.others d hd hfd

theorem Owns.init (device : String) (baud : Int32) : Owns (init device baud) .idle :=
  ⟨rfl, .nil, nofun, fun _ _ => rfl⟩

/-- For every accepted baud rate and every sequence of calls with their outcomes: after the destructor every
descriptor obtained has been closed once, and none was used after its close, exactly when the calls are ones that
`Phase` allows and they do not end on a closed descriptor. -/
theorem owned_iff (device : String) {baud speed : Int32} (hbaud : myBaud baud = some speed) (ops : List Op) :
    Owned (ops.foldl step (init device baud)).destroy.port ↔
      ∃ p, ops.foldlM Phase.next .idle = some p ∧ p ≠ .closed := by
  have hstep : ∀ s p op, myBaud s.dev.baud = some speed ∧ Owns s p →
      Tracked (fun s p => myBaud s.dev.baud = some speed ∧ Owns s p) Lost (s.step op) (p.next op) := by
    rintro s p op ⟨hb, h⟩
    have hnext := h.step hb op
    cases hp : p.next op with
    | none =>
      rw [hp] at hnext
      exact hnext
    | some p' =>
      rw [hp] at hnext
      exact ⟨by rwa [(extends_step s op).baud], hnext⟩
  -- call by call the object is in its phase, or a descriptor is lost for good
  have hrun := protocol hstep (fun s op h => h.step op) ⟨hbaud, Owns.init device baud⟩ ops
  cases hp : ops.foldlM Phase.next .idle with
  | none =>
    rw [hp] at hrun
    have hlost : Lost (ops.foldl step (Serial.init device baud)) := hrun
    simp [hlost.not_owned]
  | some p =>
    rw [hp] at hrun
    have howns : Owns (ops.foldl step (Serial.init device baud)) p := hrun.2
    simp [howns.owned_destroy_iff]

def sessions : List Op :=
  [.serialOpen ⟨true, false, true⟩, .serialOpen ⟨true, true, true⟩, .serialWrite (some [1, 2]) 2 2, .serialClose,
    .serialWrite none 0 0, .serialOpen ⟨true, true, true⟩, .serialRead 8 none]

theorem owned_iff_sessions : Owned (sessions.foldl step (init "/dev/ttyAMA0" 115200)).destroy.port := by
  have hbaud : myBaud 115200 = some 115200 := by decide
  exact (owned_iff "/dev/ttyAMA0" hbaud sessions).2 ⟨.held, by decide, nofun⟩

/-- After `serialClose` the destructor closes the descriptor a second time. -/
theorem closed_twice :
    ¬ Owned (([.serialOpen ⟨true, true, true⟩, .serialClose] : List Op).foldl step
      (init "/dev/ttyAMA0" 115200)).destroy.port := by
  intro h
  exact absurd (h.once 0 (by decide)) (by decide)

end Serial

end LearnCpp
