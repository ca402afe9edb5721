import LearnCpp.SpiDevice
import LearnCpp.Lib.Lts

/-!
# Who closes the descriptors of a `SpiDevice`

`begin` closes the descriptor it opened when an `ioctl` fails and never sets the open flag then.
`setConfig` also closes the descriptor when one of its `ioctl`s fails, but leaves the flag set: the object
stays "open" on a closed descriptor, `begin` returns `true` without reopening, and the destructor closes a
second time. `Effect` lists what a call can do to flag, descriptor and log; `descriptor_owned_iff`: a run
is in order exactly when no `setConfig` on an open device has an `ioctl` fail.
-/

namespace LearnCpp.Spi

open Lts

variable {s s' : Spi}

/-- While the flag is set, the descriptor has been obtained from `open` and not been closed. -/
def OpenOwned (s : Spi) : Prop :=
  s.dev.isOpen = true → ∃ d : ℕ, s.dev.spifd = d ∧ d < s.kern.opened ∧ (d : Int) ∉ s.kern.closed

/-- Every descriptor obtained has been closed exactly once. -/
def ClosedOnce (s : Spi) : Prop := ∀ d : ℕ, d < s.kern.opened → s.kern.closed.count (d : Int) = 1

/-- The call is not a `setConfig` on an open device one of whose `ioctl`s fails. -/
def KeepsOpen (s : Spi) : Op → Prop
  | .setConfig (some _) o => s.dev.isOpen = true → o.ok = true
  | _ => True

/-- What a call can do to the flag, the descriptor and the kernel's log. -/
inductive Effect (s s' : Spi) : Prop
  | same (ho : s'.dev.isOpen = s.dev.isOpen) (hf : s.dev.isOpen = true → s'.dev.spifd = s.dev.spifd)
      (hn : s'.kern.opened = s.kern.opened) (hc : s'.kern.closed = s.kern.closed)
  | obtained (h : s.dev.isOpen = false) (ho : s'.dev.isOpen = true) (hf : s'.dev.spifd = s.kern.opened)
      (hn : s'.kern.opened = s.kern.opened + 1) (hc : s'.kern.closed = s.kern.closed)
  | given_up (h : s.dev.isOpen = false) (ho : s'.dev.isOpen = false)
      (hn : s'.kern.opened = s.kern.opened + 1) (hc : s'.kern.closed = s.kern.closed ++ [(s.kern.opened : Int)])

theorem effect_begin (s : Spi) (openOk : Bool) (o : Outcomes) : Effect s (s.begin openOk o).2 := by
  rcases s with ⟨⟨spidev, spifd, cfg, isOpen⟩, kern⟩
  unfold «begin» Kernel.open
  cases isOpen with
  | true => exact .same rfl (fun _ => rfl) rfl rfl
  | false =>
    cases spidev with
    | none => exact .same rfl (fun _ => rfl) rfl rfl
    | some path =>
      cases openOk with
      | false => exact .same rfl (fun h => by cases h) rfl rfl
      | true =>
        have hpos : ¬ (kern.opened : Int) < 0 := by omega
        simp only [Bool.false_eq_true, Option.isNone_some, if_false, if_true, hpos]
        split
        · exact .given_up rfl rfl rfl rfl
        · exact .obtained rfl rfl rfl rfl rfl

theorem setConfig_idle (c : SpiConfig) (o : Outcomes) (hopen : s.dev.isOpen = false) :
    (s.setConfig (some c) o).2 = ⟨{ s.dev with spiconfig := c }, s.kern⟩ := by
  simp [setConfig, hopen]

theorem setConfig_open (c : SpiConfig) (o : Outcomes) (hopen : s.dev.isOpen = true) :
    ∃ regs cfg, (s.setConfig (some c) o).2 =
      ⟨{ s.dev with spiconfig := cfg },
        if o.ok then { s.kern with regs := regs }
        else { s.kern with regs := regs, closed := s.kern.closed ++ [s.dev.spifd] }⟩ := by
  refine ⟨(configure o s.kern.regs c).2.1, (configure o s.kern.regs c).2.2, ?_⟩
  simp only [setConfig, configure_fst, hopen, if_true]
  cases o.ok <;> rfl

theorem effect_setConfig (s : Spi) (cfg : Option SpiConfig) (o : Outcomes)
    (hk : KeepsOpen s (.setConfig cfg o)) : Effect s (s.setConfig cfg o).2 := by
  cases cfg with
  | none => exact .same rfl (fun _ => rfl) rfl rfl
  | some c =>
    cases hopen : s.dev.isOpen with
    | false =>
      rw [setConfig_idle c o hopen]
      exact .same rfl (fun _ => rfl) rfl rfl
    | true =>
      have hok : o.ok = true := hk hopen
      obtain ⟨regs, cfg, he⟩ := setConfig_open c o hopen
      rw [he, if_pos hok]
      exact .same rfl (fun _ => rfl) rfl rfl

theorem effect_step (s : Spi) (op : Op) (hk : KeepsOpen s op) : Effect s (s.step op) := by
  cases op with
  | «begin» openOk o => exact effect_begin s openOk o
  | setConfig cfg o => exact effect_setConfig s cfg o hk
  | setMode mode o =>
    simp only [step, setMode]
    split <;> exact .same rfl (fun _ => rfl) rfl rfl
  | setSpeed speed o =>
    simp only [step, setSpeed]
    split <;> exact .same rfl (fun _ => rfl) rfl rfl
  | setBitPerWord bit o =>
    simp only [step, setBitPerWord]
    split <;> exact .same rfl (fun _ => rfl) rfl rfl
  | spiRead | spiWrite | xfer => exact .same rfl (fun _ => rfl) rfl rfl

/-- The object holds the last descriptor obtained exactly while the flag is set; all others obtained have
been closed once, and nothing else has been closed. -/
structure Owns (s : Spi) : Prop where
  held : s.dev.isOpen = true → ∃ d : ℕ, s.dev.spifd = d ∧ d < s.kern.opened
  count : ∀ d : ℕ, s.kern.closed.count (d : Int) =
    if d < s.kern.opened ∧ ¬ (s.dev.isOpen = true ∧ s.dev.spifd = d) then 1 else 0

namespace Owns

theorem openOwned (h : Owns s) : OpenOwned s := by
  intro hopen
  obtain ⟨d, hfd, hd⟩ := h.held hopen
  refine ⟨d, hfd, hd, List.count_eq_zero.1 ?_⟩
  rw [h.count, if_neg fun hc => hc.2 ⟨hopen, hfd⟩]

theorem effect (h : Owns s) (he : Effect s s') : Owns s' := by
  cases he with
  | same ho hf hn hc =>
    refine ⟨?_, ?_⟩
    · intro hopen
      rw [ho] at hopen
      rw [hf hopen, hn]
      exact h.held hopen
    · intro d
      rw [hc, hn, ho, h.count]
      cases hopen : s.dev.isOpen with
      | false => simp
      | true => rw [hf hopen]
  | obtained hno ho hf hn hc =>
    refine ⟨fun _ => ⟨s.kern.opened, hf, by omega⟩, fun d => ?_⟩
    rw [hc, h.count]
    simp only [hno, ho, hf, hn, Bool.false_eq_true, false_and, true_and, not_false_eq_true, and_true]
    split_ifs <;> omega
  | given_up hno ho hn hc =>
    refine ⟨fun hopen => absurd (ho.symm.trans hopen) Bool.false_ne_true, fun d => ?_⟩
    rw [hc, List.count_append, h.count, List.count_singleton]
    simp only [hno, ho, hn, Bool.false_eq_true, false_and, not_false_eq_true, and_true, beq_iff_eq]
    split_ifs <;> omega

theorem closedOnce_destroy (h : Owns s) : ClosedOnce s.destroy := by
  intro d hd
  unfold destroy at hd ⊢
  cases hopen : s.dev.isOpen with
  | false =>
    simp only [hopen, Bool.false_eq_true, if_false] at hd ⊢
    rw [h.count, if_pos ⟨hd, fun hc => Bool.false_ne_true (hopen.symm.trans hc.1)⟩]
  | true =>
    simp only [hopen, if_true, Kernel.close] at hd ⊢
    rw [List.count_append, h.count, List.count_singleton]
    simp only [hopen, true_and, beq_iff_eq]
    split_ifs <;> omega

end Owns

/-- Objects that the constructors make. -/
inductive Constructed : SpiDevice → Prop
  | bare (path : Option String) (mallocOk : Bool) (garbage : SpiConfig) :
      Constructed (.newBare path mallocOk garbage)
  | new (path : Option String) (mallocOk : Bool) (cfg : Option SpiConfig) : Constructed (.new path mallocOk cfg)

def init (d : SpiDevice) (regs : SpiRegs) : Spi := ⟨d, ⟨0, [], regs, []⟩⟩

theorem Constructed.isOpen {d : SpiDevice} (hd : Constructed d) : d.isOpen = false := by
  cases hd <;> rfl

theorem Owns.init {d : SpiDevice} (hd : Constructed d) (regs : SpiRegs) : Owns (init d regs) := by
  refine ⟨fun hopen => absurd (hd.isOpen.symm.trans hopen) Bool.false_ne_true, fun d => ?_⟩
  simp [Spi.init]

theorem not_openOwned_step (s : Spi) (op : Op) (hbad : ¬ KeepsOpen s op) : ¬ OpenOwned (s.step op) := by
  cases op with
  | setConfig cfg o =>
    cases cfg with
    | none => exact absurd trivial hbad
    | some c =>
      obtain ⟨hopen, hok⟩ : s.dev.isOpen = true ∧ ¬ o.ok = true := Classical.not_imp.1 hbad
      obtain ⟨regs, cfg, he⟩ := setConfig_open c o hopen
      rw [if_neg hok] at he
      intro h
      change OpenOwned (s.setConfig (some c) o).2 at h
      rw [he] at h
      obtain ⟨d, hfd, -, hd⟩ := h hopen
      exact hd (by simp [show s.dev.spifd = d from hfd])
  | «begin» | setMode | setSpeed | setBitPerWord | spiRead | spiWrite | xfer => exact absurd trivial hbad

theorem along_iff {P : Spi → Prop} (hP : ∀ s, Owns s → P s) (hopen : ∀ s, P s → OpenOwned s)
    (h : Owns s) (ops : List Op) :
    Along (ofFun step) P s ops ↔ StepsOk (ofFun step) KeepsOpen s ops := by
  refine along_iff_stepsOk Owns (fun _ => True) hP ?_ ?_ (fun _ _ => trivial) h
  · rintro s op s' - hs rfl hk
    exact hs.effect (effect_step s op hk)
  · rintro s op - - hbad
    exact ⟨_, rfl, fun hs => not_openOwned_step s op hbad (hopen _ hs)⟩

/-- While the object lives, the flag tells the truth, and after its destructor every descriptor obtained has
been closed exactly once: so long as, and only so long as, no `setConfig` on an open device has an `ioctl`
fail. -/
theorem descriptor_owned_iff {d : SpiDevice} (hd : Constructed d) (regs : SpiRegs) (ops : List Op) :
    Along (ofFun step) OpenOwned (init d regs) ops ∧ ClosedOnce (ops.foldl step (init d regs)).destroy ↔
      StepsOk (ofFun step) KeepsOpen (init d regs) ops := by
  have h := Owns.init hd regs
  rw [along_iff (fun _ => Owns.openOwned) (fun _ => id) h]
  refine ⟨And.left, fun hk => ⟨hk, ?_⟩⟩
  have hrun := (along_iff (fun _ => id) (fun _ => Owns.openOwned) h ops).2 hk
  exact (hrun ops _ List.prefix_rfl (run_ofFun.2 rfl)).closedOnce_destroy

def allOk (cfg : SpiConfig) : Outcomes :=
  ⟨⟨some cfg.mode, true⟩, ⟨some cfg.bitsPerWord, true⟩, ⟨some cfg.speed, true⟩⟩

def noMode : Outcomes := ⟨⟨none, false⟩, ⟨none, false⟩, ⟨none, false⟩⟩

def spidev : Spi := init (.new (some "/dev/spidev0.0") true none) ⟨0, 0, 0⟩

def reopened : List Op := [.begin true noMode, .begin true (allOk ⟨0, 8, 1000000, 0⟩), .spiRead 2048 2048]

theorem descriptor_owned_iff_reopened :
    Along (ofFun step) OpenOwned spidev reopened ∧ ClosedOnce (reopened.foldl step spidev).destroy := by
  refine (descriptor_owned_iff (.new _ _ _) _ _).2 ?_
  simp only [reopened, stepsOk_cons, ofFun, KeepsOpen, true_and, forall_eq']
  exact stepsOk_nil

def reconfigured : List Op :=
  [.begin true (allOk ⟨0, 8, 1000000, 0⟩), .setConfig (some ⟨1, 8, 1000000, 0⟩) noMode]

/-- The flag stays set on the closed descriptor, and the destructor closes it again. -/
theorem setConfig_closes_twice :
    ¬ (Along (ofFun step) OpenOwned spidev reconfigured ∧ ClosedOnce (reconfigured.foldl step spidev).destroy) := by
  rintro ⟨-, hclosed⟩
  exact absurd (hclosed 0 (by decide)) (by decide)

end LearnCpp.Spi
