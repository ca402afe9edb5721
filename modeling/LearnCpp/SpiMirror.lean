import LearnCpp.SpiOwnership

/-!
# The cached settings of a `SpiDevice`

`m_spiconfig` is meant to hold what the driver holds: `begin` and `setConfig` write their three settings and read
each back into it, and so do the setters with theirs, but for `setSpeed`, which stores the speed it read back in
the field of the mode. `Agree` says that cache and driver agree while the device is open; every call but that one
keeps it, and `setSpeed` does when it changes nothing (`mirrors_iff`).
-/

namespace LearnCpp

def SpiConfig.regs (c : SpiConfig) : SpiRegs := ⟨c.mode, c.bitsPerWord, c.speed⟩

theorem WrRd.exec_ok {α : Type} {o : WrRd α} (h : o.ok = true) :
    ∃ v, o.wr = some v ∧ ∀ reg arg, o.exec reg arg = (true, v, v) := by
  rcases o with ⟨wr, rd⟩
  obtain ⟨hwr, hrd⟩ := Bool.and_eq_true_iff.1 h
  obtain ⟨v, rfl⟩ := Option.isSome_iff_exists.1 hwr
  refine ⟨v, rfl, fun reg arg => ?_⟩
  show (if rd = true then _ else _) = _
  exact if_pos hrd

/-- Six `ioctl`s that succeed leave in the cache what they leave in the driver. -/
theorem configure_regs {o : Outcomes} (h : o.ok = true) (regs : SpiRegs) (cfg : SpiConfig) :
    (configure o regs cfg).2.2.regs = (configure o regs cfg).2.1 := by
  obtain ⟨⟨hm, hb⟩, hs⟩ : (o.mode.ok = true ∧ o.bits.ok = true) ∧ o.speed.ok = true := by
    simpa [Outcomes.ok] using h
  obtain ⟨m, -, hm⟩ := WrRd.exec_ok hm
  obtain ⟨b, -, hb⟩ := WrRd.exec_ok hb
  obtain ⟨v, -, hs⟩ := WrRd.exec_ok hs
  simp [configure, hm, hb, hs, SpiConfig.regs]

namespace Spi

open Lts

variable {s : Spi}

/-- A message of one transfer with the driver's speed and word size has been added to the kernel's log. -/
def CarriesSet (s s' : Spi) : Prop :=
  ∃ t, s'.kern.transfers = s.kern.transfers ++ [(s.dev.spifd, [t])] ∧
    t.speedHz = s.kern.regs.speed ∧ t.bitsPerWord = s.kern.regs.bitsPerWord

/-- While the device is open, the cached settings are the driver's, and what `spi_read` or `spi_write` would send
carries them. -/
structure Mirrors (s : Spi) : Prop where
  cached : s.dev.isOpen = true → s.dev.spiconfig.mode = s.kern.regs.mode ∧
    s.dev.spiconfig.bitsPerWord = s.kern.regs.bitsPerWord ∧ s.dev.spiconfig.speed = s.kern.regs.speed
  read : s.dev.isOpen = true → ∀ rxlen ret, CarriesSet s (s.spiRead rxlen ret).2
  write : s.dev.isOpen = true → ∀ tx txlen ret, CarriesSet s (s.spiWrite tx txlen ret).2

/-- No system call of this call fails. -/
def Op.Succeeds : Op → Prop
  | .begin openOk o => openOk = true ∧ o.ok = true
  | .setConfig cfg o => cfg.isSome = true → o.ok = true
  | .setMode _ o => o.ok = true
  | .setSpeed _ o => o.ok = true
  | .setBitPerWord _ o => o.ok = true
  | .spiRead _ ret => 0 ≤ ret
  | .spiWrite _ _ ret => 0 ≤ ret
  | .xfer _ _ _ ret => 0 ≤ ret

/-- The call is not a `setSpeed` on an open device, or the driver stores the cached speed, and its low byte is the
cached mode. -/
def KeepsMirror (s : Spi) : Op → Prop
  | .setSpeed _ o => s.dev.isOpen = true →
      ∀ v, o.wr = some v → v = s.dev.spiconfig.speed ∧ v.toUInt8 = s.dev.spiconfig.mode
  | _ => True

def Agree (s : Spi) : Prop := s.dev.isOpen = true → s.dev.spiconfig.regs = s.kern.regs

namespace Agree

theorem mirrors (h : Agree s) : Mirrors s := by
  have hspeed : s.dev.isOpen = true → s.dev.spiconfig.speed = s.kern.regs.speed := fun ho => by rw [← h ho]; rfl
  have hbits : s.dev.isOpen = true → s.dev.spiconfig.bitsPerWord = s.kern.regs.bitsPerWord :=
    fun ho => by rw [← h ho]; rfl
  refine ⟨fun ho => ⟨by rw [← h ho]; rfl, hbits ho, hspeed ho⟩, fun ho rxlen ret => ?_, fun ho tx txlen ret => ?_⟩
  · exact ⟨⟨none, true, rxlen, s.dev.spiconfig.speed, s.dev.spiconfig.bitsPerWord⟩, rfl, hspeed ho, hbits ho⟩
  · exact ⟨⟨some tx, false, txlen, s.dev.spiconfig.speed, s.dev.spiconfig.bitsPerWord⟩, rfl, hspeed ho, hbits ho⟩

theorem «begin» (h : Agree s) {openOk : Bool} {o : Outcomes} (ho : o.ok = true) : Agree (s.begin openOk o).2 := by
  rcases s with ⟨⟨spidev, spifd, cfg, isOpen⟩, kern⟩
  unfold Spi.begin
  split
  · exact h
  split
  · exact h
  simp only
  split
  · intro hopen
    exact absurd hopen ‹_›
  · simp only [configure_fst, ho, Bool.not_true, Bool.false_eq_true, if_false]
    exact fun _ => configure_regs ho _ _

theorem setConfig (h : Agree s) {cfg : Option SpiConfig} {o : Outcomes} (ho : cfg.isSome = true → o.ok = true) :
    Agree (s.setConfig cfg o).2 := by
  cases cfg with
  | none => exact h
  | some c =>
    simp only [Spi.setConfig]
    split
    · simp only [configure_fst, ho rfl, Bool.not_true, Bool.false_eq_true, if_false]
      exact fun _ => configure_regs (ho rfl) _ _
    · intro hopen
      exact absurd hopen ‹_›

theorem setMode (h : Agree s) {mode : UInt8} {o : WrRd UInt8} (ho : o.ok = true) : Agree (s.setMode mode o).2 := by
  obtain ⟨v, -, hexec⟩ := WrRd.exec_ok ho
  simp only [Spi.setMode, hexec, Bool.not_true, Bool.false_eq_true, if_false]
  intro hopen
  rw [← h hopen]
  rfl

theorem setBitPerWord (h : Agree s) {bit : UInt8} {o : WrRd UInt8} (ho : o.ok = true) :
    Agree (s.setBitPerWord bit o).2 := by
  obtain ⟨v, -, hexec⟩ := WrRd.exec_ok ho
  simp only [Spi.setBitPerWord, hexec, Bool.not_true, Bool.false_eq_true, if_false]
  intro hopen
  rw [← h hopen]
  rfl

end Agree

theorem setSpeed_ok {speed v : UInt32} {o : WrRd UInt32} (ho : o.ok = true) (hv : o.wr = some v) :
    (s.setSpeed speed o).2 =
      ⟨{ s.dev with spiconfig := { s.dev.spiconfig with mode := v.toUInt8 } },
        { s.kern with regs := { s.kern.regs with speed := v } }⟩ := by
  obtain ⟨w, hw, hexec⟩ := WrRd.exec_ok ho
  obtain rfl : v = w := Option.some.inj (hv.symm.trans hw)
  simp [setSpeed, hexec]

theorem Agree.step (h : Agree s) {op : Op} (hop : op.Succeeds) (hk : KeepsMirror s op) : Agree (s.step op) := by
  cases op with
  | «begin» openOk o => exact h.begin hop.2
  | setConfig cfg o => exact h.setConfig hop
  | setMode mode o => exact h.setMode hop
  | setBitPerWord bit o => exact h.setBitPerWord hop
  | setSpeed speed o =>
    obtain ⟨v, hv, -⟩ := WrRd.exec_ok hop
    change Agree (s.setSpeed speed o).2
    rw [setSpeed_ok hop hv]
    intro hopen
    obtain ⟨hspeed, hmode⟩ := hk hopen v hv
    show (⟨v.toUInt8, s.dev.spiconfig.bitsPerWord, s.dev.spiconfig.speed⟩ : SpiRegs) = { s.kern.regs with speed := v }
    rw [hmode, ← h hopen, hspeed]
    rfl
  | spiRead | spiWrite | xfer => exact h

/-- The `setSpeed` that is not allowed leaves a cache that differs from the driver. -/
theorem not_mirrors_step (h : Agree s) {op : Op} (hop : op.Succeeds) (hbad : ¬ KeepsMirror s op) :
    ¬ Mirrors (s.step op) := by
  cases op with
  | setSpeed speed o =>
    obtain ⟨v, hv, -⟩ := WrRd.exec_ok hop
    intro hm
    refine hbad fun hopen w hw => ?_
    obtain rfl : v = w := Option.some.inj (hv.symm.trans hw)
    have hcached := hm.cached
    rw [show s.step (.setSpeed speed o) = (s.setSpeed speed o).2 from rfl, setSpeed_ok hop hv] at hcached
    obtain ⟨hmode, -, hspeed⟩ := hcached hopen
    have hold : s.dev.spiconfig.mode = s.kern.regs.mode := (h.mirrors.cached hopen).1
    exact ⟨hspeed.symm, hmode.trans hold.symm⟩
  | «begin» | setConfig | setMode | setBitPerWord | spiRead | spiWrite | xfer => exact absurd trivial hbad

/-- On a device built by either constructor, in a run of calls none of whose system calls fails: cache and driver
agree in every state reached exactly when no `setSpeed` is made on the open device, but for one that stores the
speed that is set, with the mode that is set in its low byte. -/
theorem mirrors_iff {d : SpiDevice} (hd : Constructed d) (regs : SpiRegs) {ops : List Op}
    (hops : ∀ op ∈ ops, op.Succeeds) :
    Along (ofFun step) Mirrors (init d regs) ops ↔ StepsOk (ofFun step) KeepsMirror (init d regs) ops := by
  refine along_iff_stepsOk Agree Op.Succeeds (fun s => Agree.mirrors) ?_ ?_ hops ?_
  · rintro s op s' hop h rfl hk
    exact h.step hop hk
  · intro s op hop h hbad
    exact ⟨_, rfl, not_mirrors_step h hop hbad⟩
  · exact fun hopen => absurd (hd.isOpen.symm.trans hopen) Bool.false_ne_true

def configured : Spi := init (.new (some "/dev/spidev0.0") true (some ⟨3, 8, 2000000, 0⟩)) ⟨0, 8, 500000⟩

/-- The mode is set while the device is open, with the driver adjusting the word size on the way. -/
def modeSet : List Op :=
  [.begin true ⟨⟨some 3, true⟩, ⟨some 16, true⟩, ⟨some 2000000, true⟩⟩, .setMode 1 ⟨some 1, true⟩]

theorem mirrors_iff_modeSet : Along (ofFun step) Mirrors configured modeSet := by
  refine (mirrors_iff (.new _ _ _) _ ?_).2 ?_
  · simp [modeSet, Op.Succeeds, Outcomes.ok, WrRd.ok]
  · simp only [modeSet, stepsOk_cons, ofFun, KeepsMirror, true_and, forall_eq']
    exact stepsOk_nil

/-- After `setSpeed(500000)` the cached mode is `32` and the cached speed the old one. -/
theorem setSpeed_in_mode :
    (∀ op ∈ [Op.begin true (allOk ⟨3, 8, 2000000, 0⟩), .setSpeed 500000 ⟨some 500000, true⟩], op.Succeeds) ∧
      ¬ Along (ofFun step) Mirrors configured
        [.begin true (allOk ⟨3, 8, 2000000, 0⟩), .setSpeed 500000 ⟨some 500000, true⟩] := by
  refine ⟨by simp [Op.Succeeds, Outcomes.ok, WrRd.ok, allOk], fun h => ?_⟩
  have hlast := h _ _ List.prefix_rfl (run_ofFun.2 rfl)
  exact absurd (hlast.cached (by decide)) (by decide)

end Spi

end LearnCpp
