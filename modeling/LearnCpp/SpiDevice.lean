import Mathlib.Data.List.Basic

/-!
# `SpiDevice` (`device_test/Device/SpiDevice.cpp`)

The object, and the kernel behind its system calls: `open` returns a descriptor never returned before or
fails, and every `ioctl` succeeds or fails as an outcome passed with the call says. A write that succeeds
stores the value its outcome names, which the driver may have adjusted; a read returns the stored one.
-/

namespace LearnCpp

/-- `spi_config_t`. -/
structure SpiConfig where
  mode : UInt8
  bitsPerWord : UInt8
  speed : UInt32
  delay : UInt16
deriving DecidableEq, Repr

structure SpiRegs where
  mode : UInt8
  bitsPerWord : UInt8
  speed : UInt32
deriving DecidableEq, Repr

/-- `struct spi_ioc_transfer`: the bytes to send if any, whether there is a buffer to receive into, and the
settings of the transfer. -/
structure SpiIocTransfer where
  txBuf : Option (List UInt8)
  rxBuf : Bool
  len : Int
  speedHz : UInt32
  bitsPerWord : UInt8
deriving DecidableEq, Repr

/-- Descriptors `0, …, opened - 1` have been returned by `open`; `closed` lists the calls of `close`, and
`transfers` the messages handed to `SPI_IOC_MESSAGE`, each with its descriptor. -/
structure Kernel where
  opened : ℕ
  closed : List Int
  regs : SpiRegs
  transfers : List (Int × List SpiIocTransfer)
deriving DecidableEq, Repr

namespace Kernel

def «open» (k : Kernel) (ok : Bool) : Int × Kernel :=
  if ok then (k.opened, { k with opened := k.opened + 1 }) else (-1, k)

def close (k : Kernel) (fd : Int) : Kernel := { k with closed := k.closed ++ [fd] }

def message (k : Kernel) (fd : Int) (msgs : List SpiIocTransfer) : Kernel :=
  { k with transfers := k.transfers ++ [(fd, msgs)] }

end Kernel

/-- The outcomes of an `ioctl` that writes a setting, with the value the driver stores, and of the one
that reads it back. -/
structure WrRd (α : Type) where
  wr : Option α
  rd : Bool
deriving DecidableEq, Repr

namespace WrRd
variable {α : Type}

def ok (o : WrRd α) : Bool := o.wr.isSome && o.rd

/-- Whether both succeed, the setting in the driver, and the argument afterwards. -/
def exec (o : WrRd α) (reg arg : α) : Bool × α × α :=
  match o.wr with
  | none => (false, reg, arg)
  | some v => if o.rd then (true, v, v) else (false, v, arg)

theorem exec_fst (o : WrRd α) (reg arg : α) : (o.exec reg arg).1 = o.ok := by
  rcases o with ⟨wr, rd⟩
  cases wr <;> cases rd <;> rfl

end WrRd

/-- The outcomes of the six `ioctl`s that set mode, word size and speed. -/
structure Outcomes where
  mode : WrRd UInt8
  bits : WrRd UInt8
  speed : WrRd UInt32
deriving DecidableEq, Repr

def Outcomes.ok (o : Outcomes) : Bool := o.mode.ok && o.bits.ok && o.speed.ok

/-- The six `ioctl`s of `begin` and `setConfig`, up to the first that fails. -/
def configure (o : Outcomes) (regs : SpiRegs) (cfg : SpiConfig) : Bool × SpiRegs × SpiConfig :=
  let (ok, reg, arg) := o.mode.exec regs.mode cfg.mode
  let regs := { regs with mode := reg }
  let cfg := { cfg with mode := arg }
  if !ok then (false, regs, cfg)
  else
    let (ok, reg, arg) := o.bits.exec regs.bitsPerWord cfg.bitsPerWord
    let regs := { regs with bitsPerWord := reg }
    let cfg := { cfg with bitsPerWord := arg }
    if !ok then (false, regs, cfg)
    else
      let (ok, reg, arg) := o.speed.exec regs.speed cfg.speed
      let regs := { regs with speed := reg }
      let cfg := { cfg with speed := arg }
      (ok, regs, cfg)

theorem configure_fst (o : Outcomes) (regs : SpiRegs) (cfg : SpiConfig) :
    (configure o regs cfg).1 = o.ok := by
  simp only [configure, WrRd.exec_fst, Outcomes.ok]
  cases o.mode.ok <;> cases o.bits.ok <;> simp

structure SpiDevice where
  spidev : Option String
  spifd : Int
  spiconfig : SpiConfig
  isOpen : Bool
deriving DecidableEq, Repr

structure Spi where
  dev : SpiDevice
  kern : Kernel
deriving DecidableEq, Repr

namespace SpiDevice

/-- The copy of the path the constructors keep; their `malloc` may fail. -/
def dupPath (path : Option String) (mallocOk : Bool) : Option String := if mallocOk then path else none

/-- `SpiDevice(p_spidev)`: the configuration is whatever the memory holds. -/
def newBare (path : Option String) (mallocOk : Bool) (garbage : SpiConfig) : SpiDevice :=
  ⟨dupPath path mallocOk, -1, garbage, false⟩

def new (path : Option String) (mallocOk : Bool) (cfg : Option SpiConfig) : SpiDevice :=
  ⟨dupPath path mallocOk, -1, cfg.getD ⟨0, 8, 1000000, 0⟩, false⟩

end SpiDevice

namespace Spi

/-- `begin()`. -/
def «begin» (s : Spi) (openOk : Bool) (o : Outcomes) : Bool × Spi :=
  if s.dev.isOpen then (true, s)
  else if s.dev.spidev.isNone then (false, s)
  else
    let (fd, kern) := s.kern.open openOk
    let dev := { s.dev with spifd := fd }
    if fd < 0 then (false, ⟨dev, kern⟩)
    else
      let (ok, regs, cfg) := configure o kern.regs dev.spiconfig
      let kern := { kern with regs := regs }
      let dev := { dev with spiconfig := cfg }
      if !ok then (false, ⟨dev, kern.close dev.spifd⟩)
      else (true, ⟨{ dev with isOpen := true }, kern⟩)

def setConfig (s : Spi) (cfg : Option SpiConfig) (o : Outcomes) : Bool × Spi :=
  match cfg with
  | none => (false, s)
  | some c =>
    let dev := { s.dev with spiconfig := c }
    if dev.isOpen then
      let (ok, regs, cfg) := configure o s.kern.regs dev.spiconfig
      let kern := { s.kern with regs := regs }
      let dev := { dev with spiconfig := cfg }
      if !ok then (false, ⟨dev, kern.close dev.spifd⟩)
      else (true, ⟨dev, kern⟩)
    else (false, ⟨dev, s.kern⟩)

def setBitPerWord (s : Spi) (bit : UInt8) (o : WrRd UInt8) : Bool × Spi :=
  let (ok, reg, arg) := o.exec s.kern.regs.bitsPerWord bit
  let kern := { s.kern with regs := { s.kern.regs with bitsPerWord := reg } }
  if !ok then (false, ⟨s.dev, kern⟩)
  else (true, ⟨{ s.dev with spiconfig := { s.dev.spiconfig with bitsPerWord := arg } }, kern⟩)

/-- `setSpeed` stores the speed read back in the `mode` field. -/
def setSpeed (s : Spi) (speed : UInt32) (o : WrRd UInt32) : Bool × Spi :=
  let (ok, reg, arg) := o.exec s.kern.regs.speed speed
  let kern := { s.kern with regs := { s.kern.regs with speed := reg } }
  if !ok then (false, ⟨s.dev, kern⟩)
  else (true, ⟨{ s.dev with spiconfig := { s.dev.spiconfig with mode := arg.toUInt8 } }, kern⟩)

def setMode (s : Spi) (mode : UInt8) (o : WrRd UInt8) : Bool × Spi :=
  let (ok, reg, arg) := o.exec s.kern.regs.mode mode
  let kern := { s.kern with regs := { s.kern.regs with mode := reg } }
  if !ok then (false, ⟨s.dev, kern⟩)
  else (true, ⟨{ s.dev with spiconfig := { s.dev.spiconfig with mode := arg } }, kern⟩)

/-- `xfer`: a write and a read in one message, with the driver's default settings; `ret` is what the
`ioctl` returns. -/
def xfer (s : Spi) (tx : List UInt8) (txlen rxlen ret : Int) : Int × Spi :=
  (ret, { s with kern := s.kern.message s.dev.spifd [⟨some tx, false, txlen, 0, 0⟩, ⟨none, true, rxlen, 0, 0⟩] })

def spiWrite (s : Spi) (tx : List UInt8) (txlen ret : Int) : Int × Spi :=
  (ret, { s with
    kern := s.kern.message s.dev.spifd
      [⟨some tx, false, txlen, s.dev.spiconfig.speed, s.dev.spiconfig.bitsPerWord⟩] })

def spiRead (s : Spi) (rxlen ret : Int) : Int × Spi :=
  (ret, { s with
    kern := s.kern.message s.dev.spifd
      [⟨none, true, rxlen, s.dev.spiconfig.speed, s.dev.spiconfig.bitsPerWord⟩] })

/-- `~SpiDevice()`. -/
def destroy (s : Spi) : Spi :=
  let dev := { s.dev with spidev := none }
  if s.dev.isOpen then ⟨dev, s.kern.close s.dev.spifd⟩ else ⟨dev, s.kern⟩

/-- A call on the object, with the outcomes of its system calls. -/
inductive Op
  | «begin» (openOk : Bool) (o : Outcomes)
  | setConfig (cfg : Option SpiConfig) (o : Outcomes)
  | setMode (mode : UInt8) (o : WrRd UInt8)
  | setSpeed (speed : UInt32) (o : WrRd UInt32)
  | setBitPerWord (bit : UInt8) (o : WrRd UInt8)
  | spiRead (rxlen ret : Int)
  | spiWrite (tx : List UInt8) (txlen ret : Int)
  | xfer (tx : List UInt8) (txlen rxlen ret : Int)

def step (s : Spi) : Op → Spi
  | .begin openOk o => (s.begin openOk o).2
  | .setConfig cfg o => (s.setConfig cfg o).2
  | .setMode mode o => (s.setMode mode o).2
  | .setSpeed speed o => (s.setSpeed speed o).2
  | .setBitPerWord bit o => (s.setBitPerWord bit o).2
  | .spiRead rxlen ret => (s.spiRead rxlen ret).2
  | .spiWrite tx txlen ret => (s.spiWrite tx txlen ret).2
  | .xfer tx txlen rxlen ret => (s.xfer tx txlen rxlen ret).2

end Spi

end LearnCpp
