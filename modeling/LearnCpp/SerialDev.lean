import Mathlib.Data.List.Basic

/-!
# `SerialDev` (`device_test/Device/SerialDev.cpp`)

The object, and the log of the calls it makes on the port, on the descriptor's clock and on the transmit-enable pin.
`open` returns a descriptor never returned before or fails; what `tcsetattr`, `wiringPiSetup`, `read` and `write`
answer is passed with the call. A `speed_t` is named by its rate: `B9600` is `9600`.
-/

namespace LearnCpp

/-- A call of `tcsetattr`, `close`, `read`, `write`, `usleep`, `pinMode` (as output) or `digitalWrite`; `write` is
called with a buffer and a count, and answers how many bytes it accepted. -/
inductive PortCall
  | tcsetattr (fd : Int) (speed : Int32)
  | close (fd : Int)
  | read (fd : Int) (len : UInt32)
  | write (fd : Int) (buff : List UInt8) (count : UInt64) (ret : Int)
  | usleep (usec : UInt32)
  | pinMode (pin : ℕ)
  | digitalWrite (pin : ℕ) (high : Bool)
deriving DecidableEq, Repr

/-- Descriptors `0, …, opened - 1` have been returned by `open`. -/
structure Port where
  opened : ℕ
  calls : List PortCall
deriving DecidableEq, Repr

namespace Port

def «open» (p : Port) (ok : Bool) : Int × Port := if ok then (p.opened, { p with opened := p.opened + 1 }) else (-1, p)

def call (p : Port) (cs : List PortCall) : Port := { p with calls := p.calls ++ cs }

end Port

/-- `RS485_PIN`. -/
def rs485Pin : ℕ := 8

structure SerialDev where
  device : String
  baud : Int32
  fd : Int
deriving DecidableEq, Repr

structure Serial where
  dev : SerialDev
  port : Port
deriving DecidableEq, Repr

/-- What the calls of `serialOpen` answer: whether `open` and `wiringPiSetup` succeed, and whether `tcsetattr`
returns `0`. -/
structure OpenOutcomes where
  openOk : Bool
  attrOk : Bool
  wiringOk : Bool
deriving DecidableEq, Repr

namespace Serial

/-- The cases of the switch over `_baud`. -/
def bauds : List Int32 :=
  [50, 75, 110, 134, 150, 200, 300, 600, 1200, 1800, 2400, 4800, 9600, 19200, 38400, 57600, 115200, 230400, 460800,
    500000, 576000, 921600, 1000000, 1152000, 1500000, 2000000, 2500000, 3000000, 3500000, 4000000]

def myBaud (baud : Int32) : Option Int32 := if baud ∈ bauds then some baud else none

/-- `SerialDev(device, baud)`. -/
def init (device : String) (baud : Int32) : Serial := ⟨⟨device, baud, -1⟩, ⟨0, []⟩⟩

def serialOpen (s : Serial) (o : OpenOutcomes) : Int × Serial :=
  match myBaud s.dev.baud with
  | none => (-2, s)
  | some speed =>
    let (fd, port) := s.port.open o.openOk
    if fd = -1 then (-1, ⟨s.dev, port⟩)
    else
      let port := port.call [.tcsetattr fd speed]
      if !o.attrOk then (-1, ⟨s.dev, port.call [.close fd]⟩)
      else
        let port := port.call [.usleep 10000]
        if !o.wiringOk then (-1, ⟨s.dev, port⟩)
        else
          let port := port.call [.pinMode rs485Pin, .digitalWrite rs485Pin false]
          (fd, ⟨{ s.dev with fd := fd }, port⟩)

def serialClose (s : Serial) : Serial := { s with port := s.port.call [.close s.dev.fd] }

def serialPutchar (s : Serial) (c : UInt8) (ret : Int) : Serial :=
  { s with port := s.port.call [.write s.dev.fd [c] 1 ret] }

/-- `10000000 / _baud + 1`. -/
def byteTime (baud : Int32) : Int32 := 10000000 / baud + 1

/-- `len * byte_time`, kept in an `int` and passed on as unsigned. -/
def sleepTime (baud : Int32) (len : UInt32) : UInt32 := (len * (byteTime baud).toUInt32).toInt32.toUInt32

/-- `serialWrite(buff, len)`; `buff` is null or a block. The `int` that holds `len` becomes the count of `write`. -/
def serialWrite (s : Serial) (buff : Option (List UInt8)) (len : UInt32) (ret : Int) : Int × Serial :=
  match buff with
  | none => (0, s)
  | some current =>
    if s.dev.fd < 0 then (0, s)
    else
      let remain := len.toInt32
      let port := s.port.call [.digitalWrite rs485Pin true, .write s.dev.fd current remain.toInt64.toUInt64 ret,
        .usleep (sleepTime s.dev.baud len), .digitalWrite rs485Pin false]
      (ret, ⟨s.dev, port⟩)

/-- `serialRead(buff, len)`: the bytes `read` puts into `buff`, or its failure. -/
def serialRead (s : Serial) (len : UInt32) (got : Option (List UInt8)) : Int × List UInt8 × Serial :=
  let s := { s with port := s.port.call [.read s.dev.fd len] }
  match got with
  | none => (-1, [], s)
  | some bytes => (bytes.length, bytes, s)

/-- `~SerialDev()`. -/
def destroy (s : Serial) : Serial := s.serialClose

/-- A call on the object, with what the system answers. -/
inductive Op
  | serialOpen (o : OpenOutcomes)
  | serialClose
  | serialWrite (buff : Option (List UInt8)) (len : UInt32) (ret : Int)
  | serialRead (len : UInt32) (got : Option (List UInt8))
  | serialPutchar (c : UInt8) (ret : Int)

def step (s : Serial) : Op → Serial
  | .serialOpen o => (s.serialOpen o).2
  | .serialClose => s.serialClose
  | .serialWrite buff len ret => (s.serialWrite buff len ret).2
  | .serialRead len got => (s.serialRead len got).2.2
  | .serialPutchar c ret => s.serialPutchar c ret

end Serial

end LearnCpp
