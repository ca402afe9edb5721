import LearnCpp.Bytes
import LearnCpp.SpiDevice
import LearnCpp.Lib.Loop
import LearnCpp.Lib.Lts

/-!
# The receive loops of `spi_test` and `UdpDevice_test`

Both programs read into a buffer of 2048 bytes, append what was read to a `CircularBuffer` of 4096 and
take frames off its front. `Frame` and `CircularBuffer` are classes of another library: of `CircularBuffer`
the model knows that it is a FIFO up to its capacity and nothing beyond it, of `Frame` the three functions
called and the order of its constants. `Frame.Local` says that the head ends before the shortest frame does,
and which bytes the three functions look at.
-/

namespace LearnCpp

/-! ### `Frame` and `CircularBuffer` -/

inductive FrameType
  | Invalid
  | Optic
  | Groove
  | IMU
  | other (n : ℕ)
deriving DecidableEq, Repr

structure Frame where
  frameHeadPacketLenSize : ℕ
  frameHeadMinLen : ℕ
  maxSize : ℕ
  min_pos : 0 < frameHeadMinLen
  min_le : frameHeadMinLen ≤ maxSize
  head_lt : frameHeadPacketLenSize < maxSize
  max_le : maxSize ≤ 2049
  getType : Bytes → FrameType
  getLength : Bytes → UInt32
  judgeCheckSum : Bytes → ℕ → Bool

/-- Type and length are read off the head of the queue, and the checksum of `n` bytes off the first `n`. -/
structure Frame.Local (fr : Frame) : Prop where
  head_lt : fr.frameHeadPacketLenSize < fr.frameHeadMinLen
  getType : ∀ {q p : Bytes}, fr.frameHeadPacketLenSize < q.length → fr.frameHeadPacketLenSize < p.length →
    q.take fr.frameHeadPacketLenSize = p.take fr.frameHeadPacketLenSize → fr.getType q = fr.getType p
  getLength : ∀ {q p : Bytes}, fr.frameHeadPacketLenSize < q.length → fr.frameHeadPacketLenSize < p.length →
    q.take fr.frameHeadPacketLenSize = p.take fr.frameHeadPacketLenSize → fr.getLength q = fr.getLength p
  judgeCheckSum : ∀ {q p : Bytes} {n : ℕ}, n ≤ q.length → n ≤ p.length →
    q.take n = p.take n → fr.judgeCheckSum q n = fr.judgeCheckSum p n

/-- Frames of `generate_data`: the type in byte 3, the length in bytes 4 and 5, and the checksum in the
last two. -/
def Frame.generated : Frame where
  frameHeadPacketLenSize := 6
  frameHeadMinLen := 12
  maxSize := 2048
  min_pos := by decide
  min_le := by decide
  head_lt := by decide
  max_le := by decide
  getType q := match q.take 4 with
    | [0xf8, 0xf4, 0xf2, 0x11] => .Optic
    | [0xf8, 0xf4, 0xf2, 0x12] => .Groove
    | [0xf8, 0xf4, 0xf2, 0x13] => .IMU
    | _ => .Invalid
  getLength q := match (q.take 6).drop 4 with
    | [hi, lo] => hi.toUInt32 * 256 + lo.toUInt32
    | _ => 0
  judgeCheckSum q n := match (q.take n).drop (n - 2) with
    | [hi, lo] => sum16 ((q.take n).take (n - 2)) == hi.toUInt16 * 256 + lo.toUInt16
    | _ => false

theorem Frame.generated_local : Frame.generated.Local where
  head_lt := by decide
  getType {q p} _ _ h := by
    change q.take 6 = p.take 6 at h
    have h4 : q.take 4 = p.take 4 := by simpa [List.take_take] using congrArg (List.take 4) h
    simp only [generated, h4]
  getLength {q p} _ _ h := by
    change q.take 6 = p.take 6 at h
    simp only [generated, h]
  judgeCheckSum _ _ h := by
    simp only [generated, h]

/-- `CircularBuffer<unsigned char>(4096)`, with whatever it does beyond its capacity. -/
structure CircularBuffer where
  pushBackBlock : Bytes → Bytes → Bytes
  push_fits : ∀ {q b : Bytes}, q.length + b.length ≤ 4096 → pushBackBlock q b = q ++ b

namespace CircularBuffer

def growing : CircularBuffer := ⟨fun q b => q ++ b, fun _ => rfl⟩

def popFront (q : Bytes) : Bytes := q.drop 1

def popFrontBlock (q : Bytes) (n : ℕ) : Bytes × Bytes := (q.take n, q.drop n)

end CircularBuffer

/-! ### The inner loop -/

structure Packet where
  ftype : FrameType
  data : Bytes
deriving DecidableEq, Repr

namespace Frame
variable (fr : Frame)

/-- A length the loop does not reject. -/
def ValidLength (n : ℕ) : Prop := ¬ (n > fr.maxSize ∨ n < fr.frameHeadMinLen)

instance (n : ℕ) : Decidable (fr.ValidLength n) := inferInstanceAs (Decidable (¬ _))

/-- A round of `while (queue_buff.size() > FRAME_HEAD_PACKET_LEN_SIZE)`, on the queue and the frames so
far. -/
def round : Bytes × List Packet → (Bytes × List Packet) ⊕ (Bytes × List Packet)
  | (q, out) =>
    if q.length > fr.frameHeadPacketLenSize then
      let ftype := fr.getType q
      if ftype = .Invalid then .inl (CircularBuffer.popFront q, out)
      else
        let packetLen := (fr.getLength q).toNat
        if packetLen > fr.maxSize ∨ packetLen < fr.frameHeadMinLen then .inl (CircularBuffer.popFront q, out)
        else if packetLen > q.length then .inr (q, out)
        else if !fr.judgeCheckSum q packetLen then .inl (CircularBuffer.popFront q, out)
        else
          let (dataBuff, q) := CircularBuffer.popFrontBlock q packetLen
          .inl (q, out ++ [⟨ftype, dataBuff⟩])
    else .inr (q, out)

theorem round_lowers : Loop.Lowers fr.round fun s => s.1.length := by
  rintro ⟨q, out⟩ s' h
  have hmin := fr.min_pos
  simp only [round, CircularBuffer.popFront, CircularBuffer.popFrontBlock] at h
  split_ifs at h with hlen htype hvalid hwait hsum <;> cases h <;> simp only [List.length_drop] <;> omega

def drain (q : Bytes) : Bytes × List Packet := Loop.total fr.round _ fr.round_lowers (q, [])

end Frame

/-! ### The devices -/

/-- What the system call of a read returns, the error it leaves in `errno`, and the bytes it stores. -/
structure ReadResult where
  ret : Int
  errno : Int
  bytes : Bytes
deriving DecidableEq, Repr

namespace ReadResult

/-- A read that succeeds stores as many bytes as it returns, and no more than there is room for. -/
def Fits (r : ReadResult) : Prop := 0 < r.ret → (r.bytes.length : Int) = r.ret ∧ r.ret ≤ 2048

instance : DecidablePred Fits := fun r => inferInstanceAs (Decidable (0 < r.ret → _))

def received (r : ReadResult) : Bytes := if 0 < r.ret then r.bytes else []

def stream (reads : List ReadResult) : Bytes := (reads.map received).flatten

/-- `unsigned char buff[2048] = {0x00}` after the read. -/
def buff (r : ReadResult) : Bytes := (r.bytes ++ List.replicate 2048 0).take 2048

end ReadResult

/-- `UdpDevice` (`device_test/Device/UdpDevice.cpp`), with the `errno`s it logged a failed read for. -/
structure UdpDevice where
  broadcastSocket : Int
  warnings : List Int
deriving DecidableEq, Repr

namespace UdpDevice

def new : UdpDevice := ⟨-1, []⟩

/-- `begin()`, with the results of `socket`, of the two `setsockopt`s and of `bind`. -/
def «begin» (d : UdpDevice) (socket broadcast reuse bind : Int) : Bool × UdpDevice :=
  let d := { d with broadcastSocket := socket }
  if d.broadcastSocket < 0 then (false, d)
  else if broadcast < 0 then (false, d)
  else if reuse < 0 then (false, d)
  else if bind < 0 then (false, d)
  else (true, d)

def EWOULDBLOCK : Int := 11

/-- `read(buffer, read_len)`. -/
def read (d : UdpDevice) (r : ReadResult) : Int × UdpDevice :=
  if d.broadcastSocket < 0 then (-1, d)
  else
    let recvLen := r.ret
    if recvLen < 0 then
      if r.errno = EWOULDBLOCK then (recvLen, d)
      else (recvLen, { d with warnings := d.warnings ++ [r.errno] })
    else if recvLen = 0 then (recvLen, d)
    else (recvLen, d)

theorem begin_socket {d : UdpDevice} {socket broadcast reuse bind : Int}
    (h : (d.begin socket broadcast reuse bind).1 = true) :
    0 ≤ (d.begin socket broadcast reuse bind).2.broadcastSocket := by
  unfold «begin» at h ⊢
  dsimp only at h ⊢
  split_ifs at h ⊢
  dsimp only
  omega

theorem read_open {d : UdpDevice} (hd : 0 ≤ d.broadcastSocket) (r : ReadResult) :
    (d.read r).1 = r.ret ∧ 0 ≤ (d.read r).2.broadcastSocket := by
  unfold read
  rw [if_neg (by omega)]
  dsimp only
  split_ifs <;> exact ⟨rfl, hd⟩

end UdpDevice

def Spi.read (s : Spi) (r : ReadResult) : Int × Spi := s.spiRead 2048 r.ret

/-! ### The outer loop and the programs -/

section
variable {δ : Type*} (fr : Frame) (cb : CircularBuffer) (read : δ → ReadResult → Int × δ)

/-- A round of `while (true)`: the frames taken in it, and the device and the queue after it. -/
def receiveRound : δ × Bytes → ReadResult → List Packet × (δ × Bytes)
  | (dev, queue), r =>
    let (readLen, dev) := read dev r
    let queue := if readLen > 0 then cb.pushBackBlock queue (r.buff.take readLen.toNat) else queue
    let (queue, out) := fr.drain queue
    (out, dev, queue)

/-- The rounds of the given reads, from an empty queue: the frames delivered and the queue left. -/
def receiveLoop (dev : δ) (reads : List ReadResult) : List Packet × Bytes :=
  let (outs, _, queue) := Lts.runTotal (receiveRound fr cb read) (dev, []) reads
  (outs.flatten, queue)

end

variable (fr : Frame) (cb : CircularBuffer)

/-- `SPI_CPHA | SPI_CPOL` and the other settings of `spi_test`. -/
def spiConfig : SpiConfig := ⟨3, 8, 2000000, 0⟩

def spiTestDevice (kern : Kernel) (mallocOk openOk : Bool) (o : Outcomes) : Bool × Spi :=
  Spi.begin ⟨.new (some "/dev/spidev0.0") mallocOk (some spiConfig), kern⟩ openOk o

/-- `spi_test`'s `main`, up to the end of the given reads; `none` when it returns at once. -/
def spiTest (kern : Kernel) (mallocOk openOk : Bool) (o : Outcomes) (reads : List ReadResult) :
    Option (List Packet × Bytes) :=
  let (ok, dev) := spiTestDevice kern mallocOk openOk o
  if !ok then none else some (receiveLoop fr cb Spi.read dev reads)

/-- `UdpDevice_test`'s `main`, up to the end of the given reads; `none` when it returns at once. -/
def udpDeviceTest (socket broadcast reuse bind : Int) (reads : List ReadResult) :
    Option (List Packet × Bytes) :=
  let (ok, dev) := UdpDevice.new.begin socket broadcast reuse bind
  if !ok then none else some (receiveLoop fr cb UdpDevice.read dev reads)

end LearnCpp
