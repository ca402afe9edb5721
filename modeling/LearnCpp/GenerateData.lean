import LearnCpp.Bytes

/-!
# The frames of `generate_data` (`protocal_test/generate_data.cpp`)

`main` fills a buffer through `buff[index++] = …`; `fill_check_sum` sums the first `index` bytes and appends
the sum through the same `index`. `encode` is a frame with any type, sequence number and payload; `main`'s own
have fourteen random bytes and four fixed ones for payload.
-/

namespace LearnCpp

structure Writer where
  buff : Bytes
  index : ℕ
deriving DecidableEq, Repr

namespace Writer

/-- `buff[index++] = b`. -/
def put (w : Writer) (b : UInt8) : Writer := ⟨w.buff.set w.index b, w.index + 1⟩

def putAll (w : Writer) (bs : Bytes) : Writer := bs.foldl put w

/-- `int ret = read(fd, &buff[index], 14); index = index + ret;` -/
def read (w : Writer) (ret : Int) (stored : Bytes) : Writer :=
  ⟨(w.putAll stored).buff, (w.index + ret).toNat⟩

theorem putAll_append (w : Writer) (bs cs : Bytes) : w.putAll (bs ++ cs) = (w.putAll bs).putAll cs :=
  List.foldl_append

theorem putAll_index (w : Writer) (bs : Bytes) : (w.putAll bs).index = w.index + bs.length := by
  induction bs generalizing w with
  | nil => rfl
  | cons b bs ih =>
    change ((w.put b).putAll bs).index = _
    rw [ih, List.length_cons]
    simp only [put]
    omega

theorem read_all {stored : Bytes} (h : stored.length = 14) (w : Writer) : w.read 14 stored = w.putAll stored := by
  have hidx : ((w.index : Int) + 14).toNat = (w.putAll stored).index := by rw [putAll_index]; omega
  rw [read, hidx]

/-- The first bytes of a buffer are written, and `k` are not. -/
def written (pre : Bytes) (k : ℕ) : Writer := ⟨pre ++ List.replicate k 0, pre.length⟩

theorem put_written (pre : Bytes) (b : UInt8) (k : ℕ) :
    (written pre (k + 1)).put b = written (pre ++ [b]) k := by
  simp [put, written, List.replicate_succ]

theorem putAll_written (pre bs : Bytes) (k : ℕ) :
    (written pre (k + bs.length)).putAll bs = written (pre ++ bs) k := by
  induction bs generalizing pre with
  | nil => rw [List.append_nil]; rfl
  | cons b bs ih =>
    calc (written pre (k + (b :: bs).length)).putAll (b :: bs)
        = ((written pre (k + bs.length + 1)).put b).putAll bs := rfl
      _ = written (pre ++ b :: bs) k := by
        rw [put_written, ih, List.append_assoc, List.singleton_append]

end Writer

def fillCheckSum (w : Writer) : Writer :=
  let calcCheckSum := sum16 (w.buff.take w.index)
  w.putAll (be16 calcCheckSum)

theorem fillCheckSum_written (pre : Bytes) (k : ℕ) :
    fillCheckSum (.written pre (k + 2)) = .written (pre ++ be16 (sum16 pre)) k := by
  have htake : (Writer.written pre (k + 2)).buff.take (Writer.written pre (k + 2)).index = pre := List.take_left
  rw [fillCheckSum, htake]
  exact Writer.putAll_written pre (be16 (sum16 pre)) k

def head (typ : UInt8) (packLen seq : UInt16) : Bytes := [0xf8, 0xf4, 0xf2, typ] ++ be16 packLen ++ be16 seq

def tail : Bytes := [0xa5, 0x5a]

structure FrameData where
  typ : UInt8
  seq : UInt16
  payload : Bytes
deriving DecidableEq, Repr

namespace FrameData
variable (f : FrameData)

def size : ℕ := f.payload.length + 12

/-- The frame laid out in a buffer of its length. -/
def encode : Bytes :=
  let w : Writer := ⟨List.replicate f.size 0, 0⟩
  let w := w.putAll (head f.typ (.ofNat f.size) f.seq)
  let w := w.putAll f.payload
  let w := w.putAll tail
  (fillCheckSum w).buff

def body : Bytes := head f.typ (.ofNat f.size) f.seq ++ f.payload ++ tail

@[simp] theorem length_body : f.body.length + 2 = f.size := by
  simp [body, head, tail, size]
  omega

theorem encode_eq : f.encode = f.body ++ be16 (sum16 f.body) := by
  have hsize : f.size = 0 + 2 + tail.length + f.payload.length + (head f.typ (.ofNat f.size) f.seq).length := by
    simp [size, head, tail]
    omega
  have hnew : (⟨List.replicate f.size 0, 0⟩ : Writer) = .written [] _ := congrArg (Writer.written []) hsize
  simp only [encode, hnew, Writer.putAll_written, fillCheckSum_written]
  simp [Writer.written, body]

@[simp] theorem length_encode : f.encode.length = f.size := by
  rw [encode_eq, List.length_append, length_be16, length_body]

end FrameData

/-- A round of `main`, with what `read` returns and stores: the bytes printed. -/
def mainFrame (seq : UInt16) (ret : Int) (stored : Bytes) : Bytes :=
  let w : Writer := ⟨List.replicate 30 0, 0⟩
  let w := w.putAll (head 0x11 30 seq)
  let w := w.read ret stored
  let w := w.putAll [0x00, 0x1d, 0x62, 0xd8]
  let w := w.putAll tail
  (fillCheckSum w).buff.take 30

/-- The rounds of `main` from sequence number `seq` on. -/
def generateData (seq : UInt16) : List (Int × Bytes) → List Bytes
  | [] => []
  | (ret, stored) :: reads => mainFrame seq ret stored :: generateData (seq + 1) reads

/-- What goes into the frames of `main` when every read delivers. -/
def mainData (seq : UInt16) : List (Int × Bytes) → List FrameData
  | [] => []
  | (_, stored) :: reads => ⟨0x11, seq, stored ++ [0x00, 0x1d, 0x62, 0xd8]⟩ :: mainData (seq + 1) reads

theorem mainFrame_eq (seq : UInt16) {stored : Bytes} (h : stored.length = 14) :
    mainFrame seq 14 stored = FrameData.encode ⟨0x11, seq, stored ++ [0x00, 0x1d, 0x62, 0xd8]⟩ := by
  have hsize : FrameData.size ⟨0x11, seq, stored ++ [0x00, 0x1d, 0x62, 0xd8]⟩ = 30 := by
    simp [FrameData.size, h]
  have hlen := FrameData.length_encode ⟨0x11, seq, stored ++ [0x00, 0x1d, 0x62, 0xd8]⟩
  rw [← List.take_of_length_le (Nat.le_of_eq (hlen.trans hsize))]
  simp only [mainFrame, FrameData.encode, hsize, Writer.read_all h, Writer.putAll_append]
  rfl

theorem generateData_eq (seq : UInt16) {reads : List (Int × Bytes)}
    (h : ∀ r ∈ reads, r.1 = 14 ∧ r.2.length = 14) :
    generateData seq reads = (mainData seq reads).map FrameData.encode := by
  induction reads generalizing seq with
  | nil => rfl
  | cons r reads ih =>
    rcases r with ⟨ret, stored⟩
    obtain ⟨rfl, hlen⟩ := h (ret, stored) (by simp)
    rw [generateData, mainFrame_eq seq hlen, ih (seq + 1) fun r hr => h r (by simp [hr])]
    rfl

end LearnCpp
