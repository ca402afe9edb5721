import Mathlib.Algebra.Ring.Int.Defs
import LearnCpp.IStream
import LearnCpp.SeqCheck

/-!
# `check_data` (`device_test/testCase/check_data.cpp`)

`generate_data` prints a frame byte by byte; `check_data` takes the line as its argument, splits it at white space and
converts the words. What it puts into `array` is what was printed (`readArray_print`).
-/

namespace LearnCpp

/-! ### The print -/

def hexDigit (n : ℕ) : UInt8 := .ofNat (if n < 10 then 48 + n else 87 + n)

/-- `"%02x"` of a byte. -/
def hexByte (b : UInt8) : Bytes := [hexDigit (b.toNat / 16), hexDigit (b.toNat % 16)]

/-- `printf("%02x ", buff[k])` for each byte, without the newline that follows. -/
def printBytes (bs : Bytes) : Bytes := bs.flatMap fun b => hexByte b ++ [32]

/-! ### `strtol` -/

/-- `isspace`. -/
def isspace (c : UInt8) : Bool := c = 32 ∨ (9 ≤ c ∧ c ≤ 13)

def hexValue (c : UInt8) : Option ℕ :=
  if 48 ≤ c ∧ c ≤ 57 then some (c.toNat - 48)
  else if 97 ≤ c ∧ c ≤ 102 then some (c.toNat - 87)
  else if 65 ≤ c ∧ c ≤ 70 then some (c.toNat - 55)
  else none

/-- The values of the digits a string begins with. -/
def hexDigits : Bytes → List ℕ
  | [] => []
  | c :: s => match hexValue c with
    | none => []
    | some v => v :: hexDigits s

def hexNumber (s : Bytes) : ℕ := (hexDigits s).foldl (fun n v => 16 * n + v) 0

def dropSign : Bytes → Bool × Bytes
  | 45 :: s => (true, s)
  | 43 :: s => (false, s)
  | s => (false, s)

/-- `0x` is a prefix if a digit follows. -/
def dropHexPrefix : Bytes → Bytes
  | 48 :: x :: d :: s => if (x = 120 ∨ x = 88) ∧ (hexValue d).isSome then d :: s else 48 :: x :: d :: s
  | s => s

/-- `strtol(s, NULL, 16)`, which stays at the bounds of `long`. -/
def strtol16 (s : Bytes) : Int :=
  let (negative, s) := dropSign (s.dropWhile isspace)
  let n : Int := hexNumber (dropHexPrefix s)
  max (-2 ^ 63) (min (2 ^ 63 - 1) (if negative then -n else n))

/-! ### `main` -/

/-- The words without any of `" .s\\n\\t\\r"`. -/
def segments (data : Bytes) : List Bytes :=
  (Words.words isspace data).filter fun item => item.all (· ∉ [32, 46, 115, 10, 9, 13])

/-- `array[i] = (unsigned char)(strtol(segs[i].c_str(), NULL, 16))` for the words from `i` on, unless one is outside. -/
def fillArray : List Bytes → ℕ → Bytes → Option Bytes
  | [], _, array => some array
  | seg :: segs, i, array =>
    if i < array.length then fillArray segs (i + 1) (array.set i (.ofInt (strtol16 seg))) else none

def readArray (data : Bytes) : Option Bytes := fillArray (segments data) 0 (List.replicate 1024 0)

/-- How `main` ends: with nothing to read, an invalid type, or the length and the sequence number it prints, and
whether the checksum is right. -/
inductive Checked
  | empty
  | invalid
  | read (len seq : UInt16) (sumOk : Bool)
deriving DecidableEq, Repr

def checkData (fr : Frame) (data : Bytes) : Option Checked :=
  if (segments data).isEmpty then some .empty
  else do
    let array ← readArray data
    if fr.getType array = .Invalid then return .invalid
    let len := (fr.getLength array).toUInt16
    let seq : UInt16 := .ofNat (seqField array)
    return .read len seq (fr.judgeCheckSum array len.toNat)

/-! ### Reading what was printed -/

theorem hexDigit_spec : ∀ n < 16, hexValue (hexDigit n) = some n ∧ isspace (hexDigit n) = false ∧
    hexDigit n ∉ ([32, 46, 115, 10, 9, 13] : Bytes) ∧ hexDigit n ≠ 45 ∧ hexDigit n ≠ 43 := by
  decide

theorem hexByte_ne_nil (b : UInt8) : hexByte b ≠ [] := List.cons_ne_nil _ _

theorem mem_hexByte {b c : UInt8} (h : c ∈ hexByte b) : ∃ n < 16, c = hexDigit n := by
  have hb := b.toNat_lt
  rcases List.mem_pair.1 h with rfl | rfl
  · exact ⟨b.toNat / 16, by omega, rfl⟩
  · exact ⟨b.toNat % 16, by omega, rfl⟩

theorem strtol16_hexByte (b : UInt8) : strtol16 (hexByte b) = b.toNat := by
  have hb := b.toNat_lt
  obtain ⟨hhi, hspace, -, hminus, hplus⟩ := hexDigit_spec (b.toNat / 16) (by omega)
  obtain ⟨hlo, -⟩ := hexDigit_spec (b.toNat % 16) (by omega)
  have hskip : (hexByte b).dropWhile isspace = hexByte b := by
    rw [hexByte, List.dropWhile_cons_of_neg (by rw [hspace]; exact Bool.false_ne_true)]
  have hsign : dropSign (hexByte b) = (false, hexByte b) := by
    unfold dropSign hexByte
    split
    · next heq => exact absurd (List.cons.inj heq).1 hminus
    · next heq => exact absurd (List.cons.inj heq).1 hplus
    · rfl
  have hshort : dropHexPrefix (hexByte b) = hexByte b := by
    unfold dropHexPrefix hexByte
    split
    · next heq => cases (List.cons.inj (List.cons.inj heq).2).2
    · rfl
  have hnumber : hexNumber (hexByte b) = b.toNat := by
    simp only [hexNumber, hexByte, hexDigits, hhi, hlo, List.foldl_cons, List.foldl_nil]
    omega
  simp only [strtol16, hskip, hsign, hshort, hnumber, Bool.false_eq_true, if_false]
  omega

theorem segments_print (bs : Bytes) {ending : Bytes} (hend : ∀ c ∈ ending, isspace c = true) :
    segments (printBytes bs ++ ending) = bs.map hexByte := by
  have hword : ∀ b, ∀ c ∈ hexByte b, isspace c = false := by
    intro b c hc
    obtain ⟨n, hn, rfl⟩ := mem_hexByte hc
    exact (hexDigit_spec n hn).2.1
  rw [segments, printBytes, Words.words_flatMap bs hexByte_ne_nil hword rfl hend, List.filter_eq_self]
  intro item hitem
  obtain ⟨b, -, rfl⟩ := List.mem_map.1 hitem
  rw [List.all_eq_true]
  intro c hc
  obtain ⟨n, hn, rfl⟩ := mem_hexByte hc
  exact decide_eq_true (hexDigit_spec n hn).2.2.1

theorem fillArray_map (pre bs post : Bytes) (h : post.length = bs.length) (rest : Bytes) :
    fillArray (bs.map hexByte) pre.length (pre ++ post ++ rest) = some (pre ++ bs ++ rest) := by
  induction bs generalizing pre post with
  | nil =>
    rw [List.length_eq_zero_iff.1 h]
    rfl
  | cons b bs ih =>
    obtain ⟨x, post, rfl⟩ : ∃ x xs, post = x :: xs := List.exists_cons_of_length_eq_add_one h
    have hlt : pre.length < (pre ++ x :: post ++ rest).length := by simp
    have hset : (pre ++ x :: post ++ rest).set pre.length b = (pre ++ [b]) ++ post ++ rest := by
      simp
    have hbyte : UInt8.ofInt (strtol16 (hexByte b)) = b := by
      have hb := b.toNat_lt
      have hcast : ((b.toNat : Int) % 2 ^ 8).toNat = b.toNat := by omega
      rw [strtol16_hexByte, UInt8.ofInt, hcast, UInt8.ofNat_toNat]
    rw [List.map_cons, fillArray, if_pos hlt, hbyte, hset]
    have hlen : pre.length + 1 = (pre ++ [b]).length := by simp
    rw [hlen, ih (pre ++ [b]) post (by simpa using h)]
    simp

theorem readArray_print (bs : Bytes) (h : bs.length ≤ 1024) {ending : Bytes} (hend : ∀ c ∈ ending, isspace c = true) :
    readArray (printBytes bs ++ ending) = some (bs ++ List.replicate (1024 - bs.length) 0) := by
  have hcells : (List.replicate 1024 0 : Bytes) =
      [] ++ List.replicate bs.length 0 ++ List.replicate (1024 - bs.length) 0 := by
    rw [List.nil_append, List.replicate_append_replicate, Nat.add_sub_cancel' h]
  rw [readArray, segments_print bs hend, hcells]
  exact fillArray_map [] bs _ List.length_replicate _

/-! ### The frames of `generate_data` -/

theorem seqField_head (typ : UInt8) (packLen seq : UInt16) (rest : Bytes) :
    seqField (head typ packLen seq ++ rest) = seq.toNat := by
  have hfield : seqField (head typ packLen seq ++ rest) =
      ((seq >>> 8) &&& 0xFF).toUInt8.toNat * 256 + (seq &&& 0xFF).toUInt8.toNat := rfl
  rw [hfield, ← beNat_be16 seq]
  simp only [beNat, be16, List.foldl_cons, List.foldl_nil]
  omega

/-- A frame `main` prints: the head, 20 bytes, and the sum of these 28. -/
theorem mainFrame_body (seq : UInt16) {stored : Bytes} (h : stored.length = 14) :
    ∃ body rest, mainFrame seq 14 stored = body ++ be16 (sum16 body) ∧ body = head 0x11 30 seq ++ rest ∧
      body.length = 28 := by
  have hsize : FrameData.size ⟨0x11, seq, stored ++ [0x00, 0x1d, 0x62, 0xd8]⟩ = 30 := by
    simp [FrameData.size, h]
  have hbody : FrameData.body ⟨0x11, seq, stored ++ [0x00, 0x1d, 0x62, 0xd8]⟩ =
      head 0x11 30 seq ++ (stored ++ [0x00, 0x1d, 0x62, 0xd8] ++ tail) := by
    rw [FrameData.body, hsize, List.append_assoc]
    rfl
  refine ⟨_, _, (mainFrame_eq seq h).trans (FrameData.encode_eq _), hbody, ?_⟩
  have hlen := FrameData.length_body ⟨0x11, seq, stored ++ [0x00, 0x1d, 0x62, 0xd8]⟩
  omega

/-- What `check_data` has read of the frame with number `seq`. -/
structure ReadBack (frame : Bytes) (seq : UInt16) (array : Bytes) : Prop where
  cells : array.take 30 = frame
  seq : UInt16.ofNat (seqField array) = seq
  sum : beNat ((array.drop 28).take 2) = ((array.take 28).map UInt8.toNat).sum % 2 ^ 16

theorem readBack_mainFrame (seq : UInt16) {stored : Bytes} (h : stored.length = 14) (rest : Bytes) :
    ReadBack (mainFrame seq 14 stored) seq (mainFrame seq 14 stored ++ rest) := by
  obtain ⟨body, post, hframe, hbody, hlen⟩ := mainFrame_body seq h
  have hlong : (mainFrame seq 14 stored).length = 30 := by
    rw [hframe, List.length_append, hlen, length_be16]
  refine ⟨?_, ?_, ?_⟩
  · rw [← hlong, List.take_left]
  · rw [hframe, hbody, List.append_assoc, List.append_assoc, seqField_head, UInt16.ofNat_toNat]
  · rw [hframe, List.append_assoc, ← hlen, List.drop_left, List.take_left, ← sum16_toNat, ← beNat_be16 (sum16 body)]
    rfl

theorem checkData_read {fr : Frame} {data array : Bytes} (harray : readArray data = some array)
    (hsegs : segments data ≠ []) (htype : fr.getType array ≠ .Invalid) :
    ∃ len sumOk, checkData fr data = some (.read len (.ofNat (seqField array)) sumOk) := by
  have hsome : ¬ (segments data).isEmpty = true := by simpa using hsegs
  refine ⟨(fr.getLength array).toUInt16, fr.judgeCheckSum array (fr.getLength array).toUInt16.toNat, ?_⟩
  rw [checkData, if_neg hsome, harray]
  simp only [Option.bind_eq_bind, Option.bind_some, if_neg htype]
  rfl

/-- Printed bytes are read back into the first cells of `array`, with or without the newline. A frame of
`generate_data` is read back with its sequence number and its checksum, and that number is what `check_data` prints. -/
theorem print_read_back (bs : Bytes) (hbs : bs.length ≤ 1024) (seq : UInt16) (stored : Bytes)
    (hstored : stored.length = 14) (ending : Bytes) (hend : ending = [] ∨ ending = [newline]) :
    (∃ array, readArray (printBytes bs ++ ending) = some array ∧ array.take bs.length = bs) ∧
      ∃ array, readArray (printBytes (mainFrame seq 14 stored) ++ ending) = some array ∧
        ReadBack (mainFrame seq 14 stored) seq array ∧
        ∀ fr : Frame, fr.getType array ≠ .Invalid →
          ∃ len sumOk, checkData fr (printBytes (mainFrame seq 14 stored) ++ ending) = some (.read len seq sumOk) := by
  have hspace : ∀ c ∈ ending, isspace c = true := by
    rcases hend with rfl | rfl
    · exact fun c hc => absurd hc List.not_mem_nil
    · intro c hc
      rw [List.mem_singleton.1 hc]
      rfl
  obtain ⟨body, post, hframe, -, hlen⟩ := mainFrame_body seq hstored
  have hlong : (mainFrame seq 14 stored).length = 30 := by
    rw [hframe, List.length_append, hlen, length_be16]
  refine ⟨⟨_, readArray_print bs hbs hspace, List.take_left⟩, ?_⟩
  have hread := readArray_print (mainFrame seq 14 stored) (by omega) hspace
  have hback := readBack_mainFrame seq hstored (List.replicate (1024 - (mainFrame seq 14 stored).length) 0)
  refine ⟨_, hread, hback, fun fr htype => ?_⟩
  have hsegs : segments (printBytes (mainFrame seq 14 stored) ++ ending) ≠ [] := by
    rw [segments_print _ hspace]
    intro hnil
    rw [List.map_eq_nil_iff.1 hnil] at hlong
    cases hlong
  obtain ⟨len, sumOk, hcheck⟩ := checkData_read hread hsegs htype
  rw [hback.seq] at hcheck
  exact ⟨len, sumOk, hcheck⟩

theorem print_read_back_zeros :
    (∃ array, readArray (printBytes [0, 0xff] ++ [newline]) = some array ∧ array.take 2 = [0, 0xff]) ∧
      ∃ array, readArray (printBytes (mainFrame 0x8b6e 14 (List.replicate 14 0)) ++ [newline]) = some array ∧
        ReadBack (mainFrame 0x8b6e 14 (List.replicate 14 0)) 0x8b6e array ∧
        ∀ fr : Frame, fr.getType array ≠ .Invalid →
          ∃ len sumOk, checkData fr (printBytes (mainFrame 0x8b6e 14 (List.replicate 14 0)) ++ [newline]) =
            some (.read len 0x8b6e sumOk) :=
  print_read_back [0, 0xff] (by decide) 0x8b6e (List.replicate 14 0) rfl [newline] (.inr rfl)

end LearnCpp
