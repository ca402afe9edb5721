import Mathlib.Data.Fintype.Defs
import LearnCpp.ProtobufCodec

/-!
# The messages of the schema (`protobuf_test/LT.Interaction.pb.h`, `LT.Interaction.pb.cc`)

Four classes without submessages, and `interaction`, which holds them behind pointers and in lists. A pointer is null
until its submessage is asked for; a submessage that is not there any more is kept for later, empty.
-/

namespace LearnCpp

namespace Protobuf

open TagLoop

/-! ### `TerminalInfo`, `BaseStationInfo` -/

namespace TerminalInfo

inductive Member
  | hostname
  | macAddr
  | ipAddr
  | sensorChannel
  | sensorHeight
  | sensorOffset
  | romoteIpAddr
  | termConfig
  | calibrationStatus
deriving DecidableEq, Repr

open Member

instance : Fintype Member :=
  ⟨{hostname, macAddr, ipAddr, sensorChannel, sensorHeight, sensorOffset, romoteIpAddr, termConfig,
    calibrationStatus}, fun x => by cases x <;> decide⟩

@[reducible] def layout : Layout where
  Member := Member
  ty
    | calibrationStatus => .bool
    | _ => .string
  mask
    | hostname => 0x00000001
    | macAddr => 0x00000002
    | ipAddr => 0x00000004
    | sensorChannel => 0x00000008
    | sensorHeight => 0x00000010
    | sensorOffset => 0x00000020
    | romoteIpAddr => 0x00000040
    | termConfig => 0x00000080
    | calibrationStatus => 0x00000100
  isValid _ _ := true

end TerminalInfo

open TerminalInfo.Member in
@[reducible] def terminalInfo : MessageClass where
  toLayout := TerminalInfo.layout
  switch := [(1, 10, hostname), (2, 18, macAddr), (3, 26, ipAddr), (4, 34, sensorChannel), (5, 42, sensorHeight),
    (6, 50, sensorOffset), (7, 58, romoteIpAddr), (8, 64, calibrationStatus), (9, 74, termConfig)]
  writes := [(0x00000001, 1, hostname), (0x00000002, 2, macAddr), (0x00000004, 3, ipAddr),
    (0x00000008, 4, sensorChannel), (0x00000010, 5, sensorHeight), (0x00000020, 6, sensorOffset),
    (0x00000040, 7, romoteIpAddr), (0x00000100, 8, calibrationStatus), (0x00000080, 9, termConfig)]
  sizes := {
    required := 0x00000007
    requiredFields := [hostname, macAddr, ipAddr]
    blocks := [(some 248, [sensorChannel, sensorHeight, sensorOffset, romoteIpAddr, termConfig]),
      (none, [calibrationStatus])] }
  required := 0x00000007
  merges := [
    { gate := 255
      fields := [(0x00000001, hostname, true), (0x00000002, macAddr, true), (0x00000004, ipAddr, true),
        (0x00000008, sensorChannel, true), (0x00000010, sensorHeight, true), (0x00000020, sensorOffset, true),
        (0x00000040, romoteIpAddr, true), (0x00000080, termConfig, true)]
      orBits := false },
    { gate := 0x00000100, fields := [(0x00000100, calibrationStatus, true)], orBits := false }]
  clears := [
    .each 255 [(0x00000001, hostname), (0x00000002, macAddr), (0x00000004, ipAddr), (0x00000008, sensorChannel),
      (0x00000010, sensorHeight), (0x00000020, sensorOffset), (0x00000040, romoteIpAddr), (0x00000080, termConfig)],
    .always [calibrationStatus]]

namespace BaseStationInfo

inductive Member
  | hostname
  | bsFreq
  | bsLocation
  | bsOrientation
  | motorSpeed
  | bsId
  | ingroupAddr
  | ledStatus
  | motorStatus
deriving DecidableEq, Repr

open Member

instance : Fintype Member :=
  ⟨{hostname, bsFreq, bsLocation, bsOrientation, motorSpeed, bsId, ingroupAddr, ledStatus, motorStatus},
    fun x => by cases x <;> decide⟩

@[reducible] def layout : Layout where
  Member := Member
  ty
    | bsId => .uint32
    | ingroupAddr => .uint32
    | ledStatus => .bool
    | motorStatus => .bool
    | _ => .string
  mask
    | hostname => 0x00000001
    | bsFreq => 0x00000002
    | bsLocation => 0x00000004
    | bsOrientation => 0x00000008
    | motorSpeed => 0x00000010
    | bsId => 0x00000020
    | ingroupAddr => 0x00000040
    | ledStatus => 0x00000080
    | motorStatus => 0x00000100
  isValid _ _ := true

end BaseStationInfo

open BaseStationInfo.Member in
@[reducible] def baseStationInfo : MessageClass where
  toLayout := BaseStationInfo.layout
  switch := [(1, 10, hostname), (2, 16, bsId), (3, 24, ingroupAddr), (4, 34, bsFreq), (5, 42, bsLocation),
    (6, 50, bsOrientation), (7, 56, ledStatus), (8, 64, motorStatus), (9, 74, motorSpeed)]
  writes := [(0x00000001, 1, hostname), (0x00000020, 2, bsId), (0x00000040, 3, ingroupAddr), (0x00000002, 4, bsFreq),
    (0x00000004, 5, bsLocation), (0x00000008, 6, bsOrientation), (0x00000080, 7, ledStatus),
    (0x00000100, 8, motorStatus), (0x00000010, 9, motorSpeed)]
  sizes := {
    required := 0x00000061
    requiredFields := [hostname, bsId, ingroupAddr]
    blocks := [(some 30, [bsFreq, bsLocation, bsOrientation, motorSpeed]), (none, [ledStatus]), (none, [motorStatus])] }
  required := 0x00000061
  merges := [
    { gate := 255
      fields := [(0x00000001, hostname, true), (0x00000002, bsFreq, true), (0x00000004, bsLocation, true),
        (0x00000008, bsOrientation, true), (0x00000010, motorSpeed, true), (0x00000020, bsId, false),
        (0x00000040, ingroupAddr, false), (0x00000080, ledStatus, false)]
      orBits := true },
    { gate := 0x00000100, fields := [(0x00000100, motorStatus, true)], orBits := false }]
  clears := [
    .each 31 [(0x00000001, hostname), (0x00000002, bsFreq), (0x00000004, bsLocation), (0x00000008, bsOrientation),
      (0x00000010, motorSpeed)],
    .all 224 [bsId, ingroupAddr, ledStatus],
    .always [motorStatus]]

/-! ### `BaseCommandInfo`, `TermCommandInfo` -/

namespace CommandInfo

inductive Member
  | cmdArg1
  | cmdArg2
  | cmdArg3
  | cmdId
deriving DecidableEq, Repr

open Member

instance : Fintype Member :=
  ⟨{cmdArg1, cmdArg2, cmdArg3, cmdId}, fun x => by cases x <;> decide⟩

@[reducible] def layout (idIsValid : BitVec 32 → Bool) : Layout where
  Member := Member
  ty
    | cmdId => .enum
    | _ => .string
  mask
    | cmdArg1 => 0x00000001
    | cmdArg2 => 0x00000002
    | cmdArg3 => 0x00000004
    | cmdId => 0x00000008
  isValid
    | cmdId, v => idIsValid v
    | _, _ => true

end CommandInfo

open CommandInfo.Member in
/-- The classes of commands differ in their enumerations only. -/
@[reducible] def commandInfo (idIsValid : BitVec 32 → Bool) : MessageClass where
  toLayout := CommandInfo.layout idIsValid
  switch := [(1, 8, cmdId), (2, 18, cmdArg1), (3, 26, cmdArg2), (4, 34, cmdArg3)]
  writes := [(0x00000008, 1, cmdId), (0x00000001, 2, cmdArg1), (0x00000002, 3, cmdArg2), (0x00000004, 4, cmdArg3)]
  sizes := {
    required := 0
    requiredFields := []
    blocks := [(none, [cmdId]), (some 7, [cmdArg1, cmdArg2, cmdArg3])] }
  required := 0x00000008
  merges := [
    { gate := 15
      fields := [(0x00000001, cmdArg1, true), (0x00000002, cmdArg2, true), (0x00000004, cmdArg3, true),
        (0x00000008, cmdId, false)]
      orBits := true }]
  clears := [.each 7 [(0x00000001, cmdArg1), (0x00000002, cmdArg2), (0x00000004, cmdArg3)], .always [cmdId]]

/-- `interaction_BaseCommandInfo_BaseCommandId_IsValid`. -/
def baseCommandIdIsValid (value : BitVec 32) : Bool := value ∈ [0, 1, 2, 3, 4, 5]

/-- `interaction_TermCommandInfo_TermCommandId_IsValid`. -/
def termCommandIdIsValid (value : BitVec 32) : Bool := value ∈ [0, 1, 2]

@[reducible] def baseCommandInfo : MessageClass := commandInfo baseCommandIdIsValid

@[reducible] def termCommandInfo : MessageClass := commandInfo termCommandIdIsValid

/-! ### The four classes -/

/-- The submessages of `interaction`. -/
inductive Sub
  | terminalInfo
  | terminalCmdInfo
  | baseStationInfo
  | baseCmdInfo
deriving DecidableEq, Repr

@[reducible] def Sub.cls : Sub → MessageClass
  | terminalInfo => Protobuf.terminalInfo
  | terminalCmdInfo => termCommandInfo
  | baseStationInfo => Protobuf.baseStationInfo
  | baseCmdInfo => baseCommandInfo

theorem Sub.coherent (s : Sub) : s.cls.Coherent where
  single := by cases s <;> decide
  inj := by cases s <;> decide
  enum x v hx := by
    cases s with
    | terminalInfo | baseStationInfo => rfl
    | terminalCmdInfo | baseCmdInfo =>
      cases x with
      | cmdId => exact absurd rfl hx
      | cmdArg1 | cmdArg2 | cmdArg3 => rfl
  switch := by cases s <;> exact ⟨by decide, by decide⟩
  writes_mask := by cases s <;> decide
  writes_case := by cases s <;> decide
  mem_writes := by cases s <;> decide
  sizes := by cases s <;> exact ⟨by decide, by decide, by decide⟩
  required := by cases s <;> decide
  merges_mask := by cases s <;> decide
  merges := by cases s <;> decide
  clears := by cases s <;> decide

/-! ### `interaction` -/

/-- The repeated submessages. -/
inductive Rep
  | terminalInfoList
  | baseStationInfoList
deriving DecidableEq, Repr

@[reducible] def Rep.cls : Rep → MessageClass
  | terminalInfoList => Protobuf.terminalInfo
  | baseStationInfoList => Protobuf.baseStationInfo

theorem Rep.coherent (l : Rep) : l.cls.Coherent := by
  cases l with
  | terminalInfoList => exact Sub.coherent .terminalInfo
  | baseStationInfoList => exact Sub.coherent .baseStationInfo

def Sub.mask : Sub → BitVec 32
  | terminalInfo => 0x00000002
  | terminalCmdInfo => 0x00000004
  | baseStationInfo => 0x00000008
  | baseCmdInfo => 0x00000010

namespace Interaction

inductive Member
  | configFile
  | msgId
  | terminalCmdResult
  | baseCmdResult
deriving DecidableEq, Repr

open Member

instance : Fintype Member :=
  ⟨{configFile, msgId, terminalCmdResult, baseCmdResult}, fun x => by cases x <;> decide⟩

@[reducible] def layout : Layout where
  Member := Member
  ty
    | configFile => .string
    | msgId => .int32
    | _ => .bool
  mask
    | configFile => 0x00000001
    | msgId => 0x00000020
    | terminalCmdResult => 0x00000040
    | baseCmdResult => 0x00000080
  isValid _ _ := true

/-- What a case of the `switch` reads. -/
inductive Slot
  | field (x : Member)
  | sub (s : Sub)
  | rep (l : Rep)
deriving DecidableEq, Repr

def Slot.wireType : Slot → ℕ
  | field x => (layout.ty x).wireType
  | sub _ => 2
  | rep _ => 2

/-- Number, tag and member of each case. -/
def switch : List (ℕ × ℕ × Slot) :=
  [(1, 8, .field msgId), (2, 18, .sub .terminalInfo), (3, 26, .sub .terminalCmdInfo), (4, 32, .field terminalCmdResult),
    (5, 42, .sub .baseStationInfo), (6, 50, .sub .baseCmdInfo), (7, 56, .field baseCmdResult),
    (9, 74, .field configFile), (10, 82, .rep .terminalInfoList), (11, 90, .rep .baseStationInfoList)]

/-- Number and member of each statement of `SerializeWithCachedSizes`, before the unknown fields. -/
def writes : List (ℕ × Slot) :=
  [(1, .field msgId), (2, .sub .terminalInfo), (3, .sub .terminalCmdInfo), (4, .field terminalCmdResult),
    (5, .sub .baseStationInfo), (6, .sub .baseCmdInfo), (7, .field baseCmdResult), (9, .field configFile),
    (10, .rep .terminalInfoList), (11, .rep .baseStationInfoList)]

end Interaction

/-- `base` holds `_has_bits_`, `_cached_size_`, the unknown fields and the members that are no messages. -/
structure Interaction where
  base : Msg Interaction.layout
  sub : (s : Sub) → Option s.cls.Object
  list : (l : Rep) → List l.cls.Object

namespace Interaction

open Member

variable (m : Interaction)

def new : Interaction := ⟨Msg.new layout, fun _ => none, fun _ => []⟩

instance : Inhabited Interaction := ⟨new⟩

def hasSub (s : Sub) : Bool := Flags.test m.base.hasBits s.mask

/-- `x()` of a submessage: the default instance where the pointer is null. -/
def getSub (s : Sub) : s.cls.Object := (m.sub s).getD (Msg.new _)

def setHasSub (s : Sub) : Interaction := { m with base.hasBits := m.base.hasBits ||| s.mask }

def clearHasSub (s : Sub) : Interaction := { m with base.hasBits := m.base.hasBits &&& ~~~s.mask }

/-- `mutable_x()`, and what is done with the object. -/
def mutableSub (s : Sub) (f : s.cls.Object → s.cls.Object) : Interaction :=
  { m.setHasSub s with sub := Function.update m.sub s (some (f (m.getSub s))) }

/-- `clear_x()` of a submessage. -/
def clearSub (s : Sub) : Interaction :=
  { m.clearHasSub s with sub := Function.update m.sub s ((m.sub s).map s.cls.clear) }

def set (x : Member) (v : (layout.ty x).Value) : Interaction := { m with base := m.base.set x v }

def clearField (x : Member) : Interaction := { m with base := m.base.clear x }

/-- `add_x()`, and what the object is made. -/
def add (l : Rep) (o : l.cls.Object) : Interaction :=
  { m with list := Function.update m.list l (m.list l ++ [o]) }

/-- `mutable_x(index)`, and what the object is made. -/
def mutableRep (l : Rep) (index : ℕ) (o : l.cls.Object) : Interaction :=
  { m with list := Function.update m.list l ((m.list l).set index o) }

def clearRep (l : Rep) : Interaction := { m with list := Function.update m.list l [] }

/-- `Clear`. A submessage that is not there is not cleared. -/
def clear : Interaction where
  base := m.base.clearBlocks [.each 31 [(0x00000001, configFile)], .all 224 [msgId, terminalCmdResult, baseCmdResult]]
  sub s := if Flags.test m.base.hasBits 31 && m.hasSub s then (m.sub s).map s.cls.clear else m.sub s
  list _ := []

/-- `RepeatedPtrField::MergeFrom` merges each element into a new one. -/
def mergeList (l : Rep) (src : List l.cls.Object) : List l.cls.Object := src.map fun o => l.cls.mergeFrom o (Msg.new _)

def mergeSub (src m : Interaction) (s : Sub) : Interaction :=
  if src.hasSub s then m.mutableSub s (s.cls.mergeFrom (src.getSub s)) else m

def mergeFrom (src m : Interaction) : Interaction :=
  let m : Interaction :=
    { m with base := src.base.mergeUnknown m.base, list := fun l => m.list l ++ mergeList l (src.list l) }
  if Flags.test src.base.hasBits 255 then
    let m := { m with base := [(0x00000001, configFile, true)].foldl (Msg.mergeEntry src.base) m.base }
    let m := [.terminalInfo, .terminalCmdInfo, .baseStationInfo, .baseCmdInfo].foldl (mergeSub src) m
    let m := { m with base := [(0x00000020, msgId, false), (0x00000040, terminalCmdResult, false),
      (0x00000080, baseCmdResult, false)].foldl (Msg.mergeEntry src.base) m.base }
    { m with base.hasBits := m.base.hasBits ||| src.base.hasBits }
  else m

/-- `CopyFrom` of another object, also `operator=`. -/
def copyFrom (src m : Interaction) : Interaction := mergeFrom src m.clear

/-- The copy constructor. -/
def copy (src : Interaction) : Interaction where
  base := src.base.copy
  sub s := if src.hasSub s then some (src.getSub s).copy else none
  list l := mergeList l (src.list l)

def isInitialized : Bool :=
  m.base.hasBits &&& 0x00000020 == 0x00000020 &&
    [Rep.terminalInfoList, .baseStationInfoList].all (fun l => (m.list l).all l.cls.isInitialized) &&
    [Sub.terminalInfo, .terminalCmdInfo, .baseStationInfo, .baseCmdInfo].all fun s =>
      !m.hasSub s || s.cls.isInitialized (m.getSub s)

/-! ### Sizes and bytes -/

section

variable (w : Wire)

def subSize (s : Sub) : ℕ := if m.hasSub s then 1 + w.messageSize (s.cls.byteSize w (m.getSub s)) else 0

def listSize (l : Rep) : ℕ := (m.list l).length + ((m.list l).map fun o => w.messageSize (l.cls.byteSize w o)).sum

def byteSize : ℕ :=
  m.base.unknownSize w + m.base.sizeIfHas w msgId + m.listSize w .terminalInfoList + m.listSize w .baseStationInfoList +
    (if Flags.test m.base.hasBits 31 then m.base.sizeIfHas w configFile + m.subSize w .terminalInfo +
      m.subSize w .terminalCmdInfo + m.subSize w .baseStationInfo + m.subSize w .baseCmdInfo else 0) +
    (if Flags.test m.base.hasBits 192 then
      m.base.sizeIfHas w terminalCmdResult + m.base.sizeIfHas w baseCmdResult else 0)

/-- The size, and the sizes that are left in the objects it is asked of. -/
def byteSizeLong : ℕ × Interaction :=
  (m.byteSize w,
    { base := { m.base with cachedSize := m.byteSize w % 2 ^ 32 }
      sub := fun s => if m.hasSub s then (m.sub s).map fun o => (s.cls.byteSizeLong w o).2 else m.sub s
      list := fun l => (m.list l).map fun o => (l.cls.byteSizeLong w o).2 })

/-- `WriteMessageMaybeToArray`. -/
def writeMessage (C : MessageClass) (number : ℕ) (o : C.Object) : Bytes :=
  w.writeMessage number o.cachedSize (C.serializeWithCachedSizes w o)

def write : ℕ × Slot → Bytes
  | (number, .field x) => m.base.writeField w (layout.mask x, number, x)
  | (number, .sub s) => if m.hasSub s then writeMessage w s.cls number (m.getSub s) else []
  | (number, .rep l) => ((m.list l).map (writeMessage w l.cls number)).flatten

/-- Also `InternalSerializeWithCachedSizesToArray`, which has the same statements. -/
def serializeWithCachedSizes : Bytes := (writes.map (m.write w)).flatten ++ m.base.writeUnknown w

end

/-! ### Reading -/

section

variable (w : Wire)

/-- `ReadMessage`: the submessage has to end where its length says. -/
def readMessage {σ : Type} (merge : Bytes → σ → Option (σ × Bool)) (bs : Bytes) (o : σ) : Option (σ × Bytes) :=
  (w.readLimit bs).bind fun p => (merge p.1 o).bind fun q => if q.2 then some (q.1, p.2) else none

def readSlot (number : ℕ) (bs : Bytes) (slot : Slot) (m : Interaction) : Option (Interaction × Bytes) :=
  match slot with
  | .field x => (m.base.readField w number x bs).map fun p => ({ m with base := p.1 }, p.2)
  | .sub s => (readMessage w (s.cls.mergePartialFromCodedStream w 1) bs (m.getSub s)).map fun p =>
      (m.mutableSub s fun _ => p.1, p.2)
  | .rep l => (readMessage w (l.cls.mergePartialFromCodedStream w 1) bs (Msg.new _)).map fun p => (m.add l p.1, p.2)

def skipField (tag : ℕ) (bs : Bytes) (m : Interaction) : Option (Interaction × Bytes) :=
  (m.base.skipField w 0 tag bs).map fun p => ({ m with base := p.1 }, p.2)

def parseField (tag : ℕ) (bs : Bytes) (m : Interaction) : Option (Interaction × Bytes) :=
  match dispatch switch tag with
  | some (number, slot) => m.readSlot w number bs slot
  | none => m.skipField w tag bs

def mergePartialFromCodedStream (bs : Bytes) (m : Interaction) : Option (Interaction × Bool) :=
  loop w.readTag (parseField w) (bs.length + 1) bs m

/-- `ParseFromIstream`; what a failed call leaves behind is not looked at. -/
def parseFromIstream (bs : Bytes) (m : Interaction) : Option Interaction :=
  (mergePartialFromCodedStream w bs m.clear).bind fun p => if p.1.isInitialized && p.2 then some p.1 else none

/-- `SerializeToOstream`: nothing is written if the size is no `int`. -/
def serializeToOstream (m : Interaction) : Option Bytes × Interaction :=
  let p := m.byteSizeLong w
  (if p.1 ≤ intMax then some (p.2.serializeWithCachedSizes w) else none, p.2)

end

end Interaction

end Protobuf

end LearnCpp
