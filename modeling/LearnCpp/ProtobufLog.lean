import LearnCpp.ProtobufRuns
import LearnCpp.Text

/-!
# `Writer` and `Reader` (`protobuf_test/Writer.cpp`, `protobuf_test/Reader.cpp`)

`Writer` fills an object and writes it to the file `log`; `Reader` reads the file and prints some of it. Whatever
program filled the object, `Reader` prints what its function would print of the object itself (`reader_prints`).
-/

namespace LearnCpp

namespace Protobuf

open Lts

/-- `<< endl`. -/
def line (bs : Bytes) : Bytes := bs ++ [10]

/-- The values of an object. -/
abbrev MessageClass.Values (C : MessageClass) : Type := (x : C.Member) → (C.ty x).Value

open BaseStationInfo.Member in
def showBase (val : baseStationInfo.Values) : Bytes :=
  line (val hostname) ++ line (intText 0 (val bsId).toNat) ++ line (line (intText 0 (val ingroupAddr).toNat))

open TerminalInfo.Member in
def showTerm (val : terminalInfo.Values) : Bytes :=
  line (val hostname) ++ line (val ipAddr) ++ line (line (val macAddr))

open CommandInfo.Member in
def showCmd (val : termCommandInfo.Values) : Bytes := line (intText 0 (val cmdId).toInt) ++ line (line (val cmdArg1))

/-- A loop of `ListMsg`: each element is assigned to the variable, and printed from there. -/
def showList (C : MessageClass) (shows : C.Values → Bytes) (os : List C.Object) (o : C.Object) : Bytes :=
  (os.foldl (fun p o' => (C.copyFrom o' p.1, p.2 ++ shows (C.copyFrom o' p.1).val)) (o, [])).2

def listMsg (msg : Interaction) : Bytes :=
  let baseInfoMsg : baseStationInfo.Object := (msg.getSub .baseStationInfo).copy
  let termInfoMsg : terminalInfo.Object := (msg.getSub .terminalInfo).copy
  let termCmdInfo : termCommandInfo.Object := (msg.getSub .terminalCmdInfo).copy
  showBase baseInfoMsg.val ++ showTerm termInfoMsg.val ++
    showList baseStationInfo showBase (msg.list .baseStationInfoList) baseInfoMsg ++
    showList terminalInfo showTerm (msg.list .terminalInfoList) termInfoMsg ++ showCmd termCmdInfo.val

/-- `main` of `Reader`, with what is in the file if it opens: `cout`, `cerr` and the status. -/
def reader (w : Wire) (file : Option Bytes) : Bytes × String × Int :=
  match file.bind fun bs => Interaction.new.parseFromIstream w bs with
  | none => ([], "Failed to parse address book.\n", -1)
  | some msg => (listMsg msg, "", 0)

/-! ### What is printed -/

section

variable {C : MessageClass} {K : UnknownField → Prop} {src o : C.Object} {w : Wire}

theorem copy_val (ho : o.Wf K) : o.copy.val = o.view.get := by
  funext x
  rw [Msg.copy_eq ho]
  exact (View.get_view ho x).symm

theorem copyFrom_val (hC : C.Coherent) (hsrc : src.Wf K) (ho : o.Wf K) :
    (C.copyFrom src o).val = src.view.get ∧ (C.copyFrom src o).Wf K := by
  obtain ⟨hview, hwf⟩ := MessageClass.adds_mergeFrom hC hsrc (C.clear o)
  have hwf' : (C.copyFrom src o).Wf K := hwf (MessageClass.wf_clear hC ho)
  have hview' : (C.copyFrom src o).view = src.view := by
    rw [MessageClass.copyFrom, hview, MessageClass.view_clear hC ho, one_mul]
  exact ⟨funext fun x => by rw [← View.get_view hwf' x, hview'], hwf'⟩

/-- A loop prints the views of the elements, whatever is in the variable before. -/
theorem showList_eq (hC : C.Coherent) (shows : C.Values → Bytes) {os : List C.Object} (hos : ∀ o ∈ os, o.Wf K)
    (ho : o.Wf K) : showList C shows os o = ((os.map Msg.view).map fun a => shows a.get).flatten := by
  have hfold (out : Bytes) :
      (os.foldl (fun p o' => (C.copyFrom o' p.1, p.2 ++ shows (C.copyFrom o' p.1).val)) (o, out)).2 =
        out ++ ((os.map Msg.view).map fun a => shows a.get).flatten := by
    induction os generalizing o out with
    | nil => exact (List.append_nil _).symm
    | cons o' os ih =>
      obtain ⟨hval, hwf⟩ := copyFrom_val hC (hos o' (by simp)) ho
      rw [List.foldl_cons, ih (fun o hmem => hos o (by simp [hmem])) hwf, hval, List.map_cons, List.map_cons,
        List.flatten_cons, List.append_assoc]
  exact (hfold []).trans (List.nil_append _)

/-- What `ListMsg` prints of a view. -/
def InteractionView.shown (a : InteractionView) : Bytes :=
  showBase (a.getSub .baseStationInfo).get ++ showTerm (a.getSub .terminalInfo).get ++
    ((a.list .baseStationInfoList).map fun b => showBase b.get).flatten ++
    ((a.list .terminalInfoList).map fun b => showTerm b.get).flatten ++ showCmd (a.getSub .terminalCmdInfo).get

theorem listMsg_eq {m : Interaction} (hm : m.Wf w) : listMsg m = m.view.shown := by
  have hcopy (s : Sub) : (m.getSub s).copy.val = (m.view.getSub s).get := by
    rw [copy_val (hm.sub s), Interaction.getSub_view hm]
  have hwf (s : Sub) : (m.getSub s).copy.Wf (s.cls.Keeps w 1) := (Msg.adds_copy (hm.sub s)).2 (hm.sub s)
  have hbase := showList_eq (Rep.coherent .baseStationInfoList) showBase (hm.list .baseStationInfoList)
    (hwf .baseStationInfo)
  have hterm := showList_eq (Rep.coherent .terminalInfoList) showTerm (hm.list .terminalInfoList)
    (hwf .terminalInfo)
  rw [listMsg, InteractionView.shown, hcopy .baseStationInfo, hcopy .terminalInfo, hcopy .terminalCmdInfo, hbase, hterm]
  rfl

end

/-! ### `Writer` -/

def setBase (hostname : String) (bsId ingroupAddr : BitVec 32) : List (Edit baseStationInfo.toLayout) :=
  [.set BaseStationInfo.Member.hostname (chars hostname), .set BaseStationInfo.Member.bsId bsId,
    .set BaseStationInfo.Member.ingroupAddr ingroupAddr]

def setTerm (hostname macAddr ipAddr : String) : List (Edit terminalInfo.toLayout) :=
  [.set TerminalInfo.Member.hostname (chars hostname), .set TerminalInfo.Member.macAddr (chars macAddr),
    .set TerminalInfo.Member.ipAddr (chars ipAddr)]

/-- `mutable_x()`, and what is set there. -/
def fillSub (s : Sub) (es : List (Edit s.cls.toLayout)) : List Act := es.map fun e => .call 0 (.mutableSub s e)

/-- `add_x()`, and what is set there. -/
def fillNew (l : Rep) (index : ℕ) (es : List (Edit l.cls.toLayout)) : List Act :=
  .call 0 (.add l) :: es.map fun e => .call 0 (.mutableRep l index e)

/-- The calls of `main` of `Writer`, of the object 0. It prints the sizes of the lists. -/
def writer : List Act :=
  [[.call 0 (.edit (.set Interaction.Member.msgId 1))],
    fillSub .baseStationInfo (setBase "base 0" 1 2),
    fillSub .terminalInfo (setTerm "term 0" "b1:b2:b3:b4:b5:b6" "192.168.0.112"),
    fillNew .baseStationInfoList 0 (setBase "b1" 1 3),
    fillNew .baseStationInfoList 1 (setBase "b2" 1 4),
    [.ask 0 (.listSize .baseStationInfoList)],
    fillNew .terminalInfoList 0 (setTerm "t1" "b1:b2:b3:b4:b5:b6" "192.168.0.113"),
    fillNew .terminalInfoList 1 (setTerm "t2" "b1:b2:b3:b4:b5:b6" "192.168.0.114"),
    [.ask 0 (.listSize .terminalInfoList)],
    fillSub .terminalCmdInfo [.set CommandInfo.Member.cmdId 0,
      .set CommandInfo.Member.cmdArg1 (chars "term cmd arg 1")]].flatten

/-- `Reader` prints of the file what it would print of the object that was written, if that has its required members. -/
theorem reader_prints {w : Wire} {acts : List Act} {os : List Answer} {s : ℕ → Interaction} {file : Bytes} (i : ℕ)
    (hrun : runMealy (Interaction.calls w).step (fun _ => Interaction.new) acts = .ok (os, s))
    (hfile : ((s i).serializeToOstream w).1 = some file) :
    reader w (some file) = if (s i).isInitialized then (listMsg (s i), "", 0)
      else ([], "Failed to parse address book.\n", -1) := by
  have hwf : (s i).Wf w := ((Interaction.refines w).run acts fun _ => Interaction.wf_new).2 os s hrun i
  obtain ⟨m, hview, hm, hparse⟩ := Interaction.parse_serialize hwf hfile Interaction.wf_new
  rw [reader, Option.bind_some, hparse]
  split_ifs
  · change (listMsg m, _, _) = _
    rw [listMsg_eq hwf, listMsg_eq hm, hview]
  · rfl

def writerShown : Bytes :=
  chars "base 0\n1\n2\n\n" ++ chars "term 0\n192.168.0.112\nb1:b2:b3:b4:b5:b6\n\n" ++
    chars "b1\n1\n3\n\nb2\n1\n4\n\n" ++ chars "t1\n192.168.0.113\nb1:b2:b3:b4:b5:b6\n\n" ++
    chars "t2\n192.168.0.114\nb1:b2:b3:b4:b5:b6\n\n" ++ chars "0\nterm cmd arg 1\n\n"

theorem writer_run : (runMealy (Interaction.calls Wire.base128).step (fun _ => Interaction.new) writer).toOption.map
    (fun p => decide ((p.2 0).isInitialized = true ∧ (p.2 0).byteSize Wire.base128 ≤ intMax ∧
      listMsg (p.2 0) = writerShown)) = some true := by
  decide +kernel

/-- What `Reader` prints after `Writer`. -/
theorem writer_read : ∃ os s file,
    runMealy (Interaction.calls Wire.base128).step (fun _ => Interaction.new) writer = .ok (os, s) ∧
      ((s 0).serializeToOstream Wire.base128).1 = some file ∧
      reader Wire.base128 (some file) = (writerShown, "", 0) := by
  have hwriter := writer_run
  rcases hrun : runMealy (Interaction.calls Wire.base128).step (fun _ => Interaction.new) writer with _ | ⟨os, s⟩
  · rw [hrun] at hwriter
    cases hwriter
  · rw [hrun] at hwriter
    obtain ⟨hinit, hsize, hshown⟩ := of_decide_eq_true (Option.some.inj hwriter)
    have hfile : ((s 0).serializeToOstream Wire.base128).1 = some ((s 0).bytes Wire.base128) := if_pos hsize
    refine ⟨os, s, _, rfl, hfile, ?_⟩
    rw [reader_prints 0 hrun hfile, if_pos hinit]
    exact congrArg (fun text => (text, "", 0)) hshown

end Protobuf

end LearnCpp
