import LearnCpp.Text
import Mathlib.Data.List.Infix

/-!
# The screenshot key (`KeyboardFbdump/KeyboardFbdump.cpp`)

`main` copies its arguments into arrays of fixed sizes, looks for a USB keyboard under `/dev/input` and then waits for
its events: when the print key is let go after it was pressed it runs `fbdump` (`shot_iff`). The texts it writes after
it has checked that the disk is there fit whatever the clock says, so only the lengths of the arguments and of the names
of the devices count (`main_fits_iff`).
-/

namespace LearnCpp

namespace Keyboard

/-! ### Texts -/

/-- `strcpy` or `sprintf` into an array of `size` bytes; `none` if the text and its NUL do not fit. -/
def copy (size : ℕ) (text : Bytes) : Option Bytes := if text.length < size then some text else none

/-- `DATE_TIME`. -/
structure DateTime where
  second : Int8
  minute : Int8
  hour : Int8
  day : Int8
  month : Int8
  year : Int16
deriving DecidableEq, Repr

def getTime (tm : Tm) : DateTime where
  year := (tm.year + 1900).toInt16
  month := (tm.mon + 1).toInt8
  day := tm.mday.toInt8
  hour := tm.hour.toInt8
  minute := tm.min.toInt8
  second := tm.sec.toInt8

def picText (time : DateTime) (versions : Bytes) : Bytes :=
  intText 0 time.year.toInt ++ intText 2 time.month.toInt ++ intText 2 time.day.toInt ++ intText 2 time.hour.toInt ++
    intText 2 time.minute.toInt ++ intText 2 time.second.toInt ++ versions ++ chars ".ppm"

def cmdText (dirName picName : Bytes) : Bytes :=
  chars "home/edan/bin/fbdump" ++ chars " -fb " ++ chars "/dev/fb0" ++ chars " > " ++ dirName ++ chars "/" ++ picName

/-! ### The loop of `main` -/

structure InputEvent where
  type : UInt16
  code : UInt16
  value : Int32
deriving DecidableEq, Repr

/-- `EV_KEY`. -/
def evKey : UInt16 := 1

/-- `KEY_SYSRQ`. -/
def keySysrq : UInt16 := 99

/-- A round of the loop: nothing in ten milliseconds, a `read` that gives nothing, or an event, with the time then. -/
inductive Wake
  | quiet
  | nothing
  | event (ev : InputEvent) (tm : Tm)
deriving DecidableEq, Repr

structure KeyState where
  pressKeyFlag : Bool := false
  cutPicFlag : Bool := false
deriving DecidableEq, Repr

def KeyState.judge (s : KeyState) (ev : InputEvent) : KeyState :=
  if ev.type = evKey then
    if ev.code = keySysrq then
      if ev.value = 1 then { s with pressKeyFlag := true }
      else if ev.value = 0 then if s.pressKeyFlag then { s with cutPicFlag := true } else s
      else s
    else s
  else s

/-- With the command it runs, if any; `none` if an array overflows. -/
def keyRound (versions dirName : Bytes) (s : KeyState) : Wake → Option (Option Bytes × KeyState)
  | .quiet => some (none, s)
  | .nothing => some (none, s)
  | .event ev tm =>
    let s := s.judge ev
    if s.cutPicFlag then do
      let picName ← copy 100 (picText (getTime tm) versions)
      let cmd ← copy 200 (cmdText dirName picName)
      return (some cmd, ⟨false, false⟩)
    else some (none, s)

def keyLoop (versions dirName : Bytes) : KeyState → List Wake → Option (List (Option Bytes))
  | _, [] => some []
  | s, w :: ws => do
    let (cmd, s) ← keyRound versions dirName s w
    let cmds ← keyLoop versions dirName s ws
    return cmd :: cmds

/-! ### `get_keyboard_dev` -/

/-- An entry of `/dev/input`: its name, whether it opens, what `EVIOCGNAME` gives, and what `EVIOCGREP` returns and
leaves in `rep`. -/
structure InputDev where
  dName : Bytes
  opens : Bool
  name : Option Bytes
  flag : Int
  rep : Int × Int
deriving DecidableEq, Repr

def InputDev.path (d : InputDev) : Bytes := chars "/dev/input" ++ chars "/" ++ d.dName

def InputDev.skipped (d : InputDev) : Bool := d.dName = chars "." ∨ d.dName = chars ".."

def InputDev.usbKeyboard (d : InputDev) : Bool := match d.name with
  | none => false
  | some name => chars "Keyboard" <:+: name ∧ chars "USB" <:+: name

/-- The search ends at the device. -/
def InputDev.last (d : InputDev) : Bool := d.flag < 0 ∧ d.rep.1 ≠ 0 ∧ d.rep.2 ≠ 0

/-- A call of `open` that succeeds, or of `close`, on the device with this path. -/
inductive DevCall
  | opened (path : Bytes)
  | closed (path : Bytes)
deriving DecidableEq, Repr

/-- The name left at `keyboard_dev_name` and the calls made; `none` if `dev_name` overflows. -/
def searchDev (keyboardDevName : Bytes) : List InputDev → Option (Bytes × List DevCall)
  | [] => some (keyboardDevName, [])
  | d :: ds =>
    if d.skipped then searchDev keyboardDevName ds
    else do
      let devName ← copy 30 d.path
      if !d.opens then searchDev keyboardDevName ds
      else if d.usbKeyboard then
        if d.last then return (devName, [.opened devName, .closed devName])
        else
          let (name, calls) ← searchDev devName ds
          return (name, [.opened devName, .closed devName, .closed devName] ++ calls)
      else
        let (name, calls) ← searchDev keyboardDevName ds
        return (name, [.opened devName, .closed devName] ++ calls)

/-- `none` for the entries if the directory does not open. -/
def getKeyboardDev (entries : Option (List InputDev)) (keyboardDevName : Bytes) : Option (Bytes × List DevCall) :=
  match entries with
  | none => some (keyboardDevName, [])
  | some ds => searchDev keyboardDevName ds

/-! ### `main` -/

/-- What `main` finds: the paths that exist, the entries of `/dev/input`, what a call of `get_keyboard_dev` that ends
without `return` gives, and the devices that open. -/
structure Env where
  accessible : Bytes → Bool
  entries : Option (List InputDev)
  fallsOff : Bool
  opens : Bytes → Bool

/-- What `get_keyboard_dev` returns. -/
def Env.getFlag (env : Env) : Bool := if env.entries.isNone then false else env.fallsOff

inductive Outcome
  | exit (status : Int)
  | loops (cmds : List (Option Bytes))
deriving DecidableEq, Repr

def createFolder (directory : Bytes) : Option Bytes := copy 50 directory

/-- `main` up to the end of the rounds it is given; `none` if an array overflows. -/
def main (env : Env) (wakes : List Wake) : List Bytes → Option Outcome
  | _ :: argv1 :: argv2 :: _ => do
    if argv1 = chars "--help" then return .exit 0
    let versions ← copy 10 argv1
    let uDiskPath ← copy 100 argv2
    if !env.accessible uDiskPath then return .exit (-1)
    let dirName ← copy 30 (uDiskPath ++ chars "/" ++ chars "pics")
    if !env.accessible dirName then
      let _ ← createFolder dirName
    let (devName, _) ← getKeyboardDev env.entries (chars "nokown")
    if env.getFlag = false ∧ devName = chars "nokown" then return .exit (-1)
    if !env.opens devName then return .exit (-1)
    let cmds ← keyLoop versions dirName {} wakes
    return .loops cmds
  | _ => some (.exit (-1))

/-! ### The lengths of the texts -/

theorem length_byteText_le (x : Int8) : (intText 2 x.toInt).length ≤ 4 := by
  have hlow := x.le_toInt
  have hhigh := x.toInt_lt
  exact length_intText_le (n := 2) (by omega) (by omega)

theorem length_picText_le (time : DateTime) (versions : Bytes) :
    (picText time versions).length ≤ versions.length + 30 := by
  have hyear : (intText 0 time.year.toInt).length ≤ 6 := by
    have hlow := time.year.le_toInt
    have hhigh := time.year.toInt_lt
    exact length_intText_le (n := 4) (by omega) (by omega)
  have hmonth := length_byteText_le time.month
  have hday := length_byteText_le time.day
  have hhour := length_byteText_le time.hour
  have hminute := length_byteText_le time.minute
  have hsecond := length_byteText_le time.second
  have hppm : (chars ".ppm").length = 4 := rfl
  simp only [picText, List.length_append, hppm]
  omega

theorem length_cmdText (dirName picName : Bytes) :
    (cmdText dirName picName).length = 37 + dirName.length + picName.length := by
  have hparts : (chars "home/edan/bin/fbdump").length = 20 ∧ (chars " -fb ").length = 5 ∧
      (chars "/dev/fb0").length = 8 ∧ (chars " > ").length = 3 ∧ (chars "/").length = 1 := ⟨rfl, rfl, rfl, rfl, rfl⟩
  simp only [cmdText, List.length_append, hparts]
  omega

theorem copy_of_lt {size : ℕ} {text : Bytes} (h : text.length < size) : copy size text = some text := if_pos h

theorem copy_of_le {size : ℕ} {text : Bytes} (h : size ≤ text.length) : copy size text = none := if_neg (by omega)

/-! ### The key -/

/-- The value of an event of the print key. -/
def Wake.sysrq : Wake → Option Int32
  | .event ev _ => if ev.type = evKey ∧ ev.code = keySysrq then some ev.value else none
  | _ => none

/-- The key was pressed and not let go since. -/
def Armed (past : List Wake) : Prop :=
  ∃ pre w post, past = pre ++ w :: post ∧ w.sysrq = some 1 ∧ ∀ v ∈ post, v.sysrq ≠ some 0

/-- The command for the time of the round. -/
def Wake.cmd (versions dirName : Bytes) : Wake → Option Bytes
  | .event _ tm => some (cmdText dirName (picText (getTime tm) versions))
  | _ => none

variable {versions dirName : Bytes} {s : KeyState} {past : List Wake} {w : Wake}

theorem not_armed_nil : ¬ Armed [] := by
  rintro ⟨pre, w, post, h, -⟩
  simp at h

theorem armed_concat : Armed (past ++ [w]) ↔ w.sysrq = some 1 ∨ (Armed past ∧ w.sysrq ≠ some 0) := by
  constructor
  · rintro ⟨pre, v, post, hsplit, hv, hpost⟩
    rcases List.eq_nil_or_concat post with rfl | ⟨post', u, rfl⟩
    · obtain ⟨-, hlast⟩ := List.append_inj' hsplit rfl
      rw [List.singleton_inj.1 hlast]
      exact .inl hv
    · have hassoc : past ++ [w] = (pre ++ v :: post') ++ [u] := by simpa using hsplit
      obtain ⟨rfl, hlast⟩ := List.append_inj' hassoc rfl
      rw [List.singleton_inj.1 hlast]
      exact .inr ⟨⟨pre, v, post', rfl, hv, fun x hx => hpost x (by simp [hx])⟩, hpost u (by simp)⟩
  · rintro (hw | ⟨⟨pre, v, post, rfl, hv, hpost⟩, hw⟩)
    · exact ⟨past, w, [], rfl, hw, by simp⟩
    · refine ⟨pre, v, post ++ [w], by simp, hv, fun u hu => ?_⟩
      rcases List.mem_append.1 hu with hu | hu
      · exact hpost u hu
      · rwa [List.mem_singleton.1 hu]

/-- The flags say what has happened to the key. -/
structure Holds (s : KeyState) (past : List Wake) : Prop where
  press : s.pressKeyFlag = true ↔ Armed past
  cut : s.cutPicFlag = false

theorem keyRound_other (h : Holds s past) (hw : w.sysrq = none) :
    keyRound versions dirName s w = some (none, s) ∧ Holds s (past ++ [w]) := by
  have harmed : Armed (past ++ [w]) ↔ Armed past := by simp [armed_concat, hw]
  refine ⟨?_, by rw [harmed]; exact h.press, h.cut⟩
  cases w with
  | quiet => rfl
  | nothing => rfl
  | event ev tm =>
    have hkey : ¬ (ev.type = evKey ∧ ev.code = keySysrq) := by
      intro hkey
      rw [Wake.sysrq, if_pos hkey] at hw
      cases hw
    have hjudge : s.judge ev = s := by
      unfold KeyState.judge
      grind
    simp only [keyRound, hjudge, h.cut, Bool.false_eq_true, if_false]

/-- The key is let go after it was pressed, and `c` is the command then. -/
def Shot (versions dirName : Bytes) (past : List Wake) (w : Wake) (c : Bytes) : Prop :=
  w.sysrq = some 0 ∧ Armed past ∧ w.cmd versions dirName = some c

theorem keyRound_key (hv : versions.length < 10) (hd : dirName.length < 30) (h : Holds s past) {ev : InputEvent}
    {tm : Tm} (hev : ev.type = evKey ∧ ev.code = keySysrq) :
    ∃ cmd s', keyRound versions dirName s (.event ev tm) = some (cmd, s') ∧ Holds s' (past ++ [.event ev tm]) ∧
      ∀ c, cmd = some c ↔ Shot versions dirName past (.event ev tm) c := by
  obtain ⟨hpress, hcut⟩ := h
  obtain ⟨press, cut⟩ := s
  simp only at hpress hcut
  subst hcut
  have hw : (Wake.event ev tm).sysrq = some ev.value := if_pos hev
  have harmed : Armed (past ++ [.event ev tm]) ↔ ev.value = 1 ∨ (Armed past ∧ ev.value ≠ 0) := by
    simp [armed_concat, hw]
  have hshot : ∀ c, Shot versions dirName past (.event ev tm) c ↔
      ev.value = 0 ∧ Armed past ∧ cmdText dirName (picText (getTime tm) versions) = c := by
    simp [Shot, hw, Wake.cmd]
  simp only [hshot]
  by_cases h1 : ev.value = 1
  · have hround : keyRound versions dirName ⟨press, false⟩ (.event ev tm) = some (none, ⟨true, false⟩) := by
      simp [keyRound, KeyState.judge, hev, h1]
    exact ⟨none, _, hround, ⟨by simp [harmed, h1], rfl⟩, by simp [h1]⟩
  · by_cases h0 : ev.value = 0
    · by_cases hp : press = true
      · have hpic := length_picText_le (getTime tm) versions
        have hcmd := length_cmdText dirName (picText (getTime tm) versions)
        have hround : keyRound versions dirName ⟨press, false⟩ (.event ev tm) =
            some (some (cmdText dirName (picText (getTime tm) versions)), ⟨false, false⟩) := by
          simp only [keyRound, KeyState.judge, hev, h0, hp, if_true]
          rw [copy_of_lt (by omega)]
          simp only [Option.bind_eq_bind, Option.bind_some]
          rw [copy_of_lt (by omega)]
          rfl
        exact ⟨_, _, hround, ⟨by simp [harmed, h0], rfl⟩, by simp [h0, hpress.1 hp]⟩
      · have hround : keyRound versions dirName ⟨press, false⟩ (.event ev tm) = some (none, ⟨press, false⟩) := by
          simp [keyRound, KeyState.judge, hev, h0, hp]
        exact ⟨none, _, hround, ⟨by simp [harmed, h0, hp], rfl⟩, by simp [← hpress, hp]⟩
    · have hround : keyRound versions dirName ⟨press, false⟩ (.event ev tm) = some (none, ⟨press, false⟩) := by
        simp [keyRound, KeyState.judge, hev, h0, h1]
      exact ⟨none, _, hround, ⟨by simp [harmed, h0, h1, hpress], rfl⟩, by simp [h0]⟩

/-- What one round does, in a state that says what has happened so far. -/
theorem keyRound_spec (hv : versions.length < 10) (hd : dirName.length < 30) (h : Holds s past) (w : Wake) :
    ∃ cmd s', keyRound versions dirName s w = some (cmd, s') ∧ Holds s' (past ++ [w]) ∧
      ∀ c, cmd = some c ↔ Shot versions dirName past w c := by
  cases hw : w.sysrq with
  | none =>
    obtain ⟨hround, hholds⟩ := keyRound_other h hw
    exact ⟨none, s, hround, hholds, by simp [Shot, hw]⟩
  | some value =>
    cases w with
    | quiet => cases hw
    | nothing => cases hw
    | event ev tm =>
      have hev : ev.type = evKey ∧ ev.code = keySysrq := by
        by_contra hev
        rw [Wake.sysrq, if_neg hev] at hw
        cases hw
      exact keyRound_key hv hd h hev

theorem keyLoop_spec (hv : versions.length < 10) (hd : dirName.length < 30) (h : Holds s past) (ws : List Wake) :
    ∃ cmds, keyLoop versions dirName s ws = some cmds ∧ cmds.length = ws.length ∧
      ∀ pre w post c, ws = pre ++ w :: post →
        (cmds[pre.length]? = some (some c) ↔ Shot versions dirName (past ++ pre) w c) := by
  induction ws generalizing s past with
  | nil => exact ⟨[], rfl, rfl, by simp⟩
  | cons w ws ih =>
    obtain ⟨cmd, s', hround, hholds, hshot⟩ := keyRound_spec hv hd h w
    obtain ⟨cmds, hloop, hlen, hrest⟩ := ih hholds
    refine ⟨cmd :: cmds, ?_, by simp [hlen], ?_⟩
    · simp only [keyLoop, hround, hloop, Option.bind_eq_bind, Option.bind_some]
      rfl
    · intro pre v post c hsplit
      cases pre with
      | nil =>
        obtain ⟨rfl, rfl⟩ := List.cons.inj hsplit
        simpa using hshot c
      | cons u pre =>
        obtain ⟨rfl, htail⟩ := List.cons.inj hsplit
        have hpre := hrest pre v post c htail
        simpa using hpre

theorem holds_init : Holds {} [] := ⟨by simp [not_armed_nil], rfl⟩

/-! ### The search -/

/-- The devices looked at: those before the one at which the search ends, and that one. -/
def visited : List InputDev → List InputDev
  | [] => []
  | d :: ds =>
    if d.skipped then visited ds
    else if d.opens ∧ d.usbKeyboard ∧ d.last then [d]
    else d :: visited ds

/-- The device a search over `ds` chooses, if it visits a USB keyboard: the last one. -/
def chosen (name : Bytes) (ds : List InputDev) : Bytes :=
  ((ds.filter fun d => d.opens ∧ d.usbKeyboard).getLast?).elim name InputDev.path

/-- A keyboard after which the search goes on has its descriptor closed twice. -/
def callsOf (d : InputDev) : List DevCall :=
  if d.opens then
    if d.usbKeyboard ∧ !d.last then [.opened d.path, .closed d.path, .closed d.path]
    else [.opened d.path, .closed d.path]
  else []

theorem length_path (d : InputDev) : d.path.length = 11 + d.dName.length := by
  have hdir : (chars "/dev/input").length = 10 ∧ (chars "/").length = 1 := ⟨rfl, rfl⟩
  simp only [InputDev.path, List.length_append, hdir]

theorem chosen_cons (name : Bytes) (d : InputDev) (ds : List InputDev) :
    chosen name (d :: ds) = chosen (if d.opens ∧ d.usbKeyboard then d.path else name) ds := by
  unfold chosen
  by_cases hkey : d.opens = true ∧ d.usbKeyboard = true
  · rw [List.filter_cons_of_pos (by simpa using hkey), List.getLast?_cons, if_pos hkey]
    cases (ds.filter fun d => d.opens ∧ d.usbKeyboard).getLast? <;> rfl
  · rw [List.filter_cons_of_neg (by simpa using hkey), if_neg hkey]

theorem searchDev_eq (name : Bytes) (ds : List InputDev) : searchDev name ds =
    if ∀ d ∈ visited ds, d.dName.length < 19 then some (chosen name (visited ds), (visited ds).flatMap callsOf)
    else none := by
  induction ds generalizing name with
  | nil => rfl
  | cons d ds ih =>
    rw [searchDev, visited]
    by_cases hskip : d.skipped = true
    · rw [if_pos hskip, if_pos hskip, ih]
    · rw [if_neg hskip, if_neg hskip]
      have hpath := length_path d
      by_cases hfits : d.dName.length < 19
      · rw [copy_of_lt (by omega)]
        cases hopen : d.opens with
        | false => simp [ih, chosen_cons, callsOf, hopen, hfits]
        | true =>
          cases hkey : d.usbKeyboard with
          | false =>
            by_cases hrest : ∀ d ∈ visited ds, d.dName.length < 19
            · simp [ih, chosen_cons, callsOf, hopen, hkey, hfits, if_pos hrest]
            · simp [ih, hfits, if_neg hrest]
          | true =>
            cases hlast : d.last with
            | true => simp [chosen, callsOf, hopen, hkey, hlast, hfits]
            | false =>
              by_cases hrest : ∀ d ∈ visited ds, d.dName.length < 19
              · simp [ih, chosen_cons, callsOf, hopen, hkey, hlast, hfits, if_pos hrest]
              · simp [ih, hfits, if_neg hrest]
      · rw [copy_of_le (by omega), if_neg]
        · rfl
        · intro hall
          refine hfits (hall d ?_)
          split <;> simp

def DevCall.isClosed : DevCall → Bool
  | .closed _ => true
  | .opened _ => false

theorem count_calls (d : InputDev) : (callsOf d).countP DevCall.isClosed =
    (callsOf d).countP (!DevCall.isClosed ·) + if d.opens ∧ d.usbKeyboard ∧ !d.last then 1 else 0 := by
  cases hopen : d.opens <;> cases hkey : d.usbKeyboard <;> cases hlast : d.last <;>
    simp only [callsOf, hopen, hkey, hlast] <;> rfl

theorem count_callsOf (ds : List InputDev) : (ds.flatMap callsOf).countP DevCall.isClosed =
    (ds.flatMap callsOf).countP (!DevCall.isClosed ·) + ds.countP fun d => d.opens ∧ d.usbKeyboard ∧ !d.last := by
  induction ds with
  | nil => rfl
  | cons d ds ih =>
    rw [List.flatMap_cons, List.countP_append, List.countP_append, List.countP_cons, ih, count_calls]
    simp only [decide_eq_true_eq]
    omega

/-- A search that overflows no array chooses the last USB keyboard it visits. Each device that opens is opened once, and
closed twice if it is a USB keyboard after which the search goes on, once otherwise; so the search closes as often as it
opens if it visits no such keyboard. -/
theorem search_closes_iff {name dev : Bytes} {ds : List InputDev} {calls : List DevCall}
    (h : searchDev name ds = some (dev, calls)) : dev = chosen name (visited ds) ∧
      calls = (visited ds).flatMap callsOf ∧
      (calls.countP DevCall.isClosed = calls.countP (!DevCall.isClosed ·) ↔
        ∀ d ∈ visited ds, d.opens = true → d.usbKeyboard = true → d.last = true) := by
  rw [searchDev_eq] at h
  split at h
  next hfits =>
    cases h
    refine ⟨rfl, rfl, ?_⟩
    rw [count_callsOf, Nat.add_eq_left, List.countP_eq_zero]
    simp
  next => cases h

/-- A keyboard of two nodes, of which only the second ends the search. -/
def twoNodes : List InputDev :=
  [⟨chars ".", false, none, 0, (0, 0)⟩, ⟨chars "event0", true, some (chars "USB Keyboard"), 0, (250, 33)⟩,
    ⟨chars "event1", true, some (chars "USB Keyboard"), -1, (250, 33)⟩, ⟨chars "event2", true, none, 0, (0, 0)⟩]

theorem first_node_closed_twice : ∃ dev calls, searchDev (chars "nokown") twoNodes = some (dev, calls) ∧
    dev = chars "/dev/input/event1" ∧ calls = [.opened (chars "/dev/input/event0"), .closed (chars "/dev/input/event0"),
      .closed (chars "/dev/input/event0"), .opened (chars "/dev/input/event1"), .closed (chars "/dev/input/event1")] ∧
    calls.countP DevCall.isClosed ≠ calls.countP (!DevCall.isClosed ·) := by
  have hrun : searchDev (chars "nokown") twoNodes =
      some (chars "/dev/input/event1", (visited twoNodes).flatMap callsOf) := rfl
  obtain ⟨hdev, -, hclosed⟩ := search_closes_iff hrun
  refine ⟨_, _, hrun, hdev, rfl, fun h => ?_⟩
  have hlast := hclosed.1 h ⟨chars "event0", true, some (chars "USB Keyboard"), 0, (250, 33)⟩ (by decide) rfl rfl
  exact absurd hlast Bool.false_ne_true

/-! ### `main` -/

theorem keyLoop_isSome (hv : versions.length < 10) (hd : dirName.length < 30) (ws : List Wake) :
    (keyLoop versions dirName {} ws).isSome = true := by
  obtain ⟨cmds, hloop, -⟩ := keyLoop_spec hv hd holds_init ws
  rw [hloop]
  rfl

theorem main_eq (env : Env) (wakes : List Wake) (argv0 argv1 argv2 : Bytes) (rest : List Bytes) :
    main env wakes (argv0 :: argv1 :: argv2 :: rest) =
      if argv1 = chars "--help" then some (.exit 0)
      else if 10 ≤ argv1.length ∨ 100 ≤ argv2.length then none
      else if env.accessible argv2 = false then some (.exit (-1))
      else if 25 ≤ argv2.length then none
      else (getKeyboardDev env.entries (chars "nokown")).bind fun found =>
        if env.getFlag = false ∧ found.1 = chars "nokown" then some (.exit (-1))
        else if env.opens found.1 = false then some (.exit (-1))
        else (keyLoop argv1 (argv2 ++ chars "/" ++ chars "pics") {} wakes).map .loops := by
  have hpics : (argv2 ++ chars "/" ++ chars "pics").length = argv2.length + 5 := by
    simp only [List.length_append]
    rfl
  rw [main]
  split_ifs with hhelp hlong hdisk hdir
  · rfl
  · rcases Nat.lt_or_ge argv1.length 10 with hv | hv
    · rw [copy_of_lt hv, copy_of_le (by omega)]
      rfl
    · rw [copy_of_le hv]
      rfl
  · rw [copy_of_lt (by omega), copy_of_lt (by omega)]
    simp [hdisk]
  · rw [copy_of_lt (by omega), copy_of_lt (by omega)]
    simp only [Option.bind_eq_bind, Option.bind_some, hdisk, Bool.not_eq_true']
    rw [copy_of_le (by omega)]
    rfl
  · rw [copy_of_lt (by omega), copy_of_lt (by omega)]
    simp only [Option.bind_eq_bind, Option.bind_some, hdisk, Bool.not_eq_true']
    rw [copy_of_lt (by omega)]
    have hfolder : createFolder (argv2 ++ chars "/" ++ chars "pics") = some (argv2 ++ chars "/" ++ chars "pics") :=
      copy_of_lt (by omega)
    simp only [Option.bind_some, hfolder, ite_self, Option.map_eq_bind]
    rfl

/-- Only the arguments and the names of the devices can overflow an array: what `main` writes later fits for every time
and every sequence of events. -/
theorem main_fits_iff (env : Env) (wakes : List Wake) (argv0 argv1 argv2 : Bytes) (rest : List Bytes) :
    (main env wakes (argv0 :: argv1 :: argv2 :: rest)).isSome ↔ argv1 = chars "--help" ∨
      (argv1.length < 10 ∧ argv2.length < 100 ∧ (env.accessible argv2 = true → argv2.length < 25 ∧
        ∀ ds, env.entries = some ds → ∀ d ∈ visited ds, d.dName.length < 19)) := by
  have hpics : (argv2 ++ chars "/" ++ chars "pics").length = argv2.length + 5 := by
    simp only [List.length_append]
    rfl
  have hsearch : (getKeyboardDev env.entries (chars "nokown")).isSome = true ↔
      ∀ ds, env.entries = some ds → ∀ d ∈ visited ds, d.dName.length < 19 := by
    cases env.entries with
    | none => simp [getKeyboardDev]
    | some ds =>
      simp only [getKeyboardDev, searchDev_eq, Option.some.injEq, forall_eq']
      split
      next hfits => exact iff_of_true rfl hfits
      next hfits => exact iff_of_false Bool.false_ne_true hfits
  rw [← hsearch, main_eq]
  split_ifs with hhelp hlong hdisk hdir
  · simp [hhelp]
  · simp only [hhelp, false_or]
    exact iff_of_false Bool.false_ne_true (by omega)
  · simp only [hhelp, hdisk, Bool.false_eq_true, false_imp_iff, and_true, false_or]
    exact iff_of_true rfl (by omega)
  · simp only [hhelp, hdisk, false_or]
    exact iff_of_false Bool.false_ne_true fun h => by
      have hshort := (h.2.2 (by simp)).1
      omega
  · have hloop : (keyLoop argv1 (argv2 ++ chars "/" ++ chars "pics") {} wakes).isSome = true :=
      keyLoop_isSome (by omega) (by omega) wakes
    obtain ⟨cmds, hcmds⟩ := Option.isSome_iff_exists.1 hloop
    have hlengths : argv1.length < 10 ∧ argv2.length < 100 ∧ argv2.length < 25 := by omega
    rw [Bool.not_eq_false] at hdisk
    simp only [hhelp, hlengths, hdisk, hcmds, false_or, true_and, true_imp_iff]
    cases getKeyboardDev env.entries (chars "nokown") with
    | none => rfl
    | some found =>
      simp only [Option.bind_some, Option.map_some, Option.isSome_some, iff_true]
      split_ifs <;> rfl

end Keyboard

end LearnCpp
