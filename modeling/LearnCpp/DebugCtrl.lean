import LearnCpp.Lib.Rolling
import LearnCpp.Text

/-!
# The log files (`Utility/DebugCtrl.cpp`)

`log_dbg_info` writes a text into one file, `stack_trace` the time, the functions on the stack and a text into another.
A file is appended to below 500 KB and started anew otherwise; its size passes through the `int` of `file_size`
(`Utility/Misc.cpp`). Each file is a log of `Rolling` (`file_of_run`). When a file cannot be opened, the null pointer
is spared by `log_err_to_file` and then given to `fclose`, which is undefined.
-/

namespace LearnCpp

namespace DebugCtrl

/-- `-1` if there is no file; `st_size` is cut to an `int`. -/
def fileSize : Option Bytes → Int32
  | none => -1
  | some content => Int32.ofNat content.length

/-- `LOG_FILE_MAX_SIZE`, in KB. -/
def logFileMaxSize : Int32 := 500

/-- What the file holds after `fopen` with `"a+"`, or else `"w+"`. -/
def openLog (file : Option Bytes) : Bytes := if fileSize file / 1024 < logFileMaxSize then file.getD [] else []

/-- What was printed and, unless `log_file` is null, what it holds. -/
def logErrToFile (out : Bytes × Option Bytes) : Option Bytes → Bytes × Option Bytes
  | none => out
  | some log => (out.1 ++ log, out.2.map (· ++ log))

/-- `dbg_file` and `err_file`. -/
inductive LogName
  | dbg
  | err
deriving DecidableEq, Repr

structure State where
  file : LogName → Option Bytes
  console : Bytes

/-- The file is opened, if it can be, written and closed; `none` if a null pointer is closed. -/
def writeLog (s : State) (name : LogName) (opens : Bool) (logs : List (Option Bytes)) : Option State := do
  let logFile := if opens then some (openLog (s.file name)) else none
  let out := logs.foldl logErrToFile (s.console, logFile)
  let content ← out.2
  some ⟨Function.update s.file name (some content), out.1⟩

def logDbgInfo (s : State) (opens : Bool) (log : Option CString) : Option State :=
  match log with
  | none => some s
  | some log => writeLog s .dbg opens [some log.1]

/-- What `dladdr` and `__cxa_demangle` give for an address on the stack, and `%p` of it. -/
structure Frame where
  found : Bool
  sname : Option CString
  demangled : Option CString
  address : CString

/-- `log_str` holds 99 characters. -/
def Frame.line (f : Frame) : Bytes :=
  let symname := if f.found then f.demangled <|> f.sname else none
  (chars "@ " ++ (symname.getD f.address).1 ++ chars "\n").take 99

/-- `strftime` with `"\n\n%Y-%m-%d %H:%M:%S\n"`. -/
def timeLine (tm : Tm) : Bytes :=
  chars "\n\n" ++ intText 0 (tm.year.toInt + 1900) ++ chars "-" ++ intText 2 (tm.mon.toInt + 1) ++ chars "-" ++
    intText 2 tm.mday.toInt ++ chars " " ++ intText 2 tm.hour.toInt ++ chars ":" ++ intText 2 tm.min.toInt ++
    chars ":" ++ intText 2 tm.sec.toInt ++ chars "\n"

/-- `backtrace` gives at most `max_depth` addresses. -/
def stackTrace (s : State) (opens : Bool) (tm : Tm) (frames : List Frame) (ptr : Option CString) : Option State :=
  writeLog s .err opens
    (some (timeLine tm) :: (frames.take 32).map (fun f => some f.line) ++ [ptr.map Subtype.val])

/-- A call, with what it finds. -/
inductive Call
  | dbgInfo (log : Option CString)
  | trace (tm : Tm) (frames : List Frame) (ptr : Option CString)

def Call.step (s : State) (opens : Bool) : Call → Option State
  | .dbgInfo log => logDbgInfo s opens log
  | .trace tm frames ptr => stackTrace s opens tm frames ptr

/-- Each call with whether the file can be opened. -/
def run (s : State) (calls : List (Call × Bool)) : Option State :=
  calls.foldlM (fun s c => c.1.step s c.2) s

/-! ### One call -/

variable {s s' : State} {calls : List (Call × Bool)} {file : Option Bytes} {m : ℕ} {n : LogName}

/-- The limit in bytes. -/
def limit : ℕ := 512000

def Call.name : Call → LogName
  | .dbgInfo _ => .dbg
  | .trace .. => .err

/-- What a call writes; nothing for a null pointer. -/
def Call.text : Call → Option Bytes
  | .dbgInfo log => log.map Subtype.val
  | .trace tm frames ptr =>
    some (timeLine tm ++ (frames.take 32).flatMap Frame.line ++ (ptr.map Subtype.val).getD [])

theorem openLog_eq (h : (file.getD []).length < 2 ^ 31) :
    openLog file = if (file.getD []).length < limit then file.getD [] else [] := by
  cases file with
  | none => rfl
  | some content =>
    rw [Option.getD_some] at h ⊢
    have hsize : (Int32.ofNat content.length).toInt = content.length := Int32.toInt_ofNat_of_lt h
    have hlt : fileSize (some content) / 1024 < logFileMaxSize ↔ content.length < limit := by
      rw [Int32.lt_iff_toInt_lt, fileSize, Int32.toInt_div_of_ne_right _ _ (by decide), hsize]
      show (content.length : Int).tdiv 1024 < 500 ↔ content.length < 512000
      rw [Int.tdiv_eq_ediv_of_nonneg (by omega)]
      omega
    simp only [openLog, hlt, Option.getD_some]

theorem foldl_logErrToFile (logs : List (Option Bytes)) (out : Bytes × Option Bytes) :
    logs.foldl logErrToFile out =
      (out.1 ++ logs.flatMap (·.getD []), out.2.map (· ++ logs.flatMap (·.getD []))) := by
  induction logs generalizing out with
  | nil => simp
  | cons log logs ih =>
    rw [List.foldl_cons, ih]
    cases log <;> simp [logErrToFile, Function.comp_def]

theorem writeLog_eq (s : State) (name : LogName) (opens : Bool) (logs : List (Option Bytes)) :
    writeLog s name opens logs = if opens then some ⟨Function.update s.file name
      (some (openLog (s.file name) ++ logs.flatMap (·.getD []))), s.console ++ logs.flatMap (·.getD [])⟩ else none := by
  rw [writeLog, foldl_logErrToFile]
  cases opens <;> rfl

theorem step_eq (s : State) (opens : Bool) (c : Call) : c.step s opens = match c.text with
    | none => some s
    | some text => if opens then some ⟨Function.update s.file c.name (some (openLog (s.file c.name) ++ text)),
      s.console ++ text⟩ else none := by
  cases c with
  | dbgInfo log =>
    cases log with
    | none => rfl
    | some log =>
      have htext : [some log.1].flatMap (fun x : Option Bytes => x.getD []) = log.1 := by simp
      simp only [Call.step, logDbgInfo, writeLog_eq, htext]
      rfl
  | trace tm frames ptr =>
    have htext : (some (timeLine tm) :: (frames.take 32).map (fun f => some f.line) ++ [ptr.map Subtype.val]).flatMap
        (fun x : Option Bytes => x.getD []) =
          timeLine tm ++ (frames.take 32).flatMap Frame.line ++ (ptr.map Subtype.val).getD [] := by
      rw [List.flatMap_append, List.flatMap_cons, List.flatMap_map]
      simp
    simp only [Call.step, stackTrace, writeLog_eq, htext]
    rfl

/-! ### Runs -/

/-- The texts the calls write into the file `n`. -/
def textsOf (n : LogName) (calls : List (Call × Bool)) : List Bytes :=
  calls.filterMap fun c => if c.1.name = n then c.1.text else none

/-- A null pointer is closed exactly when a file to write to cannot be opened. -/
theorem run_eq_none_iff (s : State) (calls : List (Call × Bool)) :
    run s calls = none ↔ ∃ c ∈ calls, c.2 = false ∧ c.1.text.isSome := by
  induction calls generalizing s with
  | nil => simp [run]
  | cons c calls ih =>
    rcases c with ⟨c, opens⟩
    have hrun : run s ((c, opens) :: calls) = (c.step s opens).bind fun s => run s calls := by
      rw [run, List.foldlM_cons]
      rfl
    rw [hrun, step_eq]
    cases htext : c.text with
    | none => simp [ih, htext]
    | some text =>
      cases opens with
      | false => simp [htext]
      | true => simp [ih]

theorem textsOf_cons (n : LogName) (c : Call × Bool) (calls : List (Call × Bool)) :
    textsOf n (c :: calls) = textsOf n [c] ++ textsOf n calls := by
  rw [textsOf, ← List.singleton_append, List.filterMap_append]
  rfl

theorem file_of_step {opens : Bool} {c : Call} (hsize : ((s.file n).getD []).length < 2 ^ 31)
    (hstep : c.step s opens = some s') : (s'.file n).getD [] =
      Rolling.content limit ((s.file n).getD []) (textsOf n [(c, opens)]) := by
  rw [step_eq] at hstep
  cases htext : c.text with
  | none =>
    rw [htext] at hstep
    cases hstep
    simp [textsOf, htext]
  | some text =>
    rw [htext] at hstep
    cases opens with
    | false => cases hstep
    | true =>
      cases hstep
      rcases eq_or_ne c.name n with rfl | hne
      · simp only [Function.update_self, Option.getD_some, openLog_eq hsize, textsOf, List.filterMap_cons, htext,
          List.filterMap_nil, if_true, Rolling.content_cons, Rolling.content_nil, Rolling.append]
        split_ifs <;> rfl
      · simp [Function.update_of_ne hne.symm, textsOf, hne]

theorem length_of_step {opens : Bool} {c : Call} (hm : limit + m ≤ 2 ^ 31) (htext : ∀ text ∈ c.text, text.length ≤ m)
    (hsize : ((s.file n).getD []).length < 2 ^ 31) (hstep : c.step s opens = some s') :
    ((s'.file n).getD []).length < 2 ^ 31 := by
  rw [file_of_step hsize hstep]
  rcases eq_or_ne (textsOf n [(c, opens)]) [] with hnil | hne
  · rw [hnil]
    exact hsize
  · refine Nat.lt_of_lt_of_le (Rolling.length_content_lt (by decide) (fun t ht => ?_) hne) hm
    simp only [textsOf, List.mem_filterMap, List.mem_singleton, exists_eq_left] at ht
    split_ifs at ht
    exact htext t ht

/-- Each file is a rolling log of the texts of its calls. -/
theorem file_of_run (hm : limit + m ≤ 2 ^ 31) (htexts : ∀ c ∈ calls, ∀ text ∈ c.1.text, text.length ≤ m)
    (hsize : ∀ n, ((s.file n).getD []).length < 2 ^ 31) (hrun : run s calls = some s') (n : LogName) :
    (s'.file n).getD [] = Rolling.content limit ((s.file n).getD []) (textsOf n calls) := by
  induction calls generalizing s with
  | nil =>
    cases hrun
    rfl
  | cons c calls ih =>
    rw [run, List.foldlM_cons] at hrun
    obtain ⟨s₁, hstep, hrest⟩ := Option.bind_eq_some_iff.1 hrun
    have hsize₁ : ∀ n, ((s₁.file n).getD []).length < 2 ^ 31 := fun n =>
      length_of_step hm (htexts c (by simp)) (hsize n) hstep
    rw [ih (fun c' hc' => htexts c' (by simp [hc'])) hsize₁ hrest, file_of_step (hsize n) hstep, textsOf_cons n c calls]
    simp only [Rolling.content, List.foldl_append]

/-- Calls whose texts are no longer than `m` go wrong exactly when a file to write to cannot be opened. Otherwise each
file holds the newest of its texts, the last one whole; it is shorter than 512000 and `m` together, and holds all that
was ever written exactly when it was shorter than 512000 before the last text. -/
theorem log_of_run (hm : 512000 + m ≤ 2 ^ 31) (htexts : ∀ c ∈ calls, ∀ text ∈ c.1.text, text.length ≤ m)
    (hsize : ∀ n, ((s.file n).getD []).length < 2 ^ 31) :
    (run s calls = none ↔ ∃ c ∈ calls, c.2 = false ∧ c.1.text.isSome) ∧ ∀ s', run s calls = some s' → ∀ n,
      (∃ kept, kept <:+ (s.file n).getD [] :: textsOf n calls ∧ (s'.file n).getD [] = kept.flatten ∧
          ∀ text ∈ (textsOf n calls).getLast?, text ∈ kept.getLast?) ∧
        (textsOf n calls ≠ [] → ((s'.file n).getD []).length < 512000 + m) ∧
        ((s'.file n).getD [] = (s.file n).getD [] ++ (textsOf n calls).flatten ↔
          textsOf n calls = [] ∨ ((s.file n).getD [] ++ (textsOf n calls).dropLast.flatten).length < 512000) := by
  refine ⟨run_eq_none_iff s calls, fun s' hrun n => ?_⟩
  rw [file_of_run hm htexts hsize hrun n]
  refine ⟨Rolling.exists_kept .., fun hne => ?_, Rolling.content_eq_iff (by decide)⟩
  refine Rolling.length_content_lt (by decide) (fun t ht => ?_) hne
  simp only [textsOf, List.mem_filterMap] at ht
  obtain ⟨c, hc, ht⟩ := ht
  split_ifs at ht
  exact htexts c hc t ht

/-- A debug log of exactly 500 KB. -/
def fullLog : State := ⟨fun n => if n = .dbg then some (List.replicate 512000 120) else none, []⟩

theorem full_log_lost : ∃ s', run fullLog [(.dbgInfo (some ⟨chars "hi", by decide⟩), true)] = some s' ∧
    (s'.file .dbg).getD [] ≠ (fullLog.file .dbg).getD [] ++ chars "hi" := by
  obtain ⟨s', hrun⟩ : ∃ s', run fullLog [(.dbgInfo (some ⟨chars "hi", by decide⟩), true)] = some s' := ⟨_, rfl⟩
  have hdbg : (fullLog.file .dbg).getD [] = List.replicate 512000 120 := rfl
  have hsize : ∀ n, ((fullLog.file n).getD []).length < 2 ^ 31 := by
    intro n
    cases n with
    | dbg =>
      rw [hdbg, List.length_replicate]
      decide
    | err => decide
  have htexts : textsOf .dbg [(.dbgInfo (some ⟨chars "hi", by decide⟩), true)] = [chars "hi"] := rfl
  have hshort : ∀ c ∈ [(Call.dbgInfo (some ⟨chars "hi", by decide⟩), true)], ∀ text ∈ c.1.text, text.length ≤ 2 := by
    simp only [List.mem_singleton, forall_eq, Call.text, Option.map_some, Option.mem_some_iff, forall_eq']
    decide
  obtain ⟨-, -, hkept⟩ := (log_of_run (m := 2) (by decide) hshort hsize).2 s' hrun .dbg
  rw [htexts, List.flatten_singleton] at hkept
  refine ⟨s', hrun, fun h => ?_⟩
  rcases hkept.1 h with hnil | hlt
  · cases hnil
  · simp only [hdbg, List.length_append, List.length_replicate] at hlt
    omega

end DebugCtrl

end LearnCpp
