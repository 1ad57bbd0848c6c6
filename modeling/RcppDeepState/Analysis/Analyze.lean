import RcppDeepState.Package.Build
import RcppDeepState.Valgrind.Reader

/-!
# Analysing saved test files

`deepstate_analyze_file` replays one saved file under valgrind and reads the log and the arguments the
harness dumped; `deepstate_analyze_fun` does so for the first files of an output directory.
-/

namespace RcppDeepState

/-- What a replay does: the arguments it dumps, its exit code, what it prints, and the log of valgrind. -/
structure ReplayOutcome where
  dumped : List (Text × Content)
  exitCode : Int
  printed : Text
  xml : Text

/-- The value of an argument file: read by `qread`, or by `scan`. -/
inductive InputValue
  | qread (value : Text)
  | scan (values : Text)
  deriving DecidableEq

/-- One row of the analysis. -/
structure AnalysisRow where
  binaryfile : Pathname
  inputs : List (Text × InputValue)
  logtable : Option (List LogRow)
  deriving DecidableEq

/-! ## deepstate_analyze_file -/

/-- `sub('\\..*', '', x)` -/
def stem (name : Text) : Text := name.takeWhile (· ≠ '.')

def fileName (file : Pathname) : Text := file.getLastD []

/-- The directory of the logs of a saved file, next to the file. -/
def logFolder (file : Pathname) : Pathname := file.dropLast ++ ["log_" ++ stem (fileName file)]

/-- The executable of a saved file, from the name of the directory it lies in. -/
def analyzedExecutable (file : Pathname) : Pathname :=
  file.dropLast.dropLast ++ [Text.gsub "_output" "_DeepState_TestHarness" (fileName file.dropLast)]

def analyzedInputs (file : Pathname) : Pathname := file.dropLast.dropLast ++ [("inputs" : Text)]

/-- The test a replay is told to run. -/
def runnerTest (packageName : Option Text) : Text := pasted packageName ++ "_runner"

def analyzeLine (h : Host) (packageName : Option Text) (file : Pathname) : Text :=
  "cd " ++ h.file file.dropLast.dropLast ++ " ; valgrind --xml=yes --xml-file=" ++
    h.file (logFolder file ++ [("valgrind_log" : Text)]) ++ " --tool=memcheck --leak-check=yes ./" ++
    fileName (analyzedExecutable file) ++ " --input_test_file " ++ h.file file ++
    " --input_which_test " ++ runnerTest packageName ++ " > " ++
    h.file (logFolder file ++ [("valgrind_log_text" : Text)]) ++ " 2>&1"

/-- The files a replay leaves behind. -/
def replayEffects (o : ReplayOutcome) (file : Pathname) (fs : FileSystem Content) : FileSystem Content :=
  writeInto (analyzedInputs file) o.dumped
    (writeInto (logFolder file) [("valgrind_log", .text o.xml), ("valgrind_log_text", .text o.printed)] fs)

/-- The run has failed and never came as far as the input buffer. -/
def ReplayOutcome.stops (o : ReplayOutcome) : Prop :=
  o.exitCode ≠ 0 ∧ ∀ l ∈ o.printed.lines, ¬ ("Initialized test input buffer" : Text) <:+: l

instance (o : ReplayOutcome) : Decidable o.stops := inferInstanceAs (Decidable (_ ∧ _))

/-- `gsub(".qs", "", x)`, where the dot stands for any character. -/
def stripQs : Text → Text
  | _ :: 'q' :: 's' :: t => stripQs t
  | c :: t => c :: stripQs t
  | [] => []

/-- The value of an argument file. The reader is chosen by the whole path, the name by the name of the file. -/
def readInput (h : Host) (file : Pathname) (content : Option Content) : Except Text (Text × InputValue) :=
  if (".qs" : Text) <:+: h.file file then
    match content with
    | some (.qs v) => .ok (stripQs (fileName file), .qread v)
    | _ => .error "QS format not detected"
  else
    match content with
    | some (.text v) => .ok (fileName file, .scan v)
    | _ => .error "scan() expected 'a real'"

/-- `inputs_list[[name]] <- value`, where the empty name matches no other. -/
def assignInput (inputs : List (Text × InputValue)) (e : Text × InputValue) :
    List (Text × InputValue) :=
  if e.1 ≠ [] ∧ e.1 ∈ inputs.map (·.1) then inputs.map fun x => if x.1 = e.1 then e else x
  else inputs ++ [e]

def liftExcept {α : Type} : Except Text α → Program α
  | .ok a => pure a
  | .error e => stop e

/-- One turn of the loop over the argument files: the file is copied into the log folder and read. -/
def collectInput (h : Host) (dir folder : Pathname) (inputs : List (Text × InputValue)) (name : Text) :
    Program (List (Text × InputValue)) := do
  onFiles (copyFile · (dir ++ [name]) (folder ++ [name]))
  let value ← liftExcept (readInput h (dir ++ [name]) ((← files).read (dir ++ [name])))
  return assignInput inputs value

def collectInputs (h : Host) (dir folder : Pathname) (names : List Text) :
    Program (List (Text × InputValue)) :=
  names.foldlM (collectInput h dir folder) []

def analysisError (h : Host) (file : Pathname) : Text :=
  "The file " ++ h.file file ++ " has not been analyzed due to some errors while running the test harness. You can find more details inside " ++
    h.file (logFolder file ++ [("valgrind_log_text" : Text)])

/-- What is read after a replay. -/
def readReplay (xml2 : Xml2) (h : Host) (o : ReplayOutcome) (file : Pathname) :
    Program (Option AnalysisRow) := do
  let names := sysGlob h (← files) (analyzedInputs file)
  let logtable ← liftExcept (deepstateReadValgrindXml xml2 o.xml)
  let inputs ← collectInputs h (analyzedInputs file) (logFolder file) names
  return some ⟨file, inputs, logtable⟩

/-- The replay of a saved file and what is read after it. -/
def runReplay (xml2 : Xml2) (h : Host) (o : ReplayOutcome) (packageName : Option Text)
    (file : Pathname) : Program (Option AnalysisRow) := do
  record (.system (analyzeLine h packageName file))
  record (.replay file (executableAt (← files) (analyzedExecutable file)))
  onFiles (replayEffects o file)
  if o.stops then stop (analysisError h file) else readReplay xml2 h o file

/-- The row of a saved file; `none` when the file is missing. The shell runs nothing when it cannot open the
log, and then there is no log to read. -/
def deepstateAnalyzeFile (xml2 : Xml2) (h : Host) (o : ReplayOutcome)
    (packageName : Option Text) (file : Pathname) : Program (Option AnalysisRow) := do
  if (← files).fileExists file then
    onFiles (·.mkdir (logFolder file))
    if (← files).dirExists (logFolder file) then
      runReplay xml2 h o packageName file
    else
      stop "cannot open the connection"
  else
    message (.noBinaryFile (h.file file))
    return none

/-! ## deepstate_analyze_fun -/

/-- `max_inputs`: "all" or a number. -/
inductive MaxInputs
  | all
  | count (k : Int)
  deriving DecidableEq

def subscriptError : Text := "can't mix positive and negative subscripts"

/-- The files that are replayed, from the names in the output directory. A number cuts the list off when
there are as many files, where `1:0` selects the first; everything else means the first three. -/
def selectFiles (maxInputs : MaxInputs) (names : List Text) : Except Text (List Text) :=
  match maxInputs with
  | .count k =>
      if k < 0 then .error subscriptError
      else if k ≤ names.length then .ok (names.take (max k.toNat 1))
      else .ok (names.take 3)
  | .all => .ok (names.take 3)

def analyzeFiles (xml2 : Xml2) (h : Host) (replay : Text → ReplayOutcome)
    (packageName : Option Text) (dir : Pathname) (names : List Text) : Program (List AnalysisRow) := do
  let rows ← names.mapM fun n => deepstateAnalyzeFile xml2 h (replay n) packageName (dir ++ [n])
  return rows.filterMap id

/-- The rows of the table; `none` is NULL. `replay` tells what the replay of a saved file does. -/
def deepstateAnalyzeFun (xml2 : Xml2) (h : Host) (replay : Text → ReplayOutcome)
    (fn : Text) (maxInputs : MaxInputs) (sep : Sep) : Program (Option (List AnalysisRow)) := do
  if (← files).fileExists (funPath fn) then
    let packageName ← getPackageName h
    let names := sysGlob h (← files) (outputDir fn sep)
    if names = [] then
      message (.noBinFiles fn)
      return none
    else
      let selected ← liftExcept (selectFiles maxInputs names)
      let rows ← analyzeFiles xml2 h replay packageName (outputDir fn sep) selected
      return some rows
  else
    stop "No such file or directory"

/-! ## deepstate_harness_analyze_pkg -/

/-- `test.files[1:testfiles]`, where a subscript past the end gives NA. -/
def selectFunctions (testfiles : MaxInputs) (names : List Text) : Except Text (List Text) :=
  match testfiles with
  | .all => .ok names
  | .count k =>
      if k < 0 then .error subscriptError
      else .ok ((List.range (max k.toNat 1)).map fun i => pasted names[i]?)

/-- The rows for all the functions; `none` when there are no test files. -/
def deepstateHarnessAnalyzePkg (xml2 : Xml2) (h : Host)
    (replay : Text → Text → ReplayOutcome) (testfiles maxInputs : MaxInputs) :
    Program (Option (List AnalysisRow)) := do
  onFiles (·.mkdir ["inst"])
  if (← files).fileExists testPath then
    let _ ← getPackageName h
    let functions ← liftExcept (selectFunctions testfiles (sysGlob h (← files) testPath))
    let tables ← functions.mapM fun fn =>
      deepstateAnalyzeFun xml2 h (replay fn) fn maxInputs .infun
    return some (tables.filterMap id).flatten
  else
    message .noTestfiles
    message (.noHarness h.packagePath)
    return none

end RcppDeepState
