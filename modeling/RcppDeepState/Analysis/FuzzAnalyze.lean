import RcppDeepState.Analysis.Analyze

/-!
# Fuzzing under valgrind

`deepstate_fuzz_fun_analyze` runs the fuzzer on the runner test under valgrind and reads the arguments that
were in the inputs directory before the run.
-/

namespace RcppDeepState

structure FuzzAnalyzeOutcome where
  build : BuildOutcome
  run : ReplayOutcome

/-! ## The name of the runner test -/

/-- The separators of `strsplit(runner_line, "[(|)| +|,]")`. -/
def isSeparator (c : Char) : Bool := c = '(' || c = '|' || c = ')' || c = ' ' || c = '+' || c = ','

def splitFrom (p : Char → Bool) : Text → Text → List Text
  | piece, [] => if piece = [] then [] else [piece]
  | piece, c :: t => if p c then piece :: splitFrom p [] t else splitFrom p (piece ++ [c]) t

/-- `strsplit` on single characters: there is no piece behind a separator at the end. -/
def splitOn (p : Char → Bool) (t : Text) : List Text := splitFrom p [] t

/-- The line `^TEST.*runner` finds. -/
def isRunnerLine (l : Text) : Bool :=
  decide (("TEST" : Text) <+: l) && decide (("runner" : Text) <:+: l.drop 4)

def runnerName (harness : Text) : Option Text :=
  (harness.lines.find? isRunnerLine).map fun l =>
    let parts := splitOn isSeparator l
    pasted parts[1]? ++ "_" ++ pasted parts[3]?

/-! ## deepstate_fuzz_fun_analyze -/

def fuzzFolder (fn : Text) (seed timeLimit : Int) : Pathname :=
  funPath fn ++ [pastedInt timeLimit ++ "_" ++ pastedInt seed]

def fuzzAnalyzeLine (h : Host) (fn runner : Text) (seed timeLimit : Int) : Text :=
  "cd " ++ h.file (funPath fn) ++ " && valgrind --xml=yes --xml-file=" ++
    h.file (fuzzFolder fn seed timeLimit ++ [pastedInt seed ++ "_log"]) ++
    " --tool=memcheck --leak-check=full --track-origins=yes ./" ++ fn ++ "_DeepState_TestHarness " ++
    (if seed ≠ -1 then "--seed=" ++ pastedInt seed else []) ++ " " ++
    (if timeLimit ≠ -1 then "--timeout=" ++ pastedInt timeLimit else []) ++
    " --fuzz --input_which_test " ++ runner ++ " > " ++
    h.file (fuzzFolder fn seed timeLimit ++ [("valgrind_log_text" : Text)]) ++ " 2>&1"

def fuzzAnalyzeEffects (o : ReplayOutcome) (fn : Text) (seed timeLimit : Int)
    (fs : FileSystem Content) : FileSystem Content :=
  writeInto (inputsPath fn) o.dumped
    (writeInto (fuzzFolder fn seed timeLimit)
      [(pastedInt seed ++ "_log", .text o.xml), ("valgrind_log_text", .text o.printed)] fs)

/-- The run has failed before the fuzzer started. -/
def ReplayOutcome.fuzzingStops (o : ReplayOutcome) : Prop :=
  o.exitCode ≠ 0 ∧ ∀ l ∈ o.printed.lines, ¬ ("Starting fuzzing" : Text) <:+: l

instance (o : ReplayOutcome) : Decidable o.fuzzingStops := inferInstanceAs (Decidable (_ ∧ _))

def fuzzAnalysisError (h : Host) (fn : Text) (log : Pathname) : Text :=
  "The function " ++ fn ++ " has not been analyzed due to some errors while running the test harness. You can find more details inside " ++
    h.file log

/-- The run, and what is read after it. -/
def runFuzzAnalysis (xml2 : Xml2) (h : Host) (o : ReplayOutcome) (fn runner : Text)
    (seed timeLimit : Int) (names : List Text) :
    Program (List (Text × InputValue) × Option (List LogRow)) := do
  if h.verbose then message (.running (fuzzAnalyzeLine h fn runner seed timeLimit))
  record (.system (fuzzAnalyzeLine h fn runner seed timeLimit))
  record (.run (executableSource (← files) fn .infun))
  onFiles (fuzzAnalyzeEffects o fn seed timeLimit)
  if o.fuzzingStops then
    stop (fuzzAnalysisError h fn (fuzzFolder fn seed timeLimit ++ [("valgrind_log_text" : Text)]))
  else
    let inputs ← collectInputs h (inputsPath fn) (fuzzFolder fn seed timeLimit) names
    let logtable ← liftExcept (deepstateReadValgrindXml xml2 o.xml)
    return (inputs, logtable)

/-- The inputs and the log table. The names of the argument files are taken before the run. -/
def deepstateFuzzFunAnalyze (xml2 : Xml2) (h : Host) (o : FuzzAnalyzeOutcome) (fn : Text)
    (seed timeLimit : Int) : Program (List (Text × InputValue) × Option (List LogRow)) := do
  if (← files).fileExists (funPath fn) then
    onFiles (·.mkdir (fuzzFolder fn seed timeLimit))
    let names := sysGlob h (← files) (inputsPath fn)
    ensureCompiled h o.build fn .infun
    if timeLimit ≤ 0 then
      stop "time_limit should always be greater than zero"
    else
      match (readText (← files) (harnessPath fn .infun)).bind runnerName with
      | none => stop "subscript out of bounds"
      | some runner => runFuzzAnalysis xml2 h o.run fn runner seed timeLimit names
  else
    stop "No such file or directory"

end RcppDeepState
