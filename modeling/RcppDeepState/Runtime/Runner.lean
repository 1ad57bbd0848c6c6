import RcppDeepState.Library.Command
import RcppDeepState.Library.Glob
import RcppDeepState.Library.Text

/-!
# The runner of the tests

The half of DeepState that every harness compiles into itself: it chooses tests, replays saved inputs in a
child process or in its own, and counts failures. The other half is linked in as a library.
-/

namespace RcppDeepState

/-! ## Results -/

/-- `enum DeepState_TestRunResult`, together with the exit codes that are cast to it. -/
inductive TestRunResult
  | pass
  | fail
  | crash
  | abandon
  | other (status : UInt8)
  deriving DecidableEq

def TestRunResult.ofStatus (status : UInt8) : TestRunResult :=
  if status = 0 then .pass
  else if status = 1 then .fail
  else if status = 2 then .crash
  else if status = 3 then .abandon
  else .other status

def TestRunResult.status : TestRunResult → UInt8
  | .pass => 0
  | .fail => 1
  | .crash => 2
  | .abandon => 3
  | .other status => status

/-! ## State -/

/-- `sizeof(DeepState_Input)` -/
def inputSize : Nat := 8192

/-- The input buffer. -/
structure Buffer where
  bytes : List UInt8
  size : bytes.length = inputSize

/-- The buffer once the first `n` bytes of a file have been read into it. -/
def Buffer.load (b : Buffer) (content : List UInt8) (n : Nat) : Buffer where
  bytes := (content.take n).take inputSize ++ b.bytes.drop ((content.take n).take inputSize).length
  size := by
    have hsize := b.size
    simp
    omega

/-- `struct DeepState_TestRunInfo` -/
structure TestRunInfo where
  test : Text
  result : TestRunResult
  reason : Option Text

/-- The memory of a process. `rest` is all that tests keep between calls. -/
structure Memory (σ : Type) where
  input : Buffer
  inputIndex : Nat
  swarmConfigsIndex : Nat
  currentTestRun : Option TestRunInfo
  rest : σ

inductive LogLevel
  | debug
  | trace
  | info
  | warning
  | error
  | external
  | fatal
  deriving DecidableEq

/-- What code can leave behind outside the memory of its process. -/
inductive Output
  | log (level : LogLevel) (line : Text)
  | savePassing
  | saveFailing
  | saveCrashing
  | write (line : Text)
  deriving DecidableEq

/-- The calls of tests and what is left behind, in order. -/
inductive Trace
  | run (test : Text)
  | left (output : Output)
  deriving DecidableEq

structure Machine (σ : Type) where
  memory : Memory σ
  trace : List Trace

/-- How a process ends before its runner returns. -/
inductive Death
  | exited (status : UInt8)
  | killed
  deriving DecidableEq

abbrev Runner (σ : Type) := EStateM Death (Machine σ)

/-- A function that works on the memory and may leave something behind. -/
abbrev Action (σ : Type) := Memory σ → Memory σ × List Output

/-- How a call of a test function ends; `jumps` is a `longjmp` to the runner. -/
inductive TestEnd
  | returns
  | throws
  | jumps
  | exits (status : UInt8)
  | killed
  deriving DecidableEq

/-- `struct DeepState_TestInfo` -/
structure TestInfo (σ : Type) where
  testFunc : Memory σ → TestEnd × Memory σ × List Output
  testName : Text
  fileName : Text
  lineNumber : Nat

/-- What the runner calls of the linked library. -/
structure Library (σ : Type) where
  memScrub : Buffer → Buffer
  begin : TestInfo σ → Action σ
  fail : Action σ
  abandon : Text → Action σ
  crash : Action σ
  cleanUp : Action σ
  teardown : Action σ
  catchFail : Memory σ → Bool
  catchAbandoned : Memory σ → Bool
  fuzz : Runner σ Int

/-- The options. A boolean option that is not given keeps its default. -/
structure Flags where
  inputTestDir : Option Text
  inputTestFile : Option Text
  inputTestFilesDir : Option Text
  inputWhichTest : Option Text
  outputTestDir : Option Text
  testFilter : Option Text
  abortOnFail : Option Bool
  exitOnFail : Option Bool
  fuzz : Option Bool
  fuzzSavePassing : Option Bool
  fork : Option Bool
  listTests : Option Bool
  boringOnly : Option Bool
  runDisabled : Option Bool
  minLogLevel : Option Nat

/-- The defaults the library gives to the boolean options. -/
structure Defaults where
  abortOnFail : Bool
  exitOnFail : Bool
  fuzz : Bool
  fuzzSavePassing : Bool
  fork : Bool

/-- What opening and reading a path comes to. -/
inductive Opened
  | missing
  | noDescriptor
  | noStat
  | opened (size : Nat) (content : List UInt8)

/-- The files the runner reads: what opening a path gives, the names in a directory, and whether `stat` finds a
regular file. `unset` is what `S_ISREG` makes of a structure that no `stat` has filled yet. -/
structure Disk where
  fopen : Text → Opened
  readdir : Text → Option (List Text)
  stat : Text → Option Bool
  unset : Bool

/-! ## Steps of a process -/

section Steps

variable {σ α : Type}

def trace (t : Trace) : Runner σ Unit := modify fun s => { s with trace := s.trace ++ [t] }

def readMemory : Runner σ (Memory σ) := do return (← get).memory

/-- A command that only runs under a condition. -/
def when (c : Prop) [Decidable c] (m : Runner σ Unit) : Runner σ Unit := if c then m else pure ()

def leave (output : Output) : Runner σ Unit := trace (.left output)

def logFormat (level : LogLevel) (line : Text) : Runner σ Unit := leave (.log level line)

def onMemory (f : Memory σ → Memory σ) : Runner σ Unit := modify fun s => { s with memory := f s.memory }

def perform (a : Action σ) : Runner σ Unit :=
  modify fun s => ⟨(a s.memory).1, s.trace ++ (a s.memory).2.map .left⟩

def exit (status : UInt8) : Runner σ α := throw (.exited status)

/-- `raise(SIGABRT)` -/
def deepStateHardCrash : Runner σ Unit := throw .killed

/-- The call of a test function. -/
def callTest (test : TestInfo σ) : Runner σ TestEnd := do
  trace (.run test.testName)
  let (ending, memory, left) := test.testFunc (← readMemory)
  perform fun _ => (memory, left)
  return ending

end Steps

/-! ## Saved test cases -/

/-- The name from its first dot on is an extension of saved tests. -/
def deepStateIsTestCaseFile (name : Text) : Bool :=
  let suffix := name.dropWhile (· ≠ '.')
  suffix = (".pass" : Text) || suffix = (".fail" : Text) || suffix = (".crash" : Text)

variable {σ : Type} (lib : Library σ) (flags : Flags) (defaults : Defaults)

/-- How much of a file is read. -/
def toRead (size : Nat) : Nat := if inputSize < size then inputSize else size

/-- Fills the input buffer; `false` when the test is abandoned with a jump. -/
def deepStateInitInputFromFile (file : Opened) (path : Text) : Runner σ Bool := do
  match file with
  | .missing =>
      perform (lib.abandon "Unable to open file")
      return false
  | .noDescriptor =>
      perform (lib.abandon "Tried to get file descriptor for invalid stream")
      return false
  | .noStat =>
      perform (lib.abandon "Unable to access input file")
      return false
  | .opened size content =>
      when (inputSize < size) (logFormat .warning "File too large, truncating to max input size")
      onMemory fun m =>
        { m with
          input := (lib.memScrub m.input).load content (toRead size), inputIndex := 0, swarmConfigsIndex := 0 }
      if (content.take (toRead size)).length ≠ toRead size then
        perform (lib.abandon "Error reading file")
        return false
      else
        logFormat .trace ("Initialized test input buffer with data from `" ++ path ++ "`")
        return true

/-! ## Running a test -/

/-- What follows a jump out of a test: a caught failure comes before an abandoned test. -/
def settle (crashes : Bool) (test : TestInfo σ) : Runner σ TestRunResult := do
  if lib.catchFail (← readMemory) then
    logFormat .error ("Failed: " ++ test.testName)
    when flags.outputTestDir.isSome (leave .saveFailing)
    when crashes deepStateHardCrash
    return .fail
  else if lib.catchAbandoned (← readMemory) then
    logFormat .error ("Abandoned: " ++ test.testName)
    return .abandon
  else
    logFormat .trace ("Passed: " ++ test.testName)
    when (flags.outputTestDir.isSome ∧
        (¬ flags.fuzz.getD defaults.fuzz ∨ flags.fuzzSavePassing.getD defaults.fuzzSavePassing))
      (leave .savePassing)
    return .pass

/-- From the end of a call to the result. An exception that nothing catches becomes a failure. -/
def conclude (crashes : Bool) (test : TestInfo σ) : TestEnd → Runner σ TestRunResult
  | .returns => return .pass
  | .throws => do
      perform lib.fail
      settle lib flags defaults crashes test
  | .jumps => settle lib flags defaults crashes test
  | .exits status => exit status
  | .killed => throw .killed

/-- A test up to its result. -/
def runTo (crashes : Bool) (test : TestInfo σ) : Runner σ TestRunResult := do
  conclude lib flags defaults crashes test (← callTest test)

/-- The child process of a test: it never returns. -/
def deepStateRunTest (test : TestInfo σ) : Runner σ Empty := do
  exit (← runTo lib flags defaults false test).status

def deepStateRunTestNoFork (test : TestInfo σ) : Runner σ TestRunResult :=
  runTo lib flags defaults flags.abortOnFail.isSome test

/-- What the parent sees of a child that has ended: its memory is gone, its trace is not. -/
def waitFor (child : EStateM.Result Death (Machine σ) Empty) (parent : Machine σ) :
    TestRunResult × Machine σ :=
  match child with
  | .error (.exited status) s => (.ofStatus status, { parent with trace := s.trace })
  | .error .killed s => (.crash, { parent with trace := s.trace })

def deepStateForkAndRunTest (test : TestInfo σ) : Runner σ TestRunResult := do
  if flags.fork.getD defaults.fork then
    let parent ← get
    let (result, parent) := waitFor (deepStateRunTest lib flags defaults test parent) parent
    set parent
    return result
  else
    let result ← deepStateRunTestNoFork lib flags defaults test
    perform lib.cleanUp
    return result

variable (disk : Disk)

/-- The path of a saved test case. -/
def savedPath (dir name : Text) : Text := if dir = [] then name else dir ++ "/" ++ name

/-- What the parent does about the result of a saved test case. -/
def reportCase (test : TestInfo σ) (path : Text) (result : TestRunResult) : Runner σ Unit := do
  when (result = .fail) (logFormat .error ("Test case " ++ path ++ " failed"))
  when (result = .crash) do
    logFormat .error ("Crashed: " ++ test.testName)
    logFormat .error ("Test case " ++ path ++ " crashed")
    when flags.outputTestDir.isSome (leave .saveCrashing)
    perform lib.crash

/-- A saved test case of which `file` is what opening its path gives. -/
def runOpened (file : Opened) (test : TestInfo σ) (path name : Text) : Runner σ TestRunResult := do
  if ← deepStateInitInputFromFile lib file path then
    perform (lib.begin test)
    let result ← deepStateForkAndRunTest lib flags defaults test
    reportCase lib flags test path result
    return result
  else
    logFormat .error ("Something went wrong running the test case " ++ name)
    return .crash

def deepStateRunSavedTestCase (test : TestInfo σ) (dir name : Text) : Runner σ TestRunResult :=
  runOpened lib flags defaults (disk.fopen (savedPath dir name)) test (savedPath dir name) name

/-! ## The saved cases of the tests -/

/-- `basename` of `libgen.h`, of a name that does not end with a slash. -/
def testFileName (path : Text) : Text := (path.reverse.takeWhile (· ≠ '/')).reverse

/-- One turn of the loop over the names in a directory. -/
def countSaved (test : TestInfo σ) (dir : Text) (counts : Nat × Nat) (name : Text) : Runner σ (Nat × Nat) := do
  if deepStateIsTestCaseFile name then
    let result ← deepStateRunSavedTestCase lib flags defaults disk test dir name
    return (counts.1 + 1, if result ≠ .pass then counts.2 + 1 else counts.2)
  else
    return counts

/-- The directory of the saved cases of a test. -/
def testCaseDir (test : TestInfo σ) : Text :=
  flags.inputTestDir.getD [] ++ "/" ++ testFileName test.fileName ++ "/" ++ test.testName

def deepStateRunSavedCasesForTest (test : TestInfo σ) : Runner σ Nat := do
  match disk.readdir (testCaseDir flags test) with
  | none =>
      logFormat .info ("Skipping test `" ++ test.testName ++ "`, no saved test cases")
      return 0
  | some names =>
      let counts ← names.foldlM (countSaved lib flags defaults disk test (testCaseDir flags test)) (0, 0)
      logFormat .info ("Ran " ++ Text.ofNat counts.1 ++ " tests for " ++ test.testName ++ "; " ++
        Text.ofNat counts.2 ++ " tests failed")
      return counts.2

def deepStateRunSavedTestCases (tests : List (TestInfo σ)) : Runner σ Nat := do
  let failed ← tests.foldlM
    (fun failed test => do return failed + (← deepStateRunSavedCasesForTest lib flags defaults disk test)) 0
  perform lib.teardown
  return failed

/-! ## The saved cases of one test -/

/-- The test that is asked for, or the first one. -/
def selectTest (tests : List (TestInfo σ)) : Runner σ (Option (TestInfo σ)) := do
  match flags.inputWhichTest, tests with
  | some which, _ =>
      match tests.find? (·.testName = which) with
      | some test => return some test
      | none =>
          logFormat .info ("Could not find matching test for " ++ which)
          return none
  | none, test :: _ =>
      logFormat .warning ("No test specified, defaulting to first test defined (" ++ test.testName ++ ")")
      return some test
  | none, [] =>
      -- `%s` of the option's default
      logFormat .info "Could not find matching test for "
      return none

/-- What a failed or crashed case adds to the count, unless an option ends the process. -/
def countFailed (result : TestRunResult) (failed : Nat) : Runner σ Nat := do
  if result = .fail ∨ result = .crash then
    when (flags.abortOnFail.getD defaults.abortOnFail) deepStateHardCrash
    when (flags.exitOnFail.getD defaults.exitOnFail) (exit 255)
    return failed + 1
  else
    return failed

def deepStateRunSingleSavedTestCase (tests : List (TestInfo σ)) : Runner σ Nat := do
  match ← selectTest flags tests with
  | none => return 0
  | some test =>
      let result ← deepStateRunSavedTestCase lib flags defaults disk test [] (flags.inputTestFile.getD [])
      let failed ← countFailed flags defaults result 0
      perform lib.teardown
      return failed

/-- A file is replayed and counted. -/
def countReplayed (test : TestInfo σ) (dir : Text) (counts : Nat × Nat) (name : Text) : Runner σ (Nat × Nat) := do
  let result ← deepStateRunSavedTestCase lib flags defaults disk test dir name
  let failed ← countFailed flags defaults result counts.2
  return (counts.1 + 1, failed)

/-- One turn of the loop over the names in a directory. A `stat` that fails leaves `path_stat` as it was. -/
def countRegular (test : TestInfo σ) (dir : Text) (state : (Nat × Nat) × Bool) (name : Text) :
    Runner σ ((Nat × Nat) × Bool) := do
  let regular := (disk.stat (dir ++ "/" ++ name)).getD state.2
  if regular then
    let counts ← countReplayed lib flags defaults disk test dir state.1 name
    return (counts, regular)
  else
    return (state.1, regular)

def deepStateRunSingleSavedTestDir (tests : List (TestInfo σ)) : Runner σ Nat := do
  match ← selectTest flags tests with
  | none => return 0
  | some test =>
      let dir := flags.inputTestFilesDir.getD []
      match disk.readdir dir with
      | none =>
          logFormat .info "No tests to run"
          return 0
      | some names =>
          let state ← names.foldlM (countRegular lib flags defaults disk test dir) ((0, 0), disk.unset)
          logFormat .info ("Ran " ++ Text.ofNat state.1.1 ++ " tests; " ++ Text.ofNat state.1.2 ++ " tests failed")
          return state.1.2

/-! ## DeepState_Run -/

/-- `strstr(name, "Boring") || strstr(name, "BORING")` -/
def isBoring (name : Text) : Bool := ("Boring" : Text) <:+: name || ("BORING" : Text) <:+: name

/-- `strstr(name, "Disabled") || strstr(name, "DISABLED")` -/
def isDisabled (name : Text) : Bool := ("Disabled" : Text) <:+: name || ("DISABLED" : Text) <:+: name

/-- The lines that list the tests. A boring test does not count as disabled. -/
def deepStateRunListTests (tests : List (TestInfo σ)) : List Text :=
  let boring := tests.countP fun t => isBoring t.testName
  let disabled := tests.countP fun t => !isBoring t.testName && isDisabled t.testName
  [("Available Tests:\n\n" : Text)] ++
    tests.map (fun t => " *  " ++ t.testName ++ " (line " ++ Text.ofNat t.lineNumber ++ ")\n") ++
    ["\nBoring Tests: " ++ Text.ofNat boring ++ "\nDisabled Tests: " ++ Text.ofNat disabled ++ "\n",
      "\nTotal Number of Tests: " ++ Text.ofNat tests.length ++ "\n"]

/-- One run of a test, which adds a failure to the count. -/
def countRun (test : TestInfo σ) (failed : Nat) : Runner σ Nat := do
  perform (lib.begin test)
  let result ← deepStateForkAndRunTest lib flags defaults test
  return if result ≠ .pass then failed + 1 else failed

/-- One turn of the loop over the tests. With `--boring_only` a boring test runs before the other options
are looked at, and again when they let it through. -/
def runOne (failed : Nat) (test : TestInfo σ) : Runner σ Nat := do
  if flags.boringOnly.isSome ∧ ¬ isBoring test.testName then
    return failed
  else
    let failed ← if flags.boringOnly.isSome then countRun lib flags defaults test failed else pure failed
    if flags.testFilter.any fun pattern => !Glob.fnmatch pattern test.testName then
      return failed
    else if flags.runDisabled.isNone ∧ isDisabled test.testName then
      return failed
    else
      countRun lib flags defaults test failed

def runAllTests (tests : List (TestInfo σ)) : Runner σ Nat := do
  let failed ← tests.foldlM (runOne lib flags defaults) 0
  perform lib.teardown
  return failed

/-- `DeepState_Run` once the options are initialized, outside Dr. Fuzz. -/
def deepStateRun (tests : List (TestInfo σ)) : Runner σ Int := do
  if flags.listTests.isSome then
    (deepStateRunListTests tests).forM fun line => leave (.write line)
    return 0
  else if flags.inputTestFile.isSome then
    return ↑(← deepStateRunSingleSavedTestCase lib flags defaults disk tests)
  else if flags.inputTestDir.isSome then
    return ↑(← deepStateRunSavedTestCases lib flags defaults disk tests)
  else if flags.inputTestFilesDir.isSome then
    return ↑(← deepStateRunSingleSavedTestDir lib flags defaults disk tests)
  else if flags.fuzz.getD defaults.fuzz then
    lib.fuzz
  else
    return ↑(← runAllTests lib flags defaults tests)

end RcppDeepState
