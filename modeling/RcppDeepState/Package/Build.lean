import RcppDeepState.Package.PkgCreate

/-!
# Compiling and fuzzing

`deepstate_compile_fun` runs make on a harness, `deepstate_fuzz_fun` runs the executable and compiles
only when there is no object file.
-/

namespace RcppDeepState

/-! ## make -/

/-- What a linker that fails leaves in the place of the executable: what was there, nothing, or another file. -/
inductive FailedLink
  | keeps
  | removes
  | leaves (c : Content)

def FailedLink.apply (f : FailedLink) (p : Pathname) (fs : FileSystem Content) : FileSystem Content :=
  match f with
  | .keeps => fs
  | .removes => fs.remove fun q => decide (q = p)
  | .leaves c => fs.write p c

/-- How a build ends: whether the compiler succeeds, whether the linker does, and what it leaves otherwise. -/
structure BuildOutcome where
  compiles : Bool
  links : Bool
  failed : FailedLink

/-- A target is built when it is missing or older than its prerequisite. -/
def stale (fs : FileSystem Content) (target prerequisite : Pathname) : Bool :=
  match fs.mtime target, fs.mtime prerequisite with
  | some t, some p => t < p
  | _, _ => true

/-- The rule for the object file; the flag tells whether make goes on. -/
def makeObject (compiles : Bool) (fs : FileSystem Content) (fn : Text) (sep : Sep) :
    FileSystem Content × Bool :=
  match readText fs (harnessPath fn sep) with
  | none => (fs, false)
  | some source =>
      if stale fs (objectPath fn sep) (harnessPath fn sep) then
        if compiles then (fs.write (objectPath fn sep) (.object source), true) else (fs, false)
      else (fs, true)

/-- The rule for the executable. -/
def makeExecutable (b : BuildOutcome) (fs : FileSystem Content) (fn : Text) (sep : Sep) :
    FileSystem Content :=
  match fs.read (objectPath fn sep) with
  | some (.object source) =>
      if stale fs (executablePath fn sep) (objectPath fn sep) then
        if b.links then fs.write (executablePath fn sep) (.executable source)
        else b.failed.apply (executablePath fn sep) fs
      else fs
  | _ => fs

def make (b : BuildOutcome) (fn : Text) (sep : Sep) (fs : FileSystem Content) : FileSystem Content :=
  match makeObject b.compiles fs fn sep with
  | (fs', true) => makeExecutable b fs' fn sep
  | (fs', false) => fs'

/-- `rm -f *.o` in the directory of a function. -/
def removeObjects (fn : Text) (fs : FileSystem Content) : FileSystem Content :=
  fs.remove fun p =>
    match FileSystem.nameIn (funPath fn) p with
    | some n => decide ((".o" : Text) <:+ n)
    | none => false

/-! ## deepstate_compile_fun -/

def silent (h : Host) : Text := if h.verbose then [] else "-s"

def compileLine (h : Host) (fn : Text) (sep : Sep) : Text :=
  "cd " ++ h.file (funPath fn) ++ " && rm -f *.o && make " ++ silent h ++
    (if sep.editable then " -f " ++ makefileName sep else []) ++ "\n"

def runMake (h : Host) (b : BuildOutcome) (fn : Text) (sep : Sep) : Program Unit := do
  if h.verbose then message (.compiling (compileLine h fn sep))
  record (.system (compileLine h fn sep))
  onFiles fun fs => make b fn sep (removeObjects fn fs)

def compileError : Text :=
  "TestHarness and makefile doesn't exists. Please use deepstate_pkg_create() to create them"

def deepstateCompileFun (h : Host) (b : BuildOutcome) (fn : Text) (sep : Sep) : Program Unit := do
  let fs ← files
  if sep = .other then
    stop "object 'harness.file' not found"
  else if fs.fileExists (harnessPath fn sep) && fs.fileExists (makefilePath fn sep) then
    runMake h b fn sep
  else
    stop compileError

/-! ## deepstate_fuzz_fun -/

/-- What a fuzzing run does: the test files it saves, the arguments it dumps, and what it prints. -/
structure FuzzOutcome where
  build : BuildOutcome
  saved : List (Text × Text)
  dumped : List (Text × Content)
  log : Text

def pastedInt (i : Int) : Text := (toString i).toList

def runOptions (seed timeLimit : Int) : Text :=
  if seed = -1 ∧ timeLimit = -1 then []
  else if seed = -1 then " --timeout=" ++ pastedInt timeLimit
  else " --seed=" ++ pastedInt seed ++ " --timeout=" ++ pastedInt timeLimit

/-- The test the fuzzer is told to run. -/
def generatorTest (packagename : Option Text) : Text := pasted packagename ++ "_generator"

def runExecutable (h : Host) (packagename : Option Text) (fn : Text) (seed timeLimit : Int) (sep : Sep) :
    Text :=
  "cd " ++ h.file (funPath fn) ++ " && ./" ++ testHarness fn sep ++ runOptions seed timeLimit ++
    " --fuzz --fuzz_save_passing --output_test_dir " ++ h.file (outputDir fn sep) ++
    " --input_which_test " ++ generatorTest packagename ++ " > " ++ h.file (logFile fn sep) ++
    " 2>&1 ; head " ++ h.file (logFile fn sep) ++ " > /dev/null"

/-- The harness text an executable was built from. -/
def executableAt (fs : FileSystem Content) (p : Pathname) : Option Text :=
  match fs.read p with
  | some (.executable source) => some source
  | _ => none

def executableSource (fs : FileSystem Content) (fn : Text) (sep : Sep) : Option Text :=
  executableAt fs (executablePath fn sep)

/-- Write files into a directory that exists. -/
def writeInto (d : Pathname) (entries : List (Text × Content)) (fs : FileSystem Content) :
    FileSystem Content :=
  if fs.dirExists d then entries.foldl (fun fs e => fs.write (d ++ [e.1]) e.2) fs else fs

def fuzzEffects (o : FuzzOutcome) (fn : Text) (sep : Sep) (fs : FileSystem Content) :
    FileSystem Content :=
  let fs := writeInto (funPath fn) [(fn ++ sep.suffix ++ "_log_text", .text o.log)] fs
  if (executableSource fs fn sep).isSome then
    writeInto (inputsPath fn) o.dumped
      (writeInto (outputDir fn sep) (o.saved.map fun e => (e.1, .testCase e.2)) fs)
  else fs

/-- Run the executable, whether or not it is there, and look for the files of the build. -/
def runFuzzer (h : Host) (o : FuzzOutcome) (packagename : Option Text) (fn : Text)
    (seed timeLimit : Int) (sep : Sep) : Program (Option Text) := do
  if h.verbose then message (.running (runExecutable h packagename fn seed timeLimit sep))
  record (.system (runExecutable h packagename fn seed timeLimit sep))
  record (.run (executableSource (← files) fn sep))
  onFiles (fuzzEffects o fn sep)
  let fs ← files
  if fs.fileExists (objectPath fn sep) && fs.fileExists (executablePath fn sep) then
    return some fn
  else
    return none

def timeLimitError : Text := "time.limit.seconds should always be greater than zero"

/-- Compile, unless there is an object file. -/
def ensureCompiled (h : Host) (b : BuildOutcome) (fn : Text) (sep : Sep) : Program Unit := do
  if (← files).fileExists (objectPath fn sep) then pure () else deepstateCompileFun h b fn sep

/-- The name of the function, or NA when the object file or the executable is missing afterwards. -/
def deepstateFuzzFun (h : Host) (o : FuzzOutcome) (fn : Text) (seed timeLimit : Int) (sep : Sep) :
    Program (Option Text) := do
  let packagename ← getPackageName h
  if (← files).dirExists testPath then
    ensureCompiled h o.build fn sep
    if timeLimit ≤ 0 then stop timeLimitError else runFuzzer h o packagename fn seed timeLimit sep
  else
    stop "Missing testfiles directory"

/-! ## deepstate_harness_compile_run -/

structure CompileRunOutcome where
  pkg : PkgOutcome
  fuzz : Text → FuzzOutcome

def fuzzOne (h : Host) (fuzz : Text → FuzzOutcome) (seed timeLimit : Int)
    (lists : List Text × List Text) (fn : Text) : Program (List Text × List Text) := do
  let res ← deepstateFuzzFun h (fuzz fn) fn seed timeLimit .infun
  if res = some fn then return (lists.1 ++ [fn], lists.2) else return (lists.1, lists.2 ++ [fn])

def deepstateHarnessCompileRun (h : Host) (o : CompileRunOutcome) (timeLimit seed : Int) :
    Program (List Text) := do
  if timeLimit ≤ 0 then
    stop timeLimitError
  else
    let _ ← deepstatePkgCreate h o.pkg
    let functions := sysGlob h (← files) testPath
    if functions = [] then
      stop "TestHarness are not created for all the function that are returned by pkg create"
    else
      let lists ← functions.foldlM (fuzzOne h o.fuzz seed timeLimit) ([], [])
      if lists.2 ≠ [] then message (.uncompiled lists.2)
      return lists.1

end RcppDeepState
