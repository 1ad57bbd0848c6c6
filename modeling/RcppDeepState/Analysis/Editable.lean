import RcppDeepState.Library.Scope
import RcppDeepState.Analysis.Analyze

/-!
# The harnesses a user edits

`deepstate_compile_generate_fun` and `deepstate_compile_checks_fun` look the edited harness through, then fuzz
and analyse. The name of the function they fuzz is a free variable of their bodies.
-/

namespace RcppDeepState

open Regex Scope

/-! ## Names -/

/-- The value of a variable, as `file.path` takes it: a text, or something it makes no single path of. -/
inductive RObject
  | text (t : Text)
  | other
  deriving DecidableEq

abbrev Environment := Frame Text RObject

/-- The parameters and the variables of a call of `deepstate_compile_generate_fun`. -/
def generateFrame (h : Host) (fn : Text) : Environment :=
  ofList [("package_path", .text h.packagePath), ("function_name", .text fn), ("continue_on_missing", .other),
    ("verbose", .other), ("inst_path", .text (h.file ["inst"])), ("test_path", .text (h.file testPath)),
    ("filename", .text (harnessFile fn .generation)), ("fun_path", .text (h.file (funPath fn))),
    ("file_path", .text (h.file (harnessPath fn .generation))), ("makefile.path", .text (h.file (funPath fn))),
    ("harness_lines", .other), ("range_elements", .other), ("fun_range", .other), ("missing_range", .other),
    ("variable", .other), ("warn_msg", .other), ("error_msg", .other)]

/-- The parameters and the variables of a call of `deepstate_compile_checks_fun`. -/
def checksFrame (h : Host) (fn : Text) : Environment :=
  ofList [("package_path", .text h.packagePath), ("function_name", .text fn), ("continue_on_missing", .other),
    ("verbose", .other), ("test_path", .text (h.file testPath)), ("filename", .text (harnessFile fn .checks)),
    ("fun_path", .text (h.file (funPath fn))), ("file_path", .text (h.file (harnessPath fn .checks))),
    ("makefile.path", .text (h.file (funPath fn))), ("harness_lines", .other), ("assert_lines", .other),
    ("warn_msg", .other), ("error_msg", .other)]

/-- The functions of the package. -/
def namespaceFrame : Environment :=
  ofList ((["deepstate_harness_analyze_pkg", "deepstate_fuzz_fun_analyze", "deepstate_analyze_fun",
    "deepstate_analyze_file", "ci_setup", "indent", "get_param_yaml", "deepstate_editable_fun",
    "deepstate_compile_generate_fun", "deepstate_compile_checks_fun", "deepstate_harness_files",
    "deepstate_list_log_files", "deepstate_list_bin_directory", "deepstate_list_package_args",
    "deepstate_compile_fun", "deepstate_fun_create", "deepstate_fuzz_fun", "deepstate_create_makefile",
    "deepstate_make_run", "deepstate_get_package_details", "deepstate_get_function_body",
    "deepstate_get_prototype_calls", "get_package_name", "deepstate_harness_compile_run", "deepstate_pkg_create",
    "deepstate_read_valgrind_xml", "stack.trace", "address.trace", "get_string"] : List Text).map
      fun name => (name, .other))

/-- What `fun_name` means in a body with that frame: `globals` is what lies behind the package. -/
def funName (frame globals : Environment) : Option RObject := resolve [frame, namespaceFrame, globals] "fun_name"

/-! ## Fuzzing and analysing -/

/-- What the tools do while a function is fuzzed and its saved files are replayed. -/
structure PipelineOutcome where
  fuzz : Text → FuzzOutcome
  replay : Text → Text → ReplayOutcome
  xml2 : Xml2

/-- `deepstate_fuzz_fun` and `deepstate_analyze_fun`, one after the other. -/
def fuzzAndAnalyze (h : Host) (o : PipelineOutcome) (fn : Text) (sep : Sep) :
    Program (Option (List AnalysisRow)) := do
  let _ ← deepstateFuzzFun h (o.fuzz fn) fn (-1) 2 sep
  deepstateAnalyzeFun o.xml2 h (o.replay fn) fn .all sep

def funNameError : Option RObject → Text
  | none => "object 'fun_name' not found"
  | some _ => "invalid argument"

/-- The two calls, whose argument is only looked up after the first checks of `deepstate_fuzz_fun`. -/
def fuzzAndAnalyzeNamed (h : Host) (o : PipelineOutcome) (name : Option RObject) (sep : Sep) :
    Program (Option (List AnalysisRow)) :=
  match name with
  | some (.text fn) => fuzzAndAnalyze h o fn sep
  | _ => do
      let _ ← getPackageName h
      if (← files).dirExists testPath then stop (funNameError name) else stop "Missing testfiles directory"

/-- Read the edited harness, look it through with `check`, and go on. -/
def compileEditable {α : Type} (check : List Text → Program Unit) (next : Program α) (fn : Text) (sep : Sep) :
    Program α := do
  if (← files).fileExists (funPath fn) then
    match readText (← files) (harnessPath fn sep) with
    | none => stop "cannot open the connection"
    | some t =>
        check t.lines
        next
  else
    stop "Editable file doesn't exist. Run deepstate_editable_fun"

/-! ## deepstate_compile_generate_fun -/

def rangePattern : Regex := cat [lit "//", group "fun_call" anyText, lit "("]

/-- `range_elements$fun_call` -/
def rangeElements (harnessLines : List Text) : List Text :=
  (rangePattern.findAll (Text.join "\n" harnessLines)).map (captured "fun_call")

/-- The first line in which the generator is called without a range. -/
def missingRange (harnessLines : List Text) (funRange : Text) : Option Text :=
  harnessLines.find? fun l => decide (funRange ++ ("();" : Text) <:+: l)

def variablePattern : Regex :=
  cat [group "val" anyText, lit "=", lit " RcppDeepState_", group "type" anyText, lit "("]

/-- `variable$val` and `variable$type` -/
def rangeVariable (line : Text) : Text × Text :=
  match variablePattern.findAll line with
  | [] => ([], [])
  | c :: _ => (captured "val" c, captured "type" c)

def rangeError (range : Text × Text) : Text :=
  "Execution stopped. Please provide the following range : \n" ++ range.1 ++ " : " ++ range.2

def checkRange (continueOnMissing : Bool) (harnessLines : List Text) (funRange : Text) : Program Unit :=
  match missingRange harnessLines funRange with
  | none => pure ()
  | some line => do
      message (.missingRange (rangeVariable line).1 (rangeVariable line).2)
      if continueOnMissing then pure () else stop (rangeError (rangeVariable line))

def checkRanges (continueOnMissing : Bool) (harnessLines : List Text) : Program Unit :=
  (rangeElements harnessLines).forM (checkRange continueOnMissing harnessLines)

def deepstateCompileGenerateFun (h : Host) (o : PipelineOutcome) (globals : Environment) (fn : Text)
    (continueOnMissing : Bool) : Program (Option (List AnalysisRow)) :=
  compileEditable (checkRanges continueOnMissing)
    (fuzzAndAnalyzeNamed h o (funName (generateFrame h fn) globals) .generation) fn .generation

/-! ## deepstate_compile_checks_fun -/

def checkAsserts (continueOnMissing : Bool) (harnessLines : List Text) : Program Unit :=
  if ∃ l ∈ harnessLines, ("ASSERT_" : Text) <:+: l then pure () else do
    message .noAsserts
    if continueOnMissing then pure () else stop "Execution stopped. Please provide some assertions."

def deepstateCompileChecksFun (h : Host) (o : PipelineOutcome) (globals : Environment) (fn : Text)
    (continueOnMissing : Bool) : Program (Option (List AnalysisRow)) :=
  compileEditable (checkAsserts continueOnMissing)
    (fuzzAndAnalyzeNamed h o (funName (checksFrame h fn) globals) .checks) fn .checks

end RcppDeepState
