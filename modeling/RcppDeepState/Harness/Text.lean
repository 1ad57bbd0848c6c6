import RcppDeepState.Package.World
import RcppDeepState.Harness.Types

/-!
# The harness text

What `deepstate_fun_create` writes: the INPUTS and PRINT_INPUTS macros and the two tests that use them.
-/

namespace RcppDeepState

/-! ## One argument -/

/-- The declaration of an argument before `const` is taken out of it. -/
def rawVariable (a : Argument) : Text :=
  (match rtypeOf a.key with
    | some rtype => "  " ++ rtype ++ " " ++ a.name ++ "(1); \\\n  " ++ a.name ++ "[0]"
    | none => "  " ++ a.type ++ " " ++ a.name) ++
  "= RcppDeepState_" ++ a.key ++ "(); \\\n"

def variableText (a : Argument) : Text := Text.gsub "const" [] (rawVariable a)

/-- The statements that save an argument below the directory with that path. -/
def saveInputs (inputs : Text) (a : Argument) : Text :=
  if a.key = "mat" then
    "std::ofstream " ++ a.name ++ "_stream;\n  " ++ a.name ++ "_stream.open(\"" ++ inputs ++ "/" ++ a.name ++
      "\" );\n  " ++ a.name ++ "_stream << " ++ a.name ++ ";\n  " ++ a.name ++ "_stream.close(); \n"
  else
    "qs::c_qsave(" ++ a.name ++ ",\"" ++ inputs ++ "/" ++ a.name ++
      ".qs\",\n\t\t\"high\", \"zstd\", 1, 15, true, 1);\n"

def printValue (a : Argument) : Text :=
  "  std::cout << \"" ++ a.name ++ " values: \" << " ++ a.name ++ " << std::endl; \\\n"

def protoArg (a : Argument) : Text :=
  if a.key = "string" then "Rcpp::as<std::string>(" ++ a.name ++ "[0]),"
  else if (rtypeOf a.key).isSome then a.name ++ "[0],"
  else a.name ++ ","

/-- The comment line that offers a range, for a type whose generator takes one. -/
def rangeComment (a : Argument) : Text :=
  match argsOf a.key with
  | some args => "// RcppDeepState_" ++ a.key ++ args ++ "\n"
  | none => []

/-! ## The parts of the harness -/

/-- `gsub` of a suffix at the end of a text. -/
def dropSuffix (suffix t : Text) : Text :=
  if suffix <:+ t then t.take (t.length - suffix.length) else t

def headers : Text :=
  "#include <fstream>\n#include <RInside.h>\n#include <iostream>\n#include <RcppDeepState.h>\n" ++
    "#include <qs.h>\n#include <DeepState.hpp>\n\n"

def generatedComment (fn : Text) : Text :=
  "// AUTOMATICALLY GENERATED BY RCPPDEEPSTATE PLEASE DONOT EDIT BY HAND, INSTEAD EDIT\n// " ++ fn ++
    "_DeepState_TestHarness_generation.cpp and " ++ fn ++ "_DeepState_TestHarness_checks.cpp\n\n"

def preambleText (fn : Text) (sep : Sep) : Text :=
  (if sep.editable then headers else generatedComment fn ++ headers) ++ "RInside Rinstance;\n\n"

def generationComment (sep : Sep) (args : List Argument) : Text :=
  if sep = .generation then "// RANGES CAN BE ADDED HERE\n" ++ args.flatMap rangeComment else []

def inputsText (args : List Argument) : Text :=
  dropSuffix "\\\n" ("#define INPUTS \\\n" ++ args.flatMap variableText)

def printText (args : List Argument) : Text :=
  "\n\n#define PRINT_INPUTS \\\n  std::cout << \"input starts\" << std::endl;\\\n" ++
    args.flatMap printValue ++ "  std::cout << \"input ends\" << std::endl;\n"

def inputsDump (inputs : Text) (args : List Argument) : Text :=
  args.flatMap fun a => ("  " : Text) ++ saveInputs inputs a

/-- The name `deepstate_fun_create` registers its tests under. -/
def unittest (packagename : Option Text) : Text := Text.gsub "." [] (pasted packagename)

def testHeader (unittest test : Text) : Text :=
  "\n\nTEST(" ++ unittest ++ ", " ++ test ++ ")\x7b\n"

def callText (fn : Text) (args : List Argument) : Text :=
  fn ++ "(" ++ dropSuffix "," (args.flatMap protoArg) ++ ");\n"

def generatorBody : Text := "  INPUTS\n  PRINT_INPUTS\n"

def assertComment (sep : Sep) : Text :=
  if sep = .checks then "    //ASSERT CONDITIONS CAN BE ADDED HERE\n" else []

def runnerBody (inputs fn : Text) (sep : Sep) (args : List Argument) : Text :=
  "  INPUTS\n  PRINT_INPUTS\n" ++ inputsDump inputs args ++ "  try\x7b\n    " ++ callText fn args ++
    assertComment sep ++
    "  \x7dcatch(Rcpp::exception& e)\x7b\n    std::cout<<\"Exception Handled\"<<std::endl;\n  \x7d"

/-- The harness for one prototype of the function. -/
def harnessText (inputs : Text) (packagename : Option Text) (fn : Text) (sep : Sep) (args : List Argument)
    (prototype : Text) : Text :=
  preambleText fn sep ++ prototype ++ "\n\n" ++ generationComment sep args ++ inputsText args ++
    printText args ++ testHeader (unittest packagename) "generator" ++ generatorBody ++ "\x7d" ++
    testHeader (unittest packagename) "runner" ++ runnerBody inputs fn sep args ++ "\n\x7d"

end RcppDeepState
