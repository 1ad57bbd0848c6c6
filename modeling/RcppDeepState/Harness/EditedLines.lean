import RcppDeepState.Harness.Scoping

/-!
# The lines of a generation harness

The lines that are there before anybody edits them, and those after a user has given ranges to some of the
generators.
-/

namespace RcppDeepState

/-! ## Ranges -/

/-- The arguments a user puts between the parentheses of a generator: on one line, without a comment, and not
empty. -/
structure RangeText where
  text : Text
  line : text.OneLine
  slashes : ¬ ("//" : Text) <:+: text
  call : ¬ ("();" : Text) <:+: '(' :: (text ++ ");")

abbrev Ranges := Argument → Option RangeText

/-- The generator of the argument takes a range. -/
def Argument.ranged (a : Argument) : Bool := (argsOf a.key).isSome

/-- What stands between the parentheses of the generator of an argument. -/
def rangeText (ranges : Ranges) (a : Argument) : Text :=
  if a.ranged then ((ranges a).map (·.text)).getD [] else []

/-! ## Lines -/

/-- What a declaration assigns to. -/
def assigned (a : Argument) : Text :=
  match rtypeOf a.key with
  | some _ => "  " ++ (a.declared ++ "[0]")
  | none => "  " ++ (a.declaredType ++ (" " ++ a.declared))

/-- The line that calls the generator. -/
def generatorLine (ranges : Ranges) (a : Argument) : Text :=
  assigned a ++ '=' :: (" RcppDeepState_" ++ (a.key ++ '(' :: (rangeText ranges a ++ "); ")))

def editedLines (ranges : Ranges) (a : Argument) : List Text :=
  match rtypeOf a.key with
  | some rtype => ["  " ++ (rtype ++ (" " ++ (a.declared ++ "(1); "))), generatorLine ranges a]
  | none => [generatorLine ranges a]

/-- The lines of a macro: all but the last are continued. -/
def macroLines : List Text → List Text
  | [] => []
  | [l] => [l]
  | l :: ls => (l ++ ['\\']) :: macroLines ls

def headerLines (prototype : Text) : List Text :=
  ["#include <fstream>", "#include <RInside.h>", "#include <iostream>", "#include <RcppDeepState.h>",
    "#include <qs.h>", "#include <DeepState.hpp>", "", "RInside Rinstance;", "", prototype, "",
    "// RANGES CAN BE ADDED HERE"]

/-- The comment line of an argument, for a type whose generator takes a range. -/
def commentLine (a : Argument) : Option Text := (argsOf a.key).map fun args => "// RcppDeepState_" ++ (a.key ++ args)

def inputsLines (ranges : Ranges) (args : List Argument) : List Text :=
  macroLines ("#define INPUTS " :: args.flatMap (editedLines ranges))

def printLines (args : List Argument) : List Text :=
  ([("" : Text), "#define PRINT_INPUTS \\", "  std::cout << \"input starts\" << std::endl;\\"] ++
    args.map fun a => printLine a ++ ['\\']) ++ [("  std::cout << \"input ends\" << std::endl;" : Text)]

def testLines (unittest : Text) : List Text :=
  ["", "", "TEST(" ++ (unittest ++ ", generator)\x7b"), "  INPUTS", "  PRINT_INPUTS", "\x7d", "",
    "TEST(" ++ (unittest ++ ", runner)\x7b"), "  INPUTS", "  PRINT_INPUTS"]

def dumpLines (inputs : Text) (a : Argument) : List Text :=
  if a.key = "mat" then
    ["  std::ofstream " ++ (a.name ++ "_stream;"),
      "  " ++ (a.name ++ ("_stream.open(" ++ '"' :: (inputs ++ '/' :: (a.name ++ "\" );")))),
      "  " ++ (a.name ++ ("_stream << " ++ (a.name ++ ";"))),
      "  " ++ (a.name ++ ("_stream" ++ '.' :: "close(); "))]
  else
    ["  qs::c_qsave(" ++ (a.name ++ ("," ++ '"' :: (inputs ++ '/' :: (a.name ++ ".qs\",")))),
      "\t\t\"high\", \"zstd\", 1, 15, true, 1);"]

/-- The call of the function, without its line feed. -/
def callLine (fn : Text) (args : List Argument) : Text :=
  "    " ++ (fn ++ '(' :: (dropSuffix "," (args.flatMap protoArg) ++ ");"))

def tryLines (fn : Text) (args : List Argument) : List Text :=
  ["  try\x7b", callLine fn args, "  \x7dcatch(Rcpp::exception& e)\x7b",
    "    std::cout<<\"Exception Handled\"<<std::endl;", "  \x7d"]

/-- All lines but the last, which closes the runner. -/
def generationLines (ranges : Ranges) (inputs unittest fn : Text) (args : List Argument) (prototype : Text) :
    List Text :=
  headerLines prototype ++ args.filterMap commentLine ++ inputsLines ranges args ++ printLines args ++
    testLines unittest ++ args.flatMap (dumpLines inputs) ++ tryLines fn args

/-- The last line. -/
def closingLine : Text := "\x7d"

/-- The harness after the user has given the ranges. -/
def editedHarness (ranges : Ranges) (inputs unittest fn : Text) (args : List Argument) (prototype : Text) : Text :=
  Text.unlines (generationLines ranges inputs unittest fn args prototype ++ [closingLine])

/-! ## Without ranges -/

section Unedited

variable {args : List Argument}

theorem editedLines_none {a : Argument} (hkey : ∃ d ∈ typesTable, a.key = d.ctype) :
    editedLines (fun _ => none) a = declarationLines a := by
  have hempty : rangeText (fun _ => none) a = [] := by
    unfold rangeText
    split
    · rfl
    · rfl
  have hindex : ("[0]= RcppDeepState_" : Text) = "[0]" ++ '=' :: " RcppDeepState_" := by with_unfolding_all decide
  have hequals : ("= RcppDeepState_" : Text) = '=' :: " RcppDeepState_" := by with_unfolding_all decide
  have hend : ("(); " : Text) = '(' :: "); " := by with_unfolding_all decide
  rw [declarationLines_eq hkey]
  unfold editedLines generatorLine assigned
  cases rtypeOf a.key with
  | none => simp only [hempty, hequals, hend, List.append_assoc, List.nil_append, List.cons_append]
  | some rtype => simp only [hempty, hindex, hend, List.append_assoc, List.nil_append, List.cons_append]

theorem unlines_macroLines (ls : List Text) (l : Text) :
    Text.unlines (macroLines (ls ++ [l])) = continued ls ++ (l ++ ['\n']) := by
  induction ls with
  | nil => simp [macroLines, continued]
  | cons x ls ih =>
    have hlines : macroLines (x :: ls ++ [l]) = (x ++ ['\\']) :: macroLines (ls ++ [l]) := by
      cases ls <;> rfl
    rw [hlines, Text.unlines_cons, ih]
    simp [continued]

/-- Dropping the last continuation makes the text of a macro. -/
theorem dropSuffix_continued {ls : List Text} (hne : ls ≠ []) :
    dropSuffix "\\\n" (continued ls) ++ ['\n'] = Text.unlines (macroLines ls) := by
  obtain ⟨ls, l, rfl⟩ := (List.eq_nil_or_concat ls).resolve_left hne
  have hslash : ("\\\n" : Text) = ['\\', '\n'] := by with_unfolding_all decide
  have hlast : continued [l] = l ++ ['\\', '\n'] := by simp [continued]
  rw [List.concat_eq_append, unlines_macroLines, continued_append, hlast, ← List.append_assoc, hslash, dropSuffix_append,
    List.append_assoc]

theorem unlines_inputsLines (hargs : ∀ a ∈ args, ∃ d ∈ typesTable, a.key = d.ctype) :
    Text.unlines (inputsLines (fun _ => none) args) = inputsText args ++ ['\n'] := by
  have hfirst : ("#define INPUTS \\\n" : Text) = ("#define INPUTS " : Text) ++ ['\\', '\n'] := by with_unfolding_all decide
  have htext : ("#define INPUTS \\\n" : Text) ++ args.flatMap variableText =
      continued (("#define INPUTS " : Text) :: args.flatMap declarationLines) := by
    rw [continued_flatMap, hfirst]
    simp [continued]
  have hlines : args.flatMap (editedLines fun _ => none) = args.flatMap declarationLines :=
    List.flatMap_congr fun a ha => editedLines_none (hargs a ha)
  rw [inputsLines, hlines, ← dropSuffix_continued (by simp), inputsText, htext]

theorem unlines_printLines (args : List Argument) :
    '\n' :: Text.unlines (printLines args) = printText args := by
  have hvalues : args.flatMap printValue = Text.unlines (args.map fun a => printLine a ++ ['\\']) := by
    induction args with
    | nil => rfl
    | cons a args ih => rw [List.flatMap_cons, ih, printValue_eq, List.map_cons, Text.unlines_cons]; simp [continued]
  have hstart : ("\n\n#define PRINT_INPUTS \\\n  std::cout << \"input starts\" << std::endl;\\\n" : Text) =
      '\n' :: Text.unlines ["", "#define PRINT_INPUTS \\", "  std::cout << \"input starts\" << std::endl;\\"] := by
    with_unfolding_all decide
  have hend : ("  std::cout << \"input ends\" << std::endl;\n" : Text) =
      Text.unlines ["  std::cout << \"input ends\" << std::endl;"] := by with_unfolding_all decide
  rw [printText, hvalues, hstart, hend, printLines, Text.unlines_append, Text.unlines_append, List.cons_append,
    List.cons_append]

theorem unlines_comments (args : List Argument) :
    Text.unlines (args.filterMap commentLine) = args.flatMap rangeComment := by
  induction args with
  | nil => rfl
  | cons a args ih =>
    rw [List.flatMap_cons, ← ih, rangeComment]
    unfold commentLine
    cases h : argsOf a.key with
    | none => simp [h]
    | some r => simp [h, Text.ofString_eq]

theorem unlines_dumpLines (inputs : Text) (args : List Argument) :
    Text.unlines (args.flatMap (dumpLines inputs)) = inputsDump inputs args := by
  unfold inputsDump
  induction args with
  | nil => rfl
  | cons a args ih =>
    rw [List.flatMap_cons, List.flatMap_cons, Text.unlines_append, ih]
    congr 1
    unfold dumpLines saveInputs
    split
    · simp [Text.ofString_eq]
    · simp [Text.ofString_eq]

theorem unlines_tryLines (fn : Text) (args : List Argument) : Text.unlines (tryLines fn args) =
    "  try\x7b\n    " ++ callText fn args ++
      "  \x7dcatch(Rcpp::exception& e)\x7b\n    std::cout<<\"Exception Handled\"<<std::endl;\n  \x7d" ++ ['\n'] := by
  simp [tryLines, callLine, callText, Text.ofString_eq]

/-- Without ranges the lines are those of the harness as it is written. -/
theorem editedHarness_none (hargs : ∀ a ∈ args, ∃ d ∈ typesTable, a.key = d.ctype) (inputs fn prototype : Text)
    (packagename : Option Text) :
    editedHarness (fun _ => none) inputs (unittest packagename) fn args prototype =
      harnessText inputs packagename fn .generation args prototype ++ ['\n'] := by
  have hheader : Text.unlines (headerLines prototype) =
      preambleText fn .generation ++ prototype ++ "\n\n" ++ "// RANGES CAN BE ADDED HERE\n" := by
    simp [headerLines, preambleText, headers, Sep.editable, Text.ofString_eq]
  have htests : Text.unlines (testLines (unittest packagename)) =
      testHeader (unittest packagename) "generator" ++ generatorBody ++ "\x7d" ++
        testHeader (unittest packagename) "runner" ++ "  INPUTS\n  PRINT_INPUTS\n" := by
    simp [testLines, testHeader, generatorBody, Text.ofString_eq]
  unfold editedHarness generationLines closingLine
  simp only [Text.unlines_append, hheader, unlines_comments, unlines_inputsLines hargs, htests,
    unlines_dumpLines, unlines_tryLines]
  have hcomment : generationComment .generation args = "// RANGES CAN BE ADDED HERE\n" ++ args.flatMap rangeComment := rfl
  have hassert : assertComment .generation = [] := rfl
  have hclose : ("\n\x7d" : Text) = '\n' :: "\x7d" := by with_unfolding_all decide
  rw [harnessText, ← unlines_printLines, hcomment, runnerBody, hassert, hclose]
  simp only [List.append_assoc, List.cons_append, List.nil_append, List.append_nil, Text.unlines_cons, Text.unlines_nil]

end Unedited

end RcppDeepState
