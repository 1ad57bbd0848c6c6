import RcppDeepState.Library.Regex

/-!
# Reading RcppExports.cpp

`deepstate_get_package_details` matches one pattern over the whole file; the argument table and the
prototype table are read from the columns it captures, grouped by function name.
-/

namespace RcppDeepState

/-- One row of `deepstate_get_package_details`. -/
structure Details where
  commentName : Text
  prototype : Text
  returnType : Text
  funName : Text
  arguments : Text
  SEXP : Text
  code : Text
  deriving DecidableEq

/-- One row of `deepstate_get_function_body`. -/
structure ArgRow where
  funName : Text
  argumentType : Text
  argumentName : Text
  deriving DecidableEq

/-- One row of `deepstate_get_prototype_calls`; `none` is NA. -/
structure PrototypeRow where
  funName : Text
  prototype : Text
  calls : Option Text
  deriving DecidableEq

/-! ## Patterns -/

def isSpace (c : Char) : Bool :=
  c = ' ' || c = '\n' || c = '\t' || c = '\r' || c = '\x0b' || c = '\x0c'

open Regex

/-- `.*` -/
def anyText : Regex := star true dot

/-- `\s*` -/
def spaces : Regex := star true (set isSpace)

def prototypePattern : Regex :=
  cat [group "returnType" anyText, lit " ", group "funName" (star false dot), lit "(",
    group "arguments" anyText, lit ");"]

def packageDetailsPattern : Regex :=
  cat [lit "\n", spaces, lit "// ", group "commentName" anyText, lit "\n",
    group "prototype" prototypePattern, lit "\n",
    group "SEXP" (cat [anyText, lit "\n"]), spaces, lit "BEGIN_RCPP", spaces, lit "\n",
    group "code" (star false (cat [anyText, lit "\n"])), spaces, lit "END_RCPP"]

def argumentPattern : Regex :=
  cat [lit "input_parameter< ", group "argument.type" (star false dot), lit ">::type",
    group "argument.name" (cat [set (· != '('), star true (set (· != '('))])]

def callsPattern : Regex := cat [lit "::wrap", group "calls" anyText]

def captured (name : Text) (c : Captures) : Text := (c.lookup name).getD []

/-! ## Tables -/

def Details.ofCaptures (c : Captures) : Details where
  commentName := captured "commentName" c
  prototype := captured "prototype" c
  returnType := captured "returnType" c
  funName := captured "funName" c
  arguments := captured "arguments" c
  SEXP := captured "SEXP" c
  code := captured "code" c

/-- The rows for a file with those contents, or the message of `stop` when there is no file. -/
def deepstateGetPackageDetails (rcppExports : Option Text) : Except Text (List Details) :=
  match rcppExports with
  | none => .error "pkgdir must refer to the directory containing an R package"
  | some t => .ok ((packageDetailsPattern.findAll (Text.join "\n" t.lines)).map Details.ofCaptures)

/-- The groups of `by=funName`, in order of first appearance. -/
def funNames (funs : List Details) : List Text := (funs.map (·.funName)).eraseDups

/-- The subject of the capture in one group: the `code` column of the group. -/
def groupCode (funs : List Details) (name : Text) : Text :=
  Text.join "\n" ((funs.filter (·.funName = name)).map (·.code))

/-- `none` is the empty string the function returns for a package without exports. -/
def deepstateGetFunctionBody (funs : List Details) : Option (List ArgRow) :=
  if funs = [] then none else
    some ((funNames funs).flatMap fun name =>
      (argumentPattern.findAll (groupCode funs name)).map fun c =>
        ⟨name, captured "argument.type" c, captured "argument.name" c⟩)

/-- The `calls` column has one entry for every match; the shorter columns are recycled over the rows. -/
def deepstateGetPrototypeCalls (funs : List Details) : List PrototypeRow :=
  let codes := (funNames funs).flatMap fun name =>
    (callsPattern.findAll (groupCode funs name)).map (captured "calls")
  (List.range (max funs.length codes.length)).filterMap fun i =>
    funs[i % funs.length]?.map fun d => ⟨d.funName, d.prototype, codes[i % codes.length]?⟩

end RcppDeepState
