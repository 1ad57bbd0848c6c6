import RcppDeepState.Exports.Details

/-!
# The file Rcpp::compileAttributes writes

The text of `RcppExports.cpp` for a list of exported functions, line by line.
-/

namespace RcppDeepState

def isIdentChar (c : Char) : Bool := c.isAlphanum || c = '_'

/-- A C++ identifier. -/
structure Identifier (n : Text) : Prop where
  ne_nil : n ≠ []
  chars : ∀ c ∈ n, isIdentChar c = true
  head : ∀ c, n.head? = some c → c.isDigit = false

/-- A type on one line that the patterns can tell from the text around it. -/
structure TypeText (t : Text) : Prop where
  ne_nil : t ≠ []
  line : t.OneLine
  paren : '(' ∉ t
  marker : ¬ (">::type" : Text) <:+: t

theorem TypeText.newline {t : Text} (h : TypeText t) : '\n' ∉ t := h.line.1

structure Param where
  type : Text
  name : Text
  type_ok : TypeText type
  name_ok : Identifier name

/-- An exported function; `rng` is the attribute that keeps the random number generator scope. -/
structure Export where
  returnType : Text
  name : Text
  params : List Param
  rng : Bool
  returnType_ok : TypeText returnType
  name_ok : Identifier name

def Param.line (p : Param) : Text :=
  "    Rcpp::traits::input_parameter< " ++ p.type ++ " >::type " ++ p.name ++ "(" ++ p.name ++ "SEXP);"

namespace Export

def arguments (e : Export) : Text := Text.join ", " (e.params.map fun p => p.type ++ " " ++ p.name)

def prototype (e : Export) : Text := e.returnType ++ " " ++ e.name ++ "(" ++ e.arguments ++ ");"

def sexpParams (e : Export) : Text := Text.join ", " (e.params.map fun p => "SEXP " ++ p.name ++ "SEXP")

/-- The signature of the wrapper; `symbol` is the package name as it occurs in C++ names. -/
def sexp (symbol : Text) (e : Export) : Text :=
  "RcppExport SEXP _" ++ symbol ++ "_" ++ e.name ++ "(" ++ e.sexpParams ++ ") \x7b"

def call (e : Export) : Text := e.name ++ "(" ++ Text.join ", " (e.params.map (·.name)) ++ ")"

def isVoid (e : Export) : Bool := e.returnType = "void"

def openingLines (e : Export) : List Text :=
  (if e.isVoid then [] else [("    Rcpp::RObject rcpp_result_gen;" : Text)]) ++
    (if e.rng then [("    Rcpp::RNGScope rcpp_rngScope_gen;" : Text)] else [])

def callLines (e : Export) : List Text :=
  if e.isVoid then ["    " ++ e.call ++ ";", "    return R_NilValue;"]
  else ["    rcpp_result_gen = Rcpp::wrap(" ++ e.call ++ ");", "    return rcpp_result_gen;"]

/-- The lines between `BEGIN_RCPP` and `END_RCPP`. -/
def codeLines (e : Export) : List Text := e.openingLines ++ e.params.map Param.line ++ e.callLines

def blockLines (symbol : Text) (e : Export) : List Text :=
  ["// " ++ e.name, e.prototype, e.sexp symbol, "BEGIN_RCPP"] ++ e.codeLines ++
    ([("END_RCPP" : Text), "\x7d"] : List Text)

end Export

/-- What `compileAttributes` writes around the functions: includes and declarations before them, the
registration table after them. None of these lines is a comment. -/
structure ExportsFile where
  preamble : List Text
  symbol : Text
  exports : List Export
  trailer : List Text
  preamble_ok : ∀ l ∈ preamble, l.OneLine ∧ ¬ ("// " : Text) <:+: l
  symbol_ok : ∀ c ∈ symbol, isIdentChar c = true
  names_nodup : (exports.map (·.name)).Nodup
  trailer_ok : ∀ l ∈ trailer, l.OneLine ∧ ¬ ("// " : Text) <:+: l

namespace ExportsFile

def headerLines (f : ExportsFile) : List Text :=
  [("// Generated by using Rcpp::compileAttributes() -> do not edit by hand" : Text),
    "// Generator token: 10BE3573-1514-4C36-9D1C-5A225CD40393", ""] ++ f.preamble ++ [[]]

def fileLines (f : ExportsFile) : List Text :=
  f.headerLines ++ f.exports.flatMap (·.blockLines f.symbol) ++ f.trailer

/-- The contents of the file. -/
def text (f : ExportsFile) : Text := Text.unlines f.fileLines

end ExportsFile

end RcppDeepState
