import RcppDeepState.Exports.Details

/-!
# The supported types

The table of types `deepstate_fun_create` looks parameter types up in, and what it strips from them.
-/

namespace RcppDeepState

/-- One row of `types_table`; `none` is NA. -/
structure Datatype where
  ctype : Text
  rtype : Option Text
  args : Option Text
  deriving DecidableEq

def typesTable : List Datatype :=
  [⟨"int", some "IntegerVector", some "(low,high)"⟩,
    ⟨"double", some "NumericVector", some "(low,high)"⟩,
    ⟨"string", some "CharacterVector", none⟩,
    ⟨"NumericVector", none, some "(size,low,high)"⟩,
    ⟨"IntegerVector", none, some "(size,low,high)"⟩,
    ⟨"NumericMatrix", none, some "(row,column,low,high)"⟩,
    ⟨"IntegerMatrix", none, some "(row,column,low,high)"⟩,
    ⟨"CharacterVector", none, none⟩,
    ⟨"mat", none, none⟩,
    ⟨"char", some "CharacterVector", none⟩,
    ⟨"float", some "NumericVector", some "(low,high)"⟩]

/-- `types_table[type.arg]` -/
def lookupType (t : Text) : Option Datatype := typesTable.find? (·.ctype = t)

def rtypeOf (t : Text) : Option Text := (lookupType t).bind (·.rtype)

def argsOf (t : Text) : Option Text := (lookupType t).bind (·.args)

def supported (t : Text) : Bool := typesTable.any (·.ctype = t)

/-! ## Normalisation -/

def stripBlanks (t : Text) : Text := Text.gsub " " [] t

def stripRcpp (t : Text) : Text := Text.gsub "Rcpp::" [] t

/-- The substitutions that turn a type without blanks into a key of `types_table`. -/
def stripQualifiers (t : Text) : Text :=
  Text.gsub "std::" [] (Text.gsub "arma::" [] (stripRcpp (Text.gsub "const" [] t)))

/-- An argument as `deepstate_fun_create` reads it from a row of the argument table. -/
structure Argument where
  type : Text
  name : Text
  deriving DecidableEq

/-- The column is stripped of `Rcpp::` before anything else. -/
def Argument.ofRow (r : ArgRow) : Argument where
  type := stripBlanks (stripRcpp r.argumentType)
  name := stripBlanks r.argumentName

/-- The key of the argument's type. -/
def Argument.key (a : Argument) : Text := stripQualifiers a.type

/-- The arguments of one function, in the order of the table. -/
def argumentsOf (rows : List ArgRow) (fn : Text) : List Argument :=
  (rows.filter (·.funName = fn)).map Argument.ofRow

/-- The types that fall out of the table. -/
def unsupportedTypes (args : List Argument) : List Text :=
  (args.map Argument.key).filter (!supported ·)

end RcppDeepState
