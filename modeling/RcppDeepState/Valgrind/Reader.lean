import RcppDeepState.Library.Ere
import RcppDeepState.Library.Regex
import RcppDeepState.Library.Xml

/-!
# Reading a valgrind log

`deepstate_read_valgrind_xml` looks for the frames of a stack that lie in the source directory of the
package, and pairs every stack of an error with the address of the error.
-/

namespace RcppDeepState

/-- One row of the table; `none` is NA. -/
structure LogRow where
  errKind : Option Text
  message : Option Text
  fileLine : Text
  addressMsg : Text
  addressTrace : Option Text
  deriving DecidableEq

def noAddressTrace : Text := "No Address Trace found"

def noAddress : Text := "No Address found"

/-! ## Queries -/

/-- The serialised contents of the first child of a name; empty without such a child. -/
def getString (node : Xml) (child : Text) : List Text :=
  match node.child? child with
  | some c => c.children.map Xml.serialize
  | none => []

/-- What is used of the package xml2: its parser, and what it makes of `.//dir[text()='src']` below a node when
a quote in `src` ends the literal early. Such an expression is invalid, or it means something else. -/
structure Xml2 where
  read : Text → Option Xml
  quoted : Text → Xml → Except Text (List (Xml × Xml))

/-- A parser whose library takes no expression with a broken literal. -/
def Xml2.ofParser (read : Text → Option Xml) : Xml2 := ⟨read, fun _ _ => .error "xmlXPathEval: evaluation failed"⟩

/-- `src.dir.xpath`: the frames of a directory, or the files whose path has `src/` in it. A directory with a
quote gives an expression of its own. -/
inductive SourceXPath
  | dir (src : Text)
  | quoted (find : Xml → Except Text (List (Xml × Xml)))
  | file

/-- The expression that the name of a directory is pasted into. -/
def Xml2.dirXPath (xml2 : Xml2) (src : Text) : SourceXPath :=
  if '\'' ∈ src then .quoted (xml2.quoted src) else .dir src

/-- The nodes an expression finds, with their parents. -/
def SourceXPath.find (x : SourceXPath) (node : Xml) : Except Text (List (Xml × Xml)) :=
  match x with
  | .dir src => .ok ((node.findPairs "dir").filter fun p => decide (src ∈ p.2.textChildren))
  | .quoted find => find node
  | .file =>
      .ok ((node.findPairs "file").filter fun p =>
        decide (("src/" : Text) <:+: (p.2.textChildren.headD [])))

/-- `stack.trace` -/
def stackTrace (x : SourceXPath) (stack : Xml) : Except Text (Option Text) := do
  let found ← x.find stack
  match found.head? with
  | none => return none
  | some (frame, _) =>
      match getString frame "file", getString frame "line" with
      | file :: _, line :: _ => return some (file ++ " : " ++ line)
      | _, _ => return none

/-- The values of `address.trace`: the text `stack`, NULL, and NA. -/
inductive AddressTrace
  | stack
  | null
  | na
  deriving DecidableEq

/-- What follows the first `auxwhat` among the children of an error. -/
def addressTrace (err : Xml) : AddressTrace :=
  match (err.children.map Xml.name?).dropWhile (· ≠ some ("auxwhat" : Text)) with
  | [] => .na
  | _ :: rest => if rest.head? = some (some ("stack" : Text)) then .stack else .null

/-! ## The rows of an error -/

/-- The message of an error, one text for every row it gives a stack. -/
def errorMessages (err : Xml) : List (Option Text) :=
  let texts :=
    if getString err "xwhat" ≠ [] then
      ((err.findAll "xwhat").flatMap (Xml.findAll "text")).map Xml.textContent
    else getString err "what"
  if texts = [] then [none] else texts.map some

/-- The address of an error, its trace, and the stacks that are left to search. -/
def errorAddress (x : SourceXPath) (err : Xml) : Except Text (Text × Option Text × List Xml) := do
  let nodes := err.findAll "stack"
  match (err.findAll "auxwhat").head? with
  | none => return (noAddress, some noAddressTrace, nodes)
  | some aux =>
      match addressTrace err, nodes.getLast? with
      | .na, _ => .error "missing value where TRUE/FALSE needed"
      | .stack, some last => return (aux.textContent, ← stackTrace x last, nodes.dropLast)
      | _, _ => return (aux.textContent, some noAddressTrace, nodes)

def stackRows (x : SourceXPath) (err : Xml) (address : Text) (trace : Option Text) (stack : Xml) :
    Except Text (List LogRow) := do
  match ← stackTrace x stack with
  | none => return []
  | some ret =>
      return (errorMessages err).map fun msg => ⟨(getString err "kind").head?, msg, ret, address, trace⟩

def errorRows (x : SourceXPath) (err : Xml) : Except Text (List LogRow) := do
  let (address, trace, nodes) ← errorAddress x err
  return (← nodes.mapM (stackRows x err address trace)).flatten

/-! ## deepstate_read_valgrind_xml -/

def closingTag : Text := "</valgrindoutput>"

/-- The lines that are parsed: of several closing lines the first is dropped. -/
def parsedLines (lines : List Text) : List Text :=
  let isClosing := fun l => decide (closingTag <:+: l)
  if 1 < (lines.filter isClosing).length then lines.eraseP isClosing else lines

open Regex in
def xmlFilePattern : Regex :=
  cat [lit "--xml-file=", group "file" (star true dot), lit "/inst/testfiles/", star true dot]

/-- The directory of the sources, from the argument that names the log file. -/
def sourceDir (tree : Xml) : Except Text Text :=
  let logs := ((tree.findAll "arg").filter fun a =>
    decide (("--xml-file" : Text) <:+: (a.textChildren.headD []))).map Xml.textContent
  match logs.head? with
  | none => .error "subject must be a character vector with at least one element"
  | some log =>
      match xmlFilePattern.search log with
      | none => .error "subject did not match regex"
      | some (c, _) => .ok ((c.lookup ("file" : Text)).getD [] ++ "/src")

/-- How frames are recognised; `none` when neither the directory nor a path below `src/` occurs. -/
def sourceXPath (xml2 : Xml2) (src : Text) (lines : List Text) : Except Text (Option SourceXPath) :=
  match Ere.grep src lines with
  | none => .error "invalid regular expression"
  | some found =>
      if found ≠ [] then .ok (some (xml2.dirXPath src))
      else if lines.any fun l => decide (("<file>src/" : Text) <:+: l) then .ok (some .file)
      else .ok none

/-- The table for the contents of a log, `none` for NULL. -/
def deepstateReadValgrindXml (xml2 : Xml2) (log : Text) :
    Except Text (Option (List LogRow)) := do
  match xml2.read (Text.join "\n" (parsedLines log.lines)) with
  | none => .error "the log is not well formed"
  | some tree =>
      match ← sourceXPath xml2 (← sourceDir tree) log.lines with
      | none => return some []
      | some x =>
          let rows := (← (tree.findAll "error").mapM (errorRows x)).flatten
          return if rows = [] then none else some rows.eraseDups

/-- A log without errors. -/
def sampleLog : Xml :=
  .elem "valgrindoutput" [.elem "args" [.elem "argv"
    [.elem "arg" [.text "--xml-file=/home/user/pkg/inst/testfiles/f/f_output/log_0a/valgrind_log"]]]]

end RcppDeepState
