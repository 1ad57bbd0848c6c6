import RcppDeepState.Package.FunCreate

/-!
# Creating the harnesses of a package

`deepstate_pkg_create` cleans the function directories, has the exports file written, and creates the
default harness of every function in the argument table.
-/

namespace RcppDeepState

/-- What the rest of the machine does during a call: whether the DeepState libraries are there, what
`compileAttributes` writes (`exports` is `none` when it stops; a package without an R side has no wrappers, one
without a C++ interface no headers), and how an installation for a function ends. -/
structure PkgOutcome where
  deepstateBuilt : Bool
  exports : Option Text
  wrappers : Option Text
  headers : List (Text × Text)
  installed : Text → Installation

/-! ## The function directories -/

/-- Delete everything in the directory of a function but its default harness, when it has one. `unlink` reads the
names as patterns; here a name is taken to fit nothing but itself. -/
def cleanFunction (fs : FileSystem Content) (fn : Text) : FileSystem Content :=
  if fs.fileExists (harnessPath fn .infun) then
    let deleteContent := (fs.listFiles (funPath fn)).filter (· ≠ harnessFile fn .infun)
    fs.remove fun p => deleteContent.any fun n => (funPath fn ++ [n]).isPrefixOf p
  else fs

def prepareTestfiles (fs : FileSystem Content) : FileSystem Content :=
  if fs.dirExists testPath then (fs.listFiles testPath).foldl cleanFunction fs else fs.mkdirs testPath

def wrappersPath : Pathname := ["R", "RcppExports.R"]

def includePath : Pathname := ["inst", "include"]

/-- What `compileAttributes` writes beside the exports file. -/
def PkgOutcome.writeInterfaces (o : PkgOutcome) (fs : FileSystem Content) : FileSystem Content :=
  let fs := o.wrappers.elim fs fun t => (fs.mkdir ["R"]).write wrappersPath (.text t)
  if o.headers = [] then fs
  else o.headers.foldl (fun fs e => fs.write (includePath ++ [e.1]) (.text e.2)) (fs.mkdirs includePath)

def compileAttributes (o : PkgOutcome) : Program Unit := do
  record .compileAttributes
  match o.exports with
  | some t =>
      onFiles o.writeInterfaces
      onFiles (·.write rcppExportsPath (.text t))
  | none => stop "compileAttributes"

/-! ## The loop over the functions -/

structure Tally where
  matchCount : Nat
  mismatchCount : Nat
  harness : List Text
  failedHarness : List Text

def Tally.empty : Tally := ⟨0, 0, [], []⟩

def basename (t : Text) : Text := (t.reverse.takeWhile (· ≠ '/')).reverse

def createOne (h : Host) (installed : Text → Installation) (t : Tally) (fn : Text) : Program Tally := do
  let filepath ← deepstateFunCreate h (installed fn) fn .infun
  if filepath.map basename = some (harnessFile fn .infun) then
    return { t with matchCount := t.matchCount + 1, harness := t.harness ++ [harnessFile fn .infun] }
  else
    return { t with mismatchCount := t.mismatchCount + 1, failedHarness := t.failedHarness ++ [fn] }

/-! ## The report -/

def reportTally (functions : Nat) (t : Tally) : Program (List Text) := do
  if 0 < t.matchCount ∧ t.matchCount = functions then
    message (.created t.matchCount)
    return t.harness
  else if t.mismatchCount < functions ∧ t.failedHarness ≠ [] ∧ t.matchCount ≠ 0 then
    message (.failed t.mismatchCount t.failedHarness)
    message (.created t.matchCount)
    return t.harness
  else if t.mismatchCount = functions then
    stop "Testharnesses cannot be created for the package"
  else
    return []

/-- `unique(functions.list$funName)` -/
def tableNames (rows : List ArgRow) : List Text := (rows.map (·.funName)).eraseDups

/-- The table of the exports file as the package function reads it. -/
def readFunctions : Program (List ArgRow) := do
  match deepstateGetPackageDetails (readText (← files) rcppExportsPath) with
  | .error e => stop e
  | .ok details =>
      match deepstateGetFunctionBody details with
      | none => stop "No Rcpp function to test in the package"
      | some rows => return rows

/-- The names of the harness files that are there at the end. -/
def deepstatePkgCreate (h : Host) (o : PkgOutcome) : Program (List Text) := do
  onFiles prepareTestfiles
  if !o.deepstateBuilt then record .makeRun
  compileAttributes o
  let rows ← readFunctions
  let t ← (tableNames rows).foldlM (createOne h o.installed) Tally.empty
  reportTally (tableNames rows).length t

end RcppDeepState
