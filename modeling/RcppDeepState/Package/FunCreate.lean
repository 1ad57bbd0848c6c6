import RcppDeepState.Harness.Text
import RcppDeepState.Package.Makefile

/-!
# Creating the harness of a function

`deepstate_fun_create` checks the types of a function, creates its directory with an empty harness file,
has the makefile written, and fills the harness file last.
-/

namespace RcppDeepState

/-! ## get_package_name -/

def descriptionPath : Pathname := ["DESCRIPTION"]

/-- The first line that starts with `Package:`, less every `Package: `; `none` is NA. -/
def packageNameOf (description : Text) : Option Text :=
  (description.lines.find? fun l => decide (("Package:" : Text) <+: l)).map (Text.gsub "Package: " [])

def getPackageName (h : Host) : Program (Option Text) := do
  match readText (← files) descriptionPath with
  | none =>
      message (.noDescription h.packagePath)
      return none
  | some t => return packageNameOf t

/-! ## The tables -/

/-- The details of the exports file, and the argument table; a table without rows is the empty string,
in which no column can be replaced. -/
def readExports : Program (List Details × List ArgRow) := do
  match deepstateGetPackageDetails (readText (← files) rcppExportsPath) with
  | .error e => stop e
  | .ok details =>
      match deepstateGetFunctionBody details with
      | none => stop "$ operator is invalid for atomic vectors"
      | some rows => return (details, rows)

/-- `paste0` with the prototypes of a function: one text for each, or one without any. -/
def prototypesOf (details : List Details) (fn : Text) : List Text :=
  match ((deepstateGetPrototypeCalls details).filter (·.funName = fn)).map (·.prototype) with
  | [] => [[]]
  | ps => ps

/-! ## The files of a harness -/

/-- The makefile of an editable harness: the default one with the default harness replaced. -/
def makefileLines (h : Host) (fn : Text) (sep : Sep) (makefile : Text) : List Text :=
  makefile.lines.map (Text.gsub (h.file (executablePath fn .infun)) (h.file (executablePath fn sep)))

/-- The makefile of an editable harness is derived from the default one, which goes. -/
def deriveMakefile (h : Host) (installed : Installation) (fn : Text) (sep : Sep) : Program Unit := do
  if (← files).fileExists (makefilePath fn .infun) then
    onFiles (copyFile · (makefilePath fn .infun) (makefilePath fn sep))
  else
    deepstateCreateMakefile h installed fn
  let makefile := (readText (← files) (makefilePath fn .infun)).getD []
  onFiles (·.write (makefilePath fn sep) (.text (Text.unlines (makefileLines h fn sep makefile))))
  onFiles (·.unlink (makefilePath fn .infun))
  onFiles (·.mkdir (outputDir fn sep))

def makefileStep (h : Host) (installed : Installation) (fn : Text) (sep : Sep) : Program Unit :=
  if sep.editable then deriveMakefile h installed fn sep else deepstateCreateMakefile h installed fn

/-- The loop over the arguments and the final write. Without arguments the loop runs over `1:0`, makes
the inputs directory and stops at the comparison of a missing type. -/
def fillHarness (h : Host) (packagename : Option Text) (fn : Text) (sep : Sep) (args : List Argument)
    (prototypes : List Text) : Program (Option Text) := do
  onFiles (·.mkdir (inputsPath fn))
  if args = [] then
    stop "missing value where TRUE/FALSE needed"
  else
    onFiles (appendText · (harnessPath fn sep)
      (prototypes.map (harnessText (h.file (inputsPath fn)) packagename fn sep args)))
    return some (harnessFile fn sep)

/-- The empty file, its makefile, and the text. -/
def createHarness (h : Host) (installed : Installation) (packagename : Option Text) (fn : Text) (sep : Sep)
    (args : List Argument) (prototypes : List Text) : Program (Option Text) := do
  onFiles (·.mkdirs (funPath fn))
  onFiles (·.write (harnessPath fn sep) (.text []))
  makefileStep h installed fn sep
  fillHarness h packagename fn sep args prototypes

/-! ## deepstate_fun_create -/

/-- The name of the harness file; `none` is NA. `installed` is the outcome of an installation, should the
call need one. -/
def deepstateFunCreate (h : Host) (installed : Installation) (fn : Text) (sep : Sep) : Program (Option Text) := do
  let packagename ← getPackageName h
  let (details, rows) ← readExports
  let args := argumentsOf rows fn
  if (← files).fileExists (harnessPath fn sep) then
    deepstateCreateMakefile h installed fn
    message (.harnessExists fn)
    return some (harnessFile fn sep)
  else if unsupportedTypes args ≠ [] then
    message (.unsupportedTypes fn (unsupportedTypes args))
    return none
  else
    createHarness h installed packagename fn sep args (prototypesOf details fn)

/-- Both editable harnesses; the outcomes are those of the two calls. -/
def deepstateEditableFun (h : Host) (installed installed' : Installation) (fn : Text) :
    Program (Option Text × Option Text) := do
  let gen ← deepstateFunCreate h installed fn .generation
  let chk ← deepstateFunCreate h installed' fn .checks
  return (gen, chk)

end RcppDeepState
