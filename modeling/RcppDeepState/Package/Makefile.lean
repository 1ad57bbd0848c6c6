import RcppDeepState.Package.World

/-!
# The makefile of a function

`deepstate_create_makefile` builds the shared object of the package when there is none and writes a
makefile with one rule for the executable and one for the object file.
-/

namespace RcppDeepState

/-! ## Its text -/

def ldflag (path : Text) : Text := "-L" ++ path ++ " -Wl,-rpath=" ++ path

def genRule (targets prerequisites recipe : Text) : Text :=
  targets ++ " : " ++ prerequisites ++ "\n\t" ++ recipe ++ "\n"

def deepstatePath : Text := "${HOME}/.RcppDeepState/deepstate-master"

def cppflags (h : Host) : List Text :=
  [h.rcppInclude, h.rcppdeepstateInclude, h.rcpparmadilloInclude, h.rinsideInclude,
    deepstatePath ++ "/build", deepstatePath ++ "/src/include", h.qsInclude, "${R_INCLUDE}"]

def ldflags (h : Host) : List Text :=
  [ldflag h.rinsideLib, ldflag "${R_LIB}", ldflag (deepstatePath ++ "/build")]

/-- The rules for a harness with that path, less its extension. -/
def objRule (harness : Text) : Text :=
  genRule (harness ++ ".o") (harness ++ ".cpp")
    ("clang++ -g -gdwarf-4 -c  ${CPPFLAGS} " ++ harness ++ ".cpp -o " ++ harness ++ ".o")

def exeRule (sharedObjects harness : Text) : Text :=
  genRule harness (harness ++ ".o")
    ("clang++ -g -gdwarf-4 " ++ harness ++ ".o ${CPPFLAGS}  ${LDFLAGS}  ${LDLIBS} " ++ sharedObjects ++
      " -o " ++ harness)

def makefileText (h : Host) (harness : Text) : Text :=
  Text.join "\n" ["R_HOME=" ++ h.rHome, "R_INCLUDE=" ++ h.rInclude, "R_LIB=" ++ h.rLib, "\n",
    "CPPFLAGS=" ++ Text.join " " ((cppflags h).map fun f => ("-I" : Text) ++ f),
    "LDFLAGS=" ++ Text.join " " (ldflags h), "LDLIBS=-lR -lRInside -ldeepstate", "\n",
    exeRule (h.packagePath ++ "/src/*.so") harness, objRule harness]

/-! ## deepstate_create_makefile -/

def makevarsPath : Pathname := ["src", "Makevars"]

def sharedObjectPath (h : Host) : Pathname := ["src", h.library ++ ".so"]

/-- `Sys.glob` of `src/*.so` -/
def sharedObjects (h : Host) (fs : FileSystem Content) : List Text :=
  (sysGlob h fs ["src"]).filter fun n => decide ((".so" : Text) <:+ n)

def sharedObjectError : Text :=
  "The shared object for your package cannot be generated. This is probably caused by a missing dependency. Please install all the dependencies for your package."

/-- What `install.packages` leaves in `src`: the object files of the package, and the shared object when it is
built. -/
structure Installation where
  objects : List (Text × Content)
  objects_ok : ∀ e ∈ objects, (".o" : Text) <:+ e.1
  builds : Bool

def Installation.leaveObjects (i : Installation) (fs : FileSystem Content) : FileSystem Content :=
  i.objects.foldl (fun fs e => fs.write ["src", e.1] e.2) fs

def Installation.leave (i : Installation) (h : Host) (fs : FileSystem Content) : FileSystem Content :=
  if i.builds then (i.leaveObjects fs).write (sharedObjectPath h) .sharedObject else i.leaveObjects fs

def installPackage (h : Host) (installed : Installation) : Program Unit := do
  record .install
  onFiles (installed.leave h)

def ensureSharedObject (h : Host) (installed : Installation) : Program Unit := do
  if sharedObjects h (← files) = [] then
    if (← files).dirExists ["src"] then
      onFiles (appendText · makevarsPath ["\nPKG_CXXFLAGS += -g \n"])
    installPackage h installed
    if sharedObjects h (← files) = [] then stop sharedObjectError

/-- The directories and the makefile of a function. -/
def writeMakefile (h : Host) (fn : Text) : Program Unit := do
  onFiles (·.mkdirs (outputDir fn .infun))
  onFiles (·.mkdir (inputsPath fn))
  onFiles (·.write (makefilePath fn .infun)
    (.text (Text.unlines [makefileText h (h.file (executablePath fn .infun))])))

def deepstateCreateMakefile (h : Host) (installed : Installation) (fn : Text) : Program Unit := do
  ensureSharedObject h installed
  writeMakefile h fn

end RcppDeepState
