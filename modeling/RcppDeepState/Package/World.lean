import RcppDeepState.Library.Command
import RcppDeepState.Library.FileSystem
import RcppDeepState.Library.Glob
import RcppDeepState.Exports.Details

/-!
# The package under test

The files of a package, the names the functions give to files, and the events that leave the package.
Paths are relative to the package directory.
-/

namespace RcppDeepState

/-! ## State -/

/-- What a file holds. Objects and executables remember the harness text they were compiled from. -/
inductive Content
  | text (t : Text)
  | object (source : Text)
  | executable (source : Text)
  | sharedObject
  | testCase (bytes : Text)
  | qs (value : Text)
  deriving DecidableEq

/-- The messages of the functions. -/
inductive Message
  | noDescription (packagePath : Text)
  | harnessExists (fn : Text)
  | unsupportedTypes (fn : Text) (types : List Text)
  | failed (count : Nat) (functions : List Text)
  | created (count : Nat)
  | uncompiled (functions : List Text)
  | compiling (line : Text)
  | running (line : Text)
  | noBinFiles (fn : Text)
  | noBinaryFile (file : Text)
  | noTestfiles
  | noHarness (package : Text)
  | missingRange (val type : Text)
  | noAsserts
  deriving DecidableEq

def Message.text : Message → Text
  | .noDescription path =>
      "ERROR: " ++ path ++ " doesn't contain a valid package with a DESCRIPTION file"
  | .harnessExists fn =>
      "Test harness already exists for the function - " ++ fn ++ " - using the existing one\n"
  | .unsupportedTypes fn types =>
      "We can't test the function - " ++ fn ++
        " - due to the following datatypes falling out of the allowed ones: " ++ Text.join "," types ++ "\n"
  | .failed count functions =>
      "Failed to create testharness for " ++ Text.ofNat count ++ " functions in the package - " ++
        Text.join ", " functions
  | .created count => "Testharness created for " ++ Text.ofNat count ++ " functions in the package\n"
  | .uncompiled functions => "Uncompiled functions : " ++ Text.join ", " functions ++ "\n"
  | .compiling line => "compiling .. \n" ++ line ++ "\n"
  | .running line => "running the executable .. \n" ++ line ++ "\n"
  | .noBinFiles fn => "No bin files exists for function " ++ fn
  | .noBinaryFile file => "Provided binary file doesn't exists for " ++ file
  | .noTestfiles => "Please make a call to deepstate_harness_compile_run()"
  | .noHarness package => "Testharness doesn't exists for package " ++ package ++ "\n:"
  | .missingRange val type => "The following range has not been specified:\n" ++ val ++ " : " ++ type
  | .noAsserts => "No asserts are specified you still want to continue?"

/-- `run` and `replay` carry the executable the shell found, as the text it was compiled from. -/
inductive Event
  | message (m : Message)
  | system (command : Text)
  | install
  | makeRun
  | compileAttributes
  | run (executable : Option Text)
  | replay (file : Pathname) (executable : Option Text)
  deriving DecidableEq

structure World where
  fs : FileSystem Content
  log : List Event

/-- An R function: it returns, or stops with a message. -/
abbrev Program := EStateM Text World

def files : Program (FileSystem Content) := do return (← get).fs

def onFiles (f : FileSystem Content → FileSystem Content) : Program Unit :=
  modify fun w => { w with fs := f w.fs }

def record (e : Event) : Program Unit := modify fun w => { w with log := w.log ++ [e] }

def message (m : Message) : Program Unit := record (.message m)

def stop {α : Type} (t : Text) : Program α := throw t

def readText (fs : FileSystem Content) (p : Pathname) : Option Text :=
  match fs.read p with
  | some (.text t) => some t
  | _ => none

/-- `write(x, file, append=TRUE)`: every element and a line feed behind what the file holds. -/
def appendText (fs : FileSystem Content) (p : Pathname) (x : List Text) : FileSystem Content :=
  fs.write p (.text ((readText fs p).getD [] ++ Text.unlines x))

/-- `file.copy`, which leaves a file that exists alone. -/
def copyFile (fs : FileSystem Content) (p q : Pathname) : FileSystem Content :=
  match fs.read p with
  | some c => if fs.fileExists q then fs else fs.write q c
  | none => fs

/-! ## The host -/

/-- The package path and the paths of the toolchain that the functions paste into what they write. -/
structure Host where
  packagePath : Text
  rHome : Text
  rInclude : Text
  rLib : Text
  rcppInclude : Text
  rcppdeepstateInclude : Text
  rcpparmadilloInclude : Text
  rinsideInclude : Text
  qsInclude : Text
  rinsideLib : Text
  /-- The name of the shared object that installing the package leaves in `src`, without `.so`. -/
  library : Text
  library_ok : ∃ c s, library = c :: s ∧ c ≠ '.'
  verbose : Bool

/-- `file.path(package_path, ...)` -/
def Host.file (h : Host) (p : Pathname) : Text := h.packagePath ++ p.flatMap fun c => ("/" : Text) ++ c

/-- `Sys.glob` reads the whole path as a pattern: it finds the files of a directory when every name on the way fits
itself. No other directory of the machine has a path that fits the pattern. -/
def Host.globs (h : Host) (d : Pathname) : Bool := (h.packagePath.splitOn '/' ++ d).all Glob.fitsItself

/-- `Sys.glob(file.path(d, "*"))`, as names in the directory. -/
def sysGlob (h : Host) (fs : FileSystem Content) (d : Pathname) : List Text :=
  if h.globs d then fs.listFiles d else []

section Globs

variable {h : Host} {fs fs' : FileSystem Content} {d d' : Pathname} {n : Text}

theorem Host.globs_iff : h.globs d = true ↔
    (∀ c ∈ h.packagePath.splitOn '/', Glob.fitsItself c = true) ∧ ∀ c ∈ d, Glob.fitsItself c = true := by
  rw [Host.globs, List.all_eq_true, List.forall_mem_append]

theorem Host.globs_of_subset (hg : h.globs d = true) (hsub : ∀ c ∈ d', c ∈ d ∨ Glob.fitsItself c = true) :
    h.globs d' = true := by
  rw [Host.globs_iff] at hg ⊢
  exact ⟨hg.1, fun c hc => (hsub c hc).elim (hg.2 c) id⟩

theorem sysGlob_of_globs (hg : h.globs d = true) (fs : FileSystem Content) : sysGlob h fs d = fs.listFiles d :=
  if_pos hg

theorem sysGlob_of_not_globs (hg : h.globs d = false) (fs : FileSystem Content) : sysGlob h fs d = [] := by
  rw [sysGlob, hg, if_neg Bool.false_ne_true]

theorem mem_sysGlob : n ∈ sysGlob h fs d ↔
    h.globs d = true ∧ fs.fileExists (d ++ [n]) = true ∧ n.head? ≠ some '.' := by
  rw [sysGlob]
  split
  · rename_i hg
    rw [FileSystem.mem_listFiles, and_iff_right hg]
  · rename_i hg
    exact iff_of_false List.not_mem_nil fun hn => hg hn.1

theorem sysGlob_congr (hsame : ∀ n, fs'.fileExists (d ++ [n]) = fs.fileExists (d ++ [n])) :
    sysGlob h fs' d = sysGlob h fs d := by
  rw [sysGlob, sysGlob, FileSystem.listFiles_congr hsame]

theorem nodup_sysGlob (h : Host) (fs : FileSystem Content) (d : Pathname) : (sysGlob h fs d).Nodup := by
  rw [sysGlob]
  split
  · exact FileSystem.nodup_listFiles fs d
  · exact List.nodup_nil

theorem globs_of_sysGlob_ne_nil (hne : sysGlob h fs d ≠ []) : h.globs d = true := by
  obtain ⟨n, hn⟩ := List.exists_mem_of_ne_nil _ hne
  exact (mem_sysGlob.mp hn).1

end Globs

/-- The text can stand in a string literal as it is. -/
def PlainText (t : Text) : Prop := '"' ∉ t ∧ '\\' ∉ t ∧ t.OneLine

/-- A host whose package path can stand in the string literals of a harness. -/
structure PlainHost extends Host where
  packagePath_ok : PlainText packagePath

instance : Coe PlainHost Host := ⟨PlainHost.toHost⟩

/-! ## Names -/

/-- The values of `sep`; any other string is `other`. -/
inductive Sep
  | infun
  | generation
  | checks
  | other
  deriving DecidableEq

/-- `sep == "generation" || sep == "checks"` -/
def Sep.editable : Sep → Bool
  | .generation | .checks => true
  | .infun | .other => false

def Sep.suffix : Sep → Text
  | .generation => "_generation"
  | .checks => "_checks"
  | .infun | .other => []

def testPath : Pathname := ["inst", "testfiles"]

def funPath (fn : Text) : Pathname := testPath ++ [fn]

def testHarness (fn : Text) (sep : Sep) : Text := fn ++ "_DeepState_TestHarness" ++ sep.suffix

def harnessFile (fn : Text) (sep : Sep) : Text := testHarness fn sep ++ ".cpp"

def harnessPath (fn : Text) (sep : Sep) : Pathname := funPath fn ++ [harnessFile fn sep]

def objectPath (fn : Text) (sep : Sep) : Pathname := funPath fn ++ [testHarness fn sep ++ ".o"]

def executablePath (fn : Text) (sep : Sep) : Pathname := funPath fn ++ [testHarness fn sep]

/-- The makefile `deepstate_compile_fun` looks for; `other` has none. -/
def makefileName : Sep → Text
  | .generation => "generation.Makefile"
  | .checks => "checks.Makefile"
  | .infun | .other => "Makefile"

def makefilePath (fn : Text) (sep : Sep) : Pathname := funPath fn ++ [makefileName sep]

def outputDir (fn : Text) (sep : Sep) : Pathname := funPath fn ++ [fn ++ "_output" ++ sep.suffix]

def inputsPath (fn : Text) : Pathname := funPath fn ++ [("inputs" : Text)]

def logFile (fn : Text) (sep : Sep) : Pathname := funPath fn ++ [fn ++ sep.suffix ++ "_log_text"]

def rcppExportsPath : Pathname := ["src", "RcppExports.cpp"]

/-- NA in a pasted text. -/
def pasted (t : Option Text) : Text := t.getD "NA"

end RcppDeepState
