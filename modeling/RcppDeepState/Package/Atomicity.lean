import RcppDeepState.Exports.Lemmas.Arguments
import RcppDeepState.Package.Lemmas.FunCreate

/-!
# What a failed creation leaves behind

A call that does not return a harness file may still have created it, and the next call then finds it.
-/

namespace RcppDeepState

open Command FileSystem

/-! ## Reading the tables of a written file -/

/-- A tree whose exports file is written for at least one function. -/
theorem exportsTable_of_file {fs : FileSystem Content} {f : ExportsFile}
    (hread : readText fs rcppExportsPath = some f.text) (hne : f.exports ≠ []) :
    exportsTable fs = some (f.exports.map (Details.ofExport f.symbol), f.exports.flatMap Export.argRows) := by
  simp only [exportsTable, hread, packageDetails_text, functionBody_details f.names_nodup, if_neg hne,
    Option.map_some]

section Statement

variable (h : Host) (installed : Installation) (fn : Text) (sep : Sep) (w : World)

/-- The call returns no harness file name: it returns NA or it stops. -/
def CallFails : Prop := ∀ name w', deepstateFunCreate h installed fn sep w ≠ .ok (some name) w'

/-- When the call fails, every harness file that is there afterwards was there before. -/
def AtomicOnFailure : Prop :=
  CallFails h installed fn sep w → ∀ fn' sep',
    (final (deepstateFunCreate h installed fn sep) w).fs.fileExists (harnessPath fn' sep') = true →
      w.fs.fileExists (harnessPath fn' sep') = true

/-- There is no harness file, the types of the function are supported, and either no shared object can
be had and found where the makefile needs it or the function has no row in the argument table. -/
def LeavesHarness : Prop :=
  ∃ d rows, exportsTable w.fs = some (d, rows) ∧ w.fs.fileExists (harnessPath fn sep) = false ∧
    unsupportedTypes (argumentsOf rows fn) = [] ∧
      (StepFails h installed w.fs fn sep ∨ argumentsOf rows fn = [])

end Statement

variable {h : Host} {installed : Installation} {fn : Text} {sep : Sep} {w : World}

theorem leavesHarness_spec (hl : LeavesHarness h installed fn sep w) :
    (∃ e w', deepstateFunCreate h installed fn sep w = .error e w') ∧
      (final (deepstateFunCreate h installed fn sep) w).fs.fileExists (harnessPath fn sep) = true := by
  obtain ⟨d, rows, ht, hex, htypes, hfail⟩ := hl
  obtain ⟨log, happly⟩ := @funCreate_apply h installed fn sep _ _ _ ht
  rw [hex, if_neg (by simp), if_neg (by simp [htypes])] at happly
  rw [final, happly]
  exact ⟨createHarness_stops (w := { w with log := log }) hfail, createHarness_leaves⟩

theorem funCreate_makes_harness (hfails : CallFails h installed fn sep w)
    (hex : w.fs.fileExists (harnessPath fn sep) = false)
    (hfinal : (final (deepstateFunCreate h installed fn sep) w).fs.fileExists (harnessPath fn sep) = true) :
    LeavesHarness h installed fn sep w := by
  cases ht : exportsTable w.fs with
  | none =>
      obtain ⟨e, w', hw', hfs⟩ := @funCreate_of_table_none h installed fn sep _ ht
      rw [final, hw', hfs, hex] at hfinal
      cases hfinal
  | some table =>
      obtain ⟨d, rows⟩ := table
      obtain ⟨log, happly⟩ := @funCreate_apply h installed fn sep _ _ _ ht
      rw [hex, if_neg (by simp)] at happly
      by_cases htypes : unsupportedTypes (argumentsOf rows fn) = []
      · refine ⟨d, rows, ht, hex, htypes, ?_⟩
        by_contra hno
        rw [not_or] at hno
        rw [if_neg (by simp [htypes])] at happly
        obtain ⟨w', hw'⟩ := @createHarness_ok h _ (packageNameIn w.fs) _ _ _ (prototypesOf d fn)
            { w with log := log } hno.1 hno.2
        exact hfails _ w' (happly.trans hw')
      · rw [if_pos htypes] at happly
        rw [final, happly, message_bind_apply, pure_apply] at hfinal
        rw [hex] at hfinal
        cases hfinal

theorem not_atomicOnFailure (hl : LeavesHarness h installed fn sep w) :
    ¬ AtomicOnFailure h installed fn sep w := by
  intro hatomic
  obtain ⟨⟨e, w', hw'⟩, hfinal⟩ := leavesHarness_spec hl
  have hfails : CallFails h installed fn sep w := by
    intro name w'' hok
    rw [hw'] at hok
    cases hok
  have hbefore := hatomic hfails fn sep hfinal
  obtain ⟨_, _, _, hex, _⟩ := hl
  rw [hex] at hbefore
  cases hbefore

theorem typeText_of_decide {t : Text} (h : t ≠ [] ∧ t.OneLine ∧ '(' ∉ t ∧ ¬ (">::type" : Text) <:+: t) :
    TypeText t := ⟨h.1, h.2.1, h.2.2.1, h.2.2.2⟩

theorem identifier_of_decide {n : Text}
    (h : n ≠ [] ∧ (∀ c ∈ n, isIdentChar c = true) ∧ ∀ c ∈ n.head?, c.isDigit = false) : Identifier n :=
  ⟨h.1, h.2.1, h.2.2⟩

theorem typeText_int : TypeText "int" := typeText_of_decide (by with_unfolding_all decide)

theorem typeText_void : TypeText "void" := typeText_of_decide (by with_unfolding_all decide)

theorem identifier_f : Identifier "f" := identifier_of_decide (by with_unfolding_all decide)

theorem identifier_x : Identifier "x" := identifier_of_decide (by with_unfolding_all decide)

/-- `int f(int x)` -/
def sampleExport : Export where
  returnType := "int"
  name := "f"
  params := [⟨"int", "x", typeText_int, identifier_x⟩]
  rng := true
  returnType_ok := typeText_int
  name_ok := identifier_f

def sampleExports : ExportsFile where
  preamble := ["#include <Rcpp.h>", [], "using namespace Rcpp;"]
  symbol := "pkg"
  exports := [sampleExport]
  trailer := []
  preamble_ok := by with_unfolding_all decide
  symbol_ok := by with_unfolding_all decide
  names_nodup := by simp
  trailer_ok := by simp

def sampleHost : Host where
  packagePath := "/home/user/pkg"
  rHome := "/usr/lib/R"
  rInclude := "/usr/share/R/include"
  rLib := "/usr/lib/R/lib"
  rcppInclude := "/usr/lib/R/library/Rcpp/include"
  rcppdeepstateInclude := "/usr/lib/R/library/RcppDeepState/include"
  rcpparmadilloInclude := "/usr/lib/R/library/RcppArmadillo/include"
  rinsideInclude := "/usr/lib/R/library/RInside/include"
  qsInclude := "/usr/lib/R/library/qs/include"
  rinsideLib := "/usr/lib/R/library/RInside/lib"
  library := "pkg"
  library_ok := ⟨'p', ['k', 'g'], by with_unfolding_all decide, by decide⟩
  verbose := false

theorem sampleObjects_ok : ∀ e ∈ [(("RcppExports.o" : Text), Content.object [])], (".o" : Text) <:+ e.1 :=
  List.forall_mem_singleton.mpr (by with_unfolding_all decide)

/-- The sources compile, and the shared object is linked or not. -/
def sampleInstallation (links : Bool) : Installation := ⟨_, sampleObjects_ok, links⟩

def plainSampleHost : PlainHost where
  toHost := sampleHost
  packagePath_ok := by unfold PlainText; with_unfolding_all decide

/-- A package with one function and no shared object. -/
def samplePackage : World where
  fs := (FileSystem.empty.write descriptionPath (.text "Package: pkg\n")).write rcppExportsPath
    (.text sampleExports.text)
  log := []

theorem exportsTable_samplePackage :
    exportsTable samplePackage.fs =
      some ([Details.ofExport "pkg" sampleExport], [⟨"f", "int ", " x"⟩]) := by
  have hread : readText samplePackage.fs rcppExportsPath = some sampleExports.text := by
    simp [readText, samplePackage]
  rw [exportsTable_of_file hread (by simp [sampleExports])]
  have hrows : sampleExport.argRows = [⟨"f", "int ", " x"⟩] := by with_unfolding_all decide
  simp [sampleExports, hrows]

/-- The path of the sample package has no character with a meaning in a pattern. -/
theorem globs_sampleHost {d : Pathname} (hd : ∀ c ∈ d, Glob.fitsItself c = true) : sampleHost.globs d = true :=
  Host.globs_iff.mpr ⟨by with_unfolding_all decide, hd⟩

/-- When installing the package fails, the empty harness file of `f` stays. -/
theorem leavesHarness_samplePackage : LeavesHarness sampleHost (sampleInstallation false) "f" .infun samplePackage := by
  refine ⟨_, _, exportsTable_samplePackage, ?_, by with_unfolding_all decide, Or.inl ⟨by simp [Sep.editable], ?_, Or.inl rfl⟩⟩
  · simp [samplePackage, fileExists_write, harnessPath, funPath, testPath, rcppExportsPath, descriptionPath]
  · rw [List.eq_nil_iff_forall_not_mem]
    intro n hn
    obtain ⟨-, he, -, hso⟩ := mem_sharedObjects.mp hn
    have hn' : n = "RcppExports.cpp" := by
      simpa [samplePackage, fileExists_write, rcppExportsPath, descriptionPath] using he
    rw [hn'] at hso
    exact absurd hso (by with_unfolding_all decide)

/-- The next call takes the leftover for an existing harness and reports it. -/
theorem leftover_reported (hl : LeavesHarness h installed fn sep w) {installed' : Installation}
    (hb : ¬ BuildFails h installed' (final (deepstateFunCreate h installed fn sep) w).fs) :
    ∃ w', deepstateFunCreate h installed' fn sep (final (deepstateFunCreate h installed fn sep) w) =
      .ok (some (harnessFile fn sep)) w' := by
  have hfinal := (leavesHarness_spec hl).2
  obtain ⟨d, rows, ht, _⟩ := hl
  have ht' : exportsTable (final (deepstateFunCreate h installed fn sep) w).fs = some (d, rows) := by
    rw [exportsTable_funCreate]
    exact ht
  obtain ⟨log, happly⟩ := @funCreate_apply h installed' fn sep _ _ _ ht'
  rw [if_pos hfinal] at happly
  obtain ⟨w', hw'⟩ := createMakefile_ok (h := h)
    (w := { final (deepstateFunCreate h installed fn sep) w with log := log }) hb fn
  rw [happly, bind_apply, hw']
  exact ⟨_, rfl⟩

end RcppDeepState
