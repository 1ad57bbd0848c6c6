import RcppDeepState.Package.Convergence
import RcppDeepState.Runs.Lemmas.FuzzLoop

/-!
# Running the harnesses of a package

The package call cleans the directories with a default harness, and writes makefiles for the functions that
are exported now. A directory it has cleaned or found without the files of a build, and given no makefile,
stops the run over all directories.
-/

namespace RcppDeepState

open Command FileSystem

/-! ## What the package call leaves to run -/

/-- An executable runs for a created function whose build succeeds: an old one that the call keeps, or a new
one, which takes a harness file with a text and no object file in its way. -/
def HasExecutable (fs : FileSystem Content) (n : Text) : Prop :=
  (¬ Cleaned fs n ∧ (executableSource fs n .infun).isSome = true) ∨
    (¬ (¬ Cleaned fs n ∧ fs.fileExists (objectPath n .infun) = true) ∧
      (fs.fileExists (harnessPath n .infun) = true → (readText fs (harnessPath n .infun)).isSome = true))

section Leaves

variable {h : Host} {o : PkgOutcome} {f : ExportsFile} {w w₁ : World} {harness : List Text} {n : Text}

theorem head?_testHarness (ext : Text) (hn : n.head? ≠ some '.') :
    (testHarness n .infun ++ ext).head? ≠ some '.' := by
  cases n with
  | nil => simp [testHarness, Text.ofString_eq]
  | cons c n => simpa [testHarness] using hn

theorem testHarness_ne_harnessFile {ext : Text} (he : ext ∈ buildExtensions) (hne : ext ≠ ".cpp") :
    testHarness n .infun ++ ext ≠ harnessFile n .infun := by
  intro hp
  exact hne (testHarness_append_inj he (by simp [buildExtensions]) hp).2

theorem node?_preparedFiles_build {fs : FileSystem Content} {ext : Text} (he : ext ∈ buildExtensions)
    (hne : ext ≠ ".cpp") : (preparedFiles o f fs).node? (buildPath n .infun ext) =
      if Cleaned fs n then none else fs.node? (buildPath n .infun ext) :=
  node?_preparedFiles_other (testHarness_ne_harnessFile he hne) (head?_testHarness ext)

/-- What is fuzzable in the prepared tree was so before, in a directory that is not cleaned. -/
theorem fuzzable_preparedFiles {fs : FileSystem Content} :
    Fuzzable (preparedFiles o f fs) n ↔ ¬ Cleaned fs n ∧ Fuzzable fs n := by
  have hobject : (preparedFiles o f fs).fileExists (objectPath n .infun) =
      (!decide (Cleaned fs n) && fs.fileExists (objectPath n .infun)) := by
    rw [objectPath_eq, fileExists, node?_preparedFiles_build (by simp [buildExtensions]) (by with_unfolding_all decide)]
    by_cases hc : Cleaned fs n <;> simp [hc, fileExists]
  have hmake : (preparedFiles o f fs).fileExists (makefilePath n .infun) =
      (!decide (Cleaned fs n) && fs.fileExists (makefilePath n .infun)) := by
    have hname : makefileName .infun ≠ harnessFile n .infun := fun he =>
      testHarness_ne_short n .infun ".cpp" (length_makefileName .infun) he.symm
    rw [makefilePath, fileExists, node?_preparedFiles_other hname fun _ => by with_unfolding_all decide]
    by_cases hc : Cleaned fs n <;> simp [hc, fileExists]
  have hharness : (preparedFiles o f fs).fileExists (harnessPath n .infun) = fs.fileExists (harnessPath n .infun) := by
    rw [fileExists, node?_preparedFiles_harness, fileExists]
  simp only [Fuzzable, hobject, hmake, hharness, Bool.and_eq_true, Bool.not_eq_true', decide_eq_false_iff_not]
  tauto

/-- After the package call a directory is fuzzable when the call has created its harness, or has left the
directory alone and it was fuzzable before. -/
theorem fuzzable_pkgCreate (ho : o.exports = some f.text) (hok : deepstatePkgCreate h o w = .ok harness w₁) :
    Fuzzable w₁.fs n ↔ Creates f w.fs n ∨ ¬ Cleaned w.fs n ∧ Fuzzable w.fs n := by
  have hin := (pkgCreate_creates ho hok).1 n
  by_cases hc : Creates f w.fs n
  · have hmade := hin.created (creates_preparedFiles.mpr hc)
    exact ⟨fun _ => Or.inl hc, fun _ => Or.inr hmade⟩
  · have hsame := hin.kept (mt creates_preparedFiles.mp hc)
    rw [hsame.fuzzable, fuzzable_preparedFiles]
    simp [hc]

theorem directory_pkgCreate (ho : o.exports = some f.text) (hok : deepstatePkgCreate h o w = .ok harness w₁)
    (hc : ¬ Creates f w.fs n) : w₁.fs.node? (funPath n) = w.fs.node? (funPath n) := by
  have hsame := ((pkgCreate_creates ho hok).1 n).kept (mt creates_preparedFiles.mp hc)
  rw [hsame _ List.prefix_rfl, node?_preparedFiles_directory]

/-- The names in `inst/testfiles` are the old ones, and those of the created functions. -/
theorem mem_listFiles_pkgCreate (ho : o.exports = some f.text) (hok : deepstatePkgCreate h o w = .ok harness w₁) :
    n ∈ w₁.fs.listFiles testPath ↔ n ∈ w.fs.listFiles testPath ∨ Creates f w.fs n := by
  by_cases hc : Creates f w.fs n
  · have hthere := ((pkgCreate_creates ho hok).1 n).directory (creates_preparedFiles.mpr hc)
    have hn : n ∈ w₁.fs.listFiles testPath := by
      refine mem_listFiles.mpr ⟨hthere, fun hdot => ?_⟩
      exact hc.identifier.not_mem (by decide) (List.mem_of_mem_head? hdot)
    exact ⟨fun _ => Or.inr hc, fun _ => hn⟩
  · have hnode : w₁.fs.fileExists (testPath ++ [n]) = w.fs.fileExists (testPath ++ [n]) := by
      rw [fileExists, fileExists]
      exact congrArg Option.isSome (directory_pkgCreate ho hok hc)
    rw [mem_listFiles, mem_listFiles, hnode]
    simp [hc]

/-- The executable that runs for a created function whose build succeeds. -/
theorem executableRun_pkgCreate {b : BuildOutcome} (ho : o.exports = some f.text)
    (hok : deepstatePkgCreate h o w = .ok harness w₁) (hc : Creates f w.fs n) (hcompiles : b.compiles = true)
    (hlinks : b.links = true) :
    (executableRun b w₁.fs n .infun).isSome = true ↔ HasExecutable w.fs n := by
  have hc' : Creates f (preparedFiles o f w.fs) n := creates_preparedFiles.mpr hc
  have hin := (pkgCreate_creates ho hok).1 n
  have hobject : w₁.fs.fileExists (objectPath n .infun) = true ↔
      ¬ Cleaned w.fs n ∧ w.fs.fileExists (objectPath n .infun) = true := by
    rw [fileExists, hin.object, objectPath_eq,
      node?_preparedFiles_build (by simp [buildExtensions]) (by with_unfolding_all decide)]
    by_cases hcl : Cleaned w.fs n <;> simp [hcl, fileExists]
  have hexe : executableAt w₁.fs (executablePath n .infun) =
      if Cleaned w.fs n then none else executableAt w.fs (executablePath n .infun) := by
    rw [executableAt, FileSystem.read, hin.executable, executablePath_eq,
      node?_preparedFiles_build (by simp [buildExtensions]) (by with_unfolding_all decide)]
    by_cases hcl : Cleaned w.fs n <;> simp [hcl, executableAt, FileSystem.read]
  have htext : (readText w₁.fs (harnessPath n .infun)).isSome = true ↔
      (w.fs.fileExists (harnessPath n .infun) = true → (readText w.fs (harnessPath n .infun)).isSome = true) := by
    have hold : (preparedFiles o f w.fs).fileExists (harnessPath n .infun) = w.fs.fileExists (harnessPath n .infun) := by
      rw [fileExists, node?_preparedFiles_harness, fileExists]
    cases hex : w.fs.fileExists (harnessPath n .infun) with
    | true =>
        have hread : readText w₁.fs (harnessPath n .infun) = readText w.fs (harnessPath n .infun) := by
          simp only [readText, FileSystem.read, hin.harness (hold.trans hex), node?_preparedFiles_harness]
        simp [hread]
    | false => simp [hin.text hc' (hold.trans hex)]
  have hbuilds : w₁.fs.fileExists (objectPath n .infun) = false ∧ Compiles b w₁.fs n .infun ↔
      ¬ (¬ Cleaned w.fs n ∧ w.fs.fileExists (objectPath n .infun) = true) ∧
        (readText w₁.fs (harnessPath n .infun)).isSome = true := by
    rw [← Bool.not_eq_true, hobject]
    simp [Compiles, (hin.created hc').2, hcompiles]
  have hlinked : linkedSource b w₁.fs n .infun = readText w₁.fs (harnessPath n .infun) := if_pos hlinks
  rw [executableRun, hlinked, if_congr hbuilds rfl rfl]
  unfold HasExecutable
  rw [← htext, executableSource]
  by_cases hcl : Cleaned w.fs n
  · by_cases ht : (readText w₁.fs (harnessPath n .infun)).isSome = true <;> simp [hcl, ht, hexe]
  · by_cases ht : (readText w₁.fs (harnessPath n .infun)).isSome = true
    · by_cases hobj : w.fs.fileExists (objectPath n .infun) = true <;> simp [hcl, ht, hexe, hobj]
    · simp [hcl, ht, hexe]

end Leaves

/-! ## Runs that come to their end -/

/-- The events recorded between two worlds. -/
def eventsSince (w w' : World) : List Event := w'.log.drop w.log.length

/-- The run returns. Every directory of `inst/testfiles` is in one of the compiled and the uncompiled list. The
fuzzer runs once for every name in turn, and for every created harness its command is given, on an
executable when its build succeeds. -/
def RunCompletes (h : Host) (o : CompileRunOutcome) (timeLimit seed : Int) (harness : List Text) (w w₁ : World) :
    Prop :=
  ∃ compiled uncompiled w₂ exe, deepstateHarnessCompileRun h o timeLimit seed w = .ok compiled w₂ ∧
    (eventsSince w₁ w₂).filterMap Event.uncompiled = (if uncompiled = [] then [] else [uncompiled]) ∧
    (∀ d, w₂.fs.dirExists (funPath d) = true →
      (d ∈ compiled ∧ d ∉ uncompiled) ∨ (d ∉ compiled ∧ d ∈ uncompiled)) ∧
    ranSince w₁ w₂ = (w₁.fs.listFiles testPath).map exe ∧
    ∀ n, harnessFile n .infun ∈ harness →
      .system (runExecutable h (packageNameIn w₁.fs) n seed timeLimit .infun) ∈ eventsSince w₁ w₂ ∧
        ((o.fuzz n).build.compiles = true → (o.fuzz n).build.links = true → (exe n).isSome = true)

/-- `inst/testfiles` is no file and has no hidden directory, every name in it is one the package call creates a
harness for or stands for an uncleaned directory to fuzz, and created functions get an executable. -/
structure ReadyToRun (f : ExportsFile) (fuzz : Text → FuzzOutcome) (timeLimit : Int) (fs : FileSystem Content) :
    Prop where
  time : 0 < timeLimit
  testfiles : fs.read testPath = none
  visible : ∀ d, fs.dirExists (funPath d) = true → d.head? ≠ some '.'
  directories : ∀ n ∈ fs.listFiles testPath, Creates f fs n ∨ ¬ Cleaned fs n ∧ Fuzzable fs n
  executables : ∀ n, Creates f fs n → (fuzz n).build.compiles = true → (fuzz n).build.links = true →
    HasExecutable fs n

section RunCompletes

variable {h : Host} {o : CompileRunOutcome} {f : ExportsFile} {timeLimit seed : Int} {harness : List Text}
  {w w₁ : World}

theorem mem_harness_pkgCreate (ho : o.pkg.exports = some f.text)
    (hpkg : deepstatePkgCreate h o.pkg w = .ok harness w₁) {n : Text} :
    harnessFile n .infun ∈ harness ↔ Creates f w.fs n := by
  rw [(pkgCreate_creates ho hpkg).2.2, creates_preparedFiles]

/-- The function directories are the same after the loop. -/
theorem FuzzedAll.directories {fuzz : Text → FuzzOutcome} {ns compiled uncompiled : List Text} {w₃ : World}
    (hall : FuzzedAll h fuzz seed timeLimit ns w₁ w₃ compiled uncompiled) (d : Text) :
    w₃.fs.dirExists (funPath d) = w₁.fs.dirExists (funPath d) := by
  refine hall.frame.dirExists ?_
  rintro ⟨n, ht⟩
  exact not_fuzzTouches_directory (by simp [funPath, testPath]) ht

/-- What is recorded after the package call. -/
theorem FuzzedAll.since {fuzz : Text → FuzzOutcome} {ns compiled uncompiled : List Text} {w₃ : World}
    (hall : FuzzedAll h fuzz seed timeLimit ns w₁ w₃ compiled uncompiled) :
    ∃ es, eventsSince w₁ ⟨w₃.fs, w₃.log ++ if uncompiled = [] then [] else [.message (.uncompiled uncompiled)]⟩ = es ∧
      es.filterMap Event.uncompiled = (if uncompiled = [] then [] else [uncompiled]) ∧
      es.filterMap Event.ran = ns.map (fun n => executableRun (fuzz n).build w₁.fs n .infun) ∧
      ∀ n ∈ ns, .system (runExecutable h (packageNameIn w₁.fs) n seed timeLimit .infun) ∈ es := by
  obtain ⟨es, hes, hran, hcommand, hquiet⟩ := hall.events
  refine ⟨_, rfl, ?_, ?_, fun n hn => ?_⟩
  · rw [eventsSince, hes, List.append_assoc, List.drop_left, List.filterMap_append, hquiet, List.nil_append]
    split <;> rfl
  · rw [eventsSince, hes, List.append_assoc, List.drop_left, List.filterMap_append, hran]
    split <;> simp [Event.ran]
  · rw [eventsSince, hes, List.append_assoc, List.drop_left]
    exact List.mem_append.mpr (Or.inl (hcommand n hn))

theorem readyToRun_of_completes (ho : o.pkg.exports = some f.text)
    (hpkg : deepstatePkgCreate h o.pkg w = .ok harness w₁) (hc : RunCompletes h o timeLimit seed harness w w₁) :
    ReadyToRun f o.fuzz timeLimit w.fs := by
  obtain ⟨compiled, uncompiled, w₂, exe, hok, hreport, hdirs, hran, hfuzzed⟩ := hc
  obtain ⟨ht, _, hdir, u, w₃, hall, rfl⟩ := compileRun_ok hpkg hok
  obtain ⟨es, hsince, hreport', hran', _⟩ := hall.since
  have hu : uncompiled = u := by
    rw [hsince, hreport'] at hreport
    by_cases hn : uncompiled = [] <;> by_cases hn' : u = [] <;> simp_all
  subst hu
  have hmem : ∀ n, n ∈ compiled ++ uncompiled ↔ n ∈ w₁.fs.listFiles testPath := fun n => hall.lists.mem_iff
  have hexe : ∀ n ∈ w₁.fs.listFiles testPath, exe n = executableRun (o.fuzz n).build w₁.fs n .infun := by
    have hmap : (w₁.fs.listFiles testPath).map exe =
        (w₁.fs.listFiles testPath).map fun n => executableRun (o.fuzz n).build w₁.fs n .infun := by
      rw [← hran, ← hran', ← hsince]
      rfl
    exact List.map_inj_left.mp hmap
  refine ⟨ht, (dirExists_pkgCreate ho hpkg).mp hdir, fun d hd hdot => ?_, fun n hn => ?_, fun n hcr hcompiles hlinks => ?_⟩
  · -- A hidden directory is in neither list.
    have hno : ¬ Creates f w.fs d := fun hcr => hcr.identifier.not_mem (by decide) (List.mem_of_mem_head? hdot)
    have hd₂ : w₃.fs.dirExists (funPath d) = true := by
      rw [hall.directories, dirExists, directory_pkgCreate ho hpkg hno]
      exact hd
    have hlisted : d ∈ compiled ++ uncompiled := by
      rcases hdirs d hd₂ with ⟨hin, _⟩ | ⟨_, hin⟩
      · exact List.mem_append.mpr (Or.inl hin)
      · exact List.mem_append.mpr (Or.inr hin)
    exact (mem_listFiles.mp ((hmem d).mp hlisted)).2 hdot
  · exact (fuzzable_pkgCreate ho hpkg).mp (hall.fuzzable n ((mem_listFiles_pkgCreate ho hpkg).mpr (Or.inl hn)))
  · rw [← executableRun_pkgCreate ho hpkg hcr hcompiles hlinks,
      ← hexe n ((mem_listFiles_pkgCreate ho hpkg).mpr (Or.inr hcr))]
    exact (hfuzzed n ((mem_harness_pkgCreate ho hpkg).mpr hcr)).2 hcompiles hlinks

theorem completes_of_readyToRun (ho : o.pkg.exports = some f.text)
    (hpkg : deepstatePkgCreate h o.pkg w = .ok harness w₁) (hready : ReadyToRun f o.fuzz timeLimit w.fs) :
    RunCompletes h o timeLimit seed harness w w₁ := by
  have hdir := (dirExists_pkgCreate ho hpkg).mpr hready.testfiles
  have hfuzzable : ∀ n ∈ w₁.fs.listFiles testPath, Fuzzable w₁.fs n := by
    intro n hn
    rw [fuzzable_pkgCreate ho hpkg]
    rcases (mem_listFiles_pkgCreate ho hpkg).mp hn with hold | hcr
    · exact hready.directories n hold
    · exact Or.inl hcr
  have hne : w₁.fs.listFiles testPath ≠ [] := by
    obtain ⟨n, hcr⟩ := (pkgCreate_creates ho hpkg).2.1
    rw [creates_preparedFiles] at hcr
    exact List.ne_nil_of_mem ((mem_listFiles_pkgCreate ho hpkg).mpr (Or.inr hcr))
  obtain ⟨compiled, w₂, hok⟩ : ∃ compiled w₂, deepstateHarnessCompileRun h o timeLimit seed w = .ok compiled w₂ :=
    compileRun_returns hready.time hpkg (globs_pkgCreate ho hpkg) hdir hne hfuzzable
  obtain ⟨_, _, _, uncompiled, w₃, hall, rfl⟩ := compileRun_ok hpkg hok
  obtain ⟨es, hsince, hreport, hran, hcommand⟩ := hall.since
  refine ⟨compiled, uncompiled, _, fun n => executableRun (o.fuzz n).build w₁.fs n .infun, hok, ?_, fun d hd => ?_, ?_,
    fun n hn => ?_⟩
  · rw [hsince, hreport]
  · -- Every directory is listed, and the lists are disjoint.
    have hd₁ : w₁.fs.dirExists (funPath d) = true := (hall.directories d).symm.trans hd
    have hvisible : d.head? ≠ some '.' := by
      by_cases hcr : Creates f w.fs d
      · exact fun hdot => hcr.identifier.not_mem (by decide) (List.mem_of_mem_head? hdot)
      · rw [dirExists, directory_pkgCreate ho hpkg hcr] at hd₁
        exact hready.visible d hd₁
    have hlisted : d ∈ w₁.fs.listFiles testPath := by
      refine mem_listFiles.mpr ⟨?_, hvisible⟩
      show w₁.fs.fileExists (funPath d) = true
      rw [dirExists] at hd₁
      rw [fileExists]
      split at hd₁
      · rename_i hnode
        rw [hnode]
        rfl
      · cases hd₁
    have hnodup : (compiled ++ uncompiled).Nodup := hall.lists.nodup_iff.mpr (nodup_listFiles _ _)
    have hdisjoint := (List.nodup_append.mp hnodup).2.2
    rcases List.mem_append.mp (hall.lists.mem_iff.mpr hlisted) with hin | hin
    · exact Or.inl ⟨hin, fun hin' => hdisjoint d hin d hin' rfl⟩
    · exact Or.inr ⟨fun hin' => hdisjoint d hin' d hin rfl, hin⟩
  · rw [← hran, ← hsince]
    rfl
  · have hcr := (mem_harness_pkgCreate ho hpkg).mp hn
    refine ⟨?_, fun hcompiles hlinks => ?_⟩
    · rw [hsince]
      exact hcommand n ((mem_listFiles_pkgCreate ho hpkg).mpr (Or.inr hcr))
    · exact (executableRun_pkgCreate ho hpkg hcr hcompiles hlinks).mpr
        (hready.executables n hcr hcompiles hlinks)

end RunCompletes

/-- After a package call that returns, the run over the directories comes to its end exactly when the tree
was ready for it. -/
theorem compileRun_completes_iff {h : Host} {o : CompileRunOutcome} {f : ExportsFile} {timeLimit seed : Int}
    {harness : List Text} {w w₁ : World} (ho : o.pkg.exports = some f.text)
    (hpkg : deepstatePkgCreate h o.pkg w = .ok harness w₁) :
    RunCompletes h o timeLimit seed harness w w₁ ↔ ReadyToRun f o.fuzz timeLimit w.fs :=
  ⟨readyToRun_of_completes ho hpkg, completes_of_readyToRun ho hpkg⟩

def sampleRun : CompileRunOutcome := ⟨sampleOutcome sampleExports, fun _ => sampleFuzz⟩

theorem pkgCreate_sampleRun (w : World) :
    ∃ harness w₁, deepstatePkgCreate sampleHost sampleRun.pkg w = .ok harness w₁ := by
  obtain ⟨harness, w₁, _, hok, _⟩ := pkgCreate_sample w
  exact ⟨harness, w₁, hok⟩

theorem compileRun_completes_sample : ∃ harness w₁,
    deepstatePkgCreate sampleHost sampleRun.pkg samplePackage = .ok harness w₁ ∧
      (RunCompletes sampleHost sampleRun 5 (-1) harness samplePackage w₁ ↔
        ReadyToRun sampleExports sampleRun.fuzz 5 samplePackage.fs) := by
  obtain ⟨harness, w₁, hok⟩ := pkgCreate_sampleRun samplePackage
  exact ⟨harness, w₁, hok, compileRun_completes_iff rfl hok⟩

/-- A package that has lost its function `g`, with the harness of an earlier run. -/
def leftoverPackage : World :=
  ⟨(FileSystem.empty.mkdirs (funPath "g")).write (harnessPath "g" .infun) (.text []), []⟩

/-- The directory of `g` is cleaned and gets no makefile. -/
theorem compileRun_stops : ¬ ∀ (h : Host) (o : CompileRunOutcome) (f : ExportsFile) (timeLimit seed : Int)
    (harness : List Text) (w w₁ : World), o.pkg.exports = some f.text → 0 < timeLimit →
      deepstatePkgCreate h o.pkg w = .ok harness w₁ → RunCompletes h o timeLimit seed harness w w₁ := by
  intro hall
  obtain ⟨harness, w₁, hok⟩ := pkgCreate_sampleRun leftoverPackage
  have hready := readyToRun_of_completes rfl hok (hall _ _ sampleExports 5 (-1) _ _ _ rfl (by decide) hok)
  have hclean : Cleaned leftoverPackage.fs "g" := by with_unfolding_all decide
  rcases hready.directories "g" hclean.2.1 with ⟨e, he, hname, _⟩ | ⟨hno, _⟩
  · have hf : e = sampleExport := by simpa [sampleExports] using he
    rw [hf] at hname
    exact absurd hname (by with_unfolding_all decide)
  · exact hno hclean

end RcppDeepState
