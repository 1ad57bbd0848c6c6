import RcppDeepState.Runs.Harnesses

/-!
# What whole runs touch

However the calls follow each other, they write below `inst/testfiles` and Makevars; the tools they call write the
interfaces of the package, its object files and its shared object. The other files of the package stay as they are,
down to their times.
-/

namespace RcppDeepState

open Command FileSystem

/-- What the calls on a package may change: the function directories and the way to them, Makevars, and what an
installation and `compileAttributes` write. -/
def PackageTouches (h : Host) (p : Pathname) : Prop :=
  p <+: testPath ∨ testPath <+: p ∨ p = makevarsPath ∨ InstallTouches h p ∨ AttributesTouches p

section Paths

variable {h : Host} {fn : Text} {sep : Sep} {p : Pathname}

theorem packageTouches_below (hp : funPath fn <+: p) : PackageTouches h p :=
  .inr (.inl ((List.prefix_append _ _).trans hp))

theorem packageTouches_of_makefile (hp : MakefileTouches h fn p) : PackageTouches h p := by
  rcases hp with rfl | hp | hp | rfl | rfl
  · exact .inr (.inr (.inl rfl))
  · exact .inr (.inr (.inr (.inl hp)))
  · have htest : testPath <+: outputDir fn .infun := (List.prefix_append _ _).trans (List.prefix_append _ _)
    rcases List.prefix_or_prefix_of_prefix hp htest with hp | hp
    · exact .inl hp
    · exact .inr (.inl hp)
  · exact packageTouches_below (List.prefix_append _ _)
  · exact packageTouches_below (List.prefix_append _ _)

theorem packageTouches_of_create (hp : CreateTouches h fn sep p) : PackageTouches h p := by
  rcases hp with (hp | rfl | hp | rfl) | rfl
  · exact packageTouches_of_makefile hp
  · exact packageTouches_below (List.prefix_append _ _)
  · exact packageTouches_below ((List.prefix_append _ _).trans hp)
  · exact packageTouches_below (List.prefix_append _ _)
  · exact packageTouches_below (List.prefix_append _ _)

theorem below_of_fuzzTouches (hp : FuzzTouches fn sep p) : funPath fn <+: p := by
  rcases hp with (⟨n, rfl, _⟩ | rfl) | rfl | ⟨n, rfl⟩ | ⟨n, rfl⟩
  · exact List.prefix_append _ _
  · exact List.prefix_append _ _
  · exact List.prefix_append _ _
  · exact (List.prefix_append _ _).trans (List.prefix_append _ _)
  · exact (List.prefix_append _ _).trans (List.prefix_append _ _)

theorem below_of_analyzeTouches (hp : AnalyzeTouches (outputDir fn sep) p) :
    funPath fn <+: p := by
  have hout : funPath fn <+: outputDir fn sep := List.prefix_append _ _
  rcases hp with ⟨n, rfl⟩ | ⟨n, m, rfl⟩ | ⟨n, rfl⟩
  · exact hout.trans (List.prefix_append _ _)
  · exact hout.trans ((List.prefix_append _ _).trans (List.prefix_append _ _))
  · have hdir : (outputDir fn sep).dropLast = funPath fn := by simp [outputDir]
    rw [hdir, List.append_assoc]
    exact List.prefix_append _ _

theorem packageTouches_of_fuzz (hp : FuzzTouches fn sep p) : PackageTouches h p :=
  packageTouches_below (below_of_fuzzTouches hp)

theorem packageTouches_of_analyze (hp : AnalyzeTouches (outputDir fn sep) p) : PackageTouches h p :=
  packageTouches_below (below_of_analyzeTouches hp)

end Paths

/-! ## One operation -/

section Step

variable {xml2 : Xml2} {h : Host}

theorem frame_prepareTestfiles (fs : FileSystem Content) : Frame (PackageTouches h) fs (prepareTestfiles fs) := by
  unfold prepareTestfiles
  split
  · refine (frame_cleanFunctions _).mono fun p hp => ?_
    obtain ⟨fn, n, hp⟩ := hp
    exact packageTouches_below ((List.prefix_append _ _).trans hp)
  · exact frame_mkdirs fun q hq _ => .inl hq

theorem effects_pkgCreate (o : PkgOutcome) :
    Within (Effects (PackageTouches h) AnyEvents) (deepstatePkgCreate h o) := by
  apply effects_bind (effects_onFiles fun fs => frame_prepareTestfiles fs)
  intro _
  refine effects_mono (fun p hp => ?_) (fun _ => id) (effects_createPackage o)
  rcases hp with ⟨fn, hp⟩ | hp
  · exact packageTouches_of_create hp
  · exact .inr (.inr (.inr (.inr hp)))

theorem effects_fuzzOf (o : FuzzOutcome) (fn : Text) (seed timeLimit : Int) (sep : Sep) :
    Within (Effects (PackageTouches h) AnyEvents) (deepstateFuzzFun h o fn seed timeLimit sep) :=
  effects_mono (fun _ => packageTouches_of_fuzz) (fun _ _ => trivial) (effects_fuzzFun o seed timeLimit)

theorem effects_harnessCompileRun (o : CompileRunOutcome) (timeLimit seed : Int) :
    Within (Effects (PackageTouches h) AnyEvents) (deepstateHarnessCompileRun h o timeLimit seed) := by
  apply effects_ite (effects_stop _)
  apply effects_bind (effects_pkgCreate o.pkg)
  intro _
  apply effects_files
  intro fs
  apply effects_ite (effects_stop _)
  apply effects_bind
  · refine effects_foldlM (fun lists fn _ => ?_) _
    apply effects_bind (effects_fuzzOf _ fn seed timeLimit .infun)
    intro _
    exact effects_ite (effects_pure _) (effects_pure _)
  · intro lists
    exact effects_ite (effects_bind (effects_message trivial) fun _ => effects_pure _) (effects_pure _)

theorem effects_fuzzFunAnalyze (o : FuzzAnalyzeOutcome) (fn : Text) (seed timeLimit : Int) :
    Within (Effects (PackageTouches h) AnyEvents) (deepstateFuzzFunAnalyze xml2 h o fn seed timeLimit) := by
  have hcompile : Within (Effects (PackageTouches h) AnyEvents) (ensureCompiled h o.build fn .infun) :=
    effects_mono (fun _ hp => packageTouches_of_fuzz (.inl hp)) (fun _ _ => trivial) (effects_ensureCompiled o.build)
  have hrun : ∀ runner names, Within (Effects (PackageTouches h) AnyEvents)
      (runFuzzAnalysis xml2 h o.run fn runner seed timeLimit names) := by
    intro runner names
    refine effects_mono (fun p hp => ?_) (fun _ _ => trivial)
      (effects_runFuzzAnalysis o.run fn runner seed timeLimit names)
    rcases hp with hp | ⟨d, n, rfl⟩
    · exact packageTouches_of_fuzz (.inl hp)
    · exact packageTouches_below ((List.prefix_append _ _).trans (List.prefix_append _ _))
  apply effects_files
  intro fs
  apply effects_ite
  · apply effects_bind (effects_onFiles fun _ => frame_mkdir (packageTouches_below (List.prefix_append _ _)))
    intro _
    apply effects_files
    intro fs
    apply effects_bind hcompile
    intro _
    apply effects_ite (effects_stop _)
    apply effects_files
    intro fs
    split
    · exact effects_stop _
    · exact hrun _ _
  · exact effects_stop _

/-- The user's edits leave a path alone. -/
def Operation.leaves (p : Pathname) : Operation → World → Prop
  | .user edit, w => (edit w.fs).node? p = w.fs.node? p
  | _, _ => True

theorem apply_frame {op : Operation} {w : World} {p : Pathname} (hp : ¬ PackageTouches h p) (hleaves : op.leaves p w) :
    (op.apply xml2 h w).fs.node? p = w.fs.node? p := by
  have hcreate : ∀ installed fn sep, Within (Effects (PackageTouches h) AnyEvents) (deepstateFunCreate h installed fn sep) :=
    fun _ _ _ => effects_mono (fun _ => packageTouches_of_create) (fun _ _ => trivial) effects_funCreate
  cases op with
  | funCreate installed fn sep => exact (hcreate installed fn sep w).frame p hp
  | editableFun installed installed' fn =>
      have hboth : Within (Effects (PackageTouches h) AnyEvents) (deepstateEditableFun h installed installed' fn) :=
        effects_bind (hcreate _ _ _) fun _ => effects_bind (hcreate _ _ _) fun _ => effects_pure _
      exact (hboth w).frame p hp
  | pkgCreate o => exact (effects_pkgCreate o w).frame p hp
  | harnessCompileRun o timeLimit seed => exact (effects_harnessCompileRun o timeLimit seed w).frame p hp
  | compileFun b fn sep =>
      exact (effects_compileFun b w).frame p fun ht => hp (packageTouches_of_fuzz (.inl ht))
  | fuzzFun o fn seed timeLimit sep => exact (effects_fuzzOf o fn seed timeLimit sep w).frame p hp
  | analyzeFile o packageName fn sep name =>
      exact (effects_analyzeFile o packageName _ name w).frame p fun ht => hp (packageTouches_of_analyze ht)
  | analyzeFun replay fn maxInputs sep =>
      exact (effects_analyzeFun replay fn maxInputs sep w).frame p fun ht => hp (packageTouches_of_analyze ht)
  | analyzePkg replay testfiles maxInputs =>
      refine (effects_analyzePkg replay testfiles maxInputs w).frame p fun ht => hp ?_
      rcases ht with rfl | ⟨fn, ht⟩
      · exact .inl ⟨[("testfiles" : Text)], rfl⟩
      · exact packageTouches_of_analyze ht
  | fuzzFunAnalyze o fn seed timeLimit => exact (effects_fuzzFunAnalyze o fn seed timeLimit w).frame p hp
  | user edit => exact hleaves

end Step

/-! ## Whole runs -/

/-- A source file of `src` is among these paths, unless it has one of three names or looks like an object file. -/
theorem not_packageTouches_src {h : Host} {n : Text} (hmakevars : n ≠ "Makevars") (hlibrary : n ≠ h.library ++ ".so")
    (hobject : ¬ (".o" : Text) <:+ n) (hexports : n ≠ "RcppExports.cpp") : ¬ PackageTouches h [("src" : Text), n] := by
  rintro (hp | hp | hp | (hp | ⟨m, hp, hm⟩) | (hp | hp | hp) | hp)
  · have hsame := hp.eq_of_length (by simp [testPath])
    exact absurd (List.cons.inj hsame).1 (by with_unfolding_all decide)
  · have hsame := hp.eq_of_length (by simp [testPath])
    exact absurd (List.cons.inj hsame).1 (by with_unfolding_all decide)
  · exact hmakevars (by simpa [makevarsPath] using hp)
  · exact hlibrary (by simpa [sharedObjectPath] using hp)
  · obtain rfl : n = m := by simpa using hp
    exact hobject hm
  · simp [Text.ofString_eq] at hp
  · simp at hp
  · simp [includePath, Text.ofString_eq] at hp
  · exact hexports (by simpa [rcppExportsPath] using hp)

/-- A package with a source file. -/
def sourcePackage : World := ⟨FileSystem.empty.write ["src", "code.cpp"] (.text "int x;"), []⟩

/-- The package is created, a harness compiled, and the package created again. -/
def recreatedRun : List Operation :=
  [.pkgCreate (sampleOutcome sampleExports), .compileFun ⟨true, false, .removes⟩ "f" .infun,
    .pkgCreate (sampleOutcome sampleExports)]

end RcppDeepState
