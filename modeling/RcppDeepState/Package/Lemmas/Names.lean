import RcppDeepState.Package.Build

/-!
# Names of files

The harness files, object files and executables of a function are told apart from each other and from
everything else the functions write.
-/

namespace RcppDeepState

/-! ## Suffixes of names -/

/-- What `fn ++ "_DeepState_TestHarness" ++ sep.suffix` is followed by in the names of the build. -/
def buildExtensions : List Text := [".cpp", ".o", ""]

theorem testHarness_append_inj {fn : Text} {sep sep' : Sep} {ext ext' : Text}
    (he : ext ∈ buildExtensions) (he' : ext' ∈ buildExtensions)
    (h : testHarness fn sep ++ ext = testHarness fn sep' ++ ext') :
    sep.suffix = sep'.suffix ∧ ext = ext' := by
  have h' : sep.suffix ++ ext = sep'.suffix ++ ext' := by
    simpa [testHarness] using h
  simp only [buildExtensions, List.mem_cons, List.not_mem_nil, or_false] at he he'
  cases sep <;> cases sep' <;> rcases he with rfl | rfl | rfl <;> rcases he' with rfl | rfl | rfl <;>
    simp [Sep.suffix, Text.ofString_eq] at h' ⊢

theorem testHarness_ne_output (fn : Text) (sep sep' : Sep) (ext : Text) :
    testHarness fn sep ++ ext ≠ fn ++ "_output" ++ sep'.suffix := by
  simp [testHarness, Text.ofString_eq]

theorem testHarness_ne_log (fn : Text) (sep sep' : Sep) {ext : Text} (he : ext ∈ buildExtensions) :
    testHarness fn sep ++ ext ≠ fn ++ sep'.suffix ++ "_log_text" := by
  simp only [buildExtensions, List.mem_cons, List.not_mem_nil, or_false] at he
  cases sep <;> cases sep' <;> rcases he with rfl | rfl | rfl <;>
    simp [testHarness, Sep.suffix, Text.ofString_eq]

theorem length_testHarness (fn : Text) (sep : Sep) (ext : Text) :
    22 ≤ (testHarness fn sep ++ ext).length := by
  have h : ("_DeepState_TestHarness" : Text).length = 22 := by with_unfolding_all decide
  simp only [testHarness, List.length_append, h]
  omega

theorem testHarness_ne_short (fn : Text) (sep : Sep) (ext : Text) {n : Text} (hn : n.length < 22) :
    testHarness fn sep ++ ext ≠ n := by
  rintro rfl
  exact absurd (length_testHarness fn sep ext) (by omega)

theorem length_makefileName (sep : Sep) : (makefileName sep).length < 22 := by
  cases sep <;> with_unfolding_all decide

/-! ## The files of a build -/

/-- The path of a harness, object file or executable. -/
def buildPath (fn : Text) (sep : Sep) (ext : Text) : Pathname := funPath fn ++ [testHarness fn sep ++ ext]

theorem harnessPath_eq (fn : Text) (sep : Sep) : harnessPath fn sep = buildPath fn sep ".cpp" := rfl

theorem objectPath_eq (fn : Text) (sep : Sep) : objectPath fn sep = buildPath fn sep ".o" := rfl

theorem executablePath_eq (fn : Text) (sep : Sep) : executablePath fn sep = buildPath fn sep "" := by
  rw [executablePath, buildPath, show ("" : Text) = [] by with_unfolding_all decide, List.append_nil]

theorem funPath_append_inj {fn fn' n n' : Text} :
    funPath fn ++ [n] = funPath fn' ++ [n'] ↔ fn = fn' ∧ n = n' := by
  simp [funPath, testPath]

theorem buildPath_inj {fn fn' : Text} {sep sep' : Sep} {ext ext' : Text} (he : ext ∈ buildExtensions)
    (he' : ext' ∈ buildExtensions) (h : buildPath fn sep ext = buildPath fn' sep' ext') :
    fn = fn' ∧ sep.suffix = sep'.suffix ∧ ext = ext' := by
  obtain ⟨rfl, hn⟩ := funPath_append_inj.mp h
  exact ⟨rfl, testHarness_append_inj he he' hn⟩

theorem buildPath_ne_makefilePath (fn fn' : Text) (sep sep' : Sep) (ext : Text) :
    buildPath fn sep ext ≠ makefilePath fn' sep' := by
  intro h
  exact testHarness_ne_short fn sep ext (length_makefileName sep') (funPath_append_inj.mp h).2

theorem buildPath_ne_inputsPath (fn fn' : Text) (sep : Sep) (ext : Text) :
    buildPath fn sep ext ≠ inputsPath fn' := by
  intro h
  exact testHarness_ne_short fn sep ext (n := "inputs") (by with_unfolding_all decide) (funPath_append_inj.mp h).2

theorem buildPath_ne_outputDir (fn fn' : Text) (sep sep' : Sep) (ext : Text) :
    buildPath fn sep ext ≠ outputDir fn' sep' := by
  intro h
  obtain ⟨rfl, hn⟩ := funPath_append_inj.mp h
  exact testHarness_ne_output fn sep sep' ext hn

theorem buildPath_ne_logFile (fn fn' : Text) (sep sep' : Sep) {ext : Text} (he : ext ∈ buildExtensions) :
    buildPath fn sep ext ≠ logFile fn' sep' := by
  intro h
  obtain ⟨rfl, hn⟩ := funPath_append_inj.mp h
  exact testHarness_ne_log fn sep sep' he hn

theorem buildPath_ne_src (fn : Text) (sep : Sep) (ext : Text) (p : Pathname) :
    buildPath fn sep ext ≠ ("src" : Text) :: p := by
  simp [buildPath, funPath, testPath, Text.ofString_eq]

/-- A prefix of a path as long as a build file's is that path. -/
theorem not_buildPath_prefix {fn : Text} {sep : Sep} {ext : Text} {p : Pathname} (hl : p.length ≤ 4)
    (hne : buildPath fn sep ext ≠ p) : ¬ buildPath fn sep ext <+: p := by
  intro h
  exact hne (h.eq_of_length_le hl)

theorem not_prefix_buildPath {fn : Text} {sep : Sep} {ext : Text} {p : Pathname} (hl : 4 ≤ p.length)
    (hne : buildPath fn sep ext ≠ p) : ¬ p <+: buildPath fn sep ext := by
  intro h
  exact hne (h.eq_of_length_le hl).symm

end RcppDeepState
