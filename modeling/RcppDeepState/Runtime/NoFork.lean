import RcppDeepState.Runtime.Hermetic

/-!
# Running tests without child processes

With `--no_fork` a test runs in the process of the runner. Where the tests end and clean up after themselves
this changes no result.
-/

namespace RcppDeepState

open Command

variable {σ : Type} {lib : Library σ} {flags : Flags} {defaults : Defaults} {disk : Disk} {test : TestInfo σ}

/-- The test ends by itself, and cleaning up restores what it keeps between calls. -/
structure TestInfo.Tame (lib : Library σ) (test : TestInfo σ) : Prop where
  ends : ∀ m, (test.testFunc m).1 = .returns ∨ (test.testFunc m).1 = .throws ∨ (test.testFunc m).1 = .jumps
  restores : ∀ m, (lib.cleanUp (test.testFunc m).2.1).1.rest = m.rest

/-! ## Commands that return -/

section Returns

variable {α : Type} {P : α → Prop}

/-- The command returns a value with `P` and leaves alone what the tests keep. -/
def Returns (P : α → Prop) (c : Runner σ α) : Prop :=
  ∀ s, ∃ a s', c s = .ok a s' ∧ P a ∧ s'.memory.rest = s.memory.rest

theorem Returns.pure {a : α} (h : P a) : Returns P (pure a : Runner σ α) := fun s => ⟨a, s, rfl, h, rfl⟩

theorem Keeps.returns {c : Runner σ Unit} {d : Runner σ α} (hc : Keeps c) (hd : Returns P d) :
    Returns P (c >>= fun _ => d) := by
  intro s
  obtain ⟨s', hcs, hrest⟩ := hc s
  obtain ⟨a, s'', hds, ha, hrest'⟩ := hd s'
  exact ⟨a, s'', by rw [bind_of_ok hcs, hds], ha, hrest'.trans hrest⟩

theorem Returns.readMemory {f : Memory σ → Runner σ α} (h : ∀ m, Returns P (f m)) :
    Returns P (readMemory >>= f) :=
  fun s => h s.memory s

theorem Returns.ite {c : Prop} [Decidable c] {d e : Runner σ α} (hd : Returns P d) (he : Returns P e) :
    Returns P (if c then d else e) := by
  split
  · exact hd
  · exact he

end Returns

/-! ## One test -/

theorem keeps_when_false (c : Runner σ Unit) : Keeps (when (false = true) c) :=
  fun s => ⟨s, by rw [when, if_neg Bool.false_ne_true]; rfl, rfl⟩

/-- A jump that crashes nothing comes to a result which its exit code tells again. -/
theorem settle_returns :
    Returns (fun result => TestRunResult.ofStatus result.status = result)
      (settle lib flags defaults false test) := by
  refine Returns.readMemory fun m => Returns.ite ?_ (Returns.readMemory fun m => Returns.ite ?_ ?_)
  · refine (Keeps.logFormat _ _).returns ((Keeps.when _ (Keeps.leave _)).returns ?_)
    exact (keeps_when_false _).returns (Returns.pure (by decide))
  · exact (Keeps.logFormat _ _).returns (Returns.pure (by decide))
  · exact (Keeps.logFormat _ _).returns ((Keeps.when _ (Keeps.leave _)).returns (Returns.pure (by decide)))

/-- A tame test comes to a result, and cleaning up undoes what it has done. -/
theorem runTo_tame (hlib : lib.Lawful) (htame : test.Tame lib) (s : Machine σ) :
    ∃ result s', runTo lib flags defaults false test s = .ok result s' ∧
      TestRunResult.ofStatus result.status = result ∧ (lib.cleanUp s'.memory).1.rest = s.memory.rest := by
  have hcall : callTest test s = .ok (test.testFunc s.memory).1
      ⟨(test.testFunc s.memory).2.1, s.trace ++ [.run test.testName] ++ (test.testFunc s.memory).2.2.map .left⟩ := rfl
  have hclean := htame.restores s.memory
  unfold runTo
  rw [bind_of_ok hcall]
  rcases htame.ends s.memory with hend | hend | hend
  · rw [hend]
    exact ⟨.pass, _, rfl, by decide, hclean⟩
  · rw [hend, conclude, bind_of_ok (perform_apply _ _)]
    obtain ⟨result, s', hsettle, hstatus, hrest⟩ := @settle_returns _ lib flags defaults test
      ⟨(lib.fail (test.testFunc s.memory).2.1).1, _⟩
    refine ⟨result, s', hsettle, hstatus, ?_⟩
    rw [hlib.cleanUp_rest _ _ (hrest.trans (hlib.fail_rest _))]
    exact hclean
  · rw [hend]
    obtain ⟨result, s', hsettle, hstatus, hrest⟩ := @settle_returns _ lib flags defaults test
      ⟨(test.testFunc s.memory).2.1, s.trace ++ [.run test.testName] ++ (test.testFunc s.memory).2.2.map .left⟩
    refine ⟨result, s', hsettle, hstatus, ?_⟩
    rw [hlib.cleanUp_rest _ _ hrest]
    exact hclean

/-- The result in the process of the runner is the one of a child process. -/
theorem forkAndRunTest_noFork (hlib : lib.Lawful) (htame : test.Tame lib)
    (hfork : flags.fork.getD defaults.fork = false) (habort : flags.abortOnFail = none) (s : Machine σ) :
    ∃ s', deepStateForkAndRunTest lib flags defaults test s = .ok (childRun lib flags defaults test s.memory).1 s' ∧
      s'.memory.rest = s.memory.rest := by
  obtain ⟨result, s', hrun, hstatus, hclean⟩ := @runTo_tame _ lib flags defaults test hlib htame s
  have hchild : (childRun lib flags defaults test s.memory).1 = result := by
    have hagree := shifted_runTo (p := s.trace) lib flags defaults false test s ⟨s.memory, []⟩ ⟨rfl, by simp⟩
    rw [hrun] at hagree
    obtain ⟨s'', hempty, _⟩ := hagree.of_ok
    unfold childRun deepStateRunTest
    rw [bind_of_ok hempty]
    exact hstatus
  refine ⟨⟨(lib.cleanUp s'.memory).1, s'.trace ++ (lib.cleanUp s'.memory).2.map .left⟩, ?_, hclean⟩
  unfold deepStateForkAndRunTest deepStateRunTestNoFork
  rw [if_neg (by simp [hfork]), habort, Option.isSome_none, bind_of_ok hrun, hchild]
  rfl

/-! ## Saved cases -/

theorem isolated_noFork (hlib : lib.Lawful) (htame : test.Tame lib) (hfork : flags.fork.getD defaults.fork = false)
    (habort : flags.abortOnFail = none) : Isolated lib flags defaults disk test := by
  intro dir name s
  unfold deepStateRunSavedTestCase runOpened caseResult
  generalize disk.fopen (savedPath dir name) = file
  cases hload : file.loads with
  | false =>
      obtain ⟨s', hinit, hrest⟩ := initInputFromFile_fails hlib hload (savedPath dir name) s
      rw [bind_of_ok hinit, if_neg Bool.false_ne_true, if_neg Bool.false_ne_true]
      exact ⟨_, rfl, hrest⟩
  | true =>
      obtain ⟨tr, hinit⟩ := @initInputFromFile_loads _ lib _ hload (savedPath dir name) s
      obtain ⟨s', hrun, hkept⟩ := @forkAndRunTest_noFork _ lib flags defaults test hlib htame hfork habort
        ⟨(lib.begin test (loaded lib file s.memory)).1, tr ++ (lib.begin test (loaded lib file s.memory)).2.map .left⟩
      rw [bind_of_ok hinit, if_pos rfl, if_pos rfl, bind_of_ok (perform_apply _ _), bind_of_ok hrun]
      obtain ⟨s'', hreport, hrest⟩ := @reportCase_keeps _ lib flags test hlib (savedPath dir name) _ s'
      refine ⟨s'', by rw [bind_of_ok hreport]; rfl, hrest.trans (hkept.trans ?_)⟩
      exact (hlib.begin_rest _ _).trans (loaded_rest _ _)

/-! ## The three ways to replay -/

section Modes

/-- The options with or without child processes. -/
def Flags.forking (flags : Flags) (fork : Bool) : Flags := { flags with fork := some fork }

variable {tests : List (TestInfo σ)} (hlib : lib.Lawful) (htame : ∀ test ∈ tests, test.Tame lib)
  (habort : flags.abortOnFail = none)

include hlib htame habort in
theorem isolated_forking (fork : Bool) (htest : test ∈ tests) :
    Isolated lib (flags.forking fork) defaults disk test := by
  cases fork with
  | true => exact isolated_fork hlib rfl test
  | false => exact isolated_noFork hlib (htame test htest) rfl habort

include hlib htame habort in
theorem resultAlone_forking (s : Machine σ) (htest : test ∈ tests) (dir name : Text) :
    resultAlone lib (flags.forking false) defaults disk s test dir name =
      resultAlone lib (flags.forking true) defaults disk s test dir name := by
  rw [resultAlone_eq (isolated_forking hlib htame habort false htest),
    resultAlone_eq (isolated_forking hlib htame habort true htest)]
  rfl

include hlib htame habort in
theorem failuresAlone_forking (s : Machine σ) (htest : test ∈ tests) :
    failuresAlone lib (flags.forking false) defaults disk s test =
      failuresAlone lib (flags.forking true) defaults disk s test := by
  have halone : ∀ dir name, resultAlone lib (flags.forking false) defaults disk s test dir name =
      resultAlone lib (flags.forking true) defaults disk s test dir name :=
    resultAlone_forking hlib htame habort s htest
  unfold failuresAlone
  rw [funext₂ halone]
  rfl

theorem chosenTest_mem (h : chosenTest flags tests = some test) : test ∈ tests := by
  unfold chosenTest at h
  cases hwhich : flags.inputWhichTest with
  | some which => rw [hwhich] at h; exact List.mem_of_find?_eq_some h
  | none => rw [hwhich] at h; exact List.mem_of_head? h

include hlib htame habort in
theorem failsAlone_forking (s : Machine σ) (htest : test ∈ tests) (dir : Text) :
    failsAlone lib (flags.forking false) defaults disk s test dir =
      failsAlone lib (flags.forking true) defaults disk s test dir := by
  funext name
  unfold failsAlone
  rw [resultAlone_forking hlib htame habort s htest]

/-- Running the tests in the runner's own process changes no count and no way to end, when the tests end by
themselves and clean up. -/
theorem noFork_agrees (hlib : lib.Lawful) (htame : ∀ test ∈ tests, test.Tame lib)
    (habort : flags.abortOnFail = none) (s : Machine σ) :
    outcome (deepStateRunSavedTestCases lib (flags.forking false) defaults disk tests) s =
        outcome (deepStateRunSavedTestCases lib (flags.forking true) defaults disk tests) s ∧
      outcome (deepStateRunSingleSavedTestDir lib (flags.forking false) defaults disk tests) s =
        outcome (deepStateRunSingleSavedTestDir lib (flags.forking true) defaults disk tests) s ∧
      outcome (deepStateRunSingleSavedTestCase lib (flags.forking false) defaults disk tests) s =
        outcome (deepStateRunSingleSavedTestCase lib (flags.forking true) defaults disk tests) s := by
  have hisolated : ∀ fork, ∀ test ∈ tests, Isolated lib (flags.forking fork) defaults disk test :=
    fun fork test htest => isolated_forking hlib htame habort fork htest
  refine ⟨?_, ?_, ?_⟩
  · rw [runSavedTestCases_alone hlib (hisolated false), runSavedTestCases_alone hlib (hisolated true)]
    exact congrArg (fun l => Except.ok (List.sum l))
      (List.map_congr_left fun test htest => failuresAlone_forking hlib htame habort s htest)
  · cases hchosen : chosenTest flags tests with
    | none =>
        have hnothing := fun fork => @runSingleSavedTestDir_nothing _ lib (flags.forking fork) defaults disk tests
          (.inl hchosen) s
        rw [hnothing, hnothing]
    | some test =>
        have htest := chosenTest_mem hchosen
        cases hnames : disk.readdir (flags.inputTestFilesDir.getD []) with
        | none =>
            have hnothing := fun fork => @runSingleSavedTestDir_nothing _ lib (flags.forking fork) defaults disk tests
              (.inr hnames) s
            rw [hnothing, hnothing]
        | some names =>
            have hreplay := fun fork => runSingleSavedTestDir_alone hlib (hisolated fork test htest) hchosen hnames s
            rw [hreplay, hreplay]
            change endsAfter _ _ (List.countP (failsAlone lib (flags.forking false) defaults disk s test _) _) _ = _
            rw [failsAlone_forking hlib htame habort s htest]
            rfl
  · cases hchosen : chosenTest flags tests with
    | none =>
        have hnothing := fun fork => @runSingleSavedTestCase_nothing _ lib (flags.forking fork) defaults disk tests
          hchosen s
        rw [hnothing, hnothing]
    | some test =>
        have htest := chosenTest_mem hchosen
        have hreplay := fun fork => runSingleSavedTestCase_alone (hisolated fork test htest) hchosen s
        rw [hreplay, hreplay, resultAlone_forking hlib htame habort s htest]
        rfl

theorem noFork_agrees_sample :
    outcome (deepStateRunSavedTestCases sampleLibrary (sampleFlags.forking false) sampleDefaults
        (sampleDisk ["a.pass", "b.fail", "c.pass"]) [sampleTest]) sampleMachine = .ok 1 := by
  have htame : ∀ test ∈ [sampleTest], test.Tame sampleLibrary := by
    intro test htest
    cases List.mem_singleton.mp htest
    refine ⟨fun m => ?_, fun m => rfl⟩
    unfold sampleTest
    dsimp only
    split
    · exact .inl rfl
    · exact .inr (.inl rfl)
  rw [(noFork_agrees sampleLibrary_lawful htame rfl sampleMachine).1]
  with_unfolding_all decide

end Modes

end RcppDeepState
