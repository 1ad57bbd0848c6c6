import RcppDeepState.Runtime.Hermetic
import RcppDeepState.Runtime.Lemmas.Traces

/-!
# Running all tests

Without saved cases the runner goes through its tests once. Which of them run, and how often, is decided by their
names and the options alone.
-/

namespace RcppDeepState

open Command

variable {σ : Type} {lib : Library σ} {flags : Flags} {defaults : Defaults}

/-! ## One turn of the loop -/

/-- The options let the test through. -/
def selects (flags : Flags) (name : Text) : Bool :=
  flags.testFilter.all (fun pattern => Glob.fnmatch pattern name) &&
    (flags.runDisabled.isSome || !isDisabled name)

/-- How often the loop over the tests runs one of this name. -/
def runsOf (flags : Flags) (name : Text) : Nat :=
  if flags.boringOnly.isSome then if isBoring name then 1 + (selects flags name).toNat else 0
  else (selects flags name).toNat

/-- The test does not pass when it is run on its own in `s`. -/
def runFails (lib : Library σ) (flags : Flags) (defaults : Defaults) (s : Machine σ) (test : TestInfo σ) : Bool :=
  outcome (do
    perform (lib.begin test)
    deepStateForkAndRunTest lib flags defaults test : Runner σ TestRunResult) s ≠ .ok .pass

/-- The memory but for the record of the current test. -/
def SameMemory (m m' : Memory σ) : Prop := ∃ run, m' = { m with currentTestRun := run }

section Turn

variable (hlib : lib.Lawful) (hfork : flags.fork.getD defaults.fork = true) {s t : Machine σ}

include hfork in
theorem runFails_eq (test : TestInfo σ) :
    runFails lib flags defaults s test =
      decide ((childRun lib flags defaults test (lib.begin test s.memory).1).1 ≠ .pass) := by
  have hrun : outcome (do
      perform (lib.begin test)
      deepStateForkAndRunTest lib flags defaults test : Runner σ TestRunResult) s =
        .ok (childRun lib flags defaults test (lib.begin test s.memory).1).1 :=
    outcome_of_ok ((bind_of_ok (perform_apply _ _)).trans (forkAndRunTest_fork hfork _))
  unfold runFails
  rw [hrun]
  simp

include hlib hfork in
theorem countRun_alone (test : TestInfo σ) (failed : Nat) (hmemory : SameMemory s.memory t.memory) :
    ∃ t', countRun lib flags defaults test failed t =
        .ok (failed + (runFails lib flags defaults s test).toNat) t' ∧
      ranTests t'.trace = ranTests t.trace ++ [test.testName] ∧ SameMemory s.memory t'.memory := by
  obtain ⟨run, hmemory⟩ := hmemory
  obtain ⟨run', hbegin⟩ := hlib.begin_memory test s.memory
  have hsame : lib.begin test t.memory = lib.begin test s.memory := by rw [hmemory, hlib.begin_run]
  refine ⟨⟨(lib.begin test t.memory).1, t.trace ++ (lib.begin test t.memory).2.map .left ++
    (childRun lib flags defaults test (lib.begin test t.memory).1).2.trace⟩, ?_, ?_, ?_⟩
  · unfold countRun
    rw [bind_of_ok (perform_apply _ _), bind_of_ok (forkAndRunTest_fork hfork _), runFails_eq hfork, hsame]
    generalize (childRun lib flags defaults test (lib.begin test s.memory).1).1 = result
    cases result <;> rfl
  · simp [ranTests_childRun]
  · exact ⟨run', by rw [hsame]; exact hbegin⟩

/-- The last part of a turn: the filter and the disabled tests. -/
def runSelected (lib : Library σ) (flags : Flags) (defaults : Defaults) (failed : Nat) (test : TestInfo σ) :
    Runner σ Nat :=
  if flags.testFilter.any fun pattern => !Glob.fnmatch pattern test.testName then pure failed
  else if flags.runDisabled.isNone ∧ isDisabled test.testName then pure failed
  else countRun lib flags defaults test failed

/-- A command that runs the test `n` times, and adds a failure for each time that it fails. -/
def Runs (lib : Library σ) (flags : Flags) (defaults : Defaults) (s : Machine σ) (test : TestInfo σ) (n failed : Nat)
    (c : Runner σ Nat) : Prop :=
  ∀ t : Machine σ, SameMemory s.memory t.memory →
    ∃ t', c t = .ok (failed + n * (runFails lib flags defaults s test).toNat) t' ∧
      ranTests t'.trace = ranTests t.trace ++ List.replicate n test.testName ∧ SameMemory s.memory t'.memory

theorem runs_pure (test : TestInfo σ) (failed : Nat) : Runs lib flags defaults s test 0 failed (pure failed) :=
  fun t h => ⟨t, by rw [Nat.zero_mul]; rfl, (List.append_nil _).symm, h⟩

include hlib hfork in
theorem runs_countRun (test : TestInfo σ) (failed : Nat) :
    Runs lib flags defaults s test 1 failed (countRun lib flags defaults test failed) := by
  intro t h
  rw [Nat.one_mul]
  exact countRun_alone hlib hfork test failed h

theorem Runs.bind {test : TestInfo σ} {n n' failed : Nat} {c : Runner σ Nat} {f : Nat → Runner σ Nat}
    (hc : Runs lib flags defaults s test n failed c)
    (hf : ∀ failed, Runs lib flags defaults s test n' failed (f failed)) :
    Runs lib flags defaults s test (n + n') failed (c >>= f) := by
  intro t h
  obtain ⟨t', hrun, hran, h'⟩ := hc t h
  obtain ⟨t'', hrun', hran', h''⟩ := hf _ t' h'
  refine ⟨t'', ?_, ?_, h''⟩
  · rw [bind_of_ok hrun, hrun', Nat.add_mul, Nat.add_assoc]
  · rw [hran', hran, List.append_assoc, List.replicate_append_replicate]

include hlib hfork in
theorem runs_runSelected (test : TestInfo σ) (failed : Nat) :
    Runs lib flags defaults s test (selects flags test.testName).toNat failed
      (runSelected lib flags defaults failed test) := by
  have hfilter : (flags.testFilter.any fun pattern => !Glob.fnmatch pattern test.testName) =
      !flags.testFilter.all fun pattern => Glob.fnmatch pattern test.testName := by
    cases flags.testFilter <;> rfl
  unfold runSelected selects
  rw [hfilter]
  cases flags.testFilter.all fun pattern => Glob.fnmatch pattern test.testName with
  | false => exact runs_pure test failed
  | true =>
      cases flags.runDisabled with
      | some given => exact runs_countRun hlib hfork test failed
      | none =>
          cases isDisabled test.testName with
          | false => exact runs_countRun hlib hfork test failed
          | true => exact runs_pure test failed

include hlib hfork in
/-- One turn runs the test as often as its name and the options say. -/
theorem runs_runOne (test : TestInfo σ) (failed : Nat) :
    Runs lib flags defaults s test (runsOf flags test.testName) failed (runOne lib flags defaults failed test) := by
  have hselected := fun failed => runs_runSelected (s := s) hlib hfork test failed
  unfold runOne runsOf
  cases hboring : flags.boringOnly.isSome with
  | false => exact hselected failed
  | true =>
      cases hname : isBoring test.testName with
      | false => exact runs_pure test failed
      | true => exact (runs_countRun hlib hfork test failed).bind hselected

end Turn

/-! ## The whole loop -/

/-- With child processes every test runs exactly as often as its name and the options say, in the order of the
tests, and the result counts each of its failures. -/
theorem runAllTests_counts (hlib : lib.Lawful) (hfork : flags.fork.getD defaults.fork = true)
    (tests : List (TestInfo σ)) (s : Machine σ) :
    ∃ s', runAllTests lib flags defaults tests s =
        .ok (tests.map fun test =>
          runsOf flags test.testName * (runFails lib flags defaults s test).toNat).sum s' ∧
      ranTests s'.trace = ranTests s.trace ++
        tests.flatMap fun test => List.replicate (runsOf flags test.testName) test.testName := by
  have hloop : ∀ (rest : List (TestInfo σ)) (failed : Nat) (t : Machine σ), SameMemory s.memory t.memory →
      ∃ t', rest.foldlM (runOne lib flags defaults) failed t =
          .ok (failed + (rest.map fun test =>
            runsOf flags test.testName * (runFails lib flags defaults s test).toNat).sum) t' ∧
        ranTests t'.trace = ranTests t.trace ++
          rest.flatMap fun test => List.replicate (runsOf flags test.testName) test.testName := by
    intro rest
    induction rest with
    | nil => exact fun failed t _ => ⟨t, rfl, (List.append_nil _).symm⟩
    | cons test rest ih =>
        intro failed t ht
        obtain ⟨t', hturn, hran, ht'⟩ := runs_runOne hlib hfork test failed t ht
        obtain ⟨t'', hrest, hran'⟩ := ih _ t' ht'
        refine ⟨t'', ?_, ?_⟩
        · rw [List.foldlM_cons, bind_of_ok hturn, hrest, List.map_cons, List.sum_cons, Nat.add_assoc]
        · rw [hran', hran, List.flatMap_cons, List.append_assoc]
  obtain ⟨t, hrun, hran⟩ := hloop tests 0 s ⟨s.memory.currentTestRun, rfl⟩
  refine ⟨⟨(lib.teardown t.memory).1, t.trace ++ (lib.teardown t.memory).2.map .left⟩, ?_, ?_⟩
  · unfold runAllTests
    rw [bind_of_ok hrun, Nat.zero_add]
    rfl
  · rw [ranTests_append, ranTests_left, List.append_nil, hran]

/-- A boring test that fails, runs and counts twice. -/
theorem runAllTests_boring :
    ∃ s', runAllTests sampleLibrary { sampleFlags with boringOnly := some true } sampleDefaults
        [{ sampleTest with testName := "c_Boring" }, sampleTest]
        { sampleMachine with memory := { sampleMachine.memory with rest := 1 } } = .ok 2 s' ∧
      ranTests s'.trace = ["c_Boring", "c_Boring"] := by
  obtain ⟨s', hrun, hran⟩ := @runAllTests_counts _ sampleLibrary { sampleFlags with boringOnly := some true }
    sampleDefaults sampleLibrary_lawful rfl [{ sampleTest with testName := "c_Boring" }, sampleTest]
    { sampleMachine with memory := { sampleMachine.memory with rest := 1 } }
  refine ⟨s', hrun.trans ?_, hran.trans ?_⟩
  · exact congrArg (EStateM.Result.ok · s') (by with_unfolding_all decide)
  · with_unfolding_all decide

end RcppDeepState
