import RcppDeepState.Library.Relational
import RcppDeepState.Runtime.Runner

/-!
# What one saved case comes to

In a child process a test sees the memory it is given and nothing else, so its result is a function of that
memory, and the parent keeps its own.
-/

namespace RcppDeepState

open Command

variable {σ : Type}

/-- What the runner relies on: scrubbing forgets the buffer, a new test forgets the record of the last one, and
none of the marks touches what the tests keep. -/
structure Library.Lawful (lib : Library σ) : Prop where
  scrub : ∀ b b', lib.memScrub b = lib.memScrub b'
  begin_run : ∀ test m run, lib.begin test { m with currentTestRun := run } = lib.begin test m
  begin_memory : ∀ test m, ∃ run, (lib.begin test m).1 = { m with currentTestRun := run }
  abandon_rest : ∀ reason m, (lib.abandon reason m).1.rest = m.rest
  crash_rest : ∀ m, (lib.crash m).1.rest = m.rest
  fail_rest : ∀ m, (lib.fail m).1.rest = m.rest
  cleanUp_rest : ∀ m m', m.rest = m'.rest → (lib.cleanUp m).1.rest = (lib.cleanUp m').1.rest

theorem Library.Lawful.begin_rest {lib : Library σ} (hlib : lib.Lawful) (test : TestInfo σ) (m : Memory σ) :
    (lib.begin test m).1.rest = m.rest := by
  obtain ⟨run, hrun⟩ := hlib.begin_memory test m
  rw [hrun]

/-! ## Steps -/

section Steps

variable (s : Machine σ)

@[simp] theorem perform_apply (a : Action σ) :
    (perform a : Runner σ Unit) s = .ok () ⟨(a s.memory).1, s.trace ++ (a s.memory).2.map .left⟩ := rfl

@[simp] theorem trace_apply (t : Trace) : (trace t : Runner σ Unit) s = .ok () ⟨s.memory, s.trace ++ [t]⟩ := rfl

@[simp] theorem logFormat_apply (level : LogLevel) (line : Text) :
    (logFormat level line : Runner σ Unit) s = .ok () ⟨s.memory, s.trace ++ [.left (.log level line)]⟩ := rfl

@[simp] theorem onMemory_apply (f : Memory σ → Memory σ) :
    (onMemory f : Runner σ Unit) s = .ok () ⟨f s.memory, s.trace⟩ := rfl

@[simp] theorem exit_apply {α : Type} (status : UInt8) :
    (exit status : Runner σ α) s = .error (.exited status) s := rfl

end Steps

/-! ## A process writes behind what is there -/

section Shifted

variable {α : Type} {p : List Trace}

/-- The same memory, and a trace with `p` in front. -/
def Shifted (p : List Trace) (s t : Machine σ) : Prop := s.memory = t.memory ∧ s.trace = p ++ t.trace

theorem shifted_trace (t : Trace) : Related (Shifted p) (trace t : Runner σ Unit) (trace t) := by
  intro s s' h
  exact .ok ⟨h.1, by simp [h.2]⟩

theorem shifted_perform (a : Action σ) : Related (Shifted p) (perform a) (perform a) := by
  intro s s' h
  refine .ok ⟨?_, ?_⟩
  · simp only [h.1]
  · simp [h.1, h.2]

theorem shifted_when (c : Prop) [Decidable c] {m : Runner σ Unit} (h : Related (Shifted p) m m) :
    Related (Shifted p) (when c m) (when c m) :=
  Related.ite Iff.rfl h (Related.pure _)

theorem shifted_readMemory {f : Memory σ → Runner σ α} (h : ∀ m, Related (Shifted p) (f m) (f m)) :
    Related (Shifted p) (readMemory >>= f) (readMemory >>= f) := by
  intro s t hst
  show Agree _ (f s.memory s) (f t.memory t)
  rw [hst.1]
  exact h t.memory s t hst

theorem shifted_callTest (test : TestInfo σ) : Related (Shifted p) (callTest test) (callTest test) := by
  refine (shifted_trace _).bind fun _ => shifted_readMemory fun m => ?_
  exact (shifted_perform _).bind fun _ => Related.pure _

variable (lib : Library σ) (flags : Flags) (defaults : Defaults)

theorem shifted_settle (crashes : Bool) (test : TestInfo σ) :
    Related (Shifted p) (settle lib flags defaults crashes test) (settle lib flags defaults crashes test) := by
  refine shifted_readMemory fun m => Related.ite Iff.rfl ?_ (shifted_readMemory fun m => Related.ite Iff.rfl ?_ ?_)
  · refine (shifted_trace _).bind fun _ => (shifted_when _ (shifted_trace (.left _))).bind fun _ => ?_
    exact (shifted_when _ (Related.throw _)).bind fun _ => Related.pure _
  · exact (shifted_trace _).bind fun _ => Related.pure _
  · refine (shifted_trace _).bind fun _ => ?_
    exact (shifted_when _ (shifted_trace (.left _))).bind fun _ => Related.pure _

theorem shifted_runTo (crashes : Bool) (test : TestInfo σ) :
    Related (Shifted p) (runTo lib flags defaults crashes test) (runTo lib flags defaults crashes test) := by
  refine (shifted_callTest test).bind fun ending => ?_
  cases ending with
  | returns => exact Related.pure _
  | throws => exact (shifted_perform _).bind fun _ => shifted_settle _ _ _ _ _
  | jumps => exact shifted_settle _ _ _ _ _
  | exits status => exact Related.throw _
  | killed => exact Related.throw _

theorem shifted_runTest (test : TestInfo σ) :
    Related (Shifted p) (deepStateRunTest lib flags defaults test) (deepStateRunTest lib flags defaults test) :=
  (shifted_runTo _ _ _ _ _).bind fun _ => Related.throw _

end Shifted

/-! ## The child process -/

section Child

variable (lib : Library σ) (flags : Flags) (defaults : Defaults) (test : TestInfo σ) (m : Memory σ)

/-- The child process of a test, and what the parent makes of it. -/
def childRun : TestRunResult × Machine σ :=
  waitFor (deepStateRunTest lib flags defaults test ⟨m, []⟩) ⟨m, []⟩

variable {lib flags defaults test m}

/-- A child leaves the parent's memory alone. -/
theorem forkAndRunTest_fork (hfork : flags.fork.getD defaults.fork = true) (s : Machine σ) :
    deepStateForkAndRunTest lib flags defaults test s =
      .ok (childRun lib flags defaults test s.memory).1
        ⟨s.memory, s.trace ++ (childRun lib flags defaults test s.memory).2.trace⟩ := by
  have hagree := shifted_runTest (p := s.trace) lib flags defaults test s ⟨s.memory, []⟩ ⟨rfl, by simp⟩
  have hrun : deepStateForkAndRunTest lib flags defaults test s =
      .ok (waitFor (deepStateRunTest lib flags defaults test s) s).1
        (waitFor (deepStateRunTest lib flags defaults test s) s).2 := by
    rw [deepStateForkAndRunTest, if_pos hfork]
    rfl
  rw [hrun, childRun]
  cases hchild : deepStateRunTest lib flags defaults test ⟨s.memory, []⟩ with
  | ok never s' => exact never.elim
  | error death s' =>
      rw [hchild] at hagree
      cases hself : deepStateRunTest lib flags defaults test s with
      | ok never s'' => exact never.elim
      | error death' s'' =>
          rw [hself] at hagree
          cases hagree with
          | error hshift =>
              cases death with
              | exited status => simp [waitFor, hshift.2]
              | killed => simp [waitFor, hshift.2]

end Child

/-! ## Commands that return and leave alone what the tests keep -/

section Keeps

/-- The command returns, and what the tests keep is as it was. -/
def Keeps (c : Runner σ Unit) : Prop := ∀ s, ∃ s', c s = .ok () s' ∧ s'.memory.rest = s.memory.rest

theorem Keeps.logFormat (level : LogLevel) (line : Text) : Keeps (logFormat level line : Runner σ Unit) :=
  fun _ => ⟨_, rfl, rfl⟩

theorem Keeps.leave (t : Output) : Keeps (leave t : Runner σ Unit) := fun _ => ⟨_, rfl, rfl⟩

theorem Keeps.perform {a : Action σ} (h : ∀ m, (a m).1.rest = m.rest) : Keeps (perform a) :=
  fun s => ⟨_, rfl, h s.memory⟩

theorem Keeps.bind {c d : Runner σ Unit} (hc : Keeps c) (hd : Keeps d) : Keeps (c >>= fun _ => d) := by
  intro s
  obtain ⟨s', hcs, hrest⟩ := hc s
  obtain ⟨s'', hds, hrest'⟩ := hd s'
  exact ⟨s'', by rw [bind_of_ok hcs, hds], hrest'.trans hrest⟩

theorem Keeps.when {c : Runner σ Unit} (p : Prop) [Decidable p] (hc : Keeps c) : Keeps (when p c) := by
  intro s
  by_cases hp : p
  · rw [RcppDeepState.when, if_pos hp]
    exact hc s
  · exact ⟨s, by rw [RcppDeepState.when, if_neg hp]; rfl, rfl⟩

end Keeps

/-! ## One saved case -/

section Case

/-- The file is read into the buffer. -/
def Opened.loads : Opened → Bool
  | .opened size content => (content.take (toRead size)).length = toRead size
  | _ => false

/-- The memory a test starts from, once the buffer is filled. -/
def loaded (lib : Library σ) (file : Opened) (m : Memory σ) : Memory σ :=
  match file with
  | .opened size content =>
      { m with
        input := (lib.memScrub m.input).load content (toRead size), inputIndex := 0,
        swarmConfigsIndex := 0 }
  | _ => m

variable {lib : Library σ} {flags : Flags} {defaults : Defaults} {disk : Disk} {test : TestInfo σ}

theorem loaded_rest (file : Opened) (m : Memory σ) : (loaded lib file m).rest = m.rest := by
  cases file <;> rfl

theorem warnTooLarge_apply (size : Nat) (s : Machine σ) :
    ∃ tr, (when (inputSize < size) (logFormat .warning "File too large, truncating to max input size") :
      Runner σ Unit) s = .ok () ⟨s.memory, tr⟩ := by
  by_cases hsize : inputSize < size
  · exact ⟨_, by rw [when, if_pos hsize]; exact logFormat_apply _ _ _⟩
  · exact ⟨s.trace, by rw [when, if_neg hsize]; rfl⟩

theorem initInputFromFile_loads {file : Opened} (h : file.loads = true) (path : Text) (s : Machine σ) :
    ∃ tr, deepStateInitInputFromFile lib file path s = .ok true ⟨loaded lib file s.memory, tr⟩ := by
  cases file with
  | missing => cases h
  | noDescriptor => cases h
  | noStat => cases h
  | opened size content =>
      obtain ⟨tr, hwarn⟩ := warnTooLarge_apply size s
      have hlen : (content.take (toRead size)).length = toRead size := by
        simpa only [Opened.loads, decide_eq_true_eq] using h
      refine ⟨tr ++ [.left (.log .trace ("Initialized test input buffer with data from `" ++ path ++ "`"))], ?_⟩
      dsimp only [deepStateInitInputFromFile]
      rw [bind_of_ok hwarn, bind_of_ok (onMemory_apply _ _), if_neg (not_not.mpr hlen)]
      rfl

theorem initInputFromFile_fails (hlib : lib.Lawful) {file : Opened} (h : file.loads = false) (path : Text)
    (s : Machine σ) :
    ∃ s', deepStateInitInputFromFile lib file path s = .ok false s' ∧ s'.memory.rest = s.memory.rest := by
  cases file with
  | missing => exact ⟨_, rfl, hlib.abandon_rest _ _⟩
  | noDescriptor => exact ⟨_, rfl, hlib.abandon_rest _ _⟩
  | noStat => exact ⟨_, rfl, hlib.abandon_rest _ _⟩
  | opened size content =>
      obtain ⟨tr, hwarn⟩ := warnTooLarge_apply size s
      have hlen : (content.take (toRead size)).length ≠ toRead size := by
        simpa only [Opened.loads, decide_eq_false_iff_not] using h
      dsimp only [deepStateInitInputFromFile]
      rw [bind_of_ok hwarn, bind_of_ok (onMemory_apply _ _), if_pos hlen]
      exact ⟨_, rfl, hlib.abandon_rest _ _⟩

/-- The result of a test on a file, for the memory of the parent. -/
def caseResult (lib : Library σ) (flags : Flags) (defaults : Defaults) (test : TestInfo σ) (file : Opened)
    (m : Memory σ) : TestRunResult :=
  if file.loads then (childRun lib flags defaults test (lib.begin test (loaded lib file m)).1).1 else .crash

/-- The result depends on what the tests keep and on nothing else of the parent's memory. -/
theorem caseResult_congr (hlib : lib.Lawful) {m m' : Memory σ} (hrest : m.rest = m'.rest) (file : Opened) :
    caseResult lib flags defaults test file m = caseResult lib flags defaults test file m' := by
  unfold caseResult
  cases file with
  | missing => rfl
  | noDescriptor => rfl
  | noStat => rfl
  | opened size content =>
      have hloaded : loaded lib (.opened size content) m =
          { loaded lib (.opened size content) m' with currentTestRun := m.currentTestRun } := by
        simp only [loaded, hrest, hlib.scrub m.input m'.input]
      rw [hloaded, hlib.begin_run]

theorem reportCase_keeps (hlib : lib.Lawful) (path : Text) (result : TestRunResult) :
    Keeps (reportCase lib flags test path result) := by
  refine (Keeps.when _ (Keeps.logFormat _ _)).bind (Keeps.when _ ?_)
  refine (Keeps.logFormat _ _).bind ((Keeps.logFormat _ _).bind ?_)
  exact (Keeps.when _ (Keeps.leave _)).bind (Keeps.perform hlib.crash_rest)

/-- In a child process a saved case comes to its result and changes nothing that the tests keep. -/
theorem runSavedTestCase_fork (hlib : lib.Lawful) (hfork : flags.fork.getD defaults.fork = true)
    (dir name : Text) (s : Machine σ) :
    ∃ s', deepStateRunSavedTestCase lib flags defaults disk test dir name s =
        .ok (caseResult lib flags defaults test (disk.fopen (savedPath dir name)) s.memory) s' ∧
      s'.memory.rest = s.memory.rest := by
  unfold deepStateRunSavedTestCase runOpened caseResult
  generalize disk.fopen (savedPath dir name) = file
  cases hload : file.loads with
  | false =>
      obtain ⟨s', hinit, hrest⟩ := initInputFromFile_fails hlib hload (savedPath dir name) s
      rw [bind_of_ok hinit, if_neg Bool.false_ne_true, if_neg Bool.false_ne_true]
      exact ⟨_, rfl, hrest⟩
  | true =>
      obtain ⟨tr, hinit⟩ := @initInputFromFile_loads _ lib _ hload (savedPath dir name) s
      rw [bind_of_ok hinit, if_pos rfl, if_pos rfl, bind_of_ok (perform_apply _ _),
        bind_of_ok (forkAndRunTest_fork hfork _)]
      obtain ⟨s', hreport, hrest⟩ := reportCase_keeps hlib (savedPath dir name) _ _
      exact ⟨s', by rw [bind_of_ok hreport]; rfl, hrest.trans ((hlib.begin_rest _ _).trans (loaded_rest _ _))⟩

end Case

/-! ## A sample -/

section Sample

/-- A library that keeps the record of the current test and writes no more than the names of tests. -/
def sampleLibrary : Library Nat where
  memScrub _ := ⟨List.replicate inputSize 0, List.length_replicate ..⟩
  begin test m := ({ m with currentTestRun := some ⟨test.testName, .pass, none⟩ }, [.log .trace test.testName])
  fail m := ({ m with currentTestRun := m.currentTestRun.map fun run => { run with result := .fail } }, [])
  abandon reason m :=
    ({ m with currentTestRun := m.currentTestRun.map fun run =>
        { run with result := .abandon, reason := some reason } }, [.log .error reason])
  crash m := ({ m with currentTestRun := m.currentTestRun.map fun run => { run with result := .crash } }, [])
  cleanUp m := ({ m with rest := m.rest - 1 }, [])
  teardown m := (m, [])
  catchFail m := m.currentTestRun.any fun run => run.result = .fail
  catchAbandoned m := m.currentTestRun.any fun run => run.result = .abandon
  fuzz := pure 0

theorem sampleLibrary_lawful : sampleLibrary.Lawful where
  scrub _ _ := rfl
  begin_run _ _ _ := rfl
  begin_memory _ _ := ⟨_, rfl⟩
  abandon_rest _ _ := rfl
  crash_rest _ := rfl
  fail_rest _ := rfl
  cleanUp_rest _ _ h := congrArg (· - 1) h

/-- A test that counts its calls, and throws when it has been called before or reads a one. -/
def sampleTest : TestInfo Nat where
  testFunc m :=
    (if m.rest = 0 ∧ m.input.bytes.head? ≠ some 1 then .returns else .throws, { m with rest := m.rest + 1 }, [])
  testName := "pkg_runner"
  fileName := "f_DeepState_TestHarness.cpp"
  lineNumber := 12

def sampleFlags : Flags where
  inputTestDir := some "saved"
  inputTestFile := some "saved/a.pass"
  inputTestFilesDir := some "saved"
  inputWhichTest := some "pkg_runner"
  outputTestDir := none
  testFilter := none
  abortOnFail := none
  exitOnFail := none
  fuzz := none
  fuzzSavePassing := none
  fork := some true
  listTests := none
  boringOnly := none
  runDisabled := none
  minLogLevel := none

def sampleDefaults : Defaults where
  abortOnFail := false
  exitOnFail := false
  fuzz := false
  fuzzSavePassing := false
  fork := true

/-- Three files: one that passes, one that fails, and one that is no saved case. -/
def sampleDisk (names : List Text) : Disk where
  fopen path := if path.contains 'b' then .opened 1 [1] else .opened 1 [0]
  readdir _ := some names
  stat _ := some true
  unset := false

def sampleMachine : Machine Nat :=
  ⟨⟨⟨List.replicate inputSize 0, List.length_replicate ..⟩, 0, 0, none, 0⟩, []⟩

end Sample

end RcppDeepState
