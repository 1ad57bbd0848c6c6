import RcppDeepState.Analysis.CommandLines
import RcppDeepState.Analysis.Executable
import RcppDeepState.Harness.TestNames
import RcppDeepState.Runtime.AllTests

/-!
# The replays of the analysis

`deepstate_analyze_file` starts a harness on one saved file and gives up when the run has failed before the line
that tells of the input buffer. This is what the runner in the harness does with that command line.
-/

namespace RcppDeepState

open Command

/-! ## What a process prints -/

/-- The line that the analysis looks for. -/
def inputLine : Text := "Initialized test input buffer"

def LogLevel.severity : LogLevel → Nat
  | .debug => 0
  | .trace => 1
  | .info => 2
  | .warning => 3
  | .error => 4
  | .external => 5
  | .fatal => 6

/-- How messages are printed: the lowest level that is shown, and the text of a message, which shows the line the
analysis looks for exactly when the message has it. -/
structure Logger where
  minLevel : Nat
  render : LogLevel → Text → Text
  render_iff : ∀ level line, inputLine <:+: render level line ↔ inputLine <:+: line

def Trace.printed (logger : Logger) : Trace → Text
  | .left (.log level line) =>
      if logger.minLevel ≤ level.severity then logger.render level line ++ ['\n'] else []
  | .left (.write line) => line
  | _ => []

def printed (logger : Logger) (tr : List Trace) : Text := tr.flatMap (Trace.printed logger)

/-- The exit code that the shell reports. -/
def exitCode : Except Death Int → Int
  | .ok n => n % 256
  | .error (.exited status) => status.toNat
  | .error .killed => 134

section Printed

variable {logger : Logger} {tr : List Trace}

theorem infix_printed {line : Text} (hmin : logger.minLevel ≤ 1) (hline : inputLine <:+: line)
    (h : .left (.log .trace line) ∈ tr) : inputLine <:+: printed logger tr := by
  obtain ⟨before, behind, rfl⟩ := List.append_of_mem h
  have hshown : Trace.printed logger (.left (.log .trace line)) = logger.render .trace line ++ ['\n'] :=
    if_pos hmin
  have hself : inputLine <:+: logger.render .trace line ++ ['\n'] :=
    ((logger.render_iff _ _).mpr hline).trans (List.prefix_append _ _).isInfix
  rw [printed, List.flatMap_append, List.flatMap_cons, hshown]
  exact hself.trans ((List.prefix_append _ _).isInfix.trans (List.suffix_append _ _).isInfix)

/-- A part of a trace that prints nothing but messages without the line. -/
def Trace.Silent : Trace → Prop
  | .left (.log _ line) => ¬ inputLine <:+: line
  | .left (.write _) => False
  | _ => True

theorem not_infix_message {level : LogLevel} {line rest : Text} (hline : ¬ inputLine <:+: line)
    (hrest : ¬ inputLine <:+: rest) :
    ¬ inputLine <:+: Trace.printed logger (.left (.log level line)) ++ rest := by
  have hprinted : Trace.printed logger (.left (.log level line)) =
      if logger.minLevel ≤ level.severity then logger.render level line ++ ['\n'] else [] := rfl
  rw [hprinted]
  split
  · rw [List.append_assoc, List.singleton_append,
      Text.infix_append_cons_of_not_mem (by with_unfolding_all decide), logger.render_iff]
    exact not_or.mpr ⟨hline, hrest⟩
  · exact hrest

theorem not_infix_printed (h : ∀ t ∈ tr, t.Silent) : ¬ inputLine <:+: printed logger tr := by
  induction tr with
  | nil =>
      rw [printed, List.flatMap_nil, List.infix_nil]
      with_unfolding_all decide
  | cons t tr ih =>
      have hrest := ih fun u hu => h u (List.mem_cons_of_mem _ hu)
      have hsilent := h t List.mem_cons_self
      rw [printed, List.flatMap_cons]
      cases t with
      | run test => exact hrest
      | left output =>
          cases output with
          | log level line => exact not_infix_message hsilent hrest
          | write line => exact hsilent.elim
          | savePassing => exact hrest
          | saveFailing => exact hrest
          | saveCrashing => exact hrest

end Printed

/-! ## The replay of one file -/

/-- The options of the command line that `deepstate_analyze_file` runs. -/
def replayFlags (path which : Text) : Flags where
  inputTestDir := none
  inputTestFile := some path
  inputTestFilesDir := none
  inputWhichTest := some which
  outputTestDir := none
  testFilter := none
  abortOnFail := none
  exitOnFail := none
  fuzz := none
  fuzzSavePassing := none
  fork := none
  listTests := none
  boringOnly := none
  runDisabled := none
  minLogLevel := none

section Replay

variable {σ : Type}

/-- The run of the harness on one saved file. -/
def replayRun (lib : Library σ) (defaults : Defaults) (disk : Disk) (path which : Text)
    (tests : List (TestInfo σ)) : Runner σ Int :=
  deepStateRun lib (replayFlags path which) defaults disk tests

/-- What the analysis sees of a run. -/
def replaySeen (logger : Logger) (dumped : List (Text × Content)) (xml : Text) (run : Runner σ Int)
    (s : Machine σ) : ReplayOutcome where
  dumped := dumped
  exitCode := exitCode (outcome run s)
  printed := printed logger (final run s).trace
  xml := xml

def replayOutcome (lib : Library σ) (defaults : Defaults) (disk : Disk) (logger : Logger)
    (dumped : List (Text × Content)) (xml path which : Text) (tests : List (TestInfo σ)) (s : Machine σ) :
    ReplayOutcome :=
  replaySeen logger dumped xml (replayRun lib defaults disk path which tests) s

/-- The library prints nothing but messages without the line when it abandons a test and when it ends. -/
structure Library.Discreet (lib : Library σ) : Prop where
  abandon : ∀ reason, ¬ inputLine <:+: reason → ∀ m, ∀ output ∈ (lib.abandon reason m).2, (Trace.left output).Silent
  teardown : ∀ m, ∀ output ∈ (lib.teardown m).2, (Trace.left output).Silent

variable {lib : Library σ} {defaults : Defaults} {disk : Disk} {path which : Text} {tests : List (TestInfo σ)}
  {test : TestInfo σ} {s : Machine σ}

theorem replayRun_apply (s : Machine σ) :
    replayRun lib defaults disk path which tests s =
      (deepStateRunSingleSavedTestCase lib (replayFlags path which) defaults disk tests >>= fun failed =>
        pure (failed : Int)) s := rfl

/-- The runner finds a test by its name, and says nothing about it. -/
theorem selectTest_replay (hfind : tests.find? (·.testName = which) = some test) (s : Machine σ) :
    selectTest (replayFlags path which) tests s = .ok (some test) s := by
  unfold selectTest replayFlags
  simp only [hfind]
  rfl

/-- A test that is not found leaves the run without a failure. -/
theorem replayRun_of_not_found (hfind : tests.find? (·.testName = which) = none) (s : Machine σ) :
    ∃ s', replayRun lib defaults disk path which tests s = .ok 0 s' ∧ ranTests s'.trace = ranTests s.trace := by
  refine ⟨⟨s.memory, s.trace ++ [.left (.log .info ("Could not find matching test for " ++ which))]⟩, ?_, ?_⟩
  · rw [replayRun_apply]
    unfold deepStateRunSingleSavedTestCase selectTest replayFlags
    simp only [hfind]
    rfl
  · rw [ranTests_append]
    exact List.append_nil _

/-- The run of a test that is found: the saved case, the count and the end. -/
theorem replayRun_of_found (hfind : tests.find? (·.testName = which) = some test) (s : Machine σ) :
    replayRun lib defaults disk path which tests s =
      (deepStateRunSavedTestCase lib (replayFlags path which) defaults disk test [] path >>= fun result => do
        let failed ← countFailed (replayFlags path which) defaults result 0
        perform lib.teardown
        return (failed : Int) : Runner σ Int) s := by
  rw [replayRun_apply]
  unfold deepStateRunSingleSavedTestCase
  rw [bind_assoc, bind_of_ok (selectTest_replay hfind s)]
  simp only [bind_assoc, pure_bind]
  rfl

/-! ### A file that cannot be read -/

/-- From a silent trace to a silent trace. -/
def Hushed {α : Type} (c : Runner σ α) : Prop :=
  Within (fun s s' => (∀ t ∈ s.trace, t.Silent) → ∀ t ∈ s'.trace, t.Silent) c

theorem Hushed.bind {α β : Type} {c : Runner σ α} {f : α → Runner σ β} (hc : Hushed c) (hf : ∀ a, Hushed (f a)) :
    Hushed (c >>= f) :=
  Within.bind (fun _ _ _ h h' hs => h' (h hs)) hc hf

theorem Hushed.pure {α : Type} (a : α) : Hushed (pure a : Runner σ α) := fun _ h => h

theorem Hushed.perform {a : Action σ} (ha : ∀ m, ∀ output ∈ (a m).2, (Trace.left output).Silent) :
    Hushed (perform a) := by
  intro s hs t ht
  cases List.mem_append.mp ht with
  | inl ht => exact hs t ht
  | inr ht =>
      obtain ⟨output, houtput, rfl⟩ := List.mem_map.mp ht
      exact ha s.memory output houtput

theorem Hushed.logFormat {level : LogLevel} {line : Text} (hline : ¬ inputLine <:+: line) :
    Hushed (logFormat level line : Runner σ Unit) := by
  intro s hs t ht
  cases List.mem_append.mp ht with
  | inl ht => exact hs t ht
  | inr ht =>
      cases List.mem_singleton.mp ht
      exact hline

theorem Hushed.when (p : Prop) [Decidable p] {c : Runner σ Unit} (hc : Hushed c) : Hushed (when p c) :=
  Within.ite hc (Hushed.pure _)

theorem initInputFromFile_hushed (hdiscreet : lib.Discreet) {file : Opened} (hload : file.loads = false)
    (path : Text) : Hushed (deepStateInitInputFromFile lib file path) := by
  cases file with
  | missing => exact (Hushed.perform (hdiscreet.abandon _ (by with_unfolding_all decide))).bind fun _ => Hushed.pure _
  | noDescriptor => exact (Hushed.perform (hdiscreet.abandon _ (by with_unfolding_all decide))).bind fun _ => Hushed.pure _
  | noStat => exact (Hushed.perform (hdiscreet.abandon _ (by with_unfolding_all decide))).bind fun _ => Hushed.pure _
  | opened size content =>
      have hlen : (content.take (toRead size)).length ≠ toRead size := by
        simpa only [Opened.loads, decide_eq_false_iff_not] using hload
      have hwarning : ¬ inputLine <:+: ("File too large, truncating to max input size" : Text) := by
        with_unfolding_all decide
      dsimp only [deepStateInitInputFromFile]
      rw [if_pos hlen]
      refine ((Hushed.logFormat hwarning).when _).bind fun _ => ?_
      refine Hushed.bind (fun _ h => h) fun _ => ?_
      exact (Hushed.perform (hdiscreet.abandon _ (by with_unfolding_all decide))).bind fun _ => Hushed.pure _

/-- The first character of the line tells where it can begin. -/
theorem infix_inputLine_append {a b : Text} (ha : 'I' ∉ a) : inputLine <:+: a ++ b ↔ inputLine <:+: b := by
  induction a with
  | nil => rfl
  | cons c a ih =>
      rw [List.cons_append, List.infix_cons_iff, ih fun hm => ha (List.mem_cons_of_mem _ hm)]
      refine or_iff_right fun hpre => ?_
      have hhead : inputLine = 'I' :: inputLine.tail := by with_unfolding_all decide
      rw [hhead] at hpre
      obtain ⟨hc, _⟩ := List.cons_prefix_cons.mp hpre
      exact ha (hc ▸ List.mem_cons_self)

/-- One counted failure is seen in the exit code. -/
theorem exitCode_failure (flags : Flags) (defaults : Defaults) :
    exitCode ((endsAfter flags defaults 1 1).map fun failed : Nat => (failed : Int)) ≠ 0 := by
  unfold endsAfter endsWith
  cases flags.abortOnFail.getD defaults.abortOnFail with
  | true => exact (by decide : (134 : Int) ≠ 0)
  | false => cases flags.exitOnFail.getD defaults.exitOnFail <;> decide

theorem outcome_replayRun (s : Machine σ) :
    outcome (replayRun lib defaults disk path which tests) s =
      (outcome (deepStateRunSingleSavedTestCase lib (replayFlags path which) defaults disk tests) s).map
        fun failed : Nat => (failed : Int) := by
  rw [outcome, replayRun_apply, ← outcome]
  exact outcome_bind (fun _ _ => rfl) s

/-- A file that cannot be read fails the run before the line is printed. -/
theorem replayRun_unreadable (hlib : lib.Lawful) (hdiscreet : lib.Discreet) (hfork : defaults.fork = true)
    (hpath : ¬ inputLine <:+: path) (hfind : tests.find? (·.testName = which) = some test)
    (hload : (disk.fopen path).loads = false) (hs : ∀ t ∈ s.trace, t.Silent) :
    exitCode (outcome (replayRun lib defaults disk path which tests) s) ≠ 0 ∧
      ∀ t ∈ (final (replayRun lib defaults disk path which tests) s).trace, t.Silent := by
  have hisolated : Isolated lib (replayFlags path which) defaults disk test :=
    isolated_fork hlib (show (replayFlags path which).fork.getD defaults.fork = true from hfork) test
  have hgetD : (replayFlags path which).inputTestFile.getD [] = path := rfl
  have hsaved : savedPath [] path = path := if_pos rfl
  constructor
  · have hresult : resultAlone lib (replayFlags path which) defaults disk s test [] path = .ok .crash := by
      rw [resultAlone_eq hisolated, hsaved, caseResult, hload]
      rfl
    rw [outcome_replayRun, runSingleSavedTestCase_alone hisolated hfind, hgetD, hresult]
    exact exitCode_failure (replayFlags path which) defaults
  · have hwrong : ¬ inputLine <:+: ("Something went wrong running the test case " : Text) ++ path := by
      rw [infix_inputLine_append (by with_unfolding_all decide)]
      exact hpath
    have hcase : Hushed (deepStateRunSavedTestCase lib (replayFlags path which) defaults disk test [] path) := by
      unfold deepStateRunSavedTestCase runOpened
      rw [hsaved]
      intro t ht
      obtain ⟨t', hinit, _⟩ := initInputFromFile_fails hlib hload path t
      have hinitHushed := initInputFromFile_hushed hdiscreet hload path t ht
      rw [final_of_ok hinit] at hinitHushed
      rw [final_bind_of_ok hinit, if_neg Bool.false_ne_true]
      exact ((Hushed.logFormat hwrong).bind fun _ => Hushed.pure _) t' hinitHushed
    have hcount : ∀ result, Hushed (countFailed (replayFlags path which) defaults result 0 : Runner σ Nat) := by
      intro result t ht
      have hstate : final (countFailed (replayFlags path which) defaults result 0 : Runner σ Nat) t = t := by
        rw [final, countFailed_apply]
        cases result.counted with
        | false => rfl
        | true => cases endsWith (replayFlags path which) defaults <;> rfl
      rw [hstate]
      exact ht
    have hall : Hushed (deepStateRunSavedTestCase lib (replayFlags path which) defaults disk test [] path >>=
        fun result => do
          let failed ← countFailed (replayFlags path which) defaults result 0
          perform lib.teardown
          return (failed : Int) : Runner σ Int) :=
      hcase.bind fun result => (hcount result).bind fun _ =>
        (Hushed.perform hdiscreet.teardown).bind fun _ => Hushed.pure _
    have hfinal := final_congr (@replayRun_of_found _ lib defaults disk path which tests test hfind s)
    rw [hfinal]
    exact hall s hs

/-! ### A file that can be read -/

/-- The message about the input buffer. -/
def inputMessage (path : Text) : Trace :=
  .left (.log .trace ("Initialized test input buffer with data from `" ++ path ++ "`"))

theorem initInputFromFile_tells {file : Opened} (hload : file.loads = true) (path : Text) (s : Machine σ) :
    inputMessage path ∈ (final (deepStateInitInputFromFile lib file path) s).trace := by
  cases file with
  | missing => cases hload
  | noDescriptor => cases hload
  | noStat => cases hload
  | opened size content =>
      obtain ⟨tr, hwarn⟩ := warnTooLarge_apply size s
      have hlen : (content.take (toRead size)).length = toRead size := by
        simpa only [Opened.loads, decide_eq_true_eq] using hload
      dsimp only [deepStateInitInputFromFile]
      rw [final_bind_of_ok hwarn, final_bind_of_ok (onMemory_apply _ _), if_neg (not_not.mpr hlen)]
      exact List.mem_append_right _ (List.mem_singleton.mpr rfl)

/-- Behind the saved case a replay only adds outputs. -/
theorem replayRun_traces {R : List Trace → List Trace → Prop} (hR : BearsOutput R) (hlib : lib.Lawful)
    (hfork : defaults.fork = true) (hfind : tests.find? (·.testName = which) = some test) (s : Machine σ) :
    R (final (deepStateRunSavedTestCase lib (replayFlags path which) defaults disk test [] path) s).trace
      (final (replayRun lib defaults disk path which tests) s).trace := by
  obtain ⟨s', hrun, _⟩ := @runSavedTestCase_fork _ lib (replayFlags path which) defaults disk test hlib hfork [] path s
  have hfinal := final_congr (@replayRun_of_found _ lib defaults disk path which tests test hfind s)
  rw [hfinal, final_bind_of_ok hrun, final_of_ok hrun]
  refine ((countFailed_traces hR _ 0).bind hR fun failed => ?_) s'
  exact (Traces.perform hR _).bind hR fun _ => Traces.pure hR _

theorem replayRun_tells (hlib : lib.Lawful) (hfork : defaults.fork = true)
    (hfind : tests.find? (·.testName = which) = some test) (hload : (disk.fopen path).loads = true)
    (s : Machine σ) : inputMessage path ∈ (final (replayRun lib defaults disk path which tests) s).trace := by
  have hsaved : savedPath [] path = path := if_pos rfl
  refine replayRun_traces bears_subset hlib hfork hfind s ?_
  obtain ⟨tr, hinit⟩ := @initInputFromFile_loads _ lib _ hload path s
  have htold := @initInputFromFile_tells _ lib _ hload path s
  rw [final_of_ok hinit] at htold
  unfold deepStateRunSavedTestCase runOpened
  rw [hsaved, final_bind_of_ok hinit, if_pos rfl, final_bind_of_ok (perform_apply _ _),
    final_bind_of_ok (forkAndRunTest_fork
      (show (replayFlags path which).fork.getD defaults.fork = true from hfork) _)]
  refine ((reportCase_traces bears_subset test path _).bind bears_subset fun _ => Traces.pure bears_subset _) _ ?_
  exact List.mem_append_left _ (List.mem_append_left _ htold)

/-! ## What the analysis makes of a replay -/

theorem stops_replaySeen {logger : Logger} {run : Runner σ Int} (dumped : List (Text × Content)) (xml : Text) :
    (replaySeen logger dumped xml run s).stops ↔
      exitCode (outcome run s) ≠ 0 ∧ ¬ inputLine <:+: printed logger (final run s).trace := by
  rw [← Text.exists_line_infix_iff (by with_unfolding_all decide) (by with_unfolding_all decide), not_exists]
  simp only [not_and]
  rfl

/-- A replay fails without a word about the input exactly when the harness has the test it asks for and cannot read
the file. -/
theorem silentFailure_iff (hlib : lib.Lawful) (hdiscreet : lib.Discreet) (hfork : defaults.fork = true)
    {logger : Logger} (hmin : logger.minLevel ≤ 1) (hpath : ¬ inputLine <:+: path) (hs : s.trace = []) :
    (exitCode (outcome (replayRun lib defaults disk path which tests) s) ≠ 0 ∧
        ¬ inputLine <:+: printed logger (final (replayRun lib defaults disk path which tests) s).trace) ↔
      (∃ test ∈ tests, test.testName = which) ∧ (disk.fopen path).loads = false := by
  cases hfind : tests.find? (·.testName = which) with
  | none =>
      obtain ⟨s', hrun, _⟩ := @replayRun_of_not_found _ lib defaults disk path which tests hfind s
      have hcode : exitCode (outcome (replayRun lib defaults disk path which tests) s) = 0 := by
        rw [outcome_of_ok hrun]
        rfl
      refine iff_of_false (fun h => h.1 hcode) fun h => ?_
      obtain ⟨⟨test, hmem, hname⟩, _⟩ := h
      exact absurd hname (by simpa using List.find?_eq_none.mp hfind test hmem)
  | some test =>
      have hfound : ∃ test ∈ tests, test.testName = which :=
        ⟨test, List.mem_of_find?_eq_some hfind, by simpa using List.find?_some hfind⟩
      cases hload : (disk.fopen path).loads with
      | false =>
          have hquiet : ∀ t ∈ s.trace, t.Silent := by simp [hs]
          obtain ⟨hcode, hsilent⟩ := replayRun_unreadable hlib hdiscreet hfork hpath hfind hload hquiet
          exact iff_of_true ⟨hcode, not_infix_printed hsilent⟩ ⟨hfound, rfl⟩
      | true =>
          refine iff_of_false (fun h => h.2 ?_) fun h => Bool.noConfusion h.2
          refine infix_printed hmin ?_ (replayRun_tells hlib hfork hfind hload s)
          have hpre : inputLine <+: ("Initialized test input buffer with data from `" : Text) := by
            with_unfolding_all decide
          rw [List.append_assoc]
          exact hpre.isInfix.trans (List.prefix_append _ _).isInfix

/-- The analysis gives up on a saved file exactly when the harness has the test it asks for and cannot read the
file; a failing or crashing test does not stop it, nor does a harness without that test. -/
theorem replayOutcome_stops_iff (hlib : lib.Lawful) (hdiscreet : lib.Discreet) (hfork : defaults.fork = true)
    {logger : Logger} (hmin : logger.minLevel ≤ 1) (hpath : ¬ inputLine <:+: path)
    (dumped : List (Text × Content)) (xml : Text) (hs : s.trace = []) :
    (replayOutcome lib defaults disk logger dumped xml path which tests s).stops ↔
      (∃ test ∈ tests, test.testName = which) ∧ (disk.fopen path).loads = false := by
  rw [replayOutcome, stops_replaySeen]
  exact silentFailure_iff hlib hdiscreet hfork hmin hpath hs

/-- Messages printed as they are. -/
def plainLogger : Logger := ⟨0, fun _ line => line, fun _ _ => Iff.rfl⟩

theorem sampleLibrary_discreet : sampleLibrary.Discreet where
  abandon reason hreason m output houtput := by
    cases List.mem_singleton.mp houtput
    exact hreason
  teardown _ _ houtput := by cases houtput

theorem replayOutcome_stops_sample :
    (replayOutcome sampleLibrary sampleDefaults { sampleDisk [] with fopen := fun _ => .missing } plainLogger [] []
      "inst/a.fail" "pkg_runner" [sampleTest] sampleMachine).stops :=
  (replayOutcome_stops_iff sampleLibrary_lawful sampleLibrary_discreet rfl (Nat.zero_le 1)
    (by with_unfolding_all decide) [] [] rfl).mpr ⟨⟨sampleTest, List.mem_singleton.mpr rfl, rfl⟩, rfl⟩

/-- A replay calls the test that is asked for once, when the harness has it and the file can be read, and calls
nothing else. -/
theorem ranTests_replayRun (hlib : lib.Lawful) (hfork : defaults.fork = true) (s : Machine σ) :
    ranTests (final (replayRun lib defaults disk path which tests) s).trace =
      ranTests s.trace ++
        if (∃ test ∈ tests, test.testName = which) ∧ (disk.fopen path).loads = true then [which] else [] := by
  cases hfind : tests.find? (·.testName = which) with
  | none =>
      obtain ⟨s', hrun, hran⟩ := @replayRun_of_not_found _ lib defaults disk path which tests hfind s
      rw [final_of_ok hrun, hran, if_neg, List.append_nil]
      rintro ⟨⟨test, hmem, hname⟩, _⟩
      exact absurd hname (by simpa using List.find?_eq_none.mp hfind test hmem)
  | some test =>
      have hname : test.testName = which := by simpa using List.find?_some hfind
      have hfound : ∃ test ∈ tests, test.testName = which := ⟨test, List.mem_of_find?_eq_some hfind, hname⟩
      have hran := @ranTests_runSavedTestCase _ lib (replayFlags path which) defaults disk hlib hfork test [] path s
      rw [replayRun_traces bears_ranTests hlib hfork hfind s, hran]
      simp only [hfound, true_and, savedPath, if_pos, hname]

end Replay

/-! ## From the command line to the runner -/

/-- The words of a command. -/
def wordsOf (c : Shell.Simple) : List Text := c.words.map fun w => w.map Shell.WordChar.erase

/-- The program that valgrind starts, with its arguments: what follows valgrind's own options. -/
def underValgrind (words : List Text) : List Text :=
  (words.drop 1).dropWhile fun w => ("--" : Text) <+: w

/-- How the library reads the arguments of a harness. -/
structure OptionReader where
  read : List Text → Flags
  replay : ∀ path which, '-' ∉ path.head? → '-' ∉ which.head? →
    read ["--input_test_file", path, "--input_which_test", which] = replayFlags path which

/-- The run of the program that valgrind starts behind a `cd`, when it is there. `built` is the tests in the
executable with a path. -/
def lineRun {σ : Type} (lib : Library σ) (defaults : Defaults) (disk : Disk) (reader : OptionReader)
    (built : Text → Option (List (TestInfo σ))) (cs : List (Shell.Simple × Option Text)) : Option (Runner σ Int) :=
  match cs.map fun c => wordsOf c.1 with
  | [[_, dir], words] =>
      match underValgrind words with
      | program :: args =>
          (built (dir ++ program.drop 1)).map fun tests => deepStateRun lib (reader.read args) defaults disk tests
      | [] => none
  | _ => none

section Line

variable {σ : Type} {lib : Library σ} {defaults : Defaults} {disk : Disk} {reader : OptionReader}
  {built : Text → Option (List (TestInfo σ))} {tests : List (TestInfo σ)}

theorem wordsOf_command (words : List Text) (rs : List Shell.Redirection) : wordsOf (command words rs) = words := by
  have hword : ∀ w : Text, (Shell.literal w).map Shell.WordChar.erase = w := by
    intro w
    rw [Shell.literal, List.map_map]
    exact List.map_id _
  rw [wordsOf, command, List.map_map]
  exact (List.map_congr_left fun w _ => hword w).trans (List.map_id _)

theorem underValgrind_analyzeWords (h : Host) (name : Option Text) (file : Pathname) :
    underValgrind (analyzeWords h name file) = ["./" ++ fileName (analyzedExecutable file), "--input_test_file",
      h.file file, "--input_which_test", runnerTest name] := by
  have hoption : ∀ t : Text, ("--" : Text) <+: ("--xml-file=" : Text) ++ t := by
    intro t
    have hpre : ("--" : Text) <+: ("--xml-file=" : Text) := by with_unfolding_all decide
    exact hpre.trans (List.prefix_append _ _)
  have hprogram : ∀ t : Text, ¬ ("--" : Text) <+: ("./" : Text) ++ t := by
    intro t
    simp [Text.ofString_eq]
  have h₁ : ("--" : Text) <+: ("--xml=yes" : Text) := by with_unfolding_all decide
  have h₂ : ("--" : Text) <+: ("--tool=memcheck" : Text) := by with_unfolding_all decide
  have h₃ : ("--" : Text) <+: ("--leak-check=yes" : Text) := by with_unfolding_all decide
  simp [underValgrind, analyzeWords, List.dropWhile, hoption, hprogram, h₁, h₂, h₃]

/-- The line that analyses a saved file of a function replays it with the harness of the function. -/
theorem lineRun_analyzeCommands {h : Host} {fn saved : Text} {sep : Sep} {name : Option Text}
    (habs : h.packagePath.head? = some '/') (hname : '-' ∉ (runnerTest name).head?)
    (hmark : ¬ ("_output" : Text) <:+: fn) (hbuilt : built (h.file (executablePath fn sep)) = some tests) :
    lineRun lib defaults disk reader built (analyzeCommands h name (outputDir fn sep ++ [saved])) =
      some (replayRun lib defaults disk (h.file (outputDir fn sep ++ [saved])) (runnerTest name) tests) := by
  have hexecutable : analyzedExecutable (outputDir fn sep ++ [saved]) = executablePath fn sep := by
    rw [analyzedExecutable_saved, Text.gsub_of_not_infix hmark, executablePath, testHarness]
  have hdir : (outputDir fn sep ++ [saved]).dropLast.dropLast = funPath fn := by simp [outputDir]
  have hprogram : h.file (funPath fn) ++ (("./" : Text) ++ fileName (executablePath fn sep)).drop 1 =
      h.file (executablePath fn sep) := by
    simp [Host.file, executablePath, fileName, Text.ofString_eq]
  have hfile : '-' ∉ (h.file (outputDir fn sep ++ [saved])).head? := by
    have hhead : (h.file (outputDir fn sep ++ [saved])).head? = some '/' := by
      rw [Host.file, List.head?_append, habs]
      rfl
    simp [hhead]
  have hread := reader.replay _ _ hfile hname
  have hwords : (analyzeCommands h name (outputDir fn sep ++ [saved])).map (fun c => wordsOf c.1) =
      [[("cd" : Text), h.file (funPath fn)], analyzeWords h name (outputDir fn sep ++ [saved])] := by
    simp only [analyzeCommands, List.map_cons, List.map_nil, changeDir, wordsOf_command, hdir]
  unfold lineRun
  simp only [hwords, underValgrind_analyzeWords, hexecutable, hprogram, hbuilt, hread, Option.map_some]
  rfl

end Line

/-! ## The replays of a generated harness -/

section Harness

variable {σ : Type} {lib : Library σ} {defaults : Defaults} {disk : Disk} {fn file name : Text} {sep : Sep}
  {h : PlainHost} {installed : Installation} {w w' w₂ : World} {f : ExportsFile} {tests : List (TestInfo σ)}
  {s : Machine σ} {reader : OptionReader} {built : Text → Option (List (TestInfo σ))} {saved : Text}

/-- The test that the analysis asks for is one of the harness exactly when the package name has no dot. -/
theorem runnerTest_created_iff (hread : readText w.fs rcppExportsPath = some f.text)
    (hname : NamesPackage w.fs name) (hnew : w.fs.fileExists (harnessPath fn sep) = false)
    (hok : deepstateFunCreate h installed fn sep w = .ok (some file) w')
    (htests : (readText w'.fs (harnessPath fn sep)).map registeredTests = some (tests.map (·.testName))) :
    (∃ test ∈ tests, test.testName = runnerTest (some name)) ↔ '.' ∉ name := by
  obtain ⟨text, htext, hmem⟩ := registeredTests_created hread hname hnew hok
  rw [htext, Option.map_some, Option.some.injEq] at htests
  have hlist : (∃ test ∈ tests, test.testName = runnerTest (some name)) ↔
      runnerTest (some name) ∈ registeredTests text := by
    rw [htests, List.mem_map]
  rw [hlist, hmem, ← filter_dots_eq_self_iff]
  constructor
  · intro ht
    cases ht with
    | inl hgen => exact testName_inj (.inr hgen.symm)
    | inr hrun => exact (List.append_cancel_right hrun).symm
  · exact fun hself => .inr (congrArg (· ++ ("_runner" : Text)) hself.symm)

/-- The shell reads the line of a replay as it is meant, and the harness of an exported function then calls the
runner of the function once and nothing else, unless the package name has a dot or the file cannot be read; the
analysis gives up only in the latter case. -/
theorem replay_created (hread : readText w.fs rcppExportsPath = some f.text) (hname : NamesPackage w.fs name)
    (hnew : w.fs.fileExists (harnessPath fn sep) = false)
    (hok : deepstateFunCreate h installed fn sep w = .ok (some file) w')
    (htests : (readText w'.fs (harnessPath fn sep)).map registeredTests = some (tests.map (·.testName)))
    (hbuilt : built (h.file (executablePath fn sep)) = some tests) (hname₂ : NamesPackage w₂.fs name)
    (hfn : ∃ e ∈ f.exports, e.name = fn) (hmark : ¬ ("_output" : Text) <:+: fn)
    (habs : h.packagePath.head? = some '/') (hplain : Shell.Plain h.packagePath) (hsaved : Shell.Plain saved)
    (hlib : lib.Lawful) (hdiscreet : lib.Discreet) (hfork : defaults.fork = true) {logger : Logger}
    (hmin : logger.minLevel ≤ 1) (dumped : List (Text × Content)) (xml : Text) (hs : s.trace = []) :
    Shell.Denotes (analyzeLine h (packageNameIn w₂.fs) (outputDir fn sep ++ [saved]))
        (analyzeCommands h (packageNameIn w₂.fs) (outputDir fn sep ++ [saved])) ∧
    ∃ run, lineRun lib defaults disk reader built
        (analyzeCommands h (packageNameIn w₂.fs) (outputDir fn sep ++ [saved])) = some run ∧
      ranTests (final run s).trace =
        (if '.' ∉ name ∧ (disk.fopen (h.file (outputDir fn sep ++ [saved]))).loads = true then
          [name ++ "_runner"] else []) ∧
      ((replaySeen logger dumped xml run s).stops ↔
        '.' ∉ name ∧ (disk.fopen (h.file (outputDir fn sep ++ [saved]))).loads = false) := by
  have hpackage : packageNameIn w₂.fs = some name := packageNameIn_eq hname₂
  have hcreated := runnerTest_created_iff hread hname hnew hok htests
  have hfile : Shell.Plain (h.file (outputDir fn sep ++ [saved])) := by
    obtain ⟨e, -, rfl⟩ := hfn
    have hident : Shell.Plain e.name := Shell.plain_of_safe fun c hc => by
      have hchar := e.name_ok.chars c hc
      rw [isIdentChar, Bool.or_eq_true] at hchar
      rw [Shell.isSafe]
      grind
    exact plain_savedFile.mpr ⟨hplain, hident, hsaved⟩
  have hpath : ¬ inputLine <:+: h.file (outputDir fn sep ++ [saved]) := by
    intro hpart
    have hblank := hfile ' ' (hpart.subset (by with_unfolding_all decide))
    exact absurd hblank.1 (by decide)
  have hlegal : ∀ c ∈ pasted (some name), c.isAlphanum = true ∨ c = '.' := hname.legal
  have hdash : '-' ∉ (runnerTest (some name)).head? := by
    intro hhead
    have hmem : '-' ∈ name ++ ("_runner" : Text) := List.mem_of_head? hhead
    rcases List.mem_append.mp hmem with hmem | hmem
    · exact hname.not_mem (by decide) hmem
    · exact absurd hmem (by with_unfolding_all decide)
  rw [hpackage]
  refine ⟨(analyzeLine_denotes_iff habs hlegal).mpr hfile, _,
    lineRun_analyzeCommands habs hdash hmark hbuilt, ?_, ?_⟩
  · have hran := @ranTests_replayRun _ lib defaults disk (h.file (outputDir fn sep ++ [saved])) (runnerTest (some name))
      tests hlib hfork s
    simp only [hcreated] at hran
    rw [hran, hs]
    rfl
  · rw [← hcreated]
    rw [stops_replaySeen]
    exact silentFailure_iff hlib hdiscreet hfork hmin hpath hs

/-- Reads the four words of a replay, and nothing else. -/
def sampleReader : OptionReader where
  read args := replayFlags (args.getD 1 []) (args.getD 3 [])
  replay _ _ _ _ := rfl

theorem replay_created_pkg : ∃ w' tests,
    deepstateFunCreate sampleHost (sampleInstallation true) "f" .infun (namedPackage "pkg") =
        .ok (some (harnessFile "f" .infun)) w' ∧
      ∃ run, lineRun sampleLibrary sampleDefaults (sampleDisk []) sampleReader
          (fun path => if path = sampleHost.file (executablePath "f" .infun) then some tests else none)
          (analyzeCommands sampleHost (packageNameIn (namedPackage "pkg").fs)
            (outputDir "f" .infun ++ [("0a.fail" : Text)])) = some run ∧
        ranTests (final run sampleMachine).trace = [("pkg_runner" : Text)] := by
  have hname : NamesPackage (namedPackage "pkg").fs "pkg" := namesPackage_namedPackage (by with_unfolding_all decide)
  obtain ⟨hnew, w', hok⟩ := funCreate_namedPackage "pkg"
  obtain ⟨text, htext, _⟩ := registeredTests_created (h := plainSampleHost) (readExports_namedPackage _) hname hnew hok
  have htests : (readText w'.fs (harnessPath "f" .infun)).map registeredTests =
      some (((registeredTests text).map fun t => { sampleTest with testName := t }).map (·.testName)) := by
    rw [htext, List.map_map]
    exact congrArg some (List.map_id _).symm
  have hexported : ∃ e ∈ sampleExports.exports, e.name = ("f" : Text) :=
    ⟨sampleExport, by simp [sampleExports], rfl⟩
  obtain ⟨-, run, hrun, hran, -⟩ := @replay_created _ sampleLibrary sampleDefaults (sampleDisk []) _ _ _ _
    plainSampleHost _ _ _ _ _ _ sampleMachine sampleReader
    (fun path => if path = sampleHost.file (executablePath "f" .infun) then some _ else none) "0a.fail"
    (readExports_namedPackage _) hname hnew hok htests (if_pos rfl) hname hexported (by with_unfolding_all decide)
    (by with_unfolding_all decide) (by with_unfolding_all decide) (by with_unfolding_all decide) sampleLibrary_lawful
    sampleLibrary_discreet rfl plainLogger (Nat.zero_le 1) [] [] rfl
  refine ⟨w', _, hok, run, hrun, hran.trans ?_⟩
  with_unfolding_all decide

end Harness

end RcppDeepState
