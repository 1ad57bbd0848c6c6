import Mathlib.Algebra.Ring.Nat
import RcppDeepState.Runtime.Lemmas.Cases

/-!
# Hermetic replay

The result of a saved case does not depend on what the runner has replayed before it, so the number of failures
is a sum over the files, in whatever order a directory lists them.
-/

namespace RcppDeepState

open Command

variable {σ : Type}

/-- How a run of the runner ends. -/
def outcome {α : Type} (c : Runner σ α) (s : Machine σ) : Except Death α :=
  match c s with
  | .ok a _ => .ok a
  | .error death _ => .error death

theorem outcome_of_ok {α : Type} {c : Runner σ α} {a : α} {s s' : Machine σ} (h : c s = .ok a s') :
    outcome c s = .ok a := by
  rw [outcome, h]

theorem outcome_of_error {α : Type} {c : Runner σ α} {death : Death} {s s' : Machine σ}
    (h : c s = .error death s') : outcome c s = .error death := by
  rw [outcome, h]

/-- A run that goes on with something that returns. -/
theorem outcome_bind {α β : Type} {c : Runner σ α} {f : α → Runner σ β} {g : α → β}
    (hf : ∀ a s, outcome (f a) s = .ok (g a)) (s : Machine σ) :
    outcome (c >>= f) s = (outcome c s).map g := by
  have hcases : outcome (c >>= f) s =
      match c s with
      | .ok a s' => outcome (f a) s'
      | .error death _ => .error death := by
    unfold outcome
    rw [bind_apply]
    cases c s <;> rfl
  rw [hcases, outcome]
  cases c s with
  | ok a s' => exact hf a s'
  | error death s' => rfl

section Isolated

variable (lib : Library σ) (flags : Flags) (defaults : Defaults) (disk : Disk)

/-- Every saved case of the test comes to its own result and changes nothing that the tests keep. -/
def Isolated (test : TestInfo σ) : Prop :=
  ∀ dir name s, ∃ s', deepStateRunSavedTestCase lib flags defaults disk test dir name s =
      .ok (caseResult lib flags defaults test (disk.fopen (savedPath dir name)) s.memory) s' ∧
    s'.memory.rest = s.memory.rest

/-- The result of a saved case that is run on its own in `s`. -/
def resultAlone (s : Machine σ) (test : TestInfo σ) (dir name : Text) : Except Death TestRunResult :=
  outcome (deepStateRunSavedTestCase lib flags defaults disk test dir name) s

/-- The saved cases of a test that do not pass when each is run on its own in `s`. -/
def failuresAlone (s : Machine σ) (test : TestInfo σ) : Nat :=
  match disk.readdir (testCaseDir flags test) with
  | none => 0
  | some names => names.countP fun name => deepStateIsTestCaseFile name &&
      resultAlone lib flags defaults disk s test (testCaseDir flags test) name ≠ .ok .pass

end Isolated

section Count

variable {lib : Library σ} {flags : Flags} {defaults : Defaults} {disk : Disk} {test : TestInfo σ}

theorem resultAlone_eq (h : Isolated lib flags defaults disk test) (s : Machine σ) (dir name : Text) :
    resultAlone lib flags defaults disk s test dir name =
      .ok (caseResult lib flags defaults test (disk.fopen (savedPath dir name)) s.memory) := by
  obtain ⟨s', hrun, _⟩ := h dir name s
  exact outcome_of_ok hrun

/-- A case that is run later comes to the result it has on its own. -/
theorem runSavedTestCase_later (hlib : lib.Lawful) (h : Isolated lib flags defaults disk test)
    {s t : Machine σ} (hrest : t.memory.rest = s.memory.rest) (dir name : Text) :
    ∃ result t', resultAlone lib flags defaults disk s test dir name = .ok result ∧
      deepStateRunSavedTestCase lib flags defaults disk test dir name t = .ok result t' ∧
      t'.memory.rest = s.memory.rest := by
  obtain ⟨t', hrun, hkept⟩ := h dir name t
  refine ⟨_, t', resultAlone_eq h s dir name, ?_, hkept.trans hrest⟩
  rw [hrun, caseResult_congr hlib hrest]

/-- The counts after one more name. -/
def countAlone (lib : Library σ) (flags : Flags) (defaults : Defaults) (disk : Disk) (s : Machine σ)
    (test : TestInfo σ) (dir : Text) (counts : Nat × Nat) (name : Text) : Nat × Nat :=
  if deepStateIsTestCaseFile name then
    (counts.1 + 1,
      if decide (resultAlone lib flags defaults disk s test dir name ≠ .ok .pass) then counts.2 + 1 else counts.2)
  else counts

theorem foldl_countAlone (s : Machine σ) (dir : Text) (names : List Text) (counts : Nat × Nat) :
    (names.foldl (countAlone lib flags defaults disk s test dir) counts).2 =
      counts.2 + names.countP fun name => deepStateIsTestCaseFile name &&
        resultAlone lib flags defaults disk s test dir name ≠ .ok .pass := by
  induction names generalizing counts with
  | nil => rfl
  | cons name names ih =>
      rw [List.foldl_cons, ih, List.countP_cons, countAlone]
      cases deepStateIsTestCaseFile name with
      | false => simp
      | true =>
          by_cases hpass : resultAlone lib flags defaults disk s test dir name ≠ .ok .pass
          · simp [hpass]
            omega
          · simp [hpass]

theorem countSaved_alone (hlib : lib.Lawful) (h : Isolated lib flags defaults disk test) {s t : Machine σ}
    (hrest : t.memory.rest = s.memory.rest) (dir : Text) (counts : Nat × Nat) (name : Text) :
    ∃ t', countSaved lib flags defaults disk test dir counts name t =
        .ok (countAlone lib flags defaults disk s test dir counts name) t' ∧
      t'.memory.rest = s.memory.rest := by
  unfold countSaved countAlone
  cases deepStateIsTestCaseFile name with
  | false => exact ⟨t, rfl, hrest⟩
  | true =>
      obtain ⟨result, t', halone, hrun, hkept⟩ := runSavedTestCase_later hlib h hrest dir name
      refine ⟨t', ?_, hkept⟩
      rw [if_pos rfl, if_pos rfl, bind_of_ok hrun, halone]
      cases result <;> rfl

theorem runSavedCasesForTest_alone (hlib : lib.Lawful) (h : Isolated lib flags defaults disk test)
    {s t : Machine σ} (hrest : t.memory.rest = s.memory.rest) :
    ∃ t', deepStateRunSavedCasesForTest lib flags defaults disk test t =
        .ok (failuresAlone lib flags defaults disk s test) t' ∧ t'.memory.rest = s.memory.rest := by
  unfold deepStateRunSavedCasesForTest failuresAlone
  cases disk.readdir (testCaseDir flags test) with
  | none => exact ⟨_, rfl, hrest⟩
  | some names =>
      obtain ⟨t', hloop, hkept⟩ := foldlM_returns (I := fun u : Machine σ => u.memory.rest = s.memory.rest)
        (fun counts name _ u hu => countSaved_alone hlib h hu (testCaseDir flags test) counts name)
        (0, 0) hrest
      dsimp only
      rw [bind_of_ok hloop, bind_of_ok (logFormat_apply _ _ _)]
      refine ⟨_, congrArg (EStateM.Result.ok · _) ?_, hkept⟩
      rw [foldl_countAlone, Nat.zero_add]

/-- The failures of all the tests are those of their saved cases, each run on its own. -/
theorem runSavedTestCases_alone (hlib : lib.Lawful) {tests : List (TestInfo σ)}
    (h : ∀ test ∈ tests, Isolated lib flags defaults disk test) (s : Machine σ) :
    outcome (deepStateRunSavedTestCases lib flags defaults disk tests) s =
      .ok (tests.map (failuresAlone lib flags defaults disk s)).sum := by
  have hturn : ∀ failed, ∀ test ∈ tests, ∀ t : Machine σ, t.memory.rest = s.memory.rest →
      ∃ t', (do return failed + (← deepStateRunSavedCasesForTest lib flags defaults disk test) : Runner σ Nat) t =
        .ok (failed + failuresAlone lib flags defaults disk s test) t' ∧ t'.memory.rest = s.memory.rest := by
    intro failed test htest t ht
    obtain ⟨t', hrun, hkept⟩ := runSavedCasesForTest_alone hlib (h test htest) ht
    exact ⟨t', by rw [bind_of_ok hrun]; rfl, hkept⟩
  obtain ⟨s', hloop, _⟩ := foldlM_returns hturn 0 rfl
  have hrun : deepStateRunSavedTestCases lib flags defaults disk tests s =
      .ok (tests.foldl (fun failed test => failed + failuresAlone lib flags defaults disk s test) 0)
        ⟨(lib.teardown s'.memory).1, s'.trace ++ (lib.teardown s'.memory).2.map .left⟩ := by
    unfold deepStateRunSavedTestCases
    rw [bind_of_ok hloop]
    rfl
  rw [outcome_of_ok hrun, List.sum_eq_foldl, List.foldl_map]

end Count

/-! ## Child processes -/

section Fork

variable {lib : Library σ} {flags : Flags} {defaults : Defaults} {disk disk' : Disk}

theorem isolated_fork (hlib : lib.Lawful) (hfork : flags.fork.getD defaults.fork = true) (test : TestInfo σ) :
    Isolated lib flags defaults disk test :=
  fun dir name s => runSavedTestCase_fork hlib hfork dir name s

/-- The same files, in directories that may list them in another order. -/
structure Disk.Reordered (disk disk' : Disk) : Prop where
  fopen : disk'.fopen = disk.fopen
  readdir : ∀ dir, Option.Rel List.Perm (disk.readdir dir) (disk'.readdir dir)

theorem failuresAlone_reordered (h : disk.Reordered disk') (s : Machine σ) (test : TestInfo σ) :
    failuresAlone lib flags defaults disk' s test = failuresAlone lib flags defaults disk s test := by
  have halone : resultAlone lib flags defaults disk' s test = resultAlone lib flags defaults disk s test := by
    unfold resultAlone deepStateRunSavedTestCase
    rw [h.fopen]
  unfold failuresAlone
  rw [halone]
  have hrel := h.readdir (testCaseDir flags test)
  generalize disk.readdir (testCaseDir flags test) = names, disk'.readdir (testCaseDir flags test) = names' at hrel
  cases hrel with
  | none => rfl
  | some hperm => exact (hperm.countP_eq _).symm

/-- With child processes the number of failures is a sum over the saved cases, each run on its own, and neither
the order of the tests nor that of the files matters. -/
theorem savedTestCases_hermetic (hlib : lib.Lawful) (hfork : flags.fork.getD defaults.fork = true)
    {tests tests' : List (TestInfo σ)} (htests : tests.Perm tests') (hdisk : disk.Reordered disk')
    (s : Machine σ) :
    outcome (deepStateRunSavedTestCases lib flags defaults disk tests) s =
        .ok (tests.map (failuresAlone lib flags defaults disk s)).sum ∧
      outcome (deepStateRunSavedTestCases lib flags defaults disk' tests') s =
        outcome (deepStateRunSavedTestCases lib flags defaults disk tests) s := by
  have hsum : outcome (deepStateRunSavedTestCases lib flags defaults disk tests) s =
      .ok (tests.map (failuresAlone lib flags defaults disk s)).sum :=
    runSavedTestCases_alone hlib (fun test _ => isolated_fork hlib hfork test) s
  refine ⟨hsum, ?_⟩
  rw [hsum, runSavedTestCases_alone hlib (fun test _ => isolated_fork hlib hfork test) s,
    funext (failuresAlone_reordered hdisk s), (htests.map _).sum_nat]

theorem savedTestCases_hermetic_sample :
    outcome (deepStateRunSavedTestCases sampleLibrary sampleFlags sampleDefaults
        (sampleDisk ["b.fail", "c.txt", "a.pass"]) [sampleTest]) sampleMachine = .ok 1 := by
  have hreordered : (sampleDisk ["a.pass", "b.fail", "c.txt"]).Reordered (sampleDisk ["b.fail", "c.txt", "a.pass"]) :=
    ⟨rfl, fun _ => .some (by with_unfolding_all decide)⟩
  obtain ⟨hsum, hsame⟩ := @savedTestCases_hermetic Nat sampleLibrary sampleFlags sampleDefaults _ _
    sampleLibrary_lawful rfl _ _ (List.Perm.refl [sampleTest]) hreordered sampleMachine
  rw [hsame, hsum]
  with_unfolding_all decide

end Fork

/-! ## The directory of one test -/

section Directory

variable {lib : Library σ} {flags : Flags} {defaults : Defaults} {disk : Disk} {test : TestInfo σ}

/-- The test that `--input_which_test` names, or the first one. -/
def chosenTest (flags : Flags) (tests : List (TestInfo σ)) : Option (TestInfo σ) :=
  match flags.inputWhichTest with
  | some which => tests.find? (·.testName = which)
  | none => tests.head?

theorem selectTest_apply (tests : List (TestInfo σ)) (s : Machine σ) :
    ∃ tr, selectTest flags tests s = .ok (chosenTest flags tests) ⟨s.memory, tr⟩ := by
  unfold selectTest chosenTest
  cases flags.inputWhichTest with
  | none =>
      cases tests with
      | nil => exact ⟨_, rfl⟩
      | cons test tests => exact ⟨_, rfl⟩
  | some which =>
      cases hfind : tests.find? (·.testName = which) with
      | none => exact ⟨_, by simp only [hfind]; rfl⟩
      | some test => exact ⟨_, by simp only [hfind]; rfl⟩

/-- A result that the replay of single cases counts. -/
def TestRunResult.counted (result : TestRunResult) : Bool := result = .fail || result = .crash

/-- What the first failing case ends the process with. -/
def endsWith (flags : Flags) (defaults : Defaults) : Option Death :=
  if flags.abortOnFail.getD defaults.abortOnFail then some .killed
  else if flags.exitOnFail.getD defaults.exitOnFail then some (.exited 255)
  else none

theorem countFailed_apply (result : TestRunResult) (failed : Nat) (s : Machine σ) :
    countFailed flags defaults result failed s =
      if result.counted then
        match endsWith flags defaults with
        | some death => .error death s
        | none => .ok (failed + 1) s
      else .ok failed s := by
  unfold countFailed endsWith TestRunResult.counted
  by_cases hcounted : result = .fail ∨ result = .crash
  · rw [if_pos hcounted, if_pos (by simpa using hcounted)]
    cases flags.abortOnFail.getD defaults.abortOnFail with
    | true => rfl
    | false => cases flags.exitOnFail.getD defaults.exitOnFail <;> rfl
  · rw [if_neg hcounted, if_neg (by simpa using hcounted)]
    rfl

/-- The case of a name fails or crashes when it is run on its own in `s`. -/
def failsAlone (lib : Library σ) (flags : Flags) (defaults : Defaults) (disk : Disk) (s : Machine σ)
    (test : TestInfo σ) (dir name : Text) : Bool :=
  (resultAlone lib flags defaults disk s test dir name).toOption.any TestRunResult.counted

theorem countReplayed_alone (hlib : lib.Lawful) (h : Isolated lib flags defaults disk test) {s t : Machine σ}
    (hrest : t.memory.rest = s.memory.rest) (dir : Text) (counts : Nat × Nat) (name : Text) :
    ∃ t', t'.memory.rest = s.memory.rest ∧ countReplayed lib flags defaults disk test dir counts name t =
      if failsAlone lib flags defaults disk s test dir name then
        match endsWith flags defaults with
        | some death => .error death t'
        | none => .ok (counts.1 + 1, counts.2 + 1) t'
      else .ok (counts.1 + 1, counts.2) t' := by
  obtain ⟨result, t', halone, hrun, hkept⟩ := runSavedTestCase_later hlib h hrest dir name
  refine ⟨t', hkept, ?_⟩
  unfold countReplayed failsAlone
  rw [bind_of_ok hrun, halone, bind_apply, countFailed_apply]
  change _ = if result.counted = true then _ else _
  cases result.counted with
  | false => rfl
  | true => cases endsWith flags defaults <;> rfl

/-- The counts after one more file, when no failure ends the process. -/
def countReplayedAlone (lib : Library σ) (flags : Flags) (defaults : Defaults) (disk : Disk) (s : Machine σ)
    (test : TestInfo σ) (dir : Text) (counts : Nat × Nat) (name : Text) : Nat × Nat :=
  if failsAlone lib flags defaults disk s test dir name then (counts.1 + 1, counts.2 + 1)
  else (counts.1 + 1, counts.2)

theorem foldl_countReplayedAlone (s : Machine σ) (dir : Text) (names : List Text) (counts : Nat × Nat) :
    (names.foldl (countReplayedAlone lib flags defaults disk s test dir) counts).2 =
      counts.2 + names.countP (failsAlone lib flags defaults disk s test dir) := by
  induction names generalizing counts with
  | nil => rfl
  | cons name names ih =>
      rw [List.foldl_cons, ih, List.countP_cons, countReplayedAlone]
      cases failsAlone lib flags defaults disk s test dir name with
      | false => simp
      | true => simp; omega

/-- The files that a directory is taken to hold: where `stat` fails, a name is taken for what the name before it
was. -/
def takenFrom (disk : Disk) (dir : Text) : Bool → List Text → List Text
  | _, [] => []
  | before, name :: names =>
      if (disk.stat (dir ++ "/" ++ name)).getD before then name :: takenFrom disk dir true names
      else takenFrom disk dir false names

def Disk.takenFiles (disk : Disk) (dir : Text) (names : List Text) : List Text :=
  takenFrom disk dir disk.unset names

/-- The loop over a directory is a loop over the files it is taken to hold. -/
theorem foldlM_countRegular_taken (dir : Text) (names : List Text) (counts : Nat × Nat) (before : Bool) :
    Prod.fst <$> names.foldlM (countRegular lib flags defaults disk test dir) (counts, before) =
      (takenFrom disk dir before names).foldlM (countReplayed lib flags defaults disk test dir) counts := by
  induction names generalizing counts before with
  | nil => rfl
  | cons name names ih =>
      rw [List.foldlM_cons, countRegular, takenFrom]
      cases (disk.stat (dir ++ "/" ++ name)).getD before with
      | false => exact ih counts false
      | true =>
          simp only [if_true, List.foldlM_cons, map_bind, bind_assoc, pure_bind, ih]

/-- The end of a loop with so many failures, which returns `a` when none of them ends the process. -/
def endsAfter {α : Type} (flags : Flags) (defaults : Defaults) (failed : Nat) (a : α) : Except Death α :=
  match endsWith flags defaults, failed with
  | some death, _ + 1 => .error death
  | _, _ => .ok a

theorem map_endsAfter {α β : Type} (f : α → β) (failed : Nat) (a : α) :
    (endsAfter flags defaults failed a).map f = endsAfter flags defaults failed (f a) := by
  unfold endsAfter
  cases endsWith flags defaults with
  | none => rfl
  | some death => cases failed <;> rfl

/-- The loop over a directory: it returns the counts, or stops at the first failure that ends the process. -/
theorem foldlM_countReplayed (hlib : lib.Lawful) (h : Isolated lib flags defaults disk test) (dir : Text)
    (names : List Text) {s t : Machine σ} (hrest : t.memory.rest = s.memory.rest) :
    outcome (names.foldlM (countReplayed lib flags defaults disk test dir) (0, 0)) t =
      endsAfter flags defaults (names.countP (failsAlone lib flags defaults disk s test dir))
        (names.foldl (countReplayedAlone lib flags defaults disk s test dir) (0, 0)) := by
  -- A turn over a name that does not end the process.
  have hgoes : ∀ counts, ∀ name,
      (endsWith flags defaults = none ∨ failsAlone lib flags defaults disk s test dir name = false) →
      ∀ u : Machine σ, u.memory.rest = s.memory.rest →
        ∃ u', countReplayed lib flags defaults disk test dir counts name u =
          .ok (countReplayedAlone lib flags defaults disk s test dir counts name) u' ∧
            u'.memory.rest = s.memory.rest := by
    intro counts name hcase u hu
    obtain ⟨u', hkept, hrun⟩ := countReplayed_alone hlib h hu dir counts name
    refine ⟨u', ?_, hkept⟩
    rw [hrun, countReplayedAlone]
    cases hcase with
    | inl hnone => cases failsAlone lib flags defaults disk s test dir name <;> rw [hnone] <;> rfl
    | inr hfine => rw [hfine]; rfl
  have hreturns : (∀ name ∈ names,
      endsWith flags defaults = none ∨ failsAlone lib flags defaults disk s test dir name = false) →
      outcome (names.foldlM (countReplayed lib flags defaults disk test dir) (0, 0)) t =
        .ok (names.foldl (countReplayedAlone lib flags defaults disk s test dir) (0, 0)) := by
    intro hall
    obtain ⟨t', hloop, _⟩ := foldlM_returns (fun counts name hname => hgoes counts name (hall name hname)) (0, 0) hrest
    exact outcome_of_ok hloop
  unfold endsAfter
  cases hend : endsWith flags defaults with
  | none => exact hreturns fun _ _ => .inl hend
  | some death =>
      cases hcount : names.countP (failsAlone lib flags defaults disk s test dir) with
      | zero =>
          exact hreturns fun name hname => .inr (Bool.eq_false_iff.mpr (List.countP_eq_zero.mp hcount name hname))
      | succ k =>
          have hany : ∃ name ∈ names, failsAlone lib flags defaults disk s test dir name = true :=
            List.countP_pos_iff.mp (by omega)
          have hstops : ∀ counts, ∀ name ∈ names, failsAlone lib flags defaults disk s test dir name = true →
              ∀ u : Machine σ, u.memory.rest = s.memory.rest →
                ∃ u', countReplayed lib flags defaults disk test dir counts name u = .error death u' := by
            intro counts name _ hfails u hu
            obtain ⟨u', _, hrun⟩ := countReplayed_alone hlib h hu dir counts name
            exact ⟨u', by rw [hrun, if_pos hfails, hend]⟩
          obtain ⟨t', hloop⟩ := foldlM_stops
            (fun counts name _ hfine => hgoes counts name (.inr (Bool.eq_false_iff.mpr hfine))) hstops hany (0, 0) hrest
          exact outcome_of_error hloop

/-- What follows the loop over a directory. -/
def reportCounts (counts : Nat × Nat) : Runner σ Nat := do
  logFormat .info ("Ran " ++ Text.ofNat counts.1 ++ " tests; " ++ Text.ofNat counts.2 ++ " tests failed")
  return counts.2

theorem runSingleSavedTestDir_eq {tests : List (TestInfo σ)} {s s' : Machine σ}
    (hselect : selectTest flags tests s = .ok (some test) s') {names : List Text}
    (hnames : disk.readdir (flags.inputTestFilesDir.getD []) = some names) :
    deepStateRunSingleSavedTestDir lib flags defaults disk tests s =
      ((disk.takenFiles (flags.inputTestFilesDir.getD []) names).foldlM
        (countReplayed lib flags defaults disk test (flags.inputTestFilesDir.getD [])) (0, 0) >>= reportCounts) s' := by
  unfold deepStateRunSingleSavedTestDir
  rw [bind_of_ok hselect, Disk.takenFiles, ← foldlM_countRegular_taken, bind_map_left]
  simp only [hnames]
  rfl

/-- The directory of one test is replayed case by case, up to the first failure when that ends the process. -/
theorem runSingleSavedTestDir_alone (hlib : lib.Lawful) (h : Isolated lib flags defaults disk test)
    {tests : List (TestInfo σ)} (hchosen : chosenTest flags tests = some test) {names : List Text}
    (hnames : disk.readdir (flags.inputTestFilesDir.getD []) = some names) (s : Machine σ) :
    outcome (deepStateRunSingleSavedTestDir lib flags defaults disk tests) s =
      endsAfter flags defaults
        ((disk.takenFiles (flags.inputTestFilesDir.getD []) names).countP
          (failsAlone lib flags defaults disk s test (flags.inputTestFilesDir.getD [])))
        ((disk.takenFiles (flags.inputTestFilesDir.getD []) names).countP
          (failsAlone lib flags defaults disk s test (flags.inputTestFilesDir.getD []))) := by
  obtain ⟨tr, hselect⟩ := @selectTest_apply _ flags tests s
  rw [hchosen] at hselect
  have hloop := @foldlM_countReplayed _ _ _ _ _ _ hlib h (flags.inputTestFilesDir.getD [])
    (disk.takenFiles (flags.inputTestFilesDir.getD []) names) s ⟨s.memory, tr⟩ rfl
  rw [outcome, runSingleSavedTestDir_eq hselect hnames, ← outcome, outcome_bind (g := Prod.snd) (fun _ _ => rfl),
    hloop, map_endsAfter, foldl_countReplayedAlone, Nat.zero_add]

/-- A loop that a failure ends does not look at what is behind it. -/
theorem foldlM_countReplayed_stops (hlib : lib.Lawful) (h : Isolated lib flags defaults disk test) {death : Death}
    (hend : endsWith flags defaults = some death) (dir : Text) {before after : List Text} {name : Text}
    {s t : Machine σ} (hrest : t.memory.rest = s.memory.rest)
    (hbefore : ∀ x ∈ before, failsAlone lib flags defaults disk s test dir x = false)
    (hname : failsAlone lib flags defaults disk s test dir name = true) :
    ∃ t', (before ++ name :: after).foldlM (countReplayed lib flags defaults disk test dir) (0, 0) t =
      .error death t' ∧
        (before ++ [name]).foldlM (countReplayed lib flags defaults disk test dir) (0, 0) t = .error death t' := by
  have hgoes : ∀ counts, ∀ x ∈ before, ∀ u : Machine σ, u.memory.rest = s.memory.rest →
      ∃ u', countReplayed lib flags defaults disk test dir counts x u =
        .ok (counts.1 + 1, counts.2) u' ∧ u'.memory.rest = s.memory.rest := by
    intro counts x hx u hu
    obtain ⟨u', hkept, hrun⟩ := countReplayed_alone hlib h hu dir counts x
    exact ⟨u', by rw [hrun, if_neg (by simp [hbefore x hx])], hkept⟩
  obtain ⟨u, hloop, hu⟩ := foldlM_returns hgoes (0, 0) hrest
  obtain ⟨t', -, hrun⟩ := countReplayed_alone hlib h hu dir
    (before.foldl (fun counts _ => (counts.1 + 1, counts.2)) (0, 0)) name
  rw [if_pos hname, hend] at hrun
  refine ⟨t', ?_, ?_⟩
  · rw [List.foldlM_append, bind_of_ok hloop, List.foldlM_cons, bind_apply, hrun]
  · rw [List.foldlM_append, bind_of_ok hloop, List.foldlM_cons, bind_apply, hrun]

/-- Without a test or a directory nothing is replayed. -/
theorem runSingleSavedTestDir_nothing {tests : List (TestInfo σ)}
    (h : chosenTest flags tests = none ∨ disk.readdir (flags.inputTestFilesDir.getD []) = none) (s : Machine σ) :
    outcome (deepStateRunSingleSavedTestDir lib flags defaults disk tests) s = .ok 0 := by
  obtain ⟨tr, hselect⟩ := @selectTest_apply _ flags tests s
  unfold deepStateRunSingleSavedTestDir
  rw [outcome, bind_of_ok hselect]
  cases h with
  | inl hnone => rw [hnone]; rfl
  | inr hnone =>
      cases chosenTest flags tests with
      | none => rfl
      | some test => simp only [hnone]; rfl

/-- The saved case that is asked for counts once when it fails or crashes. -/
theorem runSingleSavedTestCase_alone (h : Isolated lib flags defaults disk test)
    {tests : List (TestInfo σ)} (hchosen : chosenTest flags tests = some test) (s : Machine σ) :
    outcome (deepStateRunSingleSavedTestCase lib flags defaults disk tests) s =
      match resultAlone lib flags defaults disk s test [] (flags.inputTestFile.getD []) with
      | .ok result => endsAfter flags defaults result.counted.toNat result.counted.toNat
      | .error death => .error death := by
  obtain ⟨tr, hselect⟩ := @selectTest_apply _ flags tests s
  obtain ⟨s', hrun, _⟩ := h [] (flags.inputTestFile.getD []) ⟨s.memory, tr⟩
  rw [resultAlone_eq h]
  unfold deepStateRunSingleSavedTestCase
  rw [outcome, bind_of_ok hselect, hchosen]
  dsimp only
  rw [bind_of_ok hrun, bind_apply, countFailed_apply]
  unfold endsAfter
  generalize caseResult lib flags defaults test (disk.fopen (savedPath [] (flags.inputTestFile.getD []))) s.memory =
    result
  cases result.counted with
  | false => cases endsWith flags defaults <;> rfl
  | true => cases endsWith flags defaults <;> rfl

theorem runSingleSavedTestCase_nothing {tests : List (TestInfo σ)} (h : chosenTest flags tests = none)
    (s : Machine σ) : outcome (deepStateRunSingleSavedTestCase lib flags defaults disk tests) s = .ok 0 := by
  obtain ⟨tr, hselect⟩ := @selectTest_apply _ flags tests s
  unfold deepStateRunSingleSavedTestCase
  rw [outcome, bind_of_ok hselect, h]
  rfl

/-- With child processes the directory of one test comes to the number of its files that fail or crash, each run
on its own. Where an option asks for it, the first of them ends the process: the run is the one over a
directory that ends with that file. -/
theorem singleSavedTestDir_hermetic (hlib : lib.Lawful) (hfork : flags.fork.getD defaults.fork = true)
    {tests : List (TestInfo σ)} (hchosen : chosenTest flags tests = some test) {dir : Text}
    (hdir : flags.inputTestFilesDir.getD [] = dir) {names : List Text} (hnames : disk.readdir dir = some names)
    (s : Machine σ) :
    outcome (deepStateRunSingleSavedTestDir lib flags defaults disk tests) s =
        endsAfter flags defaults
          ((disk.takenFiles dir names).countP (failsAlone lib flags defaults disk s test dir))
          ((disk.takenFiles dir names).countP (failsAlone lib flags defaults disk s test dir)) ∧
      ∀ death before name after, endsWith flags defaults = some death →
        disk.takenFiles dir names = before ++ name :: after →
        (∀ x ∈ before, failsAlone lib flags defaults disk s test dir x = false) →
        failsAlone lib flags defaults disk s test dir name = true →
          ∀ disk' : Disk, ∀ names', disk'.fopen = disk.fopen → disk'.readdir dir = some names' →
            disk'.takenFiles dir names' = before ++ [name] →
              deepStateRunSingleSavedTestDir lib flags defaults disk' tests s =
                deepStateRunSingleSavedTestDir lib flags defaults disk tests s := by
  subst hdir
  have h : Isolated lib flags defaults disk test := isolated_fork hlib hfork test
  refine ⟨runSingleSavedTestDir_alone hlib h hchosen hnames s, ?_⟩
  intro death before name after hend htaken hbefore hname disk' names' hfopen hnames' htaken'
  obtain ⟨tr, hselect⟩ := @selectTest_apply _ flags tests s
  rw [hchosen] at hselect
  have hsame : countReplayed lib flags defaults disk' test = countReplayed lib flags defaults disk test := by
    unfold countReplayed deepStateRunSavedTestCase
    rw [hfopen]
  obtain ⟨t', hlong, hshort⟩ := @foldlM_countReplayed_stops _ _ _ _ _ _ hlib h death hend
    (flags.inputTestFilesDir.getD []) before after name s ⟨s.memory, tr⟩ rfl hbefore hname
  rw [runSingleSavedTestDir_eq hselect hnames, runSingleSavedTestDir_eq hselect hnames', htaken, htaken', hsame,
    bind_apply, bind_apply, hlong, hshort]

/-- `z.lnk` leads nowhere, and is replayed because `a.pass` before it is a file. -/
def danglingDisk (names : List Text) : Disk :=
  { sampleDisk names with
    fopen := fun path => if path = "saved/z.lnk" then .missing else (sampleDisk names).fopen path
    stat := fun path => if path = "saved/z.lnk" then none else some true }

def exitingFlags : Flags := { sampleFlags with exitOnFail := some true }

theorem singleSavedTestDir_hermetic_sample :
    outcome (deepStateRunSingleSavedTestDir sampleLibrary exitingFlags sampleDefaults
        (danglingDisk ["a.pass", "z.lnk", "b.fail"]) [sampleTest]) sampleMachine = .error (.exited 255) ∧
      deepStateRunSingleSavedTestDir sampleLibrary exitingFlags sampleDefaults
          (danglingDisk ["a.pass", "z.lnk"]) [sampleTest] sampleMachine =
        deepStateRunSingleSavedTestDir sampleLibrary exitingFlags sampleDefaults
          (danglingDisk ["a.pass", "z.lnk", "b.fail"]) [sampleTest] sampleMachine := by
  have hchosen : chosenTest exitingFlags [sampleTest] = some sampleTest := by with_unfolding_all rfl
  obtain ⟨hcount, hfirst⟩ := @singleSavedTestDir_hermetic _ _ _ _ (danglingDisk ["a.pass", "z.lnk", "b.fail"]) _
    sampleLibrary_lawful rfl _ hchosen _ rfl _ rfl sampleMachine
  refine ⟨?_, ?_⟩
  · rw [hcount]
    with_unfolding_all decide
  · exact hfirst (.exited 255) ["a.pass"] "z.lnk" ["b.fail"] rfl (by with_unfolding_all decide)
      (by with_unfolding_all decide) (by with_unfolding_all decide) (danglingDisk ["a.pass", "z.lnk"]) _ rfl rfl
      (by with_unfolding_all decide)

end Directory

end RcppDeepState
