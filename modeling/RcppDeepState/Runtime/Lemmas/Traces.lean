import RcppDeepState.Runtime.Lemmas.Cases

/-!
# What the runner leaves behind

Outside of the calls of tests the runner only adds outputs to its trace, so whatever relation bears with that
holds between the traces before and after each of its parts.
-/

namespace RcppDeepState

open Command

variable {σ : Type}

/-! ## The tests that have been run -/

/-- The calls of tests in a trace. -/
def ranTests (tr : List Trace) : List Text :=
  tr.filterMap fun t =>
    match t with
    | .run test => some test
    | .left _ => none

@[simp] theorem ranTests_append (tr tr' : List Trace) : ranTests (tr ++ tr') = ranTests tr ++ ranTests tr' :=
  List.filterMap_append

@[simp] theorem ranTests_left (outputs : List Output) : ranTests (outputs.map .left) = [] := by
  induction outputs with
  | nil => rfl
  | cons output outputs ih => exact ih

/-! ## Relations between traces -/

/-- A relation that bears with further outputs. -/
structure BearsOutput (R : List Trace → List Trace → Prop) : Prop where
  refl : ∀ tr, R tr tr
  trans : ∀ tr tr' tr'', R tr tr' → R tr' tr'' → R tr tr''
  left : ∀ tr (outputs : List Output), R tr (tr ++ outputs.map .left)

theorem bears_ranTests : BearsOutput fun tr tr' => ranTests tr' = ranTests tr where
  refl _ := rfl
  trans _ _ _ h h' := h'.trans h
  left tr outputs := by simp

theorem bears_subset : BearsOutput fun tr tr' => tr ⊆ tr' where
  refl _ := List.Subset.refl _
  trans _ _ _ h h' := fun _ ht => h' (h ht)
  left _ _ := List.subset_append_left _ _

section Traces

variable {α : Type} {R : List Trace → List Trace → Prop}

/-- The trace a command leaves is related to the one it finds. -/
def Traces (R : List Trace → List Trace → Prop) (c : Runner σ α) : Prop :=
  Within (fun s s' => R s.trace s'.trace) c

variable (hR : BearsOutput R)

include hR

theorem Traces.pure (a : α) : Traces R (pure a : Runner σ α) := fun s => hR.refl s.trace

theorem Traces.throw (death : Death) : Traces R (throw death : Runner σ α) := fun s => hR.refl s.trace

theorem Traces.perform (a : Action σ) : Traces R (perform a) := fun s => hR.left s.trace (a s.memory).2

theorem Traces.onMemory (f : Memory σ → Memory σ) : Traces R (onMemory f : Runner σ Unit) :=
  fun s => hR.refl s.trace

theorem Traces.leave (output : Output) : Traces R (leave output : Runner σ Unit) :=
  fun s => hR.left s.trace [output]

theorem Traces.readMemory : Traces R (readMemory : Runner σ (Memory σ)) := fun s => hR.refl s.trace

theorem Traces.bind {β : Type} {c : Runner σ α} {f : α → Runner σ β} (hc : Traces R c)
    (hf : ∀ a, Traces R (f a)) : Traces R (c >>= f) :=
  Within.bind (fun s s' s'' h h' => hR.trans s.trace s'.trace s''.trace h h') hc hf

theorem Traces.when (p : Prop) [Decidable p] {c : Runner σ Unit} (hc : Traces R c) : Traces R (when p c) :=
  Within.ite hc (Traces.pure hR _)

/-! ## The parts of the runner -/

variable {lib : Library σ} {flags : Flags} {defaults : Defaults}

theorem settle_traces (crashes : Bool) (test : TestInfo σ) :
    Traces R (settle lib flags defaults crashes test) := by
  refine (Traces.readMemory hR).bind hR fun m => Within.ite ?_ ((Traces.readMemory hR).bind hR fun m =>
    Within.ite ?_ ?_)
  · refine (Traces.leave hR _).bind hR fun _ => ((Traces.leave hR _).when hR _).bind hR fun _ => ?_
    exact ((Traces.throw hR _).when hR _).bind hR fun _ => Traces.pure hR _
  · exact (Traces.leave hR _).bind hR fun _ => Traces.pure hR _
  · refine (Traces.leave hR _).bind hR fun _ => ?_
    exact ((Traces.leave hR _).when hR _).bind hR fun _ => Traces.pure hR _

theorem conclude_traces (crashes : Bool) (test : TestInfo σ) (ending : TestEnd) :
    Traces R (conclude lib flags defaults crashes test ending) := by
  cases ending with
  | returns => exact Traces.pure hR _
  | throws => exact (Traces.perform hR _).bind hR fun _ => settle_traces hR crashes test
  | jumps => exact settle_traces hR crashes test
  | exits status => exact Traces.throw hR _
  | killed => exact Traces.throw hR _

theorem initInputFromFile_traces (file : Opened) (path : Text) :
    Traces R (deepStateInitInputFromFile lib file path) := by
  cases file with
  | missing => exact (Traces.perform hR _).bind hR fun _ => Traces.pure hR _
  | noDescriptor => exact (Traces.perform hR _).bind hR fun _ => Traces.pure hR _
  | noStat => exact (Traces.perform hR _).bind hR fun _ => Traces.pure hR _
  | opened size content =>
      refine ((Traces.leave hR _).when hR _).bind hR fun _ => (Traces.onMemory hR _).bind hR fun _ => Within.ite ?_ ?_
      · exact (Traces.perform hR _).bind hR fun _ => Traces.pure hR _
      · exact (Traces.leave hR _).bind hR fun _ => Traces.pure hR _

theorem reportCase_traces (test : TestInfo σ) (path : Text) (result : TestRunResult) :
    Traces R (reportCase lib flags test path result) := by
  refine ((Traces.leave hR _).when hR _).bind hR fun _ => Traces.when hR _ ?_
  refine (Traces.leave hR _).bind hR fun _ => (Traces.leave hR _).bind hR fun _ => ?_
  exact ((Traces.leave hR _).when hR _).bind hR fun _ => Traces.perform hR _

theorem countFailed_traces (result : TestRunResult) (failed : Nat) :
    Traces R (countFailed flags defaults result failed : Runner σ Nat) := by
  refine Within.ite (((Traces.throw hR _).when hR _).bind hR fun _ => ?_) (Traces.pure hR _)
  exact ((Traces.throw hR _).when hR _).bind hR fun _ => Traces.pure hR _

end Traces

/-! ## The calls of one test -/

section Calls

variable {lib : Library σ} {flags : Flags} {defaults : Defaults} {disk : Disk}

/-- A child calls its test once. -/
theorem ranTests_childRun (test : TestInfo σ) (m : Memory σ) :
    ranTests (childRun lib flags defaults test m).2.trace = [test.testName] := by
  have htraces : Traces (fun tr tr' => ranTests tr' = ranTests tr)
      (conclude lib flags defaults false test (test.testFunc m).1 >>= fun result =>
        exit result.status : Runner σ Empty) :=
    (conclude_traces bears_ranTests false test _).bind bears_ranTests fun _ => Traces.throw bears_ranTests _
  have hran := htraces ⟨(test.testFunc m).2.1, [] ++ [.run test.testName] ++ (test.testFunc m).2.2.map .left⟩
  have hend : ranTests (final (deepStateRunTest lib flags defaults test) ⟨m, []⟩).trace = [test.testName] := by
    refine hran.trans ?_
    rw [ranTests_append, ranTests_left]
    rfl
  unfold childRun
  unfold final at hend
  cases hchild : deepStateRunTest lib flags defaults test ⟨m, []⟩ with
  | ok never s' => exact never.elim
  | error death s' =>
      rw [hchild] at hend
      cases death <;> exact hend

/-- A saved case calls its test once, when its file can be read. -/
theorem ranTests_runSavedTestCase (hlib : lib.Lawful) (hfork : flags.fork.getD defaults.fork = true)
    (test : TestInfo σ) (dir name : Text) (s : Machine σ) :
    ranTests (final (deepStateRunSavedTestCase lib flags defaults disk test dir name) s).trace =
      ranTests s.trace ++ if (disk.fopen (savedPath dir name)).loads then [test.testName] else [] := by
  unfold deepStateRunSavedTestCase runOpened
  generalize disk.fopen (savedPath dir name) = file
  have hinitTraces := @initInputFromFile_traces _ _ bears_ranTests lib file (savedPath dir name) s
  cases hload : file.loads with
  | false =>
      obtain ⟨s', hinit, _⟩ := initInputFromFile_fails hlib hload (savedPath dir name) s
      rw [final_of_ok hinit] at hinitTraces
      rw [final_bind_of_ok hinit, if_neg Bool.false_ne_true, if_neg Bool.false_ne_true, List.append_nil,
        ← hinitTraces]
      exact ((Traces.leave bears_ranTests _).bind bears_ranTests fun _ => Traces.pure bears_ranTests _) s'
  | true =>
      obtain ⟨tr, hinit⟩ := @initInputFromFile_loads _ lib _ hload (savedPath dir name) s
      rw [final_of_ok hinit] at hinitTraces
      rw [final_bind_of_ok hinit, if_pos rfl, if_pos rfl, final_bind_of_ok (perform_apply _ _),
        final_bind_of_ok (forkAndRunTest_fork hfork _)]
      refine (((reportCase_traces bears_ranTests _ _ _).bind bears_ranTests fun _ =>
        Traces.pure bears_ranTests _) _).trans ?_
      simp [ranTests_childRun]
      exact hinitTraces

end Calls

end RcppDeepState
