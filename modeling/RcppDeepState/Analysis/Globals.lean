import RcppDeepState.Analysis.Editable
import RcppDeepState.Analysis.Lemmas.Frames
import RcppDeepState.Package.Atomicity

/-!
# Which harness an edited harness stands for

The bodies read every name from their own frame or from the package, but for `fun_name`: what is fuzzed and
analysed is what the caller's environment says.
-/

namespace RcppDeepState

open Command FileSystem Scope

/-! ## Free variables -/

/-- The names the body of `deepstate_compile_generate_fun` reads, but for those of base R. -/
def generateNames : List Text :=
  ["package_path", "inst_path", "test_path", "function_name", "filename", "fun_path", "file_path", "harness_lines",
    "range_elements", "fun_range", "missing_range", "variable", "warn_msg", "continue_on_missing", "error_msg",
    "verbose", "deepstate_fuzz_fun", "deepstate_analyze_fun", "fun_name"]

/-- The names the body of `deepstate_compile_checks_fun` reads, but for those of base R. -/
def checksNames : List Text :=
  ["package_path", "test_path", "function_name", "filename", "fun_path", "file_path", "harness_lines",
    "assert_lines", "warn_msg", "continue_on_missing", "error_msg", "verbose", "deepstate_fuzz_fun",
    "deepstate_analyze_fun", "fun_name"]

/-- What the name means in the body does not depend on what is defined globally. -/
def Local (frame : Environment) (x : Text) : Prop :=
  ∀ globals globals' : Environment, resolve [frame, namespaceFrame, globals] x =
    resolve [frame, namespaceFrame, globals'] x

theorem local_of_bound {frame : Environment} {x : Text} (h : (resolve [frame, namespaceFrame] x).isSome) :
    Local frame x :=
  fun globals globals' => resolve_append_of_bound h [globals] [globals']

theorem free_funName {frame : Environment} (h : frame "fun_name" = none) : Free [frame, namespaceFrame] "fun_name" := by
  intro f hf
  rcases List.mem_pair.mp hf with rfl | rfl
  · exact h
  · exact ofList_eq_none.mpr (by with_unfolding_all decide)

theorem generateFrame_funName (h : Host) (fn : Text) : generateFrame h fn "fun_name" = none := by
  with_unfolding_all rfl

theorem checksFrame_funName (h : Host) (fn : Text) : checksFrame h fn "fun_name" = none := by
  with_unfolding_all rfl

/-- `fun_name` is what the environment behind the package says. -/
theorem funName_eq {frame : Environment} (h : frame "fun_name" = none) (globals : Environment) :
    funName frame globals = globals "fun_name" := by
  rw [funName, show [frame, namespaceFrame, globals] = [frame, namespaceFrame] ++ [globals] from rfl,
    resolve_append_of_free (free_funName h), resolve, resolve, Option.or_none]

theorem not_local_funName {frame : Environment} (h : frame "fun_name" = none) : ¬ Local frame "fun_name" := by
  intro hlocal
  have hsame := hlocal (fun _ => none) (fun _ => some .other)
  rw [← funName, ← funName, funName_eq h, funName_eq h] at hsame
  cases hsame

theorem local_iff {frame : Environment} {x : Text} (hfree : frame "fun_name" = none)
    (hbound : x ≠ "fun_name" → (resolve [frame, namespaceFrame] x).isSome) : Local frame x ↔ x ≠ "fun_name" := by
  constructor
  · rintro hlocal rfl
    exact not_local_funName hfree hlocal
  · exact fun hne => local_of_bound (hbound hne)

/-- All names that a body reads are local but one. -/
theorem names_local_iff (h : Host) (fn : Text) :
    (∀ x ∈ generateNames, Local (generateFrame h fn) x ↔ x ≠ "fun_name") ∧
      ∀ x ∈ checksNames, Local (checksFrame h fn) x ↔ x ≠ "fun_name" := by
  constructor
  · refine fun x hx => local_iff (generateFrame_funName h fn) ?_
    revert x
    simp only [generateNames, List.forall_mem_cons, List.not_mem_nil, false_imp_iff, implies_true, and_true]
    refine ⟨?_, ?_, ?_, ?_, ?_, ?_, ?_, ?_, ?_, ?_, ?_, ?_, ?_, ?_, ?_, ?_, ?_, ?_, fun hne => absurd rfl hne⟩
    all_goals
      intro _
      with_unfolding_all rfl
  · refine fun x hx => local_iff (checksFrame_funName h fn) ?_
    revert x
    simp only [checksNames, List.forall_mem_cons, List.not_mem_nil, false_imp_iff, implies_true, and_true]
    refine ⟨?_, ?_, ?_, ?_, ?_, ?_, ?_, ?_, ?_, ?_, ?_, ?_, ?_, ?_, fun hne => absurd rfl hne⟩
    all_goals
      intro _
      with_unfolding_all rfl

/-! ## What a run starts with -/

/-- The commands that a run on the function may start with. -/
def launchLines (h : Host) (packagename : Option Text) (fn : Text) (sep : Sep) : List Text :=
  [compileLine h fn sep, runExecutable h packagename fn (-1) 2 sep]

theorem file_funPath (h : Host) (fn : Text) : h.file (funPath fn) = h.file testPath ++ '/' :: fn := by
  have hslash : ("/" : Text) = ['/'] := by with_unfolding_all decide
  simp [Host.file, funPath, hslash]

theorem file_funPath_append (h : Host) (fn n : Text) :
    h.file (funPath fn ++ [n]) = h.file testPath ++ '/' :: (fn ++ '/' :: n) := by
  have hslash : ("/" : Text) = ['/'] := by with_unfolding_all decide
  simp [Host.file, funPath, hslash]

theorem compileLine_inj {h : Host} {fn fn' : Text} {sep : Sep} (he : compileLine h fn sep = compileLine h fn' sep) :
    fn = fn' := by
  simpa [compileLine, file_funPath] using he

theorem runExecutable_inj {h : Host} {packagename : Option Text} {fn fn' : Text} {seed timeLimit : Int} {sep : Sep}
    (he : runExecutable h packagename fn seed timeLimit sep = runExecutable h packagename fn' seed timeLimit sep) :
    fn = fn' := by
  -- The name occurs as often in both lines, so it has one length.
  have hlength : fn.length = fn'.length := by
    have := congrArg List.length he
    simp only [runExecutable, outputDir, logFile, file_funPath, file_funPath_append, testHarness, List.length_append,
      List.length_cons] at this
    omega
  simp only [runExecutable, file_funPath, List.append_assoc, List.cons_append, List.append_cancel_left_eq,
    List.cons.injEq, true_and] at he
  exact (List.append_inj he hlength).1

theorem compileLine_ne_runExecutable (h : Host) (packagename : Option Text) (fn fn' : Text) (seed timeLimit : Int)
    (sep : Sep) : compileLine h fn sep ≠ runExecutable h packagename fn' seed timeLimit sep := by
  intro he
  have hend : ("\n" : Text) <:+ compileLine h fn sep := List.suffix_append _ _
  have hend' : ("\n" : Text) <:+ " > /dev/null" := by
    rw [he] at hend
    exact List.suffix_of_suffix_length_le hend (List.suffix_append _ _) (by with_unfolding_all decide)
  exact absurd hend' (by with_unfolding_all decide)

theorem launchLines_inj {h : Host} {packagename : Option Text} {fn fn' l : Text} {sep : Sep}
    (hl : l ∈ launchLines h packagename fn sep) (hl' : l ∈ launchLines h packagename fn' sep) : fn = fn' := by
  rcases List.mem_pair.mp hl with rfl | rfl
  · rcases List.mem_pair.mp hl' with he | he
    · exact compileLine_inj he
    · exact absurd he (compileLine_ne_runExecutable _ _ _ _ _ _ _)
  · rcases List.mem_pair.mp hl' with he | he
    · exact absurd he.symm (compileLine_ne_runExecutable _ _ _ _ _ _ _)
    · exact runExecutable_inj he

/-- A command is announced, or it is carried out at once. -/
def Announces (l : Text) (e : Event) : Prop :=
  e = .system l ∨ e = .message (.compiling l) ∨ e = .message (.running l)

theorem Announces.inj {l l' : Text} {e : Event} (h : Announces l e) (h' : Announces l' e) : l = l' := by
  rcases h with rfl | rfl | rfl
  all_goals
    rcases h' with h' | h' | h'
    all_goals cases h'
    rfl

/-- The first thing that is recorded is the event. -/
def Starts {α : Type} (e : Event) (m : Program α) (w : World) : Prop :=
  ∃ es, (final m w).log = w.log ++ e :: es

/-- Between two worlds events are recorded and none is lost. -/
abbrev Grows : World → World → Prop := Effects (fun _ => True) (fun _ => True)

section Starts

variable {α β : Type} {h : Host} {o : PipelineOutcome} {fn : Text} {sep : Sep} {w : World}

theorem starts_record {e : Event} {k : Unit → Program α} (hk : ∀ u, Within Grows (k u)) :
    Starts e (record e >>= k) w := by
  obtain ⟨es, hes, -⟩ := (hk () { w with log := w.log ++ [e] }).events
  refine ⟨es, ?_⟩
  rw [List.append_cons, ← hes]
  rfl

theorem Starts.bind {e : Event} {m : Program α} {k : α → Program β} (hm : Starts e m w)
    (hk : ∀ a, Within Grows (k a)) : Starts e (m >>= k) w := by
  obtain ⟨es, hes⟩ := hm
  cases hrun : m w with
  | ok a w' =>
    rw [final_of_ok hrun] at hes
    obtain ⟨es', hes', -⟩ := (hk a w').events
    refine ⟨es ++ es', ?_⟩
    rw [final_bind_of_ok hrun, hes', hes, List.append_assoc, List.cons_append]
  | error t w' =>
    have hfinal : final m w = w' := by rw [final, hrun]
    rw [hfinal] at hes
    exact ⟨es, by rw [final_bind_of_error hrun, hes]⟩

theorem grows_of_effects {T : Pathname → Prop} {P : Event → Prop} {m : Program α} (hm : Within (Effects T P) m) :
    Within Grows m := effects_mono (fun _ _ => trivial) (fun _ _ => trivial) hm

theorem starts_runMake (b : BuildOutcome) :
    ∃ e, Announces (compileLine h fn sep) e ∧ Starts e (runMake h b fn sep) w := by
  have hgrows : Within Grows (do
      record (.system (compileLine h fn sep))
      onFiles fun fs => make b fn sep (removeObjects fn fs)) :=
    effects_bind (effects_record trivial) fun _ => effects_onFiles fun _ _ hp => absurd trivial hp
  unfold runMake
  split
  · exact ⟨_, .inr (.inl rfl), starts_record fun _ => hgrows⟩
  · exact ⟨_, .inl rfl, starts_record fun _ => effects_onFiles fun _ _ hp => absurd trivial hp⟩

theorem starts_runFuzzer (out : FuzzOutcome) (packagename : Option Text) (seed timeLimit : Int) :
    ∃ e, Announces (runExecutable h packagename fn seed timeLimit sep) e ∧
      Starts e (runFuzzer h out packagename fn seed timeLimit sep) w := by
  have hrest : Within Grows (do
      record (.run (executableSource (← files) fn sep))
      onFiles (fuzzEffects out fn sep)
      let fs ← files
      if fs.fileExists (objectPath fn sep) && fs.fileExists (executablePath fn sep) then
        return some fn
      else
        return none) := by
    refine effects_files fun _ => effects_bind (effects_record trivial) fun _ => ?_
    refine effects_bind (effects_onFiles fun _ _ hp => absurd trivial hp) fun _ => effects_files fun _ => ?_
    exact effects_ite (effects_pure _) (effects_pure _)
  unfold runFuzzer
  split
  · exact ⟨_, .inr (.inr rfl), starts_record fun _ => effects_bind (effects_record trivial) fun _ => hrest⟩
  · exact ⟨_, .inl rfl, starts_record fun _ => hrest⟩

/-- There is an object file, or a harness with its makefile. -/
def Startable (fs : FileSystem Content) (fn : Text) (sep : Sep) : Prop :=
  fs.fileExists (objectPath fn sep) = true ∨
    fs.fileExists (harnessPath fn sep) = true ∧ fs.fileExists (makefilePath fn sep) = true

theorem ensureCompiled_of_object (b : BuildOutcome) (hobj : w.fs.fileExists (objectPath fn sep) = true) :
    ensureCompiled h b fn sep w = .ok () w := by
  rw [ensureCompiled, files_bind_apply, if_pos hobj]
  rfl

theorem ensureCompiled_of_harness (b : BuildOutcome) (hsep : sep ≠ .other)
    (hobj : w.fs.fileExists (objectPath fn sep) = false)
    (hfiles : w.fs.fileExists (harnessPath fn sep) = true ∧ w.fs.fileExists (makefilePath fn sep) = true) :
    ensureCompiled h b fn sep w = runMake h b fn sep w := by
  rw [ensureCompiled, files_bind_apply, hobj, if_neg (by simp), deepstateCompileFun, files_bind_apply, if_neg hsep,
    hfiles.1, hfiles.2]
  rfl

theorem ensureCompiled_of_not_startable (b : BuildOutcome) (hsep : sep ≠ .other) (hnot : ¬ Startable w.fs fn sep) :
    ensureCompiled h b fn sep w = .error compileError w := by
  unfold Startable at hnot
  rw [not_or] at hnot
  rw [ensureCompiled, files_bind_apply, if_neg hnot.1, deepstateCompileFun, files_bind_apply, if_neg hsep, if_neg]
  · rfl
  · rw [Bool.and_eq_true]
    exact hnot.2

/-- Compiling and running starts with a command on the function, when there is something to compile or to run. -/
theorem starts_compileAndRun {k : Option Text → Program α} (hsep : sep ≠ .other) (hk : ∀ a, Within Grows (k a))
    (out : FuzzOutcome) (packagename : Option Text) (hstart : Startable w.fs fn sep) :
    ∃ l ∈ launchLines h packagename fn sep, ∃ e, Announces l e ∧
      Starts e (ensureCompiled h out.build fn sep >>= fun _ => runFuzzer h out packagename fn (-1) 2 sep >>= k) w := by
  cases hobj : w.fs.fileExists (objectPath fn sep) with
  | true =>
    obtain ⟨e, he, hstarts⟩ := @starts_runFuzzer h fn sep w out packagename (-1) 2
    refine ⟨_, List.mem_pair.mpr (.inr rfl), e, he, ?_⟩
    obtain ⟨es, hes⟩ := hstarts.bind hk
    exact ⟨es, by rw [final_bind_of_ok (ensureCompiled_of_object out.build hobj), hes]⟩
  | false =>
    have hfiles := hstart.resolve_left (by rw [hobj]; exact Bool.false_ne_true)
    obtain ⟨e, he, hstarts⟩ := @starts_runMake h fn sep w out.build
    refine ⟨_, List.mem_pair.mpr (.inl rfl), e, he, ?_⟩
    have hcompile : Starts e (ensureCompiled h out.build fn sep) w := by
      unfold Starts final at hstarts ⊢
      rw [ensureCompiled_of_harness out.build hsep hobj hfiles]
      exact hstarts
    exact hcompile.bind fun _ => effects_bind (grows_of_effects (effects_runFuzzer out packagename (-1) 2)) hk

end Starts

/-! ## Fuzzing and analysing -/

section Pipeline

variable {h : Host} {o : PipelineOutcome} {fn fn' : Text} {sep : Sep} {w : World}

/-- The state in which the function name is looked up. -/
def namedWorld (h : Host) (w : World) : World := final (getPackageName h) w

theorem fs_namedWorld : (namedWorld h w).fs = w.fs := by
  obtain ⟨log, hname⟩ := getPackageName_ok h w
  rw [namedWorld, final_of_ok hname]

theorem getPackageName_namedWorld : getPackageName h w = .ok (packageNameIn w.fs) (namedWorld h w) := by
  obtain ⟨log, hname⟩ := getPackageName_ok h w
  rw [namedWorld, final_of_ok hname, hname]

theorem fuzzAndAnalyze_apply (hdir : w.fs.dirExists testPath = true) :
    fuzzAndAnalyze h o fn sep w =
      (ensureCompiled h (o.fuzz fn).build fn sep >>= fun _ =>
        runFuzzer h (o.fuzz fn) (packageNameIn w.fs) fn (-1) 2 sep >>= fun _ =>
          deepstateAnalyzeFun o.xml2 h (o.replay fn) fn .all sep) (namedWorld h w) := by
  have hfuzz : deepstateFuzzFun h (o.fuzz fn) fn (-1) 2 sep w =
      (ensureCompiled h (o.fuzz fn).build fn sep >>= fun _ =>
        runFuzzer h (o.fuzz fn) (packageNameIn w.fs) fn (-1) 2 sep) (namedWorld h w) := by
    rw [deepstateFuzzFun, bind_of_ok getPackageName_namedWorld, files_bind_apply, fs_namedWorld, if_pos hdir]
    rfl
  rw [fuzzAndAnalyze, bind_apply, hfuzz, ← bind_assoc, bind_apply (ensureCompiled h _ fn sep >>= _)]

theorem starts_fuzzAndAnalyze (hsep : sep ≠ .other) (hdir : w.fs.dirExists testPath = true)
    (hstart : Startable w.fs fn sep) :
    ∃ l ∈ launchLines h (packageNameIn w.fs) fn sep, ∃ e, Announces l e ∧
      ∃ es, (final (fuzzAndAnalyze h o fn sep) w).log = (namedWorld h w).log ++ e :: es := by
  rw [← @fs_namedWorld h w] at hstart
  obtain ⟨l, hl, e, he, es, hes⟩ := starts_compileAndRun (h := h) hsep
    (fun _ => grows_of_effects (effects_analyzeFun (o.replay fn) fn .all sep)) (o.fuzz fn) (packageNameIn w.fs) hstart
  refine ⟨l, hl, e, he, es, ?_⟩
  rw [← hes]
  unfold final
  rw [fuzzAndAnalyze_apply hdir]

theorem fuzzAndAnalyze_of_not_startable (hsep : sep ≠ .other) (hdir : w.fs.dirExists testPath = true)
    (hnot : ¬ Startable w.fs fn sep) : fuzzAndAnalyze h o fn sep w = .error compileError (namedWorld h w) := by
  rw [← @fs_namedWorld h w] at hnot
  rw [fuzzAndAnalyze_apply hdir, bind_apply, ensureCompiled_of_not_startable _ hsep hnot]

theorem fuzzAndAnalyze_of_not_dir (hdir : ¬ w.fs.dirExists testPath = true) :
    fuzzAndAnalyze h o fn sep w = .error "Missing testfiles directory" (namedWorld h w) := by
  rw [fuzzAndAnalyze, bind_apply, deepstateFuzzFun, bind_of_ok getPackageName_namedWorld, files_bind_apply,
    fs_namedWorld, if_neg hdir]
  rfl

/-- Where one of two functions can be started, fuzzing them does the same only when they are the same. -/
theorem eq_of_fuzzAndAnalyze_eq (hsep : sep ≠ .other) (hdir : w.fs.dirExists testPath = true)
    (hstart : Startable w.fs fn sep) (heq : fuzzAndAnalyze h o fn' sep w = fuzzAndAnalyze h o fn sep w) :
    fn' = fn := by
  obtain ⟨l, hl, e, he, es, hes⟩ := starts_fuzzAndAnalyze (h := h) (o := o) hsep hdir hstart
  have hlog : (final (fuzzAndAnalyze h o fn' sep) w).log = (final (fuzzAndAnalyze h o fn sep) w).log := by
    unfold final
    rw [heq]
  by_cases hstart' : Startable w.fs fn' sep
  · obtain ⟨l', hl', e', he', es', hes'⟩ := starts_fuzzAndAnalyze (h := h) (o := o) hsep hdir hstart'
    rw [hes, hes', List.append_cancel_left_eq, List.cons.injEq] at hlog
    obtain ⟨rfl, -⟩ := hlog
    rw [he.inj he'] at hl
    exact launchLines_inj hl' hl
  · have hquiet : (final (fuzzAndAnalyze h o fn' sep) w).log = (namedWorld h w).log := by
      rw [final, fuzzAndAnalyze_of_not_startable hsep hdir hstart']
    rw [hes, hquiet] at hlog
    simp at hlog

theorem fuzzAndAnalyze_eq_iff (hsep : sep ≠ .other) (hdir : w.fs.dirExists testPath = true) :
    fuzzAndAnalyze h o fn' sep w = fuzzAndAnalyze h o fn sep w ↔
      fn' = fn ∨ ¬ Startable w.fs fn' sep ∧ ¬ Startable w.fs fn sep := by
  constructor
  · intro heq
    by_cases hstart : Startable w.fs fn sep
    · exact .inl (eq_of_fuzzAndAnalyze_eq hsep hdir hstart heq)
    · by_cases hstart' : Startable w.fs fn' sep
      · exact .inl (eq_of_fuzzAndAnalyze_eq hsep hdir hstart' heq.symm).symm
      · exact .inr ⟨hstart', hstart⟩
  · rintro (rfl | ⟨hnot', hnot⟩)
    · rfl
    · rw [fuzzAndAnalyze_of_not_startable hsep hdir hnot, fuzzAndAnalyze_of_not_startable hsep hdir hnot']

/-- A name that stands for no function stops the run before it does anything. -/
theorem fuzzAndAnalyzeNamed_of_not_text {name : Option RObject} (hname : ∀ v, name ≠ some (.text v))
    (hdir : w.fs.dirExists testPath = true) :
    fuzzAndAnalyzeNamed h o name sep w = .error (funNameError name) (namedWorld h w) := by
  have hrun : (do
      let _ ← getPackageName h
      if (← files).dirExists testPath then stop (funNameError name) else stop "Missing testfiles directory" :
        Program (Option (List AnalysisRow))) w = .error (funNameError name) (namedWorld h w) := by
    rw [bind_of_ok getPackageName_namedWorld, files_bind_apply, fs_namedWorld, if_pos hdir]
    rfl
  cases name with
  | none => exact hrun
  | some x =>
    cases x with
    | text v => exact absurd rfl (hname v)
    | other => exact hrun

theorem fuzzAndAnalyzeNamed_of_not_dir (name : Option RObject) (hdir : ¬ w.fs.dirExists testPath = true) :
    fuzzAndAnalyzeNamed h o name sep w = .error "Missing testfiles directory" (namedWorld h w) := by
  have hrun : (do
      let _ ← getPackageName h
      if (← files).dirExists testPath then stop (funNameError name) else stop "Missing testfiles directory" :
        Program (Option (List AnalysisRow))) w = .error "Missing testfiles directory" (namedWorld h w) := by
    rw [bind_of_ok getPackageName_namedWorld, files_bind_apply, fs_namedWorld, if_neg hdir]
    rfl
  cases name with
  | none => exact hrun
  | some x =>
    cases x with
    | text v => exact fuzzAndAnalyze_of_not_dir hdir
    | other => exact hrun

theorem fuzzAndAnalyze_ne_funNameError (hsep : sep ≠ .other) (hdir : w.fs.dirExists testPath = true)
    (name : Option RObject) : fuzzAndAnalyze h o fn sep w ≠ .error (funNameError name) (namedWorld h w) := by
  intro heq
  by_cases hstart : Startable w.fs fn sep
  · obtain ⟨l, -, e, -, es, hes⟩ := starts_fuzzAndAnalyze (h := h) (o := o) hsep hdir hstart
    rw [final, heq] at hes
    simp at hes
  · rw [fuzzAndAnalyze_of_not_startable hsep hdir hstart] at heq
    injection heq with heq
    cases name with
    | none => exact absurd heq (by with_unfolding_all decide)
    | some x =>
      have hne : compileError ≠ "invalid argument" := by with_unfolding_all decide
      exact hne heq

/-- The value of `fun_name` does not show: it is the function, or neither can be started. -/
def NameHarmless (fs : FileSystem Content) (fn : Text) (sep : Sep) (name : Option RObject) : Prop :=
  name = some (.text fn) ∨ ∃ v, name = some (.text v) ∧ ¬ Startable fs v sep ∧ ¬ Startable fs fn sep

theorem fuzzAndAnalyzeNamed_eq_iff (hsep : sep ≠ .other) (name : Option RObject) :
    fuzzAndAnalyzeNamed h o name sep w = fuzzAndAnalyze h o fn sep w ↔
      (w.fs.dirExists testPath = true → NameHarmless w.fs fn sep name) := by
  by_cases hdir : w.fs.dirExists testPath = true
  · simp only [hdir, true_imp_iff]
    by_cases htext : ∃ v, name = some (.text v)
    · obtain ⟨v, rfl⟩ := htext
      rw [fuzzAndAnalyzeNamed, fuzzAndAnalyze_eq_iff hsep hdir]
      simp [NameHarmless]
    · rw [not_exists] at htext
      rw [fuzzAndAnalyzeNamed_of_not_text htext hdir]
      refine iff_of_false (fuzzAndAnalyze_ne_funNameError hsep hdir name).symm ?_
      rintro (hname | ⟨v, hname, -⟩)
      · exact htext _ hname
      · exact htext _ hname
  · rw [fuzzAndAnalyzeNamed_of_not_dir name hdir, fuzzAndAnalyze_of_not_dir hdir]
    exact iff_of_true rfl fun h => absurd h hdir

end Pipeline

/-! ## Looking the harness through -/

section Check

variable {α : Type} {check : List Text → Program Unit} {next next' : Program α} {fn : Text} {sep : Sep} {w : World}

/-- A check that goes on whatever it finds, and changes no file. -/
def Passes (check : List Text → Program Unit) : Prop := ∀ ls w, ∃ log, check ls w = .ok () { w with log := log }

theorem passes_checkRanges : Passes (checkRanges true) := by
  intro ls w
  unfold checkRanges
  generalize rangeElements ls = calls
  induction calls generalizing w with
  | nil => exact ⟨w.log, rfl⟩
  | cons c cs ih =>
    obtain ⟨log, hone⟩ : ∃ log, checkRange true ls c w = .ok () { w with log := log } := by
      unfold checkRange
      cases missingRange ls c with
      | none => exact ⟨w.log, rfl⟩
      | some l => exact ⟨_, rfl⟩
    obtain ⟨log', hrest⟩ := ih { w with log := log }
    exact ⟨log', (bind_of_ok hone).trans hrest⟩

theorem passes_checkAsserts : Passes (checkAsserts true) := by
  intro ls w
  unfold checkAsserts
  split
  · exact ⟨w.log, rfl⟩
  · exact ⟨_, rfl⟩

/-- The edited harness of the function is there and can be read. -/
def Edited (fs : FileSystem Content) (fn : Text) (sep : Sep) : Prop :=
  fs.fileExists (funPath fn) = true ∧ (readText fs (harnessPath fn sep)).isSome

theorem compileEditable_of_not_edited (hnot : ¬ Edited w.fs fn sep) :
    compileEditable check next fn sep w = compileEditable check next' fn sep w := by
  unfold compileEditable
  rw [files_bind_apply, files_bind_apply]
  by_cases hfun : w.fs.fileExists (funPath fn) = true
  · have hnone : readText w.fs (harnessPath fn sep) = none := by
      rw [← Option.not_isSome_iff_eq_none]
      exact fun h => hnot ⟨hfun, h⟩
    rw [if_pos hfun, if_pos hfun, files_bind_apply, files_bind_apply, hnone]
  · rw [if_neg hfun, if_neg hfun]

theorem compileEditable_of_edited (hcheck : Passes check) (hedited : Edited w.fs fn sep) :
    ∃ log, ∀ next : Program α, compileEditable check next fn sep w = next { w with log := log } := by
  obtain ⟨t, ht⟩ := Option.isSome_iff_exists.mp hedited.2
  obtain ⟨log, hlog⟩ := hcheck t.lines w
  refine ⟨log, fun next => ?_⟩
  rw [compileEditable, files_bind_apply, if_pos hedited.1, files_bind_apply, ht]
  exact bind_of_ok hlog

/-- A call meets `fun_name` when it gets as far as fuzzing and finds the test files. -/
def MeetsName (fs : FileSystem Content) (fn : Text) (sep : Sep) : Prop :=
  Edited fs fn sep ∧ fs.dirExists testPath = true

theorem compileEditable_eq_iff {h : Host} {o : PipelineOutcome} (hcheck : Passes check) (hsep : sep ≠ .other)
    (name : Option RObject) :
    compileEditable check (fuzzAndAnalyzeNamed h o name sep) fn sep w =
        compileEditable check (fuzzAndAnalyze h o fn sep) fn sep w ↔
      (MeetsName w.fs fn sep → NameHarmless w.fs fn sep name) := by
  by_cases hedited : Edited w.fs fn sep
  · obtain ⟨log, hlog⟩ := compileEditable_of_edited hcheck hedited
    rw [hlog, hlog, fuzzAndAnalyzeNamed_eq_iff hsep, MeetsName, and_imp]
    exact ⟨fun hname _ => hname, fun hname => hname hedited⟩
  · exact iff_of_true (compileEditable_of_not_edited hedited) fun hmeets => absurd hmeets.1 hedited

end Check

/-- A call tests the harness of its own function exactly when it does not come to `fun_name`, or when the global
of that name is the function, or when neither the global nor the function has anything to start. -/
theorem compileEditable_own_iff (h : Host) (o : PipelineOutcome) (globals : Environment) (fn : Text) (w : World) :
    (deepstateCompileGenerateFun h o globals fn true w =
        compileEditable (checkRanges true) (fuzzAndAnalyze h o fn .generation) fn .generation w ↔
      (MeetsName w.fs fn .generation → NameHarmless w.fs fn .generation (globals "fun_name"))) ∧
    (deepstateCompileChecksFun h o globals fn true w =
        compileEditable (checkAsserts true) (fuzzAndAnalyze h o fn .checks) fn .checks w ↔
      (MeetsName w.fs fn .checks → NameHarmless w.fs fn .checks (globals "fun_name"))) := by
  constructor
  · rw [deepstateCompileGenerateFun, funName_eq (generateFrame_funName h fn)]
    exact compileEditable_eq_iff passes_checkRanges (by decide) _
  · rw [deepstateCompileChecksFun, funName_eq (checksFrame_funName h fn)]
    exact compileEditable_eq_iff passes_checkAsserts (by decide) _

/-! ## An environment without the name -/

/-- A package whose function `f` has a harness for ranges, which nobody has edited. -/
def editableWorld : World :=
  ⟨((FileSystem.empty.mkdirs (funPath "f")).write (harnessPath "f" .generation) (.text "// RANGES CAN BE ADDED HERE")).write
    (makefilePath "f" .generation) (.text []), []⟩

/-- Where no `fun_name` is defined the call stops. -/
theorem compileGenerateFun_without_global : ¬ ∀ (h : Host) (o : PipelineOutcome) (globals : Environment) (fn : Text)
    (w : World), deepstateCompileGenerateFun h o globals fn true w =
      compileEditable (checkRanges true) (fuzzAndAnalyze h o fn .generation) fn .generation w := by
  intro hall
  let o : PipelineOutcome := ⟨fun _ => ⟨⟨true, true, .keeps⟩, [], [], []⟩, fun _ _ => ⟨[], 0, [], []⟩, .ofParser fun _ => none⟩
  have hown := hall sampleHost o (fun _ => none) "f" editableWorld
  rw [deepstateCompileGenerateFun, funName_eq (generateFrame_funName sampleHost "f"),
    compileEditable_eq_iff passes_checkRanges (by decide)] at hown
  have hmeets : MeetsName editableWorld.fs "f" .generation := by
    refine ⟨⟨?_, ?_⟩, ?_⟩
    all_goals with_unfolding_all decide
  rcases hown hmeets with hname | ⟨v, hname, -⟩
  · cases hname
  · cases hname

end RcppDeepState
