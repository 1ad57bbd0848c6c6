import RcppDeepState.Analysis.Lemmas.Frames
import RcppDeepState.Package.Lemmas.Created
import RcppDeepState.Runs.Operations

/-!
# Harness files over whole runs

A harness file that exists keeps its contents through every call, but for the ones that clean the function
directories: these keep the default harness of a function and delete its editable ones.
-/

namespace RcppDeepState

open Command FileSystem

/-! ## Keeping harness files -/

/-- Every harness file that exists stays as it is. -/
def HarnessesKept (w w' : World) : Prop :=
  ∀ fn sep, w.fs.fileExists (harnessPath fn sep) = true →
    w'.fs.node? (harnessPath fn sep) = w.fs.node? (harnessPath fn sep)

theorem HarnessesKept.refl (w : World) : HarnessesKept w w := fun _ _ _ => rfl

theorem HarnessesKept.trans (w w' w'' : World) (h : HarnessesKept w w') (h' : HarnessesKept w' w'') :
    HarnessesKept w w'' := by
  intro fn sep hex
  have hex' : w'.fs.fileExists (harnessPath fn sep) = true := by
    rw [fileExists, h fn sep hex]
    exact hex
  rw [h' fn sep hex', h fn sep hex]

/-! ## The rules of the commands -/

section Rules

variable {α β : Type} {h : Host}

theorem kept_bind {m : Program α} {f : α → Program β} (hm : Within HarnessesKept m)
    (hf : ∀ a, Within HarnessesKept (f a)) : Within HarnessesKept (m >>= f) :=
  Within.bind HarnessesKept.trans hm hf

theorem kept_of_effects {T : Pathname → Prop} {P : Event → Prop} {m : Program α}
    (hm : Within (Effects T P) m) (hT : ∀ fn sep, ¬ T (harnessPath fn sep)) : Within HarnessesKept m :=
  fun w fn sep _ => (hm w).frame _ (hT fn sep)

theorem kept_onFiles {f : FileSystem Content → FileSystem Content}
    (hf : ∀ fs p, fs.fileExists p = true → (f fs).node? p = fs.node? p) :
    Within HarnessesKept (onFiles f) :=
  fun w fn sep hex => hf w.fs (harnessPath fn sep) hex

theorem kept_files {f : FileSystem Content → Program α} (hf : ∀ fs, Within HarnessesKept (f fs)) :
    Within HarnessesKept (files >>= f) := fun w => hf w.fs w

theorem kept_stop (t : Text) : Within HarnessesKept (stop t : Program α) :=
  Within.throw HarnessesKept.refl t

end Rules

/-! ## Creating -/

section Create

variable {h : Host} {installed : Installation} {fn : Text} {sep : Sep}

/-- Of a function whose harness exists only the makefile is written again. -/
theorem funCreate_of_exists {w : World} (hex : w.fs.fileExists (harnessPath fn sep) = true) :
    Frame (MakefileTouches h fn) w.fs (final (deepstateFunCreate h installed fn sep) w).fs := by
  cases ht : exportsTable w.fs with
  | none =>
      obtain ⟨e, w', hw', hfs⟩ := @funCreate_of_table_none h installed fn sep _ ht
      rw [final, hw']
      show Frame _ w.fs w'.fs
      rw [hfs]
      exact Frame.refl _
  | some table =>
      obtain ⟨log, happly⟩ := @funCreate_apply h installed fn sep _ table.1 table.2 ht
      have hmake : Within (Effects (MakefileTouches h fn) CreateEvents) (do
          deepstateCreateMakefile h installed fn
          message (.harnessExists fn)
          return some (harnessFile fn sep)) :=
        effects_bind (effects_createMakefile h installed fn) fun _ =>
          effects_bind (effects_message trivial) fun _ => effects_pure _
      rw [if_pos hex] at happly
      rw [final, happly]
      exact (hmake { w with log := log }).frame

theorem kept_funCreate : Within HarnessesKept (deepstateFunCreate h installed fn sep) := by
  intro w fn' sep' hex
  by_cases hp : harnessPath fn' sep' = harnessPath fn sep
  · rw [hp] at hex ⊢
    exact funCreate_of_exists hex _ (@not_makefileTouches _ _ _ _ ".cpp")
  · exact (effects_funCreate w).frame _ fun ht => hp (@eq_of_createTouches _ _ _ _ _ ".cpp" ht)

end Create

/-! ## Compiling, fuzzing and analysing -/

section Analyze

variable {xml2 : Xml2} {h : Host}

theorem not_analyzeTouches_harness {fn fn' : Text} {sep sep' : Sep} :
    ¬ AnalyzeTouches (outputDir fn' sep') (harnessPath fn sep) := by
  rintro (⟨n, hp⟩ | ⟨n, m, hp⟩ | ⟨n, hp⟩)
  all_goals
    have := congrArg List.length hp
    simp [harnessPath, outputDir, funPath, testPath] at this

theorem kept_fuzzFunAnalyze (o : FuzzAnalyzeOutcome) (fn : Text) (seed timeLimit : Int) :
    Within HarnessesKept (deepstateFuzzFunAnalyze xml2 h o fn seed timeLimit) := by
  have hcompile : Within HarnessesKept (ensureCompiled h o.build fn .infun) :=
    kept_of_effects (effects_ensureCompiled o.build) fun fn' sep' ht =>
      not_fuzzTouches_harness (Or.inl ht)
  have hrun : ∀ runner names, Within HarnessesKept
      (runFuzzAnalysis xml2 h o.run fn runner seed timeLimit names) := by
    refine fun runner names => kept_of_effects (effects_runFuzzAnalysis o.run fn runner seed timeLimit names) ?_
    rintro fn' sep' (ht | ⟨d, n, hp⟩)
    · exact not_fuzzTouches_harness (Or.inl ht)
    · have := congrArg List.length hp
      simp [harnessPath, funPath, testPath] at this
  refine kept_files fun _ => Within.ite ?_ (kept_stop _)
  refine kept_bind (kept_onFiles fun _ _ hq => node?_mkdir_of_exists hq) fun _ => kept_files fun fs => ?_
  refine kept_bind hcompile fun _ => Within.ite (kept_stop _) (kept_files fun fs' => ?_)
  split
  · exact kept_stop _
  · exact hrun _ _

end Analyze

/-! ## Harnesses in cleaned directories -/

/-- The characters that make a pattern of a name. -/
def isWildcard (c : Char) : Bool := c = '*' || c = '?' || c = '[' || c = '\\'

/-- No function directory that cleaning empties holds an editable harness, and none has a name that `unlink` would
read as a pattern. -/
structure NothingToLose (fs : FileSystem Content) : Prop where
  harnesses : ∀ fn sep, sep.editable = true → Cleaned fs fn → fs.fileExists (harnessPath fn sep) = false
  names : ∀ fn, Cleaned fs fn → ∀ n ∈ fs.listFiles (funPath fn), ∀ c ∈ fn ++ n, isWildcard c = false

theorem node?_prepareHarness {fs : FileSystem Content} {fn : Text} {sep : Sep} :
    (prepareTestfiles fs).node? (harnessPath fn sep) =
      if sep.editable = true ∧ Cleaned fs fn then none else fs.node? (harnessPath fn sep) := by
  rw [harnessPath, node?_prepareTestfiles]
  refine if_congr ?_ rfl rfl
  constructor
  · rintro ⟨hname, _, hclean⟩
    cases hsep : sep.editable with
    | true => exact ⟨rfl, hclean⟩
    | false => exact absurd (funPath_append_inj.mp (harnessPath_infun hsep)).2 hname
  · rintro ⟨hsep, hclean⟩
    exact ⟨harnessFile_ne hsep, mt hidden_harnessFile.mp (mem_listFiles.mp hclean.2.1).2, hclean⟩

/-! ## The calls that clean -/

section Package

variable {h : Host}

/-- The call after the function directories are clean. -/
def createPackage (h : Host) (o : PkgOutcome) : Program (List Text) := do
  if !o.deepstateBuilt then record .makeRun
  compileAttributes o
  let rows ← readFunctions
  let t ← (tableNames rows).foldlM (createOne h o.installed) Tally.empty
  reportTally (tableNames rows).length t

/-- The exports file and the interfaces, which `compileAttributes` writes. -/
def AttributesTouches (p : Pathname) : Prop := InterfaceTouches p ∨ p = rcppExportsPath

abbrev AnyEvents (_ : Event) : Prop := True

theorem effects_compileAttributes (o : PkgOutcome) :
    Within (Effects AttributesTouches AnyEvents) (compileAttributes o) := by
  refine effects_bind (effects_record trivial) fun _ => ?_
  cases o.exports with
  | none => exact effects_stop _
  | some t =>
      refine effects_bind (effects_onFiles fun fs => (frame_writeInterfaces o fs).mono fun _ => Or.inl) fun _ => ?_
      exact effects_onFiles fun _ => frame_write (T := AttributesTouches) (Or.inr rfl) _

theorem effects_readFunctions {T : Pathname → Prop} : Within (Effects T AnyEvents) readFunctions := by
  refine effects_files fun _ => ?_
  split
  · exact effects_stop _
  · split
    · exact effects_stop _
    · exact effects_pure _

theorem effects_reportTally {T : Pathname → Prop} (functions : Nat) (t : Tally) :
    Within (Effects T AnyEvents) (reportTally functions t) := by
  have hcreated : Within (Effects T AnyEvents) (do
      message (.created t.matchCount)
      return t.harness) :=
    effects_bind (effects_message trivial) fun _ => effects_pure _
  refine effects_ite hcreated (effects_ite ?_ (effects_ite (effects_stop _) (effects_pure _)))
  exact effects_bind (effects_message trivial) fun _ => hcreated

/-- Creating the harnesses of a package touches no editable harness. -/
theorem effects_createPackage (o : PkgOutcome) :
    Within (Effects (fun p => LoopTouches h p ∨ AttributesTouches p) AnyEvents) (createPackage h o) := by
  have hrest : Within (Effects (fun p => LoopTouches h p ∨ AttributesTouches p) AnyEvents) (do
      compileAttributes o
      let rows ← readFunctions
      let t ← (tableNames rows).foldlM (createOne h o.installed) Tally.empty
      reportTally (tableNames rows).length t) := by
    refine effects_bind (effects_mono (fun _ => Or.inr) (fun _ => id) (effects_compileAttributes _)) fun _ => ?_
    refine effects_bind effects_readFunctions fun _ => effects_bind ?_ fun t => effects_reportTally _ t
    exact effects_mono (fun _ => Or.inl) (fun _ _ => trivial) effects_createLoop
  exact effects_ite (effects_bind (effects_record trivial) fun _ => hrest) hrest

theorem not_attributesTouches_harness (fn : Text) (sep : Sep) : ¬ AttributesTouches (harnessPath fn sep) := by
  rintro (hp | hp)
  · refine not_interfaceTouches ?_ hp
    rw [harnessPath, funPath, List.append_assoc]
    exact List.prefix_append _ _
  · exact buildPath_ne_src fn sep ".cpp" _ hp

theorem kept_createPackage (o : PkgOutcome) : Within HarnessesKept (createPackage h o) := by
  have hloop : ∀ fns : List Text, Within HarnessesKept (fns.foldlM (createOne h o.installed) Tally.empty) := by
    refine fun fns => Within.foldlM HarnessesKept.refl HarnessesKept.trans (fun t fn => ?_) fns _
    exact kept_bind kept_funCreate fun _ =>
      Within.ite (Within.pure HarnessesKept.refl _) (Within.pure HarnessesKept.refl _)
  have hrest : Within HarnessesKept (do
      compileAttributes o
      let rows ← readFunctions
      let t ← (tableNames rows).foldlM (createOne h o.installed) Tally.empty
      reportTally (tableNames rows).length t) := by
    refine kept_bind (kept_of_effects (effects_compileAttributes _) not_attributesTouches_harness) fun _ => ?_
    refine kept_bind (kept_of_effects (effects_readFunctions (T := AttributesTouches)) not_attributesTouches_harness) fun rows => ?_
    exact kept_bind (hloop _) fun t => kept_of_effects (effects_reportTally (T := AttributesTouches) _ t)
      not_attributesTouches_harness
  refine Within.ite (kept_bind ?_ fun _ => hrest) hrest
  exact kept_of_effects (effects_record (T := AttributesTouches) (P := AnyEvents) trivial) not_attributesTouches_harness

theorem kept_pkgCreate (o : PkgOutcome) {w : World} (hlose : NothingToLose w.fs) :
    HarnessesKept w (final (deepstatePkgCreate h o) w) := by
  refine HarnessesKept.trans w { w with fs := prepareTestfiles w.fs } _ ?_ (kept_createPackage o _)
  intro fn sep hex
  rw [node?_prepareHarness, if_neg]
  rintro ⟨hsep, hclean⟩
  rw [hlose.harnesses fn sep hsep hclean] at hex
  cases hex

/-- An editable harness beside a default one is gone after the call. -/
theorem pkgCreate_deletes (o : PkgOutcome) {w : World} {fn : Text} {sep : Sep}
    (hsep : sep.editable = true) (hclean : Cleaned w.fs fn) :
    (final (deepstatePkgCreate h o) w).fs.fileExists (harnessPath fn sep) = false := by
  have hframe := (effects_createPackage (h := h) o { w with fs := prepareTestfiles w.fs }).frame.fileExists
    (p := harnessPath fn sep) (by
      rintro (⟨fn', ht⟩ | hp)
      · obtain ⟨rfl, hname⟩ := funPath_append_inj.mp (@eq_of_createTouches _ _ _ _ _ ".cpp" ht)
        exact harnessFile_ne hsep hname
      · exact not_attributesTouches_harness fn sep hp)
  show (final (createPackage h o) { w with fs := prepareTestfiles w.fs }).fs.fileExists _ = false
  rw [hframe, fileExists, node?_prepareHarness, if_pos ⟨hsep, hclean⟩]
  rfl

theorem kept_harnessCompileRun (o : CompileRunOutcome) (timeLimit seed : Int) {w : World}
    (hlose : 0 < timeLimit → NothingToLose w.fs) :
    HarnessesKept w (final (deepstateHarnessCompileRun h o timeLimit seed) w) := by
  unfold deepstateHarnessCompileRun
  split
  · exact kept_stop _ w
  · rename_i hpos
    refine rel_bind HarnessesKept.trans (kept_pkgCreate o.pkg (hlose (by omega))) fun _ => ?_
    refine kept_files fun fs => Within.ite (kept_stop _) (kept_bind ?_ fun lists => ?_)
    · refine Within.foldlM HarnessesKept.refl HarnessesKept.trans (fun lists fn => ?_) _ _
      refine kept_bind (kept_of_effects (effects_fuzzFun (o.fuzz fn) seed timeLimit) fun _ _ =>
        not_fuzzTouches_harness) fun _ => ?_
      exact Within.ite (Within.pure HarnessesKept.refl _) (Within.pure HarnessesKept.refl _)
    · refine Within.ite (kept_bind ?_ fun _ => ?_) ?_
      · exact kept_of_effects (effects_message (T := AttributesTouches) (P := AnyEvents) trivial)
          not_attributesTouches_harness
      all_goals exact Within.pure HarnessesKept.refl _

end Package

/-! ## One operation -/

section Step

variable {xml2 : Xml2} {h : Host} {w : World}

/-- The operations that clean the function directories. -/
def Operation.cleans : Operation → Prop
  | .pkgCreate _ => True
  | .harnessCompileRun _ timeLimit _ => 0 < timeLimit
  | _ => False

/-- The user's edits leave the contents of a file alone. -/
def Operation.spares (p : Pathname) : Operation → World → Prop
  | .user edit, w => (edit w.fs).read p = w.fs.read p
  | _, _ => True

/-- A step that cleans finds no editable harness to delete. -/
def SafeStep (op : Operation) (w : World) : Prop := op.cleans → NothingToLose w.fs

/-- No operation but the user's changes a harness, as long as those that clean find nothing to delete. -/
theorem apply_keeps {op : Operation} (hsafe : SafeStep op w) (huser : ∀ edit, op ≠ .user edit) :
    HarnessesKept w (op.apply xml2 h w) := by
  cases op with
  | funCreate installed fn sep => exact kept_funCreate w
  | editableFun installed installed' fn =>
      refine kept_bind kept_funCreate (fun _ => kept_bind kept_funCreate fun _ => ?_) w
      exact Within.pure HarnessesKept.refl _
  | pkgCreate o => exact kept_pkgCreate o (hsafe trivial)
  | harnessCompileRun o timeLimit seed => exact kept_harnessCompileRun o timeLimit seed hsafe
  | compileFun b fn sep =>
      exact kept_of_effects (effects_compileFun b) (fun _ _ ht => not_fuzzTouches_harness (Or.inl ht)) w
  | fuzzFun o fn seed timeLimit sep =>
      exact kept_of_effects (effects_fuzzFun o seed timeLimit) (fun _ _ => not_fuzzTouches_harness) w
  | analyzeFile o packageName fn sep name =>
      exact kept_of_effects (effects_analyzeFile o packageName _ name) (fun _ _ => not_analyzeTouches_harness) w
  | analyzeFun replay fn maxInputs sep =>
      exact kept_of_effects (effects_analyzeFun replay fn maxInputs sep)
        (fun _ _ => not_analyzeTouches_harness) w
  | analyzePkg replay testfiles maxInputs =>
      refine kept_of_effects (effects_analyzePkg replay testfiles maxInputs) (fun fn sep => ?_) w
      rintro (hp | ⟨fn', ht⟩)
      · have := congrArg List.length hp
        simp [harnessPath, funPath, testPath] at this
      · exact not_analyzeTouches_harness ht
  | fuzzFunAnalyze o fn seed timeLimit => exact kept_fuzzFunAnalyze o fn seed timeLimit w
  | user edit => exact absurd rfl (huser edit)

theorem apply_read {op : Operation} {fn : Text} {sep : Sep} {c : Content} (hsafe : SafeStep op w)
    (hspares : op.spares (harnessPath fn sep) w) (hread : w.fs.read (harnessPath fn sep) = some c) :
    (op.apply xml2 h w).fs.read (harnessPath fn sep) = some c := by
  by_cases huser : ∃ edit, op = .user edit
  · obtain ⟨edit, rfl⟩ := huser
    exact hspares.trans hread
  · have hnode := @apply_keeps xml2 h _ _ hsafe (fun edit he => huser ⟨edit, he⟩) fn sep
        (fileExists_of_read hread)
    rw [← hread, FileSystem.read, hnode, FileSystem.read]

end Step

/-! ## Whole runs -/

/-- A harness keeps its contents in every state of a run whose cleaning steps find nothing to delete. -/
theorem run_keeps_harness {xml2 : Xml2} {h : Host} {ops : List Operation} {w : World}
    {fn : Text} {sep : Sep} {c : Content} (hread : w.fs.read (harnessPath fn sep) = some c)
    (hsafe : EachStep xml2 h SafeStep ops w)
    (hspares : EachStep xml2 h (Operation.spares (harnessPath fn sep)) ops w) (n : Nat) :
    (runAll xml2 h (ops.take n) w).fs.read (harnessPath fn sep) = some c := by
  have hsteps := (hsafe.and hspares).take n
  exact Run.invariant (I := fun w => w.fs.read (harnessPath fn sep) = some c)
    (fun _ _ hstep hc => apply_read hstep.1 hstep.2 hc) hsteps hread

/-- A function directory with an edited harness and no default one. -/
def editedFiles : FileSystem Content :=
  (FileSystem.empty.mkdirs (funPath "f")).write (harnessPath "f" .generation) (.text "edited")

theorem not_cleaned_editedFiles (fn : Text) : ¬ Cleaned editedFiles fn := by
  intro hclean
  have hdefault := hclean.2.2
  rw [editedFiles, fileExists_write, fileExists_mkdirs, Bool.or_eq_true, Bool.or_eq_true,
    decide_eq_true_eq, decide_eq_true_eq] at hdefault
  rcases hdefault with hp | hp | hp
  · obtain ⟨rfl, hname⟩ := funPath_append_inj.mp hp
    exact absurd hname.symm (harnessFile_ne rfl)
  · have := ((List.mem_inits _ _).mp (List.mem_of_mem_tail hp)).length_le
    simp [harnessPath, funPath, testPath] at this
  · cases hp

theorem nothingToLose_editedFiles : NothingToLose editedFiles :=
  ⟨fun fn _ _ hclean => absurd hclean (not_cleaned_editedFiles fn), fun fn hclean =>
    absurd hclean (not_cleaned_editedFiles fn)⟩

/-- The package is created, and the edited harness compiled, fuzzed and analysed. -/
def editedRun : List Operation :=
  [.pkgCreate (sampleOutcome sampleExports), .compileFun ⟨true, true, .keeps⟩ "f" .generation,
    .fuzzFun ⟨⟨true, true, .keeps⟩, [], [], []⟩ "f" 7 5 .generation,
    .analyzeFun (fun _ => ⟨[], 0, [], []⟩) "f" .all .generation]

theorem run_keeps_edited_harness :
    (runAll (.ofParser fun _ => none) sampleHost (editedRun.take 4) ⟨editedFiles, []⟩).fs.read
      (harnessPath "f" .generation) = some (.text "edited") := by
  have hsafe : EachStep (.ofParser fun _ => none) sampleHost SafeStep editedRun ⟨editedFiles, []⟩ :=
    Run.each_cons.mpr ⟨fun _ => nothingToLose_editedFiles, Run.each_cons.mpr ⟨False.elim,
      Run.each_cons.mpr ⟨False.elim, Run.each_cons.mpr ⟨False.elim, trivial⟩⟩⟩⟩
  have hspares : EachStep (.ofParser fun _ => none) sampleHost (Operation.spares (harnessPath "f" .generation)) editedRun
      ⟨editedFiles, []⟩ :=
    Run.each_cons.mpr ⟨trivial, Run.each_cons.mpr ⟨trivial, Run.each_cons.mpr ⟨trivial,
      Run.each_cons.mpr ⟨trivial, trivial⟩⟩⟩⟩
  exact run_keeps_harness (read_write_self _ _ _) hsafe hspares 4

/-- With the default harness beside it the edited one is deleted. -/
theorem run_loses_harness : ¬ ∀ (xml2 : Xml2) (h : Host) (ops : List Operation) (w : World)
    (fn : Text) (sep : Sep) (c : Content), w.fs.read (harnessPath fn sep) = some c →
      EachStep xml2 h (Operation.spares (harnessPath fn sep)) ops w → ∀ n,
        (runAll xml2 h (ops.take n) w).fs.read (harnessPath fn sep) = some c := by
  intro hall
  have hclean : Cleaned (editedFiles.write (harnessPath "f" .infun) (.text [])) "f" := by with_unfolding_all decide
  have hgone := @pkgCreate_deletes sampleHost (sampleOutcome sampleExports)
      ⟨editedFiles.write (harnessPath "f" .infun) (.text []), []⟩ _ .generation rfl hclean
  have hkept := hall (.ofParser fun _ => none) sampleHost [.pkgCreate (sampleOutcome sampleExports)]
    ⟨editedFiles.write (harnessPath "f" .infun) (.text []), []⟩ "f" .generation (.text "edited")
    (by with_unfolding_all decide) (Run.each_cons.mpr ⟨trivial, trivial⟩) 1
  exact Bool.false_ne_true (hgone.symm.trans (fileExists_of_read hkept))

end RcppDeepState
