import RcppDeepState.Analysis.FuzzAnalyze
import RcppDeepState.Library.Relational
import RcppDeepState.Library.TreeView

/-!
# Calls in packages that look alike

A call on a function sees everything but the directories of the other functions. In two packages that look
alike to it, the call returns the same, records the same events and leaves packages that look alike again.
-/

namespace RcppDeepState

open Command FileSystem

/-! ## What a call sees -/

/-- Everything but the directories of other functions. -/
def Seen (fn : Text) (p : Pathname) : Prop := ∀ fn', funPath fn' <+: p → fn' = fn

theorem funPath_prefix_inj {fn fn' : Text} {p : Pathname} (h : funPath fn <+: p) (h' : funPath fn' <+: p) :
    fn' = fn := by
  have hsame : funPath fn = funPath fn' :=
    (List.prefix_of_prefix_length_le h h' (by simp [funPath])).eq_of_length (by simp [funPath])
  simpa [funPath] using hsame.symm

theorem seen_own {fn : Text} {p : Pathname} (h : funPath fn <+: p) : Seen fn p :=
  fun _ h' => funPath_prefix_inj h h'

theorem seen_short {fn : Text} {p : Pathname} (h : p.length < 3) : Seen fn p := by
  intro fn' hp
  have hlen := hp.length_le
  simp [funPath, testPath] at hlen
  omega

theorem seen_in (fn n : Text) : Seen fn (funPath fn ++ [n]) := seen_own (List.prefix_append _ _)

theorem seen_src (fn n : Text) : Seen fn [("src" : Text), n] := seen_short (by simp)

theorem seen_harness (fn : Text) (sep : Sep) : Seen fn (harnessPath fn sep) := seen_in fn _

theorem seen_makefile (fn : Text) (sep : Sep) : Seen fn (makefilePath fn sep) := seen_in fn _

theorem seen_object (fn : Text) (sep : Sep) : Seen fn (objectPath fn sep) := seen_in fn _

theorem seen_executable (fn : Text) (sep : Sep) : Seen fn (executablePath fn sep) := seen_in fn _

theorem seen_output (fn : Text) (sep : Sep) : Seen fn (outputDir fn sep) := seen_in fn _

theorem seen_inputs (fn : Text) : Seen fn (inputsPath fn) := seen_in fn _

theorem seen_fuzzFolder (fn : Text) (seed timeLimit : Int) : Seen fn (fuzzFolder fn seed timeLimit) := seen_in fn _

theorem seen_below (fn n m : Text) : Seen fn (funPath fn ++ [n] ++ [m]) := by
  rw [List.append_assoc]
  exact seen_own (List.prefix_append _ _)

/-! ## Operations on files -/

section Files

variable {V : Pathname → Prop} {fs fs' : FileSystem Content} {p q : Pathname}

namespace SameFiles

variable (h : SameView V fs fs')

include h

theorem readText (hp : V p) : readText fs' p = readText fs p := by
  unfold RcppDeepState.readText
  rw [h.read hp]

theorem executableAt (hp : V p) : executableAt fs' p = executableAt fs p := by
  unfold RcppDeepState.executableAt
  rw [h.read hp]

theorem stale (hp : V p) (hq : V q) : stale fs' p q = stale fs p q := by
  have hall : ∀ fs : FileSystem Content,
      RcppDeepState.stale fs p q = (fs.isOlder p q || !((fs.read p).isSome && (fs.read q).isSome)) := by
    intro fs
    unfold RcppDeepState.stale isOlder
    rw [← isSome_mtime, ← isSome_mtime]
    cases fs.mtime p with
    | none => rfl
    | some t => cases fs.mtime q <;> simp
  rw [hall, hall, h.order p q hp hq, h.read hp, h.read hq]

theorem appendText (hp : V p) (x : List Text) : SameView V (appendText fs p x) (appendText fs' p x) := by
  unfold RcppDeepState.appendText
  rw [SameFiles.readText h hp]
  exact h.write p _

theorem copyFile (hp : V p) (hq : V q) : SameView V (copyFile fs p q) (copyFile fs' p q) := by
  unfold RcppDeepState.copyFile
  rw [h.read hp, h.fileExists hq]
  split
  · split
    · exact h
    · exact h.write q _
  · exact h

theorem writeInto (hp : V p) (entries : List (Text × Content)) :
    SameView V (writeInto p entries fs) (writeInto p entries fs') := by
  unfold RcppDeepState.writeInto
  rw [h.dirExists hp]
  split
  · rename_i hdir
    clear hp hdir
    induction entries generalizing fs fs' with
    | nil => exact h
    | cons e es ih =>
        rw [List.foldl_cons, List.foldl_cons]
        apply ih
        exact h.write _ e.2
  · exact h

theorem leaveObjects (installed : Installation) :
    SameView V (installed.leaveObjects fs) (installed.leaveObjects fs') := by
  unfold Installation.leaveObjects
  induction installed.objects generalizing fs fs' with
  | nil => exact h
  | cons e es ih => exact ih (h.write _ e.2)

theorem leave {host : Host} (installed : Installation) :
    SameView V (installed.leave host fs) (installed.leave host fs') := by
  have hobjects := SameFiles.leaveObjects h installed
  unfold Installation.leave
  split
  · exact hobjects.write _ _
  · exact hobjects

theorem sysGlob {host : Host} {d : Pathname} (hV : ∀ n, V (d ++ [n])) : sysGlob host fs' d = sysGlob host fs d :=
  sysGlob_congr fun n => h.fileExists (hV n)

theorem sharedObjects {host : Host} (hV : ∀ n, V [("src" : Text), n]) :
    sharedObjects host fs' = sharedObjects host fs := by
  unfold RcppDeepState.sharedObjects
  rw [SameFiles.sysGlob h hV]

end SameFiles

end Files

/-! ## The rules of the commands -/

/-- The packages look alike, and the same events have been recorded since the logs `l` and `l'`. -/
structure Alike (V : Pathname → Prop) (l l' : List Event) (w w' : World) : Prop where
  files : SameView V w.fs w'.fs
  events : ∃ es, w.log = l ++ es ∧ w'.log = l' ++ es

section Rules

variable {V : Pathname → Prop} {l l' : List Event} {α β : Type}

theorem alike_pure (a : α) : Related (Alike V l l') (pure a : Program α) (pure a) := Related.pure a

theorem alike_stop (t : Text) : Related (Alike V l l') (stop t : Program α) (stop t) := Related.throw t

theorem alike_bind {m m' : Program α} {f f' : α → Program β} (hm : Related (Alike V l l') m m')
    (hf : ∀ a, Related (Alike V l l') (f a) (f' a)) : Related (Alike V l l') (m >>= f) (m' >>= f') :=
  hm.bind hf

theorem alike_ite {c : Prop} [Decidable c] {m m' n n' : Program α} (hm : Related (Alike V l l') m m')
    (hn : Related (Alike V l l') n n') :
    Related (Alike V l l') (if c then m else n) (if c then m' else n') :=
  Related.ite Iff.rfl hm hn

theorem alike_files {f f' : FileSystem Content → Program α}
    (hf : ∀ fs fs', SameView V fs fs' → Related (Alike V l l') (f fs) (f' fs')) :
    Related (Alike V l l') (files >>= f) (files >>= f') :=
  fun w w' h => hf w.fs w'.fs h.files w w' h

theorem alike_onFiles {f f' : FileSystem Content → FileSystem Content}
    (hf : ∀ fs fs', SameView V fs fs' → SameView V (f fs) (f' fs')) :
    Related (Alike V l l') (onFiles f) (onFiles f') :=
  Related.modify fun w w' h => ⟨hf w.fs w'.fs h.files, h.events⟩

theorem alike_record (e : Event) : Related (Alike V l l') (record e) (record e) := by
  refine Related.modify fun w w' h => ⟨h.files, ?_⟩
  obtain ⟨es, hes, hes'⟩ := h.events
  exact ⟨es ++ [e], by rw [hes, List.append_assoc], by rw [hes', List.append_assoc]⟩

theorem alike_message (m : Message) : Related (Alike V l l') (message m) (message m) := alike_record _

theorem alike_liftExcept (e : Except Text α) : Related (Alike V l l') (liftExcept e) (liftExcept e) := by
  cases e with
  | ok a => exact alike_pure a
  | error e => exact alike_stop e

end Rules

/-! ## Creating -/

section Create

variable {fn : Text} {l l' : List Event} {h : Host} {installed : Installation} {sep : Sep}

theorem alike_getPackageName : Related (Alike (Seen fn) l l') (getPackageName h) (getPackageName h) := by
  apply alike_files
  intro fs fs' hfs
  rw [SameFiles.readText hfs (seen_short (show descriptionPath.length < 3 by decide))]
  split
  · exact alike_bind (alike_message _) fun _ => alike_pure _
  · exact alike_pure _

theorem alike_readExports : Related (Alike (Seen fn) l l') readExports readExports := by
  apply alike_files
  intro fs fs' hfs
  rw [SameFiles.readText hfs (seen_short (show rcppExportsPath.length < 3 by decide))]
  split
  · exact alike_stop _
  · split
    · exact alike_stop _
    · exact alike_pure _

theorem alike_ensureSharedObject :
    Related (Alike (Seen fn) l l') (ensureSharedObject h installed) (ensureSharedObject h installed) := by
  have hend : Related (Alike (Seen fn) l l')
      (do
        installPackage h installed
        if sharedObjects h (← files) = [] then stop sharedObjectError)
      (do
        installPackage h installed
        if sharedObjects h (← files) = [] then stop sharedObjectError) := by
    apply alike_bind
    · exact alike_bind (alike_record _) fun _ => alike_onFiles fun _ _ hfs => SameFiles.leave hfs installed
    · intro _
      apply alike_files
      intro fs fs' hfs
      rw [SameFiles.sharedObjects hfs (seen_src fn)]
      exact alike_ite (alike_stop _) (alike_pure _)
  apply alike_files
  intro fs fs' hfs
  rw [SameFiles.sharedObjects hfs (seen_src fn)]
  apply alike_ite
  · apply alike_files
    intro fs fs' hfs
    rw [hfs.dirExists (seen_short (p := [("src" : Text)]) (by simp))]
    apply alike_ite
    · exact alike_bind (alike_onFiles fun _ _ hfs => SameFiles.appendText hfs (seen_src fn "Makevars") _) fun _ => hend
    · exact hend
  · exact alike_pure _

theorem alike_createMakefile :
    Related (Alike (Seen fn) l l') (deepstateCreateMakefile h installed fn) (deepstateCreateMakefile h installed fn) := by
  apply alike_bind alike_ensureSharedObject
  intro _
  apply alike_bind (alike_onFiles fun _ _ hfs => hfs.mkdirs _)
  intro _
  apply alike_bind (alike_onFiles fun _ _ hfs => hfs.mkdir _)
  intro _
  exact alike_onFiles fun _ _ hfs => hfs.write _ _

theorem alike_deriveMakefile :
    Related (Alike (Seen fn) l l') (deriveMakefile h installed fn sep) (deriveMakefile h installed fn sep) := by
  have hend : Related (Alike (Seen fn) l l')
      (do
        let makefile := (readText (← files) (makefilePath fn .infun)).getD []
        onFiles (·.write (makefilePath fn sep) (.text (Text.unlines (makefileLines h fn sep makefile))))
        onFiles (·.unlink (makefilePath fn .infun))
        onFiles (·.mkdir (outputDir fn sep)))
      (do
        let makefile := (readText (← files) (makefilePath fn .infun)).getD []
        onFiles (·.write (makefilePath fn sep) (.text (Text.unlines (makefileLines h fn sep makefile))))
        onFiles (·.unlink (makefilePath fn .infun))
        onFiles (·.mkdir (outputDir fn sep))) := by
    apply alike_files
    intro fs fs' hfs
    rw [SameFiles.readText hfs (seen_makefile fn .infun)]
    apply alike_bind (alike_onFiles fun _ _ hfs => hfs.write _ _)
    intro _
    apply alike_bind (alike_onFiles fun _ _ hfs => hfs.unlink _)
    intro _
    exact alike_onFiles fun _ _ hfs => hfs.mkdir _
  apply alike_files
  intro fs fs' hfs
  rw [hfs.fileExists (seen_makefile fn .infun)]
  apply alike_ite
  · exact alike_bind
      (alike_onFiles fun _ _ hfs => SameFiles.copyFile hfs (seen_makefile fn .infun) (seen_makefile fn sep)) fun _ => hend
  · exact alike_bind alike_createMakefile fun _ => hend

theorem alike_createHarness {packagename : Option Text} {args : List Argument} {prototypes : List Text} :
    Related (Alike (Seen fn) l l') (createHarness h installed packagename fn sep args prototypes)
      (createHarness h installed packagename fn sep args prototypes) := by
  apply alike_bind (alike_onFiles fun _ _ hfs => hfs.mkdirs _)
  intro _
  apply alike_bind (alike_onFiles fun _ _ hfs => hfs.write _ _)
  intro _
  apply alike_bind (alike_ite alike_deriveMakefile alike_createMakefile)
  intro _
  apply alike_bind (alike_onFiles fun _ _ hfs => hfs.mkdir _)
  intro _
  apply alike_ite (alike_stop _)
  apply alike_bind (alike_onFiles fun _ _ hfs => SameFiles.appendText hfs (seen_harness fn sep) _)
  intro _
  exact alike_pure _

theorem alike_funCreate :
    Related (Alike (Seen fn) l l') (deepstateFunCreate h installed fn sep) (deepstateFunCreate h installed fn sep) := by
  apply alike_bind alike_getPackageName
  intro packagename
  apply alike_bind alike_readExports
  intro tables
  apply alike_files
  intro fs fs' hfs
  rw [hfs.fileExists (seen_harness fn sep)]
  apply alike_ite
  · apply alike_bind alike_createMakefile
    intro _
    exact alike_bind (alike_message _) fun _ => alike_pure _
  · apply alike_ite
    · exact alike_bind (alike_message _) fun _ => alike_pure _
    · exact alike_createHarness

end Create

/-! ## Compiling and fuzzing -/

section Build

variable {fn : Text} {l l' : List Event} {h : Host} {sep : Sep} {fs fs' : FileSystem Content}

theorem SameFiles.makeObject (hfs : SameView (Seen fn) fs fs') (compiles : Bool) :
    SameView (Seen fn) (makeObject compiles fs fn sep).1 (makeObject compiles fs' fn sep).1 ∧
      (RcppDeepState.makeObject compiles fs' fn sep).2 = (RcppDeepState.makeObject compiles fs fn sep).2 := by
  unfold RcppDeepState.makeObject
  rw [SameFiles.readText hfs (seen_harness fn sep), SameFiles.stale hfs (seen_object fn sep) (seen_harness fn sep)]
  split
  · exact ⟨hfs, rfl⟩
  · split
    · split
      · exact ⟨hfs.write _ _, rfl⟩
      · exact ⟨hfs, rfl⟩
    · exact ⟨hfs, rfl⟩

theorem SameFiles.failedLink (hfs : SameView (Seen fn) fs fs') (f : FailedLink) (p : Pathname) :
    SameView (Seen fn) (f.apply p fs) (f.apply p fs') := by
  cases f with
  | keeps => exact hfs
  | removes => exact hfs.remove fun q => decide (q = p)
  | leaves c => exact hfs.write p c

theorem SameFiles.makeExecutable (hfs : SameView (Seen fn) fs fs') (b : BuildOutcome) :
    SameView (Seen fn) (makeExecutable b fs fn sep) (makeExecutable b fs' fn sep) := by
  unfold RcppDeepState.makeExecutable
  rw [hfs.read (seen_object fn sep), SameFiles.stale hfs (seen_executable fn sep) (seen_object fn sep)]
  split
  · split
    · split
      · exact hfs.write _ _
      · exact SameFiles.failedLink hfs b.failed _
    · exact hfs
  · exact hfs

theorem SameFiles.make (hfs : SameView (Seen fn) fs fs') (b : BuildOutcome) :
    SameView (Seen fn) (make b fn sep fs) (make b fn sep fs') := by
  obtain ⟨hobject, hflag⟩ := @SameFiles.makeObject fn sep fs fs' hfs b.compiles
  unfold RcppDeepState.make
  generalize RcppDeepState.makeObject b.compiles fs fn sep = r at hobject hflag
  generalize RcppDeepState.makeObject b.compiles fs' fn sep = r' at hobject hflag
  obtain ⟨fs₁, flag⟩ := r
  obtain ⟨fs₂, flag'⟩ := r'
  cases hflag
  cases flag with
  | true => exact SameFiles.makeExecutable hobject b
  | false => exact hobject

theorem alike_runMake (b : BuildOutcome) :
    Related (Alike (Seen fn) l l') (runMake h b fn sep) (runMake h b fn sep) := by
  have hmake : Related (Alike (Seen fn) l l')
      (do
        record (.system (compileLine h fn sep))
        onFiles fun fs => make b fn sep (removeObjects fn fs))
      (do
        record (.system (compileLine h fn sep))
        onFiles fun fs => make b fn sep (removeObjects fn fs)) := by
    apply alike_bind (alike_record _)
    intro _
    exact alike_onFiles fun _ _ hfs => SameFiles.make (hfs.remove _) b
  exact alike_ite (alike_bind (alike_message _) fun _ => hmake) hmake

theorem alike_compileFun (b : BuildOutcome) :
    Related (Alike (Seen fn) l l') (deepstateCompileFun h b fn sep) (deepstateCompileFun h b fn sep) := by
  apply alike_files
  intro fs fs' hfs
  rw [hfs.fileExists (seen_harness fn sep), hfs.fileExists (seen_makefile fn sep)]
  exact alike_ite (alike_stop _) (alike_ite (alike_runMake b) (alike_stop _))

theorem alike_ensureCompiled (b : BuildOutcome) :
    Related (Alike (Seen fn) l l') (ensureCompiled h b fn sep) (ensureCompiled h b fn sep) := by
  apply alike_files
  intro fs fs' hfs
  rw [hfs.fileExists (seen_object fn sep)]
  exact alike_ite (alike_pure _) (alike_compileFun b)

theorem SameFiles.fuzzEffects (hfs : SameView (Seen fn) fs fs') (o : FuzzOutcome) :
    SameView (Seen fn) (fuzzEffects o fn sep fs) (fuzzEffects o fn sep fs') := by
  have hlog := SameFiles.writeInto hfs (seen_own (List.prefix_refl _))
    [(fn ++ sep.suffix ++ "_log_text", .text o.log)]
  unfold RcppDeepState.fuzzEffects RcppDeepState.executableSource
  dsimp only
  rw [SameFiles.executableAt hlog (seen_executable fn sep)]
  split
  · exact SameFiles.writeInto (SameFiles.writeInto hlog (seen_output fn sep) _) (seen_inputs fn) _
  · exact hlog

theorem alike_runFuzzer (o : FuzzOutcome) (name : Option Text) (seed timeLimit : Int) :
    Related (Alike (Seen fn) l l') (runFuzzer h o name fn seed timeLimit sep)
      (runFuzzer h o name fn seed timeLimit sep) := by
  have hrun : Related (Alike (Seen fn) l l')
      (do
        record (.system (runExecutable h name fn seed timeLimit sep))
        record (.run (executableSource (← files) fn sep))
        onFiles (fuzzEffects o fn sep)
        let fs ← files
        if fs.fileExists (objectPath fn sep) && fs.fileExists (executablePath fn sep) then
          return some fn
        else
          return none)
      (do
        record (.system (runExecutable h name fn seed timeLimit sep))
        record (.run (executableSource (← files) fn sep))
        onFiles (fuzzEffects o fn sep)
        let fs ← files
        if fs.fileExists (objectPath fn sep) && fs.fileExists (executablePath fn sep) then
          return some fn
        else
          return none) := by
    apply alike_bind (alike_record _)
    intro _
    apply alike_files
    intro fs fs' hfs
    rw [executableSource, executableSource, SameFiles.executableAt hfs (seen_executable fn sep)]
    apply alike_bind (alike_record _)
    intro _
    apply alike_bind (alike_onFiles fun _ _ hfs => SameFiles.fuzzEffects hfs o)
    intro _
    apply alike_files
    intro fs fs' hfs
    rw [hfs.fileExists (seen_object fn sep), hfs.fileExists (seen_executable fn sep)]
    exact alike_ite (alike_pure _) (alike_pure _)
  exact alike_ite (alike_bind (alike_message _) fun _ => hrun) hrun

theorem alike_fuzzFun (o : FuzzOutcome) (seed timeLimit : Int) :
    Related (Alike (Seen fn) l l') (deepstateFuzzFun h o fn seed timeLimit sep)
      (deepstateFuzzFun h o fn seed timeLimit sep) := by
  apply alike_bind alike_getPackageName
  intro packagename
  apply alike_files
  intro fs fs' hfs
  rw [hfs.dirExists (seen_short (show testPath.length < 3 by decide))]
  apply alike_ite
  · apply alike_bind (alike_ensureCompiled o.build)
    intro _
    exact alike_ite (alike_stop _) (alike_runFuzzer o _ seed timeLimit)
  · exact alike_stop _

end Build

/-! ## Analysing -/

section Analyze

variable {fn : Text} {l l' : List Event} {h : Host} {sep : Sep} {xml2 : Xml2}

theorem alike_collectInputs {dir folder : Pathname} (hdir : ∀ n, Seen fn (dir ++ [n]))
    (hfolder : ∀ n, Seen fn (folder ++ [n])) (names : List Text) :
    Related (Alike (Seen fn) l l') (collectInputs h dir folder names) (collectInputs h dir folder names) := by
  refine Related.foldlM (fun inputs n _ => ?_) []
  apply alike_bind (alike_onFiles fun _ _ hfs => SameFiles.copyFile hfs (hdir n) (hfolder n))
  intro _
  apply alike_files
  intro fs fs' hfs
  rw [hfs.read (hdir n)]
  exact alike_bind (alike_liftExcept _) fun _ => alike_pure _

/-- The file lies in an output directory of the function. -/
theorem alike_analyzeFile (o : ReplayOutcome) (packageName : Option Text) (name : Text) :
    Related (Alike (Seen fn) l l') (deepstateAnalyzeFile xml2 h o packageName (outputDir fn sep ++ [name]))
      (deepstateAnalyzeFile xml2 h o packageName (outputDir fn sep ++ [name])) := by
  have hfolder : logFolder (outputDir fn sep ++ [name]) =
      funPath fn ++ [fn ++ "_output" ++ sep.suffix] ++ [("log_" : Text) ++ stem name] := by
    simp [logFolder, fileName, outputDir]
  have hinputs : analyzedInputs (outputDir fn sep ++ [name]) = inputsPath fn := by
    simp [analyzedInputs, outputDir, inputsPath]
  have hexecutable : ∃ n, analyzedExecutable (outputDir fn sep ++ [name]) = funPath fn ++ [n] :=
    ⟨Text.gsub "_output" "_DeepState_TestHarness" (fileName (outputDir fn sep)), by
      simp [analyzedExecutable, outputDir]⟩
  have hread : Related (Alike (Seen fn) l l') (readReplay xml2 h o (outputDir fn sep ++ [name]))
      (readReplay xml2 h o (outputDir fn sep ++ [name])) := by
    unfold readReplay
    rw [hfolder, hinputs]
    apply alike_files
    intro fs fs' hfs
    rw [SameFiles.sysGlob hfs (d := inputsPath fn) fun n => seen_below fn _ n]
    apply alike_bind (alike_liftExcept _)
    intro _
    apply alike_bind (alike_collectInputs (fun n => seen_below fn _ n) (fun n => ?_) _)
    · intro _
      exact alike_pure _
    · rw [List.append_assoc, List.append_assoc]
      exact seen_own (List.prefix_append _ _)
  have hrun : Related (Alike (Seen fn) l l') (runReplay xml2 h o packageName (outputDir fn sep ++ [name]))
      (runReplay xml2 h o packageName (outputDir fn sep ++ [name])) := by
    apply alike_bind (alike_record _)
    intro _
    apply alike_files
    intro fs fs' hfs
    obtain ⟨n, hn⟩ := hexecutable
    rw [hn, SameFiles.executableAt hfs (seen_in fn n)]
    apply alike_bind (alike_record _)
    intro _
    apply alike_bind
    · refine alike_onFiles fun fs fs' hfs => ?_
      unfold replayEffects
      rw [hfolder, hinputs]
      exact SameFiles.writeInto (SameFiles.writeInto hfs (seen_below fn _ _) _) (seen_in fn _) _
    · intro _
      exact alike_ite (alike_stop _) hread
  apply alike_files
  intro fs fs' hfs
  rw [hfs.fileExists (p := outputDir fn sep ++ [name]) (seen_below fn _ name)]
  apply alike_ite
  · apply alike_bind (alike_onFiles fun _ _ hfs => hfs.mkdir _)
    intro _
    apply alike_files
    intro fs fs' hfs
    rw [hfolder, hfs.dirExists (seen_below fn _ _)]
    exact alike_ite hrun (alike_stop _)
  · exact alike_bind (alike_message _) fun _ => alike_pure _

theorem alike_analyzeFun (replay : Text → ReplayOutcome) (maxInputs : MaxInputs) :
    Related (Alike (Seen fn) l l') (deepstateAnalyzeFun xml2 h replay fn maxInputs sep)
      (deepstateAnalyzeFun xml2 h replay fn maxInputs sep) := by
  apply alike_files
  intro fs fs' hfs
  rw [hfs.fileExists (seen_own (List.prefix_refl _))]
  apply alike_ite
  · apply alike_bind alike_getPackageName
    intro packageName
    apply alike_files
    intro fs fs' hfs
    rw [SameFiles.sysGlob hfs (d := outputDir fn sep) fun n => seen_below fn _ n]
    apply alike_ite
    · exact alike_bind (alike_message _) fun _ => alike_pure _
    · apply alike_bind (alike_liftExcept _)
      intro selected
      apply alike_bind (alike_bind (Related.mapM fun n _ => alike_analyzeFile _ _ n) fun _ => alike_pure _)
      intro _
      exact alike_pure _
  · exact alike_stop _

theorem alike_fuzzFunAnalyze (o : FuzzAnalyzeOutcome) (seed timeLimit : Int) :
    Related (Alike (Seen fn) l l') (deepstateFuzzFunAnalyze xml2 h o fn seed timeLimit)
      (deepstateFuzzFunAnalyze xml2 h o fn seed timeLimit) := by
  have hend : ∀ (runner : Text) (names : List Text), Related (Alike (Seen fn) l l')
      (do
        record (.system (fuzzAnalyzeLine h fn runner seed timeLimit))
        record (.run (executableSource (← files) fn .infun))
        onFiles (fuzzAnalyzeEffects o.run fn seed timeLimit)
        if o.run.fuzzingStops then
          stop (fuzzAnalysisError h fn (fuzzFolder fn seed timeLimit ++ [("valgrind_log_text" : Text)]))
        else
          let inputs ← collectInputs h (inputsPath fn) (fuzzFolder fn seed timeLimit) names
          let logtable ← liftExcept (deepstateReadValgrindXml xml2 o.run.xml)
          return (inputs, logtable))
      (do
        record (.system (fuzzAnalyzeLine h fn runner seed timeLimit))
        record (.run (executableSource (← files) fn .infun))
        onFiles (fuzzAnalyzeEffects o.run fn seed timeLimit)
        if o.run.fuzzingStops then
          stop (fuzzAnalysisError h fn (fuzzFolder fn seed timeLimit ++ [("valgrind_log_text" : Text)]))
        else
          let inputs ← collectInputs h (inputsPath fn) (fuzzFolder fn seed timeLimit) names
          let logtable ← liftExcept (deepstateReadValgrindXml xml2 o.run.xml)
          return (inputs, logtable)) := by
    intro runner names
    apply alike_bind (alike_record _)
    intro _
    apply alike_files
    intro fs fs' hfs
    rw [executableSource, executableSource, SameFiles.executableAt hfs (seen_executable fn .infun)]
    apply alike_bind (alike_record _)
    intro _
    apply alike_bind (alike_onFiles fun _ _ hfs =>
      SameFiles.writeInto (SameFiles.writeInto hfs (seen_fuzzFolder fn seed timeLimit) _) (seen_inputs fn) _)
    intro _
    apply alike_ite (alike_stop _)
    apply alike_bind (alike_collectInputs (fun n => seen_below fn _ n) (fun n => seen_below fn _ n) _)
    intro _
    exact alike_bind (alike_liftExcept _) fun _ => alike_pure _
  apply alike_files
  intro fs fs' hfs
  rw [hfs.fileExists (seen_own (List.prefix_refl _))]
  apply alike_ite
  · apply alike_bind (alike_onFiles fun _ _ hfs => hfs.mkdir _)
    intro _
    apply alike_files
    intro fs fs' hfs
    rw [SameFiles.sysGlob hfs (d := inputsPath fn) fun n => seen_below fn _ n]
    apply alike_bind (alike_ensureCompiled o.build)
    intro _
    apply alike_ite (alike_stop _)
    apply alike_files
    intro fs fs' hfs
    rw [SameFiles.readText hfs (seen_harness fn .infun)]
    split
    · exact alike_stop _
    · exact alike_ite (alike_bind (alike_message _) fun _ => hend _ _) (hend _ _)
  · exact alike_stop _

end Analyze

end RcppDeepState
