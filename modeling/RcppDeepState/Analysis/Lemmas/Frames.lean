import RcppDeepState.Analysis.FuzzAnalyze
import RcppDeepState.Package.Lemmas.Build

/-!
# What the analysis touches

The analysis writes next to the saved files, into the inputs directory and into its own log folders.
-/

namespace RcppDeepState

open Command FileSystem

/-- What analysing may record. -/
def AnalysisEvents : Event → Prop
  | .system _ | .run _ | .replay _ _ | .message _ => True
  | _ => False

section Read

variable {T : Pathname → Prop} {h : Host}

theorem effects_liftExcept {P : Event → Prop} {α : Type} (e : Except Text α) :
    Within (Effects T P) (liftExcept e) := by
  cases e with
  | ok a => exact effects_pure a
  | error e => exact effects_stop e

theorem effects_collectInputs {P : Event → Prop} {dir folder : Pathname} (hT : ∀ n, T (folder ++ [n]))
    (names : List Text) : Within (Effects T P) (collectInputs h dir folder names) := by
  refine effects_foldlM (fun inputs n _ => ?_) []
  refine effects_bind (effects_onFiles fun _ => frame_copyFile (hT n)) (fun _ => effects_files fun _ => ?_)
  exact effects_bind (effects_liftExcept _) (fun _ => effects_pure _)

theorem effects_mapM {P : Event → Prop} {α β : Type} {f : α → Program β} {xs : List α}
    (hf : ∀ x ∈ xs, Within (Effects T P) (f x)) : Within (Effects T P) (xs.mapM f) := by
  induction xs with
  | nil => exact effects_pure []
  | cons x xs ih =>
      rw [List.mapM_cons]
      exact effects_bind (hf x (by simp)) (fun _ =>
        effects_bind (ih fun y hy => hf y (by simp [hy])) (fun _ => effects_pure _))

end Read

/-! ## Saved files -/

/-- What replaying the files of an output directory may change. -/
def AnalyzeTouches (dir : Pathname) (p : Pathname) : Prop :=
  (∃ n, p = dir ++ [("log_" : Text) ++ n]) ∨ (∃ n m, p = dir ++ [("log_" : Text) ++ n] ++ [m]) ∨
    ∃ n, p = dir.dropLast ++ [("inputs" : Text)] ++ [n]

section Analyze

variable {xml2 : Xml2} {h : Host}

theorem logFolder_append (dir : Pathname) (n : Text) : logFolder (dir ++ [n]) = dir ++ [("log_" : Text) ++ stem n] := by
  simp [logFolder, fileName]

theorem analyzedInputs_append (dir : Pathname) (n : Text) :
    analyzedInputs (dir ++ [n]) = dir.dropLast ++ [("inputs" : Text)] := by
  simp [analyzedInputs]

theorem effects_analyzeFile (o : ReplayOutcome) (packageName : Option Text) (dir : Pathname) (n : Text) :
    Within (Effects (AnalyzeTouches dir) AnalysisEvents)
      (deepstateAnalyzeFile xml2 h o packageName (dir ++ [n])) := by
  have hfolder : ∀ m, AnalyzeTouches dir (logFolder (dir ++ [n]) ++ [m]) := by
    intro m
    rw [logFolder_append]
    exact Or.inr (Or.inl ⟨_, m, rfl⟩)
  have hinputs : ∀ m, AnalyzeTouches dir (analyzedInputs (dir ++ [n]) ++ [m]) := by
    intro m
    rw [analyzedInputs_append]
    exact Or.inr (Or.inr ⟨m, rfl⟩)
  have hread : Within (Effects (AnalyzeTouches dir) AnalysisEvents)
      (readReplay xml2 h o (dir ++ [n])) :=
    effects_files fun _ => effects_bind (effects_liftExcept _) fun _ =>
      effects_bind (effects_collectInputs hfolder _) fun _ => effects_pure _
  have hrun : Within (Effects (AnalyzeTouches dir) AnalysisEvents)
      (runReplay xml2 h o packageName (dir ++ [n])) := by
    refine effects_bind (effects_record trivial) (fun _ => effects_files fun _ => ?_)
    refine effects_bind (effects_record trivial) (fun _ => ?_)
    refine effects_bind (effects_onFiles fun _ => ?_) (fun _ => effects_ite (effects_stop _) hread)
    exact Frame.trans (frame_writeInto hfolder _) (frame_writeInto hinputs _)
  refine effects_files fun _ => effects_ite ?_
    (effects_bind (effects_message trivial) fun _ => effects_pure _)
  refine effects_bind (effects_onFiles fun _ => frame_mkdir ?_) (fun _ => ?_)
  · rw [logFolder_append]
    exact Or.inl ⟨_, rfl⟩
  · exact effects_files fun _ => effects_ite hrun (effects_stop _)

theorem effects_analyzeFun (replay : Text → ReplayOutcome) (fn : Text) (maxInputs : MaxInputs)
    (sep : Sep) :
    Within (Effects (AnalyzeTouches (outputDir fn sep)) AnalysisEvents)
      (deepstateAnalyzeFun xml2 h replay fn maxInputs sep) := by
  refine effects_files fun _ => effects_ite ?_ (effects_stop _)
  refine effects_bind (effects_getPackageName trivial) (fun name => effects_files fun _ => ?_)
  refine effects_ite (effects_bind (effects_message trivial) fun _ => effects_pure _) ?_
  refine effects_bind (effects_liftExcept _) (fun selected => effects_bind ?_ fun _ => effects_pure _)
  exact effects_bind (effects_mapM fun n _ => effects_analyzeFile _ _ _ n) fun _ => effects_pure _

/-- What analysing the functions of a package may change. -/
def AnalyzePkgTouches (p : Pathname) : Prop :=
  p = [("inst" : Text)] ∨ ∃ fn, AnalyzeTouches (outputDir fn .infun) p

theorem effects_analyzePkg (replay : Text → Text → ReplayOutcome) (testfiles maxInputs : MaxInputs) :
    Within (Effects AnalyzePkgTouches AnalysisEvents)
      (deepstateHarnessAnalyzePkg xml2 h replay testfiles maxInputs) := by
  refine effects_bind (effects_onFiles fun _ => frame_mkdir (Or.inl rfl)) (fun _ => ?_)
  refine effects_files fun _ => effects_ite ?_ ?_
  · refine effects_bind (effects_getPackageName trivial) (fun _ => effects_files fun _ => ?_)
    refine effects_bind (effects_liftExcept _) (fun functions => effects_bind ?_ fun _ => effects_pure _)
    exact effects_mapM fun fn _ => effects_mono (fun _ hp => Or.inr ⟨fn, hp⟩) (fun _ => id)
      (effects_analyzeFun _ fn maxInputs .infun)
  · exact effects_bind (effects_message trivial) fun _ =>
      effects_bind (effects_message trivial) fun _ => effects_pure _

/-! ## Fuzzing under valgrind -/

/-- What a run under valgrind may change, once its folder is there. -/
def FuzzAnalyzeTouches (fn : Text) (p : Pathname) : Prop :=
  CompileTouches fn .infun p ∨ (∃ d n, p = funPath fn ++ [d] ++ [n])

theorem effects_runFuzzAnalysis (o : ReplayOutcome) (fn runner : Text) (seed timeLimit : Int)
    (names : List Text) :
    Within (Effects (FuzzAnalyzeTouches fn) AnalysisEvents)
      (runFuzzAnalysis xml2 h o fn runner seed timeLimit names) := by
  have hfolder : ∀ m, FuzzAnalyzeTouches fn (fuzzFolder fn seed timeLimit ++ [m]) :=
    fun m => Or.inr ⟨_, m, rfl⟩
  have hinputs : ∀ m, FuzzAnalyzeTouches fn (inputsPath fn ++ [m]) := fun m => Or.inr ⟨_, m, rfl⟩
  have hend : Within (Effects (FuzzAnalyzeTouches fn) AnalysisEvents) (do
      record (.system (fuzzAnalyzeLine h fn runner seed timeLimit))
      record (.run (executableSource (← files) fn .infun))
      onFiles (fuzzAnalyzeEffects o fn seed timeLimit)
      if o.fuzzingStops then
        stop (fuzzAnalysisError h fn (fuzzFolder fn seed timeLimit ++ [("valgrind_log_text" : Text)]))
      else
        let inputs ← collectInputs h (inputsPath fn) (fuzzFolder fn seed timeLimit) names
        let logtable ← liftExcept (deepstateReadValgrindXml xml2 o.xml)
        return (inputs, logtable)) := by
    refine effects_bind (effects_record trivial) (fun _ => effects_files fun _ => ?_)
    refine effects_bind (effects_record trivial) (fun _ => ?_)
    refine effects_bind (effects_onFiles fun _ => ?_) (fun _ => effects_ite (effects_stop _) ?_)
    · exact Frame.trans (frame_writeInto hfolder _) (frame_writeInto hinputs _)
    · exact effects_bind (effects_collectInputs hfolder _) fun _ =>
        effects_bind (effects_liftExcept _) fun _ => effects_pure _
  exact effects_ite (effects_bind (effects_message trivial) fun _ => hend) hend

end Analyze

end RcppDeepState
