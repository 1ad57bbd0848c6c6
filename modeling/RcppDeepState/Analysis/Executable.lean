import RcppDeepState.Analysis.Analyze
import RcppDeepState.Package.Atomicity

/-!
# The executable of a saved file

`deepstate_fuzz_fun` puts the name of the function into the name of the output directory, and
`deepstate_analyze_file` reads the name of the executable from there by a substitution.
-/

namespace RcppDeepState

theorem outputMark_eq : ("_output" : Text) = '_' :: ['o', 'u', 't', 'p', 'u', 't'] := by with_unfolding_all decide

/-- The substitution replaces what is in the name of the function, the mark behind it, and nothing else. -/
theorem gsub_outputDir (fn : Text) (sep : Sep) :
    Text.gsub "_output" "_DeepState_TestHarness" (fn ++ "_output" ++ sep.suffix) =
      Text.gsub "_output" "_DeepState_TestHarness" fn ++ "_DeepState_TestHarness" ++ sep.suffix := by
  have hsuffix : Text.gsub "_output" "_DeepState_TestHarness" sep.suffix = sep.suffix := by
    refine Text.gsub_of_not_infix ?_
    cases sep <;> with_unfolding_all decide
  rw [outputMark_eq] at hsuffix ⊢
  rw [List.append_assoc, Text.gsub_append_self (by decide), hsuffix, List.append_assoc]

theorem analyzedExecutable_saved (fn : Text) (sep : Sep) (name : Text) :
    analyzedExecutable (outputDir fn sep ++ [name]) =
      funPath fn ++ [Text.gsub "_output" "_DeepState_TestHarness" fn ++ "_DeepState_TestHarness" ++ sep.suffix] := by
  rw [← gsub_outputDir]
  simp [analyzedExecutable, outputDir, fileName]

/-- What analysing runs for a saved file is what fuzzing ran to save it, exactly when the name of the function
does not have the mark of the output directory in it. -/
theorem analyzedExecutable_eq_iff (fn : Text) (sep : Sep) (name : Text) :
    analyzedExecutable (outputDir fn sep ++ [name]) = executablePath fn sep ↔ ¬ ("_output" : Text) <:+: fn := by
  rw [analyzedExecutable_saved, executablePath, testHarness, funPath_append_inj, List.append_left_inj,
    List.append_left_inj]
  rw [← @Text.gsub_eq_self_iff "_output" "_DeepState_TestHarness" fn (by with_unfolding_all decide)
    (by with_unfolding_all decide)]
  simp

/-- The files that fuzzing `my_output` saves are replayed with an executable that nobody builds. -/
theorem analyzedExecutable_wrong : ¬ ∀ (fn : Text) (sep : Sep) (name : Text), Identifier fn →
    analyzedExecutable (outputDir fn sep ++ [name]) = executablePath fn sep := by
  intro hall
  have hname : Identifier "my_output" := identifier_of_decide (by with_unfolding_all decide)
  exact absurd (hall "my_output" .infun "0a.crash" hname) (by with_unfolding_all decide)

end RcppDeepState
