import RcppDeepState.Package.Lemmas.FunCreate

/-!
# The makefiles a creation leaves

Every creation leaves its harness. The default makefile is there afterwards, unless the call makes an
editable harness: such a call derives the makefile of its own from the default one and deletes that.
-/

namespace RcppDeepState

open Command FileSystem

/-! ## Names of makefiles -/

theorem makefileName_inj {sep sep' : Sep} (hsep : sep.editable = true)
    (h : makefileName sep = makefileName sep') : sep = sep' := by
  cases sep with
  | infun => cases hsep
  | other => cases hsep
  | generation => cases sep' <;> first | rfl | exact absurd h (by with_unfolding_all decide)
  | checks => cases sep' <;> first | rfl | exact absurd h (by with_unfolding_all decide)

theorem makefilePath_ne {fn : Text} {sep sep' : Sep} (hsep : sep.editable = true) (hne : sep ≠ sep') :
    makefilePath fn sep ≠ makefilePath fn sep' :=
  fun hp => hne (makefileName_inj hsep (funPath_append_inj.mp hp).2)

/-- No makefile lies below another. -/
theorem eq_of_makefilePath_extends {fn : Text} {sep sep' : Sep} (h : makefilePath fn sep <+: makefilePath fn sep') :
    makefilePath fn sep = makefilePath fn sep' := h.eq_of_length rfl

theorem makefilePath_ne_outputDir (fn fn' : Text) (sep sep' : Sep) :
    makefilePath fn sep ≠ outputDir fn' sep' := by
  intro hp
  obtain ⟨rfl, hn⟩ := funPath_append_inj.mp hp
  have hlast : (makefileName sep).getLast? = some 'e' := by
    cases sep <;> with_unfolding_all decide
  rw [hn] at hlast
  cases sep' <;> simp [Sep.suffix, Text.ofString_eq] at hlast

theorem makefilePath_ne_inputsPath (fn fn' : Text) (sep : Sep) : makefilePath fn sep ≠ inputsPath fn' := by
  intro hp
  have hn := (funPath_append_inj.mp hp).2
  cases sep <;> exact absurd hn (by with_unfolding_all decide)

theorem makefilePath_ne_harnessPath (fn fn' : Text) (sep sep' : Sep) :
    makefilePath fn sep ≠ harnessPath fn' sep' := by
  rw [harnessPath_eq]
  exact (buildPath_ne_makefilePath fn' fn sep' sep ".cpp").symm

/-! ## The makefiles a call leaves alone -/

section Frames

variable {h : Host} {fn : Text} {sep sep' : Sep}

theorem not_makefileTouches_makefile (hsep : sep.editable = true) :
    ¬ MakefileTouches h fn (makefilePath fn sep) := by
  rintro (hp | hp | hp | hp | hp)
  · simp [makefilePath, funPath, testPath, makevarsPath] at hp
  · exact not_installTouches (by simp [makefilePath, funPath, testPath, Text.ofString_eq]) hp
  · exact makefilePath_ne_outputDir fn fn sep .infun (hp.eq_of_length rfl)
  · exact makefilePath_ne_inputsPath fn fn sep hp
  · exact makefilePath_ne hsep (by rintro rfl; cases hsep) hp

/-- Of the makefiles a creation touches only the default one and its own. -/
theorem not_createTouches_makefile (hsep : sep.editable = true) (hne : sep ≠ sep') :
    ¬ CreateTouches h fn sep' (makefilePath fn sep) := by
  rintro ((hp | hp | hp | hp) | hp)
  · exact not_makefileTouches_makefile hsep hp
  · exact makefilePath_ne hsep hne hp
  · exact makefilePath_ne hsep (by rintro rfl; cases hsep) (eq_of_makefilePath_extends hp).symm
  · exact makefilePath_ne_outputDir fn fn sep sep' hp
  · exact makefilePath_ne_harnessPath fn fn sep sep' hp

end Frames

/-! ## The makefile step -/

section Step

variable {h : Host} {installed : Installation} {fn : Text} {sep : Sep} {w w' : World}

theorem fileExists_createMakefile (hok : deepstateCreateMakefile h installed fn w = .ok () w') :
    w'.fs.fileExists (makefilePath fn .infun) = true := by
  obtain ⟨_, w₁, _, hwrite⟩ := bind_eq_ok.mp hok
  cases hwrite
  simp [fileExists_write]

/-- What deriving a makefile does once the default one is there. -/
theorem fileExists_deriveMakefile (hsep : sep.editable = true)
    (hok : deriveMakefile h installed fn sep w = .ok () w') :
    w'.fs.fileExists (makefilePath fn .infun) = false ∧ w'.fs.fileExists (makefilePath fn sep) = true := by
  have hne : makefilePath fn sep ≠ makefilePath fn .infun := makefilePath_ne hsep (by rintro rfl; cases hsep)
  have hend : ∀ fs : FileSystem Content, ∀ t : Text,
      (((fs.write (makefilePath fn sep) (.text t)).unlink (makefilePath fn .infun)).mkdir
          (outputDir fn sep)).fileExists (makefilePath fn .infun) = false ∧
        (((fs.write (makefilePath fn sep) (.text t)).unlink (makefilePath fn .infun)).mkdir
          (outputDir fn sep)).fileExists (makefilePath fn sep) = true := by
    intro fs t
    have hnot : (makefilePath fn .infun).isPrefixOf (makefilePath fn sep) = false := by
      rw [Bool.eq_false_iff]
      exact fun hp => hne (eq_of_makefilePath_extends (List.isPrefixOf_iff_prefix.mp hp)).symm
    constructor
    · simp [fileExists_mkdir, makefilePath_ne_outputDir, unlink, fileExists_remove]
    · simp [fileExists_mkdir, unlink, fileExists_remove, fileExists_write, hnot]
  unfold deriveMakefile at hok
  rw [files_bind_apply, ite_apply] at hok
  split at hok
  · cases hok
    exact hend _ _
  · obtain ⟨_, w₁, _, hrest⟩ := bind_eq_ok.mp hok
    cases hrest
    exact hend _ _

end Step

/-! ## A call that returns -/

section Call

variable {h : Host} {installed : Installation} {fn : Text} {sep sep' : Sep} {w w' : World} {r : Option Text}

/-- A call that returns finds its harness, refuses the types of the function, or makes the harness. -/
theorem funCreate_cases (hok : deepstateFunCreate h installed fn sep w = .ok r w') :
    ∃ d rows, exportsTable w.fs = some (d, rows) ∧
      ((w.fs.fileExists (harnessPath fn sep) = true ∧ r = some (harnessFile fn sep) ∧
        ∃ log w₁, deepstateCreateMakefile h installed fn ⟨w.fs, log⟩ = .ok () w₁ ∧ w'.fs = w₁.fs) ∨
      (w.fs.fileExists (harnessPath fn sep) = false ∧ unsupportedTypes (argumentsOf rows fn) ≠ [] ∧
        r = none ∧ w'.fs = w.fs) ∨
      (w.fs.fileExists (harnessPath fn sep) = false ∧ unsupportedTypes (argumentsOf rows fn) = [] ∧
        r = some (harnessFile fn sep) ∧ ∃ log w₁ text,
          makefileStep h installed fn sep ⟨withEmptyHarness w.fs fn sep, log⟩ = .ok () w₁ ∧
          w'.fs = appendText (w₁.fs.mkdir (inputsPath fn)) (harnessPath fn sep) text)) := by
  cases ht : exportsTable w.fs with
  | none =>
      obtain ⟨e, w₁, he, _⟩ := @funCreate_of_table_none h installed fn sep _ ht
      rw [hok] at he
      cases he
  | some table =>
      obtain ⟨d, rows⟩ := table
      obtain ⟨log, happly⟩ := @funCreate_apply h installed fn sep _ _ _ ht
      rw [hok] at happly
      refine ⟨d, rows, rfl, ?_⟩
      split at happly
      · rename_i hex
        obtain ⟨_, w₁, hmake, hend⟩ := bind_eq_ok.mp happly.symm
        cases hend
        exact Or.inl ⟨hex, rfl, log, w₁, hmake, rfl⟩
      · rename_i hex
        rw [Bool.not_eq_true] at hex
        split at happly
        · rename_i htypes
          cases happly
          exact Or.inr (Or.inl ⟨hex, htypes, rfl, rfl⟩)
        · rename_i htypes
          rw [createHarness_apply] at happly
          obtain ⟨_, w₁, hstep, hend⟩ := bind_eq_ok.mp happly.symm
          rw [fillHarness, onFiles_bind_apply] at hend
          split at hend
          · cases hend
          · cases hend
            exact Or.inr (Or.inr ⟨hex, not_not.mp htypes, rfl, log, w₁, _, hstep, rfl⟩)

/-- The harness is there after a call that returns its name. -/
theorem funCreate_harness {name : Text} (hok : deepstateFunCreate h installed fn sep w = .ok (some name) w') :
    w'.fs.fileExists (harnessPath fn sep) = true := by
  obtain ⟨_, _, _, ⟨hex, _, log, w₁, hmake, hfs⟩ | ⟨_, _, hr, _⟩ | ⟨_, _, _, log, w₁, text, _, hfs⟩⟩ :=
    funCreate_cases hok
  · have heff := effects_createMakefile h installed fn ⟨w.fs, log⟩
    rw [final_of_ok hmake] at heff
    rw [hfs, heff.frame.fileExists (p := harnessPath fn sep) (@not_makefileTouches _ _ _ _ ".cpp")]
    exact hex
  · cases hr
  · simp [hfs, appendText, fileExists_write]

/-- A call that finds its harness writes the default makefile, and so does one for a default harness. -/
theorem funCreate_makefile {name : Text} (hok : deepstateFunCreate h installed fn sep w = .ok (some name) w')
    (hcase : sep.editable = true → w.fs.fileExists (harnessPath fn sep) = true) :
    w'.fs.fileExists (makefilePath fn .infun) = true := by
  obtain ⟨_, _, _, ⟨_, _, log, w₁, hmake, hfs⟩ | ⟨_, _, hr, _⟩ | ⟨hex, _, _, log, w₁, text, hstep, hfs⟩⟩ :=
    funCreate_cases hok
  · rw [hfs]
    exact fileExists_createMakefile hmake
  · cases hr
  · rw [makefileStep, if_neg (fun hsep => by rw [hcase hsep] at hex; cases hex)] at hstep
    have hmake := fileExists_createMakefile hstep
    simp [hfs, appendText, fileExists_write, fileExists_mkdir, hmake]

/-- A call that makes an editable harness exchanges the default makefile for its own. -/
theorem funCreate_derives {name : Text} (hok : deepstateFunCreate h installed fn sep w = .ok (some name) w')
    (hsep : sep.editable = true) (hnew : w.fs.fileExists (harnessPath fn sep) = false) :
    w'.fs.fileExists (makefilePath fn .infun) = false ∧ w'.fs.fileExists (makefilePath fn sep) = true := by
  obtain ⟨_, _, _, ⟨hex, _⟩ | ⟨_, _, hr, _⟩ | ⟨_, _, _, log, w₁, text, hstep, hfs⟩⟩ := funCreate_cases hok
  · rw [hnew] at hex
    cases hex
  · cases hr
  · rw [makefileStep, if_pos hsep] at hstep
    obtain ⟨hgone, hmade⟩ := fileExists_deriveMakefile hsep hstep
    constructor
    · simp [hfs, appendText, fileExists_write, fileExists_mkdir, hgone, makefilePath_ne_inputsPath,
        makefilePath_ne_harnessPath]
    · simp [hfs, appendText, fileExists_write, fileExists_mkdir, hmade]

/-- A call that returns keeps the files of the other harnesses, and its own makefile when it has one. -/
theorem funCreate_keeps (hok : deepstateFunCreate h installed fn sep w = .ok r w') {p : Pathname}
    (hp : ¬ CreateTouches h fn sep p) : w'.fs.fileExists p = w.fs.fileExists p := by
  have heff := @effects_funCreate h installed fn sep w
  rw [final_of_ok hok] at heff
  exact heff.frame.fileExists hp

theorem funCreate_keeps_makefile (hok : deepstateFunCreate h installed fn sep w = .ok r w')
    (hsep : sep.editable = true) (hex : w.fs.fileExists (harnessPath fn sep) = true) :
    w'.fs.fileExists (makefilePath fn sep) = w.fs.fileExists (makefilePath fn sep) := by
  obtain ⟨_, _, _, ⟨_, _, log, w₁, hmake, hfs⟩ | ⟨hnew, _⟩ | ⟨hnew, _⟩⟩ := funCreate_cases hok
  · have heff := effects_createMakefile h installed fn ⟨w.fs, log⟩
    rw [final_of_ok hmake] at heff
    rw [hfs]
    exact heff.frame.fileExists (not_makefileTouches_makefile hsep)
  · rw [hex] at hnew
    cases hnew
  · rw [hex] at hnew
    cases hnew

end Call

end RcppDeepState
