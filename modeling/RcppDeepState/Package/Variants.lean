import RcppDeepState.Package.Atomicity
import RcppDeepState.Package.Lemmas.Build
import RcppDeepState.Package.Lemmas.Makefiles

/-!
# The three harnesses of a function

The default harness and the two editable ones share a directory. An editable harness takes the default
makefile away when it is made, and the default harness is then without one until the next creation.
-/

namespace RcppDeepState

open Command FileSystem

/-! ## Successful creations -/

/-- Nothing lies in the directory of a function. -/
def EmptyDirectory (fs : FileSystem Content) (fn : Text) : Prop :=
  ∀ p, funPath fn <+: p → p ≠ funPath fn → fs.fileExists p = false

/-- Calls on one function that return the name of a harness, one after the other. -/
inductive Creations (h : Host) (fn : Text) (w : World) : List Sep → World → Prop
  | none : Creations h fn w [] w
  | create {seps : List Sep} {w₁ w₂ : World} {installed : Installation} {sep : Sep} {name : Text} :
      Creations h fn w seps w₁ → deepstateFunCreate h installed fn sep w₁ = .ok (some name) w₂ →
        Creations h fn w (seps ++ [sep]) w₂

/-- Every created harness is there with its makefile, and compiling it does not stop over a missing one. -/
def AllCompile (h : Host) (fn : Text) (seps : List Sep) (w : World) : Prop :=
  ∀ sep ∈ seps, w.fs.fileExists (harnessPath fn sep) = true ∧ w.fs.fileExists (makefilePath fn sep) = true ∧
    ∀ b w', deepstateCompileFun h b fn sep w ≠ .error compileError w'

/-- The last call did not make an editable harness: it was for the default one, or found its harness. -/
def LastKeepsMakefile (seps : List Sep) : Prop :=
  ∃ made sep, seps = made ++ [sep] ∧ (sep.editable = true → sep ∈ made)

/-! ## The directory after successful creations -/

/-- The harnesses are those created, the editable ones have their makefiles, and the default makefile is
there when the last call kept it. -/
structure VariantsMade (fn : Text) (seps : List Sep) (fs : FileSystem Content) : Prop where
  harness : ∀ sep, sep ≠ .other → (fs.fileExists (harnessPath fn sep) = true ↔ sep ∈ seps)
  derived : ∀ sep ∈ seps, sep.editable = true → fs.fileExists (makefilePath fn sep) = true
  default : fs.fileExists (makefilePath fn .infun) = true ↔ LastKeepsMakefile seps

theorem Sep.eq_of_suffix {sep sep' : Sep} (hsep : sep ≠ .other) (hsep' : sep' ≠ .other)
    (h : sep.suffix = sep'.suffix) : sep = sep' := by
  cases sep <;> cases sep' <;> first | rfl | exact absurd rfl hsep | exact absurd rfl hsep' |
    exact absurd h (by with_unfolding_all decide)

theorem harnessPath_inj {fn fn' : Text} {sep sep' : Sep} (hsep : sep ≠ .other) (hsep' : sep' ≠ .other)
    (h : harnessPath fn sep = harnessPath fn' sep') : fn = fn' ∧ sep = sep' := by
  have hpath := @buildPath_inj fn fn' sep sep' ".cpp" ".cpp" (by simp [buildExtensions])
    (by simp [buildExtensions]) h
  exact ⟨hpath.1, Sep.eq_of_suffix hsep hsep' hpath.2.1⟩

section Steps

variable {h : Host} {installed : Installation} {fn name : Text} {seps : List Sep} {sep : Sep} {w w' : World}

theorem lastKeepsMakefile_append : LastKeepsMakefile (seps ++ [sep]) ↔ (sep.editable = true → sep ∈ seps) := by
  constructor
  · rintro ⟨made, last, he, hlast⟩
    obtain ⟨rfl, hs⟩ := List.append_inj' he rfl
    cases hs
    exact hlast
  · exact fun hlast => ⟨seps, sep, rfl, hlast⟩

theorem variantsMade_nil {fs : FileSystem Content} (hempty : EmptyDirectory fs fn) : VariantsMade fn [] fs := by
  have hnone : ∀ n, fs.fileExists (funPath fn ++ [n]) = false :=
    fun n => hempty _ (List.prefix_append _ _) (by simp)
  constructor
  · intro sep _
    simp [harnessPath, hnone]
  · intro sep hsep
    cases hsep
  · rw [makefilePath, hnone]
    constructor
    · intro hf
      cases hf
    · rintro ⟨made, sep, he, _⟩
      simp at he

/-- One more successful creation. -/
theorem VariantsMade.create (hmade : VariantsMade fn seps w.fs) (hsep : sep ≠ .other)
    (hok : deepstateFunCreate h installed fn sep w = .ok (some name) w') : VariantsMade fn (seps ++ [sep]) w'.fs := by
  constructor
  · intro sep' hsep'
    by_cases he : sep' = sep
    · subst he
      simp [funCreate_harness hok]
    · have hkeep : w'.fs.fileExists (harnessPath fn sep') = w.fs.fileExists (harnessPath fn sep') :=
        funCreate_keeps hok fun ht =>
          he (harnessPath_inj hsep' hsep (@eq_of_createTouches _ _ _ _ _ ".cpp" ht)).2
      rw [hkeep, hmade.harness sep' hsep']
      simp [he]
  · intro sep' hmem hedit
    by_cases he : sep' = sep
    · subst he
      cases hex : w.fs.fileExists (harnessPath fn sep') with
      | true =>
          rw [funCreate_keeps_makefile hok hedit hex]
          exact hmade.derived sep' ((hmade.harness sep' hsep).mp hex) hedit
      | false => exact (funCreate_derives hok hedit hex).2
    · rw [funCreate_keeps hok (not_createTouches_makefile hedit he)]
      have hold : sep' ∈ seps := by simpa [he] using hmem
      exact hmade.derived sep' hold hedit
  · rw [lastKeepsMakefile_append, ← hmade.harness sep hsep]
    constructor
    · intro hthere hedit
      cases hex : w.fs.fileExists (harnessPath fn sep) with
      | true => rfl
      | false =>
          rw [(funCreate_derives hok hedit hex).1] at hthere
          cases hthere
    · exact fun hcase => funCreate_makefile hok hcase

theorem Creations.variantsMade (hrun : Creations h fn w seps w') (hempty : EmptyDirectory w.fs fn)
    (hseps : ∀ sep ∈ seps, sep ≠ .other) : VariantsMade fn seps w'.fs := by
  induction hrun with
  | none => exact variantsMade_nil hempty
  | create _ hok ih =>
      exact (ih fun sep hmem => hseps sep (by simp [hmem])).create (hseps _ (by simp)) hok

/-! ## When every harness compiles -/

/-- Compiling stops over a missing file exactly when the harness or its makefile is missing. -/
theorem compileFun_files (hsep : sep ≠ .other) :
    (∀ b w', deepstateCompileFun h b fn sep w ≠ .error compileError w') ↔
      w.fs.fileExists (harnessPath fn sep) = true ∧ w.fs.fileExists (makefilePath fn sep) = true := by
  constructor
  · intro hall
    by_contra hnot
    rw [← Bool.and_eq_true] at hnot
    refine hall ⟨true, true, .keeps⟩ w ?_
    rw [deepstateCompileFun, files_bind_apply, if_neg hsep, if_neg hnot, stop_apply]
  · rintro hfiles b w' he
    obtain ⟨_, _, _, w₁, hok, _⟩ | ⟨hnot, _⟩ := compileFun_cases h b fn sep w
    · rw [hok] at he
      cases he
    · exact hnot ⟨hsep, hfiles⟩

theorem VariantsMade.allCompile_iff (hmade : VariantsMade fn seps w.fs) (hseps : ∀ sep ∈ seps, sep ≠ .other) :
    AllCompile h fn seps w ↔ (.infun ∈ seps → LastKeepsMakefile seps) := by
  rw [← hmade.default]
  constructor
  · exact fun hall hmem => (hall .infun hmem).2.1
  · intro hdefault sep hmem
    have hharness := (hmade.harness sep (hseps sep hmem)).mpr hmem
    have hmake : w.fs.fileExists (makefilePath fn sep) = true := by
      cases hedit : sep.editable with
      | true => exact hmade.derived sep hmem hedit
      | false =>
          have hinfun : sep = .infun := by
            cases sep with
            | infun => rfl
            | other => exact absurd rfl (hseps _ hmem)
            | generation => cases hedit
            | checks => cases hedit
          rw [hinfun] at hmem ⊢
          exact hdefault hmem
    exact ⟨hharness, hmake, (compileFun_files (hseps sep hmem)).mpr ⟨hharness, hmake⟩⟩

end Steps

/-- Every order of creations of a function with supported types can succeed. -/
theorem creations_exist {h : Host} {fn : Text} {w : World} {d : List Details} {rows : List ArgRow}
    (hg : h.globs ["src"] = true) (ht : exportsTable w.fs = some (d, rows)) (ha : argumentsOf rows fn ≠ [])
    (hs : unsupportedTypes (argumentsOf rows fn) = []) (seps : List Sep) :
    ∃ w', Creations h fn w seps w' ∧ exportsTable w'.fs = some (d, rows) := by
  induction seps using List.reverseRecOn with
  | nil => exact ⟨w, .none, ht⟩
  | append_singleton seps sep ih =>
      obtain ⟨w₁, hrun, ht₁⟩ := ih
      obtain ⟨w₂, hok⟩ := @funCreate_returns h (sampleInstallation true) _ sep _ _ _ rfl hg ht₁ ha (Or.inr hs)
      have ht₂ := @exportsTable_funCreate h (sampleInstallation true) fn sep w₁
      rw [final_of_ok hok] at ht₂
      exact ⟨w₂, .create hrun hok, ht₂.trans ht₁⟩

/-- After successful creations every harness can be compiled, exactly when the default one is not among
them or the last call did not make an editable harness. -/
theorem creations_compile_iff {h : Host} {fn : Text} {seps : List Sep} {w w' : World}
    (hempty : EmptyDirectory w.fs fn) (hseps : ∀ sep ∈ seps, sep ≠ .other)
    (hrun : Creations h fn w seps w') :
    AllCompile h fn seps w' ↔ (.infun ∈ seps → LastKeepsMakefile seps) :=
  (hrun.variantsMade hempty hseps).allCompile_iff hseps

/-! ## The sample package -/

theorem emptyDirectory_samplePackage (fn : Text) : EmptyDirectory samplePackage.fs fn := by
  intro p hp _
  obtain ⟨rest, rfl⟩ := hp
  simp [samplePackage, fileExists_write, funPath, testPath, rcppExportsPath, descriptionPath, Text.ofString_eq]

theorem creations_samplePackage (seps : List Sep) : ∃ w', Creations sampleHost "f" samplePackage seps w' := by
  obtain ⟨w', hrun, _⟩ := @creations_exist sampleHost "f" samplePackage _ _
    (globs_sampleHost (by with_unfolding_all decide)) exportsTable_samplePackage (by with_unfolding_all decide)
    (by with_unfolding_all decide) seps
  exact ⟨w', hrun⟩

theorem creations_compile_sample : ∃ w', Creations sampleHost "f" samplePackage [.infun, .generation, .infun] w' ∧
    (AllCompile sampleHost "f" [.infun, .generation, .infun] w' ↔
      (.infun ∈ [Sep.infun, .generation, .infun] → LastKeepsMakefile [.infun, .generation, .infun])) := by
  obtain ⟨w', hrun⟩ := creations_samplePackage [.infun, .generation, .infun]
  exact ⟨w', hrun, creations_compile_iff (emptyDirectory_samplePackage "f") (by decide) hrun⟩

/-- Making the generation harness takes the makefile of the default one away. -/
theorem creations_compile_fails : ¬ ∀ (h : Host) (fn : Text) (seps : List Sep) (w w' : World),
    EmptyDirectory w.fs fn → (∀ sep ∈ seps, sep ≠ .other) → Creations h fn w seps w' →
      AllCompile h fn seps w' := by
  intro hall
  have hseps : ∀ sep ∈ [Sep.infun, .generation], sep ≠ .other := by decide
  obtain ⟨w', hrun⟩ := creations_samplePackage [.infun, .generation]
  have hcompile := hall _ _ _ _ _ (emptyDirectory_samplePackage "f") hseps hrun
  have hmade := hrun.variantsMade (emptyDirectory_samplePackage "f") hseps
  have hlast := (hmade.allCompile_iff hseps).mp hcompile (by simp)
  have hold := (@lastKeepsMakefile_append [.infun] _).mp hlast rfl
  simp at hold

end RcppDeepState
