import RcppDeepState.Package.Lemmas.Frames

/-!
# How creating a harness ends

When the makefile step returns, when the harness is filled, and what is there when the call stops.
-/

namespace RcppDeepState

open Command FileSystem

/-! ## Running the basic commands -/

section Run

variable {α : Type} {w : World}

@[simp] theorem files_bind_apply (f : FileSystem Content → Program α) : (files >>= f) w = f w.fs w := rfl

theorem final_files_bind (f : FileSystem Content → Program α) :
    final (files >>= f) w = final (f w.fs) w := rfl

@[simp] theorem onFiles_bind_apply (g : FileSystem Content → FileSystem Content) (f : Unit → Program α) :
    (onFiles g >>= f) w = f () { w with fs := g w.fs } := rfl

@[simp] theorem record_bind_apply (e : Event) (f : Unit → Program α) :
    (record e >>= f) w = f () { w with log := w.log ++ [e] } := rfl

@[simp] theorem message_bind_apply (t : Message) (f : Unit → Program α) :
    (message t >>= f) w = f () { w with log := w.log ++ [.message t] } := rfl

@[simp] theorem onFiles_apply (g : FileSystem Content → FileSystem Content) :
    onFiles g w = .ok () { w with fs := g w.fs } := rfl

@[simp] theorem stop_apply (t : Text) : (stop t : Program α) w = .error t w := rfl

@[simp] theorem pure_apply (a : α) : (pure a : Program α) w = .ok a w := rfl

theorem ite_apply {c : Prop} [Decidable c] (m m' : Program α) :
    (if c then m else m') w = if c then m w else m' w := by
  split <;> rfl

end Run

/-! ## The shared object -/

section SharedObject

variable {h : Host} {installed : Installation} {fs fs' : FileSystem Content} {w : World}

theorem mem_sharedObjects {n : Text} : n ∈ sharedObjects h fs ↔
    h.globs ["src"] = true ∧ fs.fileExists ["src", n] = true ∧ n.head? ≠ some '.' ∧ (".so" : Text) <:+ n := by
  simp [sharedObjects, mem_sysGlob, and_assoc]

theorem sharedObjects_congr (hsame : ∀ n, fs'.fileExists ["src", n] = fs.fileExists ["src", n]) :
    sharedObjects h fs' = sharedObjects h fs := by
  rw [sharedObjects, sharedObjects, @sysGlob_congr h fs fs' ["src"] (by simpa using hsame)]

theorem sharedObjects_append {x : List Text} (hs : sharedObjects h fs = []) :
    sharedObjects h (appendText fs makevarsPath x) = [] := by
  rw [List.eq_nil_iff_forall_not_mem] at hs ⊢
  intro n hn
  obtain ⟨hg, he, hdot, hso⟩ := mem_sharedObjects.mp hn
  rw [appendText, fileExists_write, Bool.or_eq_true, decide_eq_true_eq] at he
  rcases he with he | he
  · have hn' : n = "Makevars" := by simpa [makevarsPath] using he
    rw [hn'] at hso
    exact absurd hso (by with_unfolding_all decide)
  · exact hs n (mem_sharedObjects.mpr ⟨hg, he, hdot, hso⟩)

/-- No object file is a shared object. -/
theorem not_packageObject {n : Text} (hso : (".so" : Text) <:+ n) : ¬ PackageObject [("src" : Text), n] := by
  rintro ⟨m, hm, ho⟩
  obtain rfl : n = m := by simpa using hm
  have hsuffix : (".o" : Text) <:+ (".so" : Text) :=
    List.suffix_of_suffix_length_le ho hso (by with_unfolding_all decide)
  exact absurd hsuffix (by with_unfolding_all decide)

theorem sharedObjects_leave (hi : installed.builds = true) (hg : h.globs ["src"] = true) (fs : FileSystem Content) :
    sharedObjects h (installed.leave h fs) ≠ [] := by
  obtain ⟨c, s, hc, hdot⟩ := h.library_ok
  rw [Installation.leave, if_pos hi]
  refine List.ne_nil_of_mem (a := h.library ++ ".so") (mem_sharedObjects.mpr ⟨hg, ?_, ?_, ?_⟩)
  · simp [fileExists_write, sharedObjectPath]
  · simp [hc, hdot]
  · exact List.suffix_append _ _

theorem sharedObjects_leave_fails (hi : installed.builds = false) (hs : sharedObjects h fs = []) :
    sharedObjects h (installed.leave h fs) = [] := by
  rw [Installation.leave, hi, if_neg Bool.false_ne_true, List.eq_nil_iff_forall_not_mem]
  intro n hn
  obtain ⟨hg, hex, hdot, hso⟩ := mem_sharedObjects.mp hn
  rw [(frame_leaveObjects installed fs).fileExists (not_packageObject hso)] at hex
  rw [List.eq_nil_iff_forall_not_mem] at hs
  exact hs n (mem_sharedObjects.mpr ⟨hg, hex, hdot, hso⟩)

theorem sharedObjects_of_not_globs (hg : h.globs ["src"] = false) (fs : FileSystem Content) :
    sharedObjects h fs = [] := by
  rw [sharedObjects, sysGlob_of_not_globs hg, List.filter_nil]

theorem ensureSharedObject_of_ne (hs : sharedObjects h w.fs ≠ []) : ensureSharedObject h installed w = .ok () w := by
  simp [ensureSharedObject, hs]

theorem ensureSharedObject_builds (hs : sharedObjects h w.fs = []) (hi : installed.builds = true)
    (hg : h.globs ["src"] = true) : ∃ w', ensureSharedObject h installed w = .ok () w' := by
  simp only [ensureSharedObject, files_bind_apply, ite_apply, hs, ↓reduceIte, installPackage,
    onFiles_bind_apply, bind_assoc, record_bind_apply, sharedObjects_leave hi hg, pure_apply]
  split <;> exact ⟨_, rfl⟩

/-- No shared object is found, and none can be built or what is built is not found. -/
def BuildFails (h : Host) (installed : Installation) (fs : FileSystem Content) : Prop :=
  sharedObjects h fs = [] ∧ (installed.builds = false ∨ h.globs ["src"] = false)

theorem ensureSharedObject_fails (hb : BuildFails h installed w.fs) :
    ∃ w', ensureSharedObject h installed w = .error sharedObjectError w' := by
  have hleave : ∀ fs, sharedObjects h fs = [] → sharedObjects h (installed.leave h fs) = [] := by
    intro fs hs
    rcases hb.2 with hi | hg
    · exact sharedObjects_leave_fails hi hs
    · exact sharedObjects_of_not_globs hg _
  simp only [ensureSharedObject, files_bind_apply, ite_apply, hb.1, ↓reduceIte, installPackage,
    onFiles_bind_apply, bind_assoc, record_bind_apply, hleave _ hb.1, hleave _ (sharedObjects_append hb.1), stop_apply]
  split <;> exact ⟨_, rfl⟩

end SharedObject

/-! ## The makefile step -/

theorem writeMakefile_ok (h : Host) (fn : Text) (w : World) :
    ∃ w', writeMakefile h fn w = .ok () w' := ⟨_, rfl⟩

theorem createMakefile_ok {h : Host} {installed : Installation} {w : World} (hb : ¬ BuildFails h installed w.fs)
    (fn : Text) : ∃ w', deepstateCreateMakefile h installed fn w = .ok () w' := by
  have hens : ∃ w', ensureSharedObject h installed w = .ok () w' := by
    by_cases hs : sharedObjects h w.fs = []
    · obtain ⟨hbuilds, hg⟩ := not_or.mp fun hf => hb ⟨hs, hf⟩
      rw [Bool.not_eq_false] at hbuilds hg
      exact ensureSharedObject_builds hs hbuilds hg
    · exact ⟨w, ensureSharedObject_of_ne hs⟩
  obtain ⟨w₁, hw₁⟩ := hens
  obtain ⟨w₂, hw₂⟩ := writeMakefile_ok h fn w₁
  exact ⟨w₂, bind_eq_ok.mpr ⟨(), w₁, hw₁, hw₂⟩⟩

theorem createMakefile_fails {h : Host} {installed : Installation} {w : World} (hb : BuildFails h installed w.fs)
    (fn : Text) : ∃ w', deepstateCreateMakefile h installed fn w = .error sharedObjectError w' := by
  obtain ⟨w', hw'⟩ := ensureSharedObject_fails hb
  refine ⟨w', ?_⟩
  rw [deepstateCreateMakefile, bind_apply, hw']

/-- The makefile step needs the shared object and cannot have it. -/
def StepFails (h : Host) (installed : Installation) (fs : FileSystem Content) (fn : Text) (sep : Sep) : Prop :=
  (sep.editable = true → fs.fileExists (makefilePath fn .infun) = false) ∧ BuildFails h installed fs

theorem makefileStep_ok {h : Host} {installed : Installation} {fn : Text} {sep : Sep} {w : World}
    (hb : ¬ StepFails h installed w.fs fn sep) : ∃ w', makefileStep h installed fn sep w = .ok () w' := by
  unfold makefileStep
  rw [ite_apply]
  split
  · rename_i hsep
    simp only [deriveMakefile, files_bind_apply, ite_apply]
    split
    · exact ⟨_, rfl⟩
    · rename_i hm
      obtain ⟨w', hw'⟩ := createMakefile_ok (h := h) (fun hf => hb ⟨fun _ => by simpa using hm, hf⟩) fn
      rw [bind_apply, hw']
      exact ⟨_, rfl⟩
  · rename_i hsep
    exact createMakefile_ok (fun hf => hb ⟨fun he => absurd he hsep, hf⟩) fn

theorem makefileStep_fails {h : Host} {installed : Installation} {fn : Text} {sep : Sep} {w : World}
    (hb : StepFails h installed w.fs fn sep) :
    ∃ w', makefileStep h installed fn sep w = .error sharedObjectError w' := by
  obtain ⟨w', hw'⟩ := createMakefile_fails (h := h) hb.2 fn
  refine ⟨w', ?_⟩
  unfold makefileStep
  rw [ite_apply]
  split
  · rename_i hsep
    rw [deriveMakefile, files_bind_apply, ite_apply, if_neg (by simp [hb.1 hsep]), bind_apply, hw']
  · exact hw'

/-! ## Filling the harness -/

section Create

variable {h : Host} {installed : Installation} {packagename : Option Text} {fn : Text} {sep : Sep}
  {args : List Argument} {prototypes : List Text} {w : World}

theorem fillHarness_ok (ha : args ≠ []) :
    ∃ w', fillHarness h packagename fn sep args prototypes w = .ok (some (harnessFile fn sep)) w' := by
  simp only [fillHarness, onFiles_bind_apply, if_neg ha]
  exact ⟨_, rfl⟩

theorem fillHarness_stops (ha : args = []) :
    ∃ e w', fillHarness h packagename fn sep args prototypes w = .error e w' := by
  simp [fillHarness, ha]

/-- The tree the makefile step starts from. -/
def withEmptyHarness (fs : FileSystem Content) (fn : Text) (sep : Sep) : FileSystem Content :=
  (fs.mkdirs (funPath fn)).write (harnessPath fn sep) (.text [])

theorem createHarness_apply : createHarness h installed packagename fn sep args prototypes w =
    (makefileStep h installed fn sep >>= fun _ => fillHarness h packagename fn sep args prototypes)
      { w with fs := withEmptyHarness w.fs fn sep } := rfl

/-- What making the empty harness changes. -/
def EmptyHarnessTouches (fn : Text) (sep : Sep) (p : Pathname) : Prop := p <+: funPath fn ∨ p = harnessPath fn sep

theorem frame_withEmptyHarness (fs : FileSystem Content) :
    Frame (EmptyHarnessTouches fn sep) fs (withEmptyHarness fs fn sep) :=
  Frame.trans (frame_mkdirs fun _ hp _ => .inl hp) (frame_write (.inr rfl) _)

theorem not_emptyHarnessTouches_src (n : Text) : ¬ EmptyHarnessTouches fn sep ["src", n] := by
  simp [EmptyHarnessTouches, harnessPath, funPath, testPath, Text.ofString_eq]

theorem not_emptyHarnessTouches_makefile : ¬ EmptyHarnessTouches fn sep (makefilePath fn .infun) := by
  intro hp
  cases hp with
  | inl hprefix =>
      have hlength := hprefix.length_le
      rw [makefilePath, List.length_append, List.length_singleton] at hlength
      omega
  | inr hharness => exact buildPath_ne_makefilePath fn fn sep .infun ".cpp" hharness.symm

theorem sharedObjects_withEmptyHarness (fs : FileSystem Content) :
    sharedObjects h (withEmptyHarness fs fn sep) = sharedObjects h fs :=
  sharedObjects_congr fun n => (frame_withEmptyHarness fs).fileExists (not_emptyHarnessTouches_src n)

theorem stepFails_withEmptyHarness {fs : FileSystem Content} :
    StepFails h installed (withEmptyHarness fs fn sep) fn sep ↔ StepFails h installed fs fn sep := by
  have hmake : (withEmptyHarness fs fn sep).fileExists (makefilePath fn .infun) =
      fs.fileExists (makefilePath fn .infun) :=
    (frame_withEmptyHarness fs).fileExists not_emptyHarnessTouches_makefile
  simp only [StepFails, BuildFails, sharedObjects_withEmptyHarness, hmake]

theorem createHarness_ok (hb : ¬ StepFails h installed w.fs fn sep) (ha : args ≠ []) :
    ∃ w', createHarness h installed packagename fn sep args prototypes w =
      .ok (some (harnessFile fn sep)) w' := by
  obtain ⟨w₁, hw₁⟩ := makefileStep_ok (h := h) (w := { w with fs := withEmptyHarness w.fs fn sep })
    (mt stepFails_withEmptyHarness.mp hb)
  obtain ⟨w₂, hw₂⟩ := @fillHarness_ok h packagename fn sep _ prototypes w₁ ha
  exact ⟨w₂, by rw [createHarness_apply]; exact bind_eq_ok.mpr ⟨(), w₁, hw₁, hw₂⟩⟩

theorem createHarness_stops (hs : StepFails h installed w.fs fn sep ∨ args = []) :
    ∃ e w', createHarness h installed packagename fn sep args prototypes w = .error e w' := by
  rw [createHarness_apply]
  by_cases hb : StepFails h installed w.fs fn sep
  · obtain ⟨w₁, hw₁⟩ := makefileStep_fails (h := h) (w := { w with fs := withEmptyHarness w.fs fn sep })
      (stepFails_withEmptyHarness.mpr hb)
    exact ⟨_, w₁, by rw [bind_apply, hw₁]⟩
  · obtain ⟨w₁, hw₁⟩ := makefileStep_ok (h := h) (w := { w with fs := withEmptyHarness w.fs fn sep })
      (mt stepFails_withEmptyHarness.mp hb)
    obtain ⟨e, w₂, hw₂⟩ := @fillHarness_stops h packagename fn sep _ prototypes w₁ (hs.resolve_left hb)
    exact ⟨e, w₂, by rw [bind_apply, hw₁]; exact hw₂⟩

/-- The harness file is there however the call ends. -/
theorem createHarness_leaves :
    (final (createHarness h installed packagename fn sep args prototypes) w).fs.fileExists
      (harnessPath fn sep) = true := by
  have hw : (withEmptyHarness w.fs fn sep).fileExists (harnessPath fn sep) = true := by
    simp [withEmptyHarness, fileExists_write]
  have heff := @effects_makefileStep h installed fn sep { w with fs := withEmptyHarness w.fs fn sep }
  have hstep := heff.frame.fileExists (p := harnessPath fn sep) (@not_stepTouches _ _ _ _ _ ".cpp")
  rw [hw] at hstep
  rw [final, createHarness_apply, bind_apply]
  rw [final] at hstep
  cases hm : makefileStep h installed fn sep { w with fs := withEmptyHarness w.fs fn sep } with
  | error e w' => rw [hm] at hstep; exact hstep
  | ok a w' =>
      rw [hm] at hstep
      by_cases ha : args = []
      · simp only [fillHarness, onFiles_bind_apply, if_pos ha, stop_apply, fileExists_mkdir, hstep,
          Bool.or_true]
      · simp only [fillHarness, onFiles_bind_apply, if_neg ha, pure_apply, appendText, fileExists_write,
          decide_true, Bool.true_or]

end Create

/-! ## The whole call -/

/-- The details and the argument table, when the package has an exports file with a function. -/
def exportsTable (fs : FileSystem Content) : Option (List Details × List ArgRow) :=
  match deepstateGetPackageDetails (readText fs rcppExportsPath) with
  | .error _ => none
  | .ok details => (deepstateGetFunctionBody details).map fun rows => (details, rows)

def packageNameIn (fs : FileSystem Content) : Option Text :=
  (readText fs descriptionPath).bind packageNameOf

section FunCreate

variable {h : Host} {installed : Installation} {fn : Text} {sep : Sep} {w : World}

theorem getPackageName_ok (h : Host) (w : World) :
    ∃ log, getPackageName h w = .ok (packageNameIn w.fs) { w with log := log } := by
  unfold getPackageName packageNameIn
  rw [files_bind_apply]
  cases readText w.fs descriptionPath with
  | none => exact ⟨_, rfl⟩
  | some t => exact ⟨w.log, rfl⟩

theorem readExports_none (ht : exportsTable w.fs = none) : ∃ e, readExports w = .error e w := by
  unfold exportsTable at ht
  unfold readExports
  rw [files_bind_apply]
  split at ht
  · rename_i e he
    rw [he]
    exact ⟨e, rfl⟩
  · rename_i d hd
    rw [hd]
    cases hrows : deepstateGetFunctionBody d with
    | none => exact ⟨_, by simp only [hrows]; rfl⟩
    | some rows => simp [hrows] at ht

theorem readExports_some {d : List Details} {rows : List ArgRow}
    (ht : exportsTable w.fs = some (d, rows)) : readExports w = .ok (d, rows) w := by
  unfold exportsTable at ht
  unfold readExports
  rw [files_bind_apply]
  split at ht
  · cases ht
  · rename_i d' hd
    rw [hd]
    obtain ⟨rows', hrows, he⟩ := Option.map_eq_some_iff.mp ht
    cases he
    simp only [hrows]
    rfl

theorem funCreate_of_table_none (ht : exportsTable w.fs = none) :
    ∃ e w', deepstateFunCreate h installed fn sep w = .error e w' ∧ w'.fs = w.fs := by
  obtain ⟨log, hlog⟩ := getPackageName_ok h w
  obtain ⟨e, he⟩ := readExports_none (w := { w with log := log }) ht
  refine ⟨e, { w with log := log }, ?_, rfl⟩
  rw [deepstateFunCreate, bind_apply, hlog]
  show (readExports >>= _) _ = _
  rw [bind_apply, he]

theorem funCreate_apply {d : List Details} {rows : List ArgRow}
    (ht : exportsTable w.fs = some (d, rows)) : ∃ log, deepstateFunCreate h installed fn sep w =
      (if w.fs.fileExists (harnessPath fn sep) then do
        deepstateCreateMakefile h installed fn
        message (.harnessExists fn)
        return some (harnessFile fn sep)
      else if unsupportedTypes (argumentsOf rows fn) ≠ [] then do
        message (.unsupportedTypes fn (unsupportedTypes (argumentsOf rows fn)))
        return none
      else
        createHarness h installed (packageNameIn w.fs) fn sep (argumentsOf rows fn) (prototypesOf d fn))
        { w with log := log } := by
  obtain ⟨log, hlog⟩ := getPackageName_ok h w
  refine ⟨log, ?_⟩
  rw [deepstateFunCreate, bind_apply, hlog]
  show (readExports >>= _) _ = _
  rw [bind_apply, readExports_some (w := { w with log := log }) ht]
  rfl

/-- The exports file stays. -/
theorem readText_funCreate : readText (final (deepstateFunCreate h installed fn sep) w).fs rcppExportsPath =
    readText w.fs rcppExportsPath := by
  have hframe := (@effects_funCreate h installed fn sep w).frame.read (p := rcppExportsPath)
    (not_createTouches_src (by with_unfolding_all decide) (by with_unfolding_all decide)
      (by with_unfolding_all decide))
  rw [readText, hframe, readText]

theorem exportsTable_funCreate : exportsTable (final (deepstateFunCreate h installed fn sep) w).fs =
    exportsTable w.fs := by
  rw [exportsTable, readText_funCreate, ← exportsTable]

/-- The call returns the name of the harness when a shared object can be had, and the harness exists or the
function has arguments, all of supported types. -/
theorem funCreate_returns {d : List Details} {rows : List ArgRow} (hi : installed.builds = true)
    (hg : h.globs ["src"] = true) (ht : exportsTable w.fs = some (d, rows)) (ha : argumentsOf rows fn ≠ [])
    (hcase : w.fs.fileExists (harnessPath fn sep) = true ∨ unsupportedTypes (argumentsOf rows fn) = []) :
    ∃ w', deepstateFunCreate h installed fn sep w = .ok (some (harnessFile fn sep)) w' := by
  have hbuild (fs : FileSystem Content) : ¬ BuildFails h installed fs := by
    rintro ⟨-, hf | hf⟩
    · rw [hi] at hf
      cases hf
    · rw [hg] at hf
      cases hf
  obtain ⟨log, happly⟩ := @funCreate_apply h installed fn sep _ _ _ ht
  rw [happly]
  split
  · obtain ⟨w₁, hw₁⟩ := createMakefile_ok (h := h) (w := { w with log := log }) (hbuild _) fn
    exact ⟨_, by rw [Command.bind_of_ok hw₁]; rfl⟩
  · rename_i hex
    rw [if_neg (not_not.mpr (hcase.resolve_left hex))]
    exact createHarness_ok (fun hs => hbuild _ hs.2) ha

end FunCreate

end RcppDeepState
