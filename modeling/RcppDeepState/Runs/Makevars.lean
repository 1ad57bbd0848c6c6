import RcppDeepState.Library.Run
import RcppDeepState.Package.Atomicity
import RcppDeepState.Package.Lemmas.Build

/-!
# The Makevars of the package

Making the makefile of a function has the package installed when there is no shared object, and appends
the debugging flag to the package's own Makevars first.
-/

namespace RcppDeepState

open Command FileSystem

def makevars (fs : FileSystem Content) : Text := (readText fs makevarsPath).getD []

/-- What the installation appends. -/
def debugBlock : Text := Text.unlines ["\nPKG_CXXFLAGS += -g \n"]

/-! ## Calls -/

/-- The calls, with the outcome of an installation should they need one, and what stands between them: the
build of a harness, an installation by the user, and the user's cleaning. -/
inductive PackageCall
  | createMakefile (installed : Installation) (fn : Text)
  | funCreate (installed : Installation) (fn : Text) (sep : Sep)
  | compile (b : BuildOutcome) (fn : Text) (sep : Sep)
  | install (installed : Installation)
  | clean

/-- `rm src/*.so` -/
def removeSharedObjects (fs : FileSystem Content) : FileSystem Content :=
  fs.remove fun p => (nameIn ["src"] p).any fun n => decide ((".so" : Text) <:+ n)

def PackageCall.apply (h : Host) : PackageCall → World → World
  | .createMakefile installed fn => final (deepstateCreateMakefile h installed fn)
  | .funCreate installed fn sep => final (deepstateFunCreate h installed fn sep)
  | .compile b fn sep => final (deepstateCompileFun h b fn sep)
  | .install installed => final (installPackage h installed)
  | .clean => fun w => { w with fs := removeSharedObjects w.fs }

/-- The call comes to `deepstate_create_makefile`. -/
def PackageCall.makesMakefile (fs : FileSystem Content) : PackageCall → Bool
  | .createMakefile _ _ => true
  | .funCreate _ fn sep =>
      match exportsTable fs with
      | none => false
      | some (_, rows) =>
          fs.fileExists (harnessPath fn sep) ||
            decide (unsupportedTypes (argumentsOf rows fn) = []) &&
              !(sep.editable && fs.fileExists (makefilePath fn .infun))
  | .compile _ _ _ | .install _ | .clean => false

/-- A package with sources, where R lists no shared object. -/
def unbuilt (h : Host) (fs : FileSystem Content) : Bool := decide (sharedObjects h fs = []) && fs.dirExists ["src"]

/-- The call makes a makefile in a package where no shared object is listed. -/
def PackageCall.installs (h : Host) (call : PackageCall) (w : World) : Bool := call.makesMakefile w.fs && unbuilt h w.fs

/-! ## What keeps Makevars -/

/-- Makevars is as it was. -/
def KeepsMakevars (w w' : World) : Prop := makevars w'.fs = makevars w.fs

section Keeps

variable {α β : Type} {w : World}

theorem KeepsMakevars.refl (w : World) : KeepsMakevars w w := rfl

theorem KeepsMakevars.trans (w w' w'' : World) (h : KeepsMakevars w w') (h' : KeepsMakevars w' w'') :
    KeepsMakevars w w'' := Eq.trans h' h

theorem makevars_congr {fs fs' : FileSystem Content} (h : fs'.read makevarsPath = fs.read makevarsPath) :
    makevars fs' = makevars fs := by
  rw [makevars, readText, h, makevars, readText]

theorem keeps_onFiles {f : FileSystem Content → FileSystem Content}
    (h : ∀ fs, (f fs).read makevarsPath = fs.read makevarsPath) : Within KeepsMakevars (onFiles f) :=
  Within.modify fun w => makevars_congr (h w.fs)

theorem keeps_record (e : Event) : Within KeepsMakevars (record e) := Within.modify fun _ => rfl

theorem keeps_files {f : FileSystem Content → Program α} (hf : ∀ fs, Within KeepsMakevars (f fs)) :
    Within KeepsMakevars (files >>= f) := fun w => hf w.fs w

theorem keeps_stop (t : Text) : Within KeepsMakevars (stop t : Program α) := Within.throw KeepsMakevars.refl t

theorem keeps_pure (a : α) : Within KeepsMakevars (pure a : Program α) := Within.pure KeepsMakevars.refl a

theorem keeps_bind {m : Program α} {f : α → Program β} (hm : Within KeepsMakevars m)
    (hf : ∀ a, Within KeepsMakevars (f a)) : Within KeepsMakevars (m >>= f) :=
  Within.bind KeepsMakevars.trans hm hf

/-- What follows a command and keeps Makevars leaves what the command leaves there. -/
theorem makevars_bind {m : Program α} {f : α → Program β} (hf : ∀ a, Within KeepsMakevars (f a)) :
    makevars (final (m >>= f) w).fs = makevars (final m w).fs := by
  cases hm : m w with
  | ok a w' =>
    rw [final_bind_of_ok hm, final_of_ok hm]
    exact hf a w'
  | error e w' => rw [final_bind_of_error hm, final, hm]

end Keeps

/-! ## One call -/

section Call

variable {h : Host} {installed : Installation} {fn : Text} {sep : Sep} {w : World}

theorem makevars_append (fs : FileSystem Content) :
    makevars (appendText fs makevarsPath ["\nPKG_CXXFLAGS += -g \n"]) = makevars fs ++ debugBlock := by
  rw [makevars, readText, appendText, read_write_self]
  rfl

theorem not_installTouches_makevars : ¬ InstallTouches h makevarsPath := by
  rintro (hp | ⟨n, hp, ho⟩)
  · have hname : ("Makevars" : Text) = h.library ++ ".so" := by simpa [makevarsPath, sharedObjectPath] using hp
    have hso : (".so" : Text) <:+ "Makevars" := by
      rw [hname]
      exact List.suffix_append _ _
    exact absurd hso (by with_unfolding_all decide)
  · have hname : ("Makevars" : Text) = n := by simpa [makevarsPath] using hp
    rw [← hname] at ho
    exact absurd ho (by with_unfolding_all decide)

theorem keeps_installPackage : Within KeepsMakevars (installPackage h installed) := by
  apply keeps_bind (keeps_record _)
  intro _
  exact keeps_onFiles fun fs => (frame_leave installed fs).read not_installTouches_makevars

theorem makevars_ensureSharedObject :
    makevars (final (ensureSharedObject h installed) w).fs =
      makevars w.fs ++ if unbuilt h w.fs then debugBlock else [] := by
  have hend : Within KeepsMakevars (do
      installPackage h installed
      if sharedObjects h (← files) = [] then stop sharedObjectError) :=
    keeps_bind keeps_installPackage fun _ => keeps_files fun _ => Within.ite (keeps_stop _) (keeps_pure _)
  rw [ensureSharedObject, final_files_bind, unbuilt]
  by_cases hs : sharedObjects h w.fs = []
  · rw [if_pos hs, final_files_bind]
    cases hsrc : w.fs.dirExists ["src"] with
    | false =>
      rw [if_neg Bool.false_ne_true, Bool.and_false, if_neg Bool.false_ne_true, List.append_nil]
      exact hend w
    | true =>
      rw [if_pos rfl, if_pos (by simp [hs])]
      exact Eq.trans (hend _) (makevars_append w.fs)
  · rw [if_neg hs, if_neg (by simp [hs])]
    exact (List.append_nil _).symm

theorem keeps_writeMakefile : Within KeepsMakevars (writeMakefile h fn) := by
  apply keeps_bind (keeps_onFiles fun fs => read_mkdirs _ _ _)
  intro _
  apply keeps_bind (keeps_onFiles fun fs => read_mkdir _ _ _)
  intro _
  exact keeps_onFiles fun fs => read_write_ne (by simp [makevarsPath, makefilePath, funPath, testPath])

theorem makevars_createMakefile :
    makevars (final (deepstateCreateMakefile h installed fn) w).fs =
      makevars w.fs ++ if unbuilt h w.fs then debugBlock else [] := by
  rw [deepstateCreateMakefile, makevars_bind fun _ => keeps_writeMakefile, makevars_ensureSharedObject]

theorem makevars_deriveMakefile :
    makevars (final (deriveMakefile h installed fn sep) w).fs =
      makevars w.fs ++ if !w.fs.fileExists (makefilePath fn .infun) && unbuilt h w.fs then debugBlock else [] := by
  have hne (sep : Sep) : makevarsPath ≠ makefilePath fn sep := by simp [makevarsPath, makefilePath, funPath, testPath]
  have hend : Within KeepsMakevars (do
      let makefile := (readText (← files) (makefilePath fn .infun)).getD []
      onFiles (·.write (makefilePath fn sep) (.text (Text.unlines (makefileLines h fn sep makefile))))
      onFiles (·.unlink (makefilePath fn .infun))
      onFiles (·.mkdir (outputDir fn sep))) := by
    apply keeps_files
    intro _
    apply keeps_bind (keeps_onFiles fun fs => read_write_ne (hne sep))
    intro _
    apply keeps_bind (keeps_onFiles fun fs => ?_) (fun _ => keeps_onFiles fun fs => read_mkdir _ _ _)
    rw [unlink, read_remove]
    simp [makevarsPath, makefilePath, funPath, testPath, Text.ofString_eq]
  rw [deriveMakefile, final_files_bind]
  cases hmake : w.fs.fileExists (makefilePath fn .infun) with
  | true =>
    rw [if_pos rfl, makevars_bind fun _ => hend]
    have hcopy : makevars (copyFile w.fs (makefilePath fn .infun) (makefilePath fn sep)) = makevars w.fs :=
      makevars_congr ((frame_copyFile (T := (· = makefilePath fn sep)) rfl).read (hne sep))
    exact hcopy.trans (List.append_nil _).symm
  | false =>
    rw [if_neg (by simp), makevars_bind fun _ => hend, makevars_createMakefile]
    rfl

theorem makevars_makefileStep :
    makevars (final (makefileStep h installed fn sep) w).fs =
      makevars w.fs ++ if !(sep.editable && w.fs.fileExists (makefilePath fn .infun)) && unbuilt h w.fs
        then debugBlock else [] := by
  unfold makefileStep
  cases sep.editable with
  | true => exact makevars_deriveMakefile
  | false => exact makevars_createMakefile

theorem keeps_fillHarness {packagename : Option Text} {args : List Argument} {prototypes : List Text} :
    Within KeepsMakevars (fillHarness h packagename fn sep args prototypes) := by
  apply keeps_bind (keeps_onFiles fun fs => read_mkdir _ _ _)
  intro _
  apply Within.ite (keeps_stop _)
  apply keeps_bind (keeps_onFiles fun fs => ?_) fun _ => keeps_pure _
  exact (frame_appendText (T := (· = harnessPath fn sep)) rfl _).read
    (by simp [makevarsPath, harnessPath, funPath, testPath])

/-- A package is as built with an empty harness as without. -/
theorem unbuilt_withEmptyHarness (fs : FileSystem Content) : unbuilt h (withEmptyHarness fs fn sep) = unbuilt h fs := by
  have hsrc : (withEmptyHarness fs fn sep).dirExists ["src"] = fs.dirExists ["src"] :=
    (frame_withEmptyHarness fs).dirExists
      (by simp [EmptyHarnessTouches, harnessPath, funPath, testPath, Text.ofString_eq])
  rw [unbuilt, sharedObjects_withEmptyHarness, hsrc, unbuilt]

theorem makevars_createHarness {packagename : Option Text} {args : List Argument} {prototypes : List Text} :
    makevars (final (createHarness h installed packagename fn sep args prototypes) w).fs =
      makevars w.fs ++ if !(sep.editable && w.fs.fileExists (makefilePath fn .infun)) && unbuilt h w.fs
        then debugBlock else [] := by
  have hframe := @frame_withEmptyHarness fn sep w.fs
  have hvars : makevars (withEmptyHarness w.fs fn sep) = makevars w.fs :=
    makevars_congr (hframe.read (not_emptyHarnessTouches_src "Makevars"))
  have hmake : (withEmptyHarness w.fs fn sep).fileExists (makefilePath fn .infun) =
      w.fs.fileExists (makefilePath fn .infun) := hframe.fileExists not_emptyHarnessTouches_makefile
  have hstep := makevars_bind (w := { w with fs := withEmptyHarness w.fs fn sep })
    (m := makefileStep h installed fn sep) fun _ => @keeps_fillHarness h fn sep packagename args prototypes
  rw [makevars_makefileStep] at hstep
  simp only [hvars, hmake, unbuilt_withEmptyHarness] at hstep
  exact hstep

theorem makevars_funCreate :
    makevars (final (deepstateFunCreate h installed fn sep) w).fs =
      makevars w.fs ++ if (PackageCall.funCreate installed fn sep).installs h w then debugBlock else [] := by
  rw [PackageCall.installs, PackageCall.makesMakefile]
  cases ht : exportsTable w.fs with
  | none =>
    obtain ⟨e, w', hw', hfs⟩ := @funCreate_of_table_none h installed fn sep w ht
    rw [final, hw', Bool.false_and, if_neg Bool.false_ne_true, List.append_nil]
    exact congrArg makevars hfs
  | some table =>
    obtain ⟨details, rows⟩ := table
    obtain ⟨log, hlog⟩ := @funCreate_apply h installed fn sep w details rows ht
    rw [final_congr hlog]
    cases hthere : w.fs.fileExists (harnessPath fn sep) with
    | true =>
      have hend : Within KeepsMakevars (do
          message (.harnessExists fn)
          return some (harnessFile fn sep)) := keeps_bind (keeps_record _) fun _ => keeps_pure _
      rw [if_pos rfl, makevars_bind fun _ => hend, makevars_createMakefile]
      rfl
    | false =>
      rw [if_neg Bool.false_ne_true]
      by_cases htypes : unsupportedTypes (argumentsOf rows fn) = []
      · rw [if_neg (not_not.mpr htypes), makevars_createHarness]
        simp [htypes]
      · rw [if_pos htypes]
        simp only [htypes, decide_false, Bool.false_and, Bool.or_false, Bool.false_eq_true, if_false, List.append_nil]
        exact keeps_bind (keeps_record _) (fun _ => keeps_pure _) _

end Call

/-! ## Runs -/

section Session

variable {h : Host} {w : World}

/-- One call appends the block when it makes a makefile in a package without a shared object, and nothing
otherwise. -/
theorem makevars_call (h : Host) (call : PackageCall) (w : World) :
    makevars (call.apply h w).fs = makevars w.fs ++ if call.installs h w then debugBlock else [] := by
  cases call with
  | createMakefile installed fn => exact makevars_createMakefile
  | funCreate installed fn sep => exact makevars_funCreate
  | compile b fn sep =>
    have hframe := (@effects_compileFun h fn sep b w).frame
    have hvars : makevars (final (deepstateCompileFun h b fn sep) w).fs = makevars w.fs :=
      makevars_congr (hframe.read
        (by simp [CompileTouches, ObjectTouches, makevarsPath, executablePath, funPath, testPath]))
    exact hvars.trans (List.append_nil _).symm
  | install installed => exact Eq.trans (keeps_installPackage w) (List.append_nil _).symm
  | clean =>
    have hvars : makevars (removeSharedObjects w.fs) = makevars w.fs := by
      apply makevars_congr
      rw [removeSharedObjects, read_remove, if_neg]
      with_unfolding_all decide
    exact hvars.trans (List.append_nil _).symm

/-- Makevars holds `original` and at most one block. -/
def OneBlock (original : Text) (fs : FileSystem Content) : Prop :=
  makevars fs = original ∨ makevars fs = original ++ debugBlock

/-- Makevars is its original contents and at most one block in every state of a run exactly when at most one
call of the run makes a makefile in a package without a shared object. -/
theorem makevars_oneBlock_iff (h : Host) (calls : List PackageCall) (w : World) :
    (∀ n, OneBlock (makevars w.fs) (Run.run (PackageCall.apply h) (calls.take n) w).fs) ↔
      Run.count (PackageCall.apply h) (PackageCall.installs h) calls w ≤ 1 :=
  Run.appends_once_iff (f := fun w : World => makevars w.fs) (by with_unfolding_all decide) (makevars_call h) calls w

end Session

/-- A package with sources and nothing else. -/
def sourceWorld : World := ⟨FileSystem.empty.mkdir ["src"], []⟩

/-- The installation fails, and the call is made again. -/
theorem makevars_two_blocks : ¬ ∀ (h : Host) (calls : List PackageCall) (w : World) (n : ℕ),
    OneBlock (makevars w.fs) (Run.run (PackageCall.apply h) (calls.take n) w).fs := by
  intro hall
  have htwice := hall sampleHost
    [.createMakefile (sampleInstallation false) "f", .createMakefile (sampleInstallation false) "f"] sourceWorld 2
  unfold OneBlock at htwice
  exact absurd htwice (by with_unfolding_all decide)

end RcppDeepState
