import RcppDeepState.Package.Lemmas.Names

/-!
# What the functions touch

Every function changes a known set of paths, whatever the outcome of the tools it calls.
-/

namespace RcppDeepState

open Command FileSystem

/-- Between two worlds nothing but the paths of `T` differs, and only events of `P` are recorded. -/
structure Effects (T : Pathname → Prop) (P : Event → Prop) (w w' : World) : Prop where
  frame : Frame T w.fs w'.fs
  events : ∃ es, w'.log = w.log ++ es ∧ ∀ e ∈ es, P e

/-! ## Rules -/

section Rules

variable {T T' : Pathname → Prop} {P P' : Event → Prop} {α β : Type}

theorem Effects.refl (w : World) : Effects T P w w := ⟨Frame.refl _, [], by simp, by simp⟩

theorem Effects.trans (w w' w'' : World) (h : Effects T P w w') (h' : Effects T P w' w'') :
    Effects T P w w'' := by
  obtain ⟨hf, es, hes, hP⟩ := h
  obtain ⟨hf', es', hes', hP'⟩ := h'
  refine ⟨Frame.trans hf hf', es ++ es', by rw [hes', hes, List.append_assoc], ?_⟩
  intro e he
  rcases List.mem_append.mp he with he | he
  · exact hP e he
  · exact hP' e he

theorem effects_mono (hT : ∀ p, T p → T' p) (hP : ∀ e, P e → P' e) {m : Program α}
    (h : Within (Effects T P) m) : Within (Effects T' P') m := by
  refine Within.mono h (fun w w' hw => ?_)
  obtain ⟨hf, es, hes, hes'⟩ := hw
  exact ⟨Frame.mono hf hT, es, hes, fun e he => hP e (hes' e he)⟩

theorem effects_pure (a : α) : Within (Effects T P) (pure a : Program α) := Within.pure Effects.refl a

theorem effects_stop (t : Text) : Within (Effects T P) (stop t : Program α) := Within.throw Effects.refl t

theorem effects_bind {m : Program α} {f : α → Program β} (hm : Within (Effects T P) m)
    (hf : ∀ a, Within (Effects T P) (f a)) : Within (Effects T P) (m >>= f) :=
  Within.bind Effects.trans hm hf

theorem effects_onFiles {f : FileSystem Content → FileSystem Content} (h : ∀ fs, Frame T fs (f fs)) :
    Within (Effects T P) (onFiles f) := Within.modify fun w => ⟨h w.fs, [], by simp, by simp⟩

theorem effects_record {e : Event} (h : P e) : Within (Effects T P) (record e) :=
  Within.modify fun w => ⟨Frame.refl w.fs, [e], rfl, by simpa using h⟩

theorem effects_message {m : Message} (h : P (.message m)) : Within (Effects T P) (message m) :=
  effects_record h

theorem effects_files {f : FileSystem Content → Program α} (hf : ∀ fs, Within (Effects T P) (f fs)) :
    Within (Effects T P) (files >>= f) := fun w => hf w.fs w

theorem effects_ite {c : Prop} [Decidable c] {m m' : Program α} (hm : Within (Effects T P) m)
    (hm' : Within (Effects T P) m') : Within (Effects T P) (if c then m else m') := Within.ite hm hm'

theorem effects_foldlM {γ : Type} {f : β → γ → Program β} {xs : List γ}
    (hf : ∀ b, ∀ x ∈ xs, Within (Effects T P) (f b x)) (b : β) :
    Within (Effects T P) (xs.foldlM f b) := by
  induction xs generalizing b with
  | nil => exact effects_pure b
  | cons x xs ih =>
      rw [List.foldlM_cons]
      exact effects_bind (hf b x (by simp)) (fun b' => ih (fun c y hy => hf c y (by simp [hy])) b')

end Rules

/-! ## File operations -/

section Operations

variable {T : Pathname → Prop} {fs : FileSystem Content}

theorem frame_appendText {p : Pathname} (hp : T p) (x : List Text) : Frame T fs (appendText fs p x) :=
  frame_write hp _

theorem frame_copyFile {p q : Pathname} (hq : T q) : Frame T fs (copyFile fs p q) := by
  unfold copyFile
  split
  · split
    · exact Frame.refl _
    · exact frame_write hq _
  · exact Frame.refl _

theorem frame_writeInto {d : Pathname} (h : ∀ n, T (d ++ [n])) (entries : List (Text × Content)) :
    Frame T fs (writeInto d entries fs) := by
  unfold writeInto
  split
  · clear * - h
    induction entries generalizing fs with
    | nil => exact Frame.refl _
    | cons e es ih => exact Frame.trans (frame_write (h e.1) _) ih
  · exact Frame.refl _

end Operations

/-! ## The interfaces of a package -/

/-- What `compileAttributes` may change beside the exports file. -/
def InterfaceTouches (p : Pathname) : Prop := [("R" : Text)] <+: p ∨ p = ["inst"] ∨ includePath <+: p

theorem frame_writeInterfaces (o : PkgOutcome) (fs : FileSystem Content) :
    Frame InterfaceTouches fs (o.writeInterfaces fs) := by
  have hR (t : Text) : Frame InterfaceTouches fs ((fs.mkdir ["R"]).write wrappersPath (.text t)) :=
    (frame_mkdir (Or.inl List.prefix_rfl)).trans (frame_write (Or.inl (by simp [wrappersPath])) _)
  have hheaders : ∀ (es : List (Text × Text)) (fs : FileSystem Content), Frame InterfaceTouches fs
      (es.foldl (fun fs e => fs.write (includePath ++ [e.1]) (.text e.2)) fs) := by
    intro es
    induction es with
    | nil => exact fun fs => Frame.refl fs
    | cons e es ih =>
      intro fs
      exact (frame_write (Or.inr (Or.inr (List.prefix_append _ _))) _).trans (ih _)
  have hdirs (fs : FileSystem Content) : Frame InterfaceTouches fs (fs.mkdirs includePath) := by
    apply frame_mkdirs
    intro q hq hne
    have hinits : q ∈ [[], [("inst" : Text)], includePath] := (List.mem_inits q includePath).mpr hq
    rw [List.mem_cons, List.mem_cons, List.mem_singleton] at hinits
    rcases hinits with rfl | rfl | rfl
    · exact absurd rfl hne
    · exact Or.inr (Or.inl rfl)
    · exact Or.inr (Or.inr List.prefix_rfl)
  have hfirst : Frame InterfaceTouches fs
      (o.wrappers.elim fs fun t => (fs.mkdir ["R"]).write wrappersPath (.text t)) := by
    cases o.wrappers with
    | none => exact Frame.refl fs
    | some t => exact hR t
  unfold PkgOutcome.writeInterfaces
  dsimp only
  split
  · exact hfirst
  · exact hfirst.trans ((hdirs _).trans (hheaders _ _))

/-- The directories of the functions are elsewhere. -/
theorem not_interfaceTouches {p : Pathname} (hp : testPath <+: p) : ¬ InterfaceTouches p := by
  obtain ⟨rest, rfl⟩ := hp
  rintro (hp | hp | hp)
  · simp [testPath, Text.ofString_eq] at hp
  · simp [testPath] at hp
  · simp [testPath, includePath, Text.ofString_eq] at hp

/-! ## Creating -/

/-- What creating a harness may record. -/
def CreateEvents : Event → Prop
  | .install | .message (.noDescription _) | .message (.harnessExists _)
  | .message (.unsupportedTypes _ _) => True
  | _ => False

/-- An object file of the package. -/
def PackageObject (p : Pathname) : Prop := ∃ n : Text, p = [("src" : Text), n] ∧ (".o" : Text) <:+ n

/-- What installing the package may change. -/
def InstallTouches (h : Host) (p : Pathname) : Prop := p = sharedObjectPath h ∨ PackageObject p

/-- What building the shared object and writing the makefile of a function may change. -/
def MakefileTouches (h : Host) (fn : Text) (p : Pathname) : Prop :=
  p = makevarsPath ∨ InstallTouches h p ∨ p <+: outputDir fn .infun ∨ p = inputsPath fn ∨
    p = makefilePath fn .infun

theorem frame_leaveObjects (installed : Installation) (fs : FileSystem Content) :
    Frame PackageObject fs (installed.leaveObjects fs) := by
  obtain ⟨es, hes, _⟩ := installed
  unfold Installation.leaveObjects
  dsimp only
  induction es generalizing fs with
  | nil => exact Frame.refl fs
  | cons e es ih =>
    have hwrite : Frame PackageObject fs (fs.write ["src", e.1] e.2) := frame_write ⟨e.1, rfl, hes e (by simp)⟩ _
    exact hwrite.trans (ih _ fun e' he' => hes e' (by simp [he']))

theorem frame_leave {h : Host} (installed : Installation) (fs : FileSystem Content) :
    Frame (InstallTouches h) fs (installed.leave h fs) := by
  have hobjects := @Frame.mono _ _ (InstallTouches h) _ _ (frame_leaveObjects installed fs) fun _ hp => Or.inr hp
  unfold Installation.leave
  split
  · exact hobjects.trans (frame_write (Or.inl rfl) _)
  · exact hobjects

/-- What lies outside `src` an installation leaves alone. -/
theorem not_installTouches {h : Host} {p : Pathname} (hp : p.head? ≠ some "src") : ¬ InstallTouches h p := by
  rintro (rfl | ⟨n, rfl, _⟩)
  · exact hp rfl
  · exact hp rfl

theorem effects_createMakefile (h : Host) (installed : Installation) (fn : Text) :
    Within (Effects (MakefileTouches h fn) CreateEvents) (deepstateCreateMakefile h installed fn) := by
  unfold deepstateCreateMakefile
  refine effects_bind ?_ (fun _ => ?_)
  · refine effects_files (fun fs => effects_ite ?_ (effects_pure _))
    refine effects_files (fun fs' => ?_)
    have hinstall : Within (Effects (MakefileTouches h fn) CreateEvents) (installPackage h installed) :=
      effects_bind (effects_record trivial)
        (fun _ => effects_onFiles fun fs => (frame_leave installed fs).mono fun _ hp => Or.inr (Or.inl hp))
    have hend : Within (Effects (MakefileTouches h fn) CreateEvents) (do
        installPackage h installed
        if sharedObjects h (← files) = [] then stop sharedObjectError) :=
      effects_bind hinstall (fun _ => effects_files fun _ => effects_ite (effects_stop _) (effects_pure _))
    exact effects_ite (effects_bind (effects_onFiles fun _ => frame_appendText (Or.inl rfl) _) fun _ => hend)
      hend
  · refine effects_bind (effects_onFiles fun _ => frame_mkdirs ?_) (fun _ =>
      effects_bind (effects_onFiles fun _ => frame_mkdir ?_) (fun _ =>
        effects_onFiles fun _ => frame_write ?_ _))
    · intro q hq _
      exact Or.inr (Or.inr (Or.inl hq))
    · exact Or.inr (Or.inr (Or.inr (Or.inl rfl)))
    · exact Or.inr (Or.inr (Or.inr (Or.inr rfl)))

/-- What the makefile step of a harness may change. -/
def StepTouches (h : Host) (fn : Text) (sep : Sep) (p : Pathname) : Prop :=
  MakefileTouches h fn p ∨ p = makefilePath fn sep ∨ makefilePath fn .infun <+: p ∨ p = outputDir fn sep

/-- What creating a harness may change. -/
def CreateTouches (h : Host) (fn : Text) (sep : Sep) (p : Pathname) : Prop :=
  StepTouches h fn sep p ∨ p = harnessPath fn sep

theorem effects_getPackageName {T : Pathname → Prop} {P : Event → Prop} {h : Host}
    (hP : P (.message (.noDescription h.packagePath))) : Within (Effects T P) (getPackageName h) := by
  unfold getPackageName
  refine effects_files (fun fs => ?_)
  split
  · exact effects_bind (effects_message hP) (fun _ => effects_pure _)
  · exact effects_pure _

theorem effects_readExports {T : Pathname → Prop} : Within (Effects T CreateEvents) readExports := by
  unfold readExports
  refine effects_files (fun fs => ?_)
  split
  · exact effects_stop _
  · split
    · exact effects_stop _
    · exact effects_pure _

section Create

variable {h : Host} {installed : Installation} {fn : Text} {sep : Sep}

theorem effects_deriveMakefile :
    Within (Effects (StepTouches h fn sep) CreateEvents) (deriveMakefile h installed fn sep) := by
  have hmake : StepTouches h fn sep (makefilePath fn sep) := Or.inr (Or.inl rfl)
  have hend : Within (Effects (StepTouches h fn sep) CreateEvents) (do
      let makefile := (readText (← files) (makefilePath fn .infun)).getD []
      onFiles (·.write (makefilePath fn sep) (.text (Text.unlines (makefileLines h fn sep makefile))))
      onFiles (·.unlink (makefilePath fn .infun))
      onFiles (·.mkdir (outputDir fn sep))) := by
    refine effects_files (fun _ => ?_)
    refine effects_bind (effects_onFiles fun _ => frame_write hmake _) (fun _ => ?_)
    refine effects_bind (effects_onFiles fun _ => frame_unlink fun q hq => ?_) (fun _ => ?_)
    · exact Or.inr (Or.inr (Or.inl hq))
    · exact effects_onFiles fun _ => frame_mkdir (Or.inr (Or.inr (Or.inr rfl)))
  unfold deriveMakefile
  refine effects_files (fun fs => effects_ite ?_ ?_)
  · exact effects_bind (effects_onFiles fun _ => frame_copyFile hmake) (fun _ => hend)
  · exact effects_bind (effects_mono (fun _ => Or.inl) (fun _ => id) (effects_createMakefile h installed fn)) (fun _ => hend)

theorem effects_makefileStep :
    Within (Effects (StepTouches h fn sep) CreateEvents) (makefileStep h installed fn sep) :=
  effects_ite effects_deriveMakefile
    (effects_mono (fun _ => Or.inl) (fun _ => id) (effects_createMakefile h installed fn))

section Fill

variable {packagename : Option Text} {args : List Argument} {prototypes : List Text}

theorem effects_fillHarness :
    Within (Effects (CreateTouches h fn sep) CreateEvents) (fillHarness h packagename fn sep args prototypes) := by
  refine effects_bind (effects_onFiles fun _ => frame_mkdir ?_) (fun _ => ?_)
  · exact Or.inl (Or.inl (Or.inr (Or.inr (Or.inr (Or.inl rfl)))))
  · exact effects_ite (effects_stop _)
      (effects_bind (effects_onFiles fun _ => frame_appendText (Or.inr rfl) _) (fun _ => effects_pure _))

theorem effects_createHarness :
    Within (Effects (CreateTouches h fn sep) CreateEvents)
      (createHarness h installed packagename fn sep args prototypes) := by
  refine effects_bind (effects_onFiles fun _ => frame_mkdirs fun q hq _ => ?_) (fun _ => ?_)
  · exact Or.inl (Or.inl (Or.inr (Or.inr (Or.inl (hq.trans (List.prefix_append _ _))))))
  · refine effects_bind (effects_onFiles fun _ => frame_write (Or.inr rfl) _) (fun _ => ?_)
    exact effects_bind (effects_mono (fun _ => Or.inl) (fun _ => id) effects_makefileStep) (fun _ => effects_fillHarness)

end Fill

theorem effects_funCreate :
    Within (Effects (CreateTouches h fn sep) CreateEvents) (deepstateFunCreate h installed fn sep) := by
  unfold deepstateFunCreate
  refine effects_bind (effects_getPackageName trivial) (fun _ => effects_bind effects_readExports (fun _ => ?_))
  refine effects_files (fun fs => effects_ite ?_ (effects_ite ?_ effects_createHarness))
  · exact effects_bind (effects_mono (fun _ hp => Or.inl (Or.inl hp)) (fun _ => id) (effects_createMakefile h installed fn))
      (fun _ => effects_bind (effects_message trivial) (fun _ => effects_pure _))
  · exact effects_bind (effects_message trivial) (fun _ => effects_pure _)

end Create

/-! ## The files of a build stay -/

section BuildFiles

variable {h : Host} {fn fn' : Text} {sep sep' : Sep} {ext : Text}

theorem not_makefileTouches : ¬ MakefileTouches h fn' (buildPath fn sep ext) := by
  rintro (hp | hp | hp | hp | hp)
  · exact buildPath_ne_src fn sep ext _ hp
  · exact not_installTouches (by simp [buildPath, funPath, testPath, Text.ofString_eq]) hp
  · exact not_buildPath_prefix (by rfl) (buildPath_ne_outputDir fn fn' sep .infun ext) hp
  · exact buildPath_ne_inputsPath fn fn' sep ext hp
  · exact buildPath_ne_makefilePath fn fn' sep .infun ext hp

theorem not_stepTouches : ¬ StepTouches h fn' sep' (buildPath fn sep ext) := by
  rintro (hp | hp | hp | hp)
  · exact not_makefileTouches hp
  · exact buildPath_ne_makefilePath fn fn' sep sep' ext hp
  · exact not_prefix_buildPath (by rfl) (buildPath_ne_makefilePath fn fn' sep .infun ext) hp
  · exact buildPath_ne_outputDir fn fn' sep sep' ext hp

/-- The only file of a build that creating a harness touches is the harness. -/
theorem eq_of_createTouches (hp : CreateTouches h fn' sep' (buildPath fn sep ext)) :
    buildPath fn sep ext = harnessPath fn' sep' :=
  hp.resolve_left not_stepTouches

/-- In `src` creating a harness touches Makevars, a shared object and object files. -/
theorem not_createTouches_src {n : Text} (hm : n ≠ "Makevars") (hso : ¬ (".so" : Text) <:+ n)
    (ho : ¬ (".o" : Text) <:+ n) : ¬ CreateTouches h fn sep ["src", n] := by
  rintro (((hp | (hp | ⟨m, hp, hm'⟩) | hp | hp | hp) | hp | hp | hp) | hp)
  · exact hm (by simpa [makevarsPath] using hp)
  · refine hso ?_
    have hn : n = h.library ++ ".so" := by simpa [sharedObjectPath] using hp
    rw [hn]
    exact List.suffix_append _ _
  · refine ho ?_
    have hn : n = m := by simpa using hp
    rwa [hn]
  all_goals
    simp [outputDir, inputsPath, makefilePath, harnessPath, funPath, testPath, Text.ofString_eq] at hp

end BuildFiles

end RcppDeepState
