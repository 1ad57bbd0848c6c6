import RcppDeepState.Library.Run
import RcppDeepState.Package.Atomicity
import RcppDeepState.Package.Lemmas.Build

/-!
# The executable behind a fuzzing run

`deepstate_fuzz_fun` compiles only when there is no object file, and a build that fails at the linker may
leave the old executable. What an executable was built from is read off the run: the contents of the
harness at the last step whose build came to its end.
-/

namespace RcppDeepState

open Command FileSystem

/-! ## A build -/

/-- The build of a harness comes to the linker. -/
def Compiles (b : BuildOutcome) (fs : FileSystem Content) (fn : Text) (sep : Sep) : Prop :=
  sep ≠ .other ∧ (readText fs (harnessPath fn sep)).isSome = true ∧
    fs.fileExists (makefilePath fn sep) = true ∧ b.compiles = true

/-- The build of a harness comes to its end. -/
def Builds (b : BuildOutcome) (fs : FileSystem Content) (fn : Text) (sep : Sep) : Prop :=
  Compiles b fs fn sep ∧ b.links = true

instance (b : BuildOutcome) (fs : FileSystem Content) (fn : Text) (sep : Sep) :
    Decidable (Compiles b fs fn sep) := inferInstanceAs (Decidable (_ ∧ _))

instance (b : BuildOutcome) (fs : FileSystem Content) (fn : Text) (sep : Sep) :
    Decidable (Builds b fs fn sep) := inferInstanceAs (Decidable (_ ∧ _))

/-- What the executable was built from that a linker leaves, given the old one. -/
def FailedLink.source (f : FailedLink) (old : Option Text) : Option Text :=
  match f with
  | .keeps => old
  | .removes | .leaves (.text _) | .leaves (.object _) | .leaves .sharedObject | .leaves (.testCase _)
  | .leaves (.qs _) => none
  | .leaves (.executable source) => some source

/-- What the executable was built from that stands there once the linker has run. -/
def linkedSource (b : BuildOutcome) (fs : FileSystem Content) (fn : Text) (sep : Sep) : Option Text :=
  if b.links then readText fs (harnessPath fn sep) else b.failed.source (executableAt fs (executablePath fn sep))

section Make

variable {b : BuildOutcome} {fs fs' : FileSystem Content} {fn fn' : Text} {sep sep' : Sep}

theorem executableAt_of_frame {T : Pathname → Prop} {p : Pathname} (h : Frame T fs fs') (hp : ¬ T p) :
    executableAt fs' p = executableAt fs p := by
  rw [executableAt, executableAt, h.read hp]

theorem readText_of_frame {T : Pathname → Prop} {p : Pathname} (h : Frame T fs fs') (hp : ¬ T p) :
    readText fs' p = readText fs p := by
  rw [readText, readText, h.read hp]

theorem not_objectTouches_harness : ¬ ObjectTouches fn' (harnessPath fn sep) :=
  fun ⟨_, hp, hn⟩ => harnessPath_not_object hn hp

theorem not_objectTouches_executable : ¬ ObjectTouches fn' (executablePath fn sep) :=
  fun ⟨_, hp, hn⟩ => executablePath_not_object hn hp

/-- A file older than one just written is stale. -/
theorem stale_write {p q : Pathname} (c : Content) (hne : p ≠ q) : stale (fs.write q c) p q = true := by
  rw [stale, mtime_write_self, mtime_write_ne hne]
  cases ht : fs.mtime p with
  | none => rfl
  | some t => simpa using mtime_lt_clock ht

theorem objectPath_ne_executablePath (fn : Text) (sep sep' : Sep) :
    executablePath fn sep' ≠ objectPath fn sep :=
  executablePath_not_object (List.suffix_append _ _)

theorem fileExists_removeObjects (hfn : fn.head? ≠ some '.') :
    (removeObjects fn fs).fileExists (objectPath fn sep) = false := by
  have hname : nameIn (funPath fn) (objectPath fn sep) = some (testHarness fn sep ++ ".o") := by
    refine nameIn_eq_some.mpr ⟨rfl, ?_⟩
    cases fn with
    | nil => cases sep <;> with_unfolding_all decide
    | cons c fn => simpa [testHarness] using hfn
  have hsuf : (".o" : Text) <:+ testHarness fn sep ++ ".o" := List.suffix_append _ _
  rw [removeObjects, fileExists_remove]
  simp [hname, hsuf]

/-- make after the objects are removed compiles the present contents of the harness. -/
theorem make_removeObjects (hfn : fn.head? ≠ some '.') : make b fn sep (removeObjects fn fs) =
    match readText fs (harnessPath fn sep), b.compiles, b.links with
    | some source, true, true =>
        ((removeObjects fn fs).write (objectPath fn sep) (.object source)).write (executablePath fn sep)
          (.executable source)
    | some source, true, false =>
        b.failed.apply (executablePath fn sep) ((removeObjects fn fs).write (objectPath fn sep) (.object source))
    | _, _, _ => removeObjects fn fs := by
  have hread : readText (removeObjects fn fs) (harnessPath fn sep) = readText fs (harnessPath fn sep) :=
    readText_of_frame (@frame_removeObjects fn _) not_objectTouches_harness
  have hstale : stale (removeObjects fn fs) (objectPath fn sep) (harnessPath fn sep) = true := by
    have hnone : (removeObjects fn fs).mtime (objectPath fn sep) = none := by
      have := @fileExists_removeObjects fs _ sep hfn
      rw [fileExists, Option.isSome_eq_false_iff, Option.isNone_iff_eq_none] at this
      rw [mtime, this]
    rw [stale, hnone]
  rw [make, makeObject, hread]
  cases hs : readText fs (harnessPath fn sep) with
  | none => rfl
  | some source =>
      simp only [hstale, ↓reduceIte]
      cases hc : b.compiles with
      | false => rfl
      | true =>
          have hexe : stale ((removeObjects fn fs).write (objectPath fn sep) (.object source))
              (executablePath fn sep) (objectPath fn sep) = true :=
            stale_write _ (objectPath_ne_executablePath fn sep sep)
          simp only [↓reduceIte, makeExecutable, read_write_self, hexe]
          cases b.links <;> rfl

theorem fileExists_of_readText {p : Pathname} (h : (readText fs p).isSome = true) : fs.fileExists p = true := by
  unfold readText at h
  split at h
  · rename_i t hr
    exact fileExists_of_read hr
  · cases h

@[simp] theorem executableAt_write_self {p : Pathname} {source : Text} :
    executableAt (fs.write p (.executable source)) p = some source := by
  simp [executableAt]

theorem executableAt_write_ne {p q : Pathname} {c : Content} (hne : q ≠ p) :
    executableAt (fs.write p c) q = executableAt fs q := by
  rw [executableAt, executableAt, read_write_ne hne]

theorem executableAt_failedLink (f : FailedLink) {p : Pathname} :
    executableAt (f.apply p fs) p = f.source (executableAt fs p) := by
  cases f with
  | keeps => rfl
  | removes => simp [executableAt, FailedLink.apply, FailedLink.source, read_remove]
  | leaves c => cases c <;> simp [executableAt, FailedLink.apply, FailedLink.source]

/-- The executables after make: the linker has run when the compiler succeeds. -/
theorem executableAt_make (hfn : fn.head? ≠ some '.') :
    executableAt (make b fn sep (removeObjects fn fs)) (executablePath fn sep') =
      if executablePath fn sep' = executablePath fn sep ∧ (readText fs (harnessPath fn sep)).isSome = true ∧
        b.compiles = true
      then linkedSource b fs fn sep else executableAt fs (executablePath fn sep') := by
  have hold : executableAt (removeObjects fn fs) (executablePath fn sep') =
      executableAt fs (executablePath fn sep') :=
    executableAt_of_frame (@frame_removeObjects fn _) not_objectTouches_executable
  rw [make_removeObjects hfn]
  cases hs : readText fs (harnessPath fn sep) with
  | none => simpa using hold
  | some source =>
      cases hc : b.compiles with
      | false => simpa using hold
      | true =>
          have hobject := (@executableAt_write_ne (removeObjects fn fs) _ _ (.object source)
            (objectPath_ne_executablePath fn sep sep')).trans hold
          cases hl : b.links with
          | false =>
              by_cases he : executablePath fn sep' = executablePath fn sep
              · rw [he] at hobject
                simp [he, linkedSource, hl, executableAt_failedLink, hobject]
              · rw [if_neg (fun hand => he hand.1)]
                exact (executableAt_of_frame (frame_failedLink b.failed) he).trans hobject
          | true =>
              by_cases he : executablePath fn sep' = executablePath fn sep
              · simp [he, linkedSource, hl, hs]
              · rw [if_neg (fun hand => he hand.1)]
                exact (executableAt_write_ne he).trans hobject

/-- The object file is there after make when the compiler succeeds. -/
theorem fileExists_object_make (hfn : fn.head? ≠ some '.') :
    (make b fn sep (removeObjects fn fs)).fileExists (objectPath fn sep) = true ↔
      (readText fs (harnessPath fn sep)).isSome = true ∧ b.compiles = true := by
  have hgone := @fileExists_removeObjects fs _ sep hfn
  rw [make_removeObjects hfn]
  cases readText fs (harnessPath fn sep) with
  | none => simp [hgone]
  | some source =>
      cases b.compiles with
      | false => simp [hgone]
      | true =>
          have hne : objectPath fn sep ≠ executablePath fn sep := (objectPath_ne_executablePath fn sep sep).symm
          cases b.links with
          | true => simp [fileExists_write]
          | false => simp [(frame_failedLink b.failed).fileExists hne, fileExists_write]

end Make

/-! ## deepstate_compile_fun -/

section Compile

variable {h : Host} {b : BuildOutcome} {fn : Text} {sep sep' : Sep} {w : World}

/-- What the executables were built from after `deepstate_compile_fun`. -/
theorem executableAt_compileFun (hfn : fn.head? ≠ some '.') :
    executableAt (final (deepstateCompileFun h b fn sep) w).fs (executablePath fn sep') =
      if executablePath fn sep' = executablePath fn sep ∧ Compiles b w.fs fn sep
      then linkedSource b w.fs fn sep else executableAt w.fs (executablePath fn sep') := by
  rcases compileFun_cases h b fn sep w with ⟨hsep, _, hmake, w', hw', hfs⟩ | ⟨hnot, e, he⟩
  · rw [final_of_ok hw', hfs, executableAt_make hfn]
    refine if_congr ?_ rfl rfl
    simp [Compiles, hsep, hmake]
  · rw [final, he, if_neg]
    rintro ⟨_, hsep, hsome, hmake, _⟩
    exact hnot ⟨hsep, fileExists_of_readText hsome, hmake⟩

end Compile

/-! ## deepstate_fuzz_fun -/

/-- The executable an event ran. -/
def Event.ran : Event → Option (Option Text)
  | .run source => some source
  | _ => none

/-- The executables that ran between two worlds. -/
def ranSince (w w' : World) : List (Option Text) :=
  (w'.log.drop w.log.length).filterMap Event.ran

def NoRun (e : Event) : Prop := e.ran = none

theorem noRun_of_compileEvents {e : Event} (he : CompileEvents e) : NoRun e := by
  unfold CompileEvents at he
  split at he
  all_goals first | rfl | exact he.elim

theorem ranSince_eq {w w' : World} {es : List Event} (h : w'.log = w.log ++ es) :
    ranSince w w' = es.filterMap Event.ran := by
  rw [ranSince, h, List.drop_left]

section Fuzz

variable {h : Host} {o : FuzzOutcome} {fn : Text} {seed timeLimit : Int} {sep sep' : Sep} {w w' : World}

/-- The run itself: one executable runs, and the name is returned when the files of the build are there. -/
theorem runFuzzer_ok {name r : Option Text}
    (hok : runFuzzer h o name fn seed timeLimit sep w = .ok r w') :
    w'.fs = fuzzEffects o fn sep w.fs ∧ (∃ es, w'.log = w.log ++ es ∧
      es.filterMap Event.ran = [executableSource w.fs fn sep] ∧
      .system (runExecutable h name fn seed timeLimit sep) ∈ es) ∧
      (r = some fn → w'.fs.fileExists (objectPath fn sep) = true) := by
  have hrun : ∀ log, ∃ r', (do
      record (.system (runExecutable h name fn seed timeLimit sep))
      record (.run (executableSource (← files) fn sep))
      onFiles (fuzzEffects o fn sep)
      let fs ← files
      if fs.fileExists (objectPath fn sep) && fs.fileExists (executablePath fn sep) then
        return some fn
      else
        return none : Program (Option Text)) ⟨w.fs, log⟩ = .ok r' ⟨fuzzEffects o fn sep w.fs, log ++
          [.system (runExecutable h name fn seed timeLimit sep)] ++ [.run (executableSource w.fs fn sep)]⟩ ∧
        (r' = some fn → (fuzzEffects o fn sep w.fs).fileExists (objectPath fn sep) = true) := by
    intro log
    simp only [record_bind_apply, files_bind_apply, onFiles_bind_apply]
    split
    · rename_i hthere
      exact ⟨_, rfl, fun _ => (Bool.and_eq_true _ _ ▸ hthere).1⟩
    · exact ⟨_, rfl, fun hr => by cases hr⟩
  unfold runFuzzer at hok
  split at hok
  · rw [message_bind_apply] at hok
    obtain ⟨r', hr', hthere⟩ := hrun (w.log ++ [.message (.running (runExecutable h name fn seed timeLimit sep))])
    cases hr'.symm.trans hok
    exact ⟨rfl, ⟨_, by simp only [List.append_assoc]; rfl, rfl, by simp⟩, hthere⟩
  · obtain ⟨r', hr', hthere⟩ := hrun w.log
    cases hr'.symm.trans hok
    exact ⟨rfl, ⟨_, by simp only [List.append_assoc]; rfl, rfl, by simp⟩, hthere⟩

/-- A call that returns has compiled or found an object file, and then run. -/
theorem fuzzFun_ok {r : Option Text} (hok : deepstateFuzzFun h o fn seed timeLimit sep w = .ok r w') :
    ∃ log w₁, w.fs.dirExists testPath = true ∧ (∃ es, log = w.log ++ es ∧ ∀ e ∈ es, NoRun e) ∧
      ensureCompiled h o.build fn sep ⟨w.fs, log⟩ = .ok () w₁ ∧
      runFuzzer h o (packageNameIn w.fs) fn seed timeLimit sep w₁ = .ok r w' := by
  obtain ⟨log, hname⟩ := getPackageName_ok h w
  obtain ⟨es, hes, hquiet⟩ := (effects_getPackageName (T := fun _ => False) (P := NoRun) (h := h) rfl w).events
  rw [final_of_ok hname] at hes
  rw [deepstateFuzzFun, Command.bind_of_ok hname, files_bind_apply] at hok
  split at hok
  · rename_i hdir
    obtain ⟨_, w₁, hens, hend⟩ := bind_eq_ok.mp hok
    split at hend
    · cases hend
    · exact ⟨log, w₁, hdir, ⟨es, hes, hquiet⟩, hens, hend⟩
  · cases hok

/-- The part of a call before the run: a build, or nothing. -/
theorem executableAt_ensureCompiled (hfn : fn.head? ≠ some '.') (b : BuildOutcome) :
    executableAt (final (ensureCompiled h b fn sep) w).fs (executablePath fn sep') =
      if executablePath fn sep' = executablePath fn sep ∧ w.fs.fileExists (objectPath fn sep) = false ∧
        Compiles b w.fs fn sep
      then linkedSource b w.fs fn sep else executableAt w.fs (executablePath fn sep') := by
  rw [ensureCompiled, final_files_bind]
  cases hobj : w.fs.fileExists (objectPath fn sep) with
  | true => simp
  | false =>
      simp only [Bool.false_eq_true, ↓reduceIte, true_and]
      exact executableAt_compileFun hfn

theorem not_runTouches_executable (fn : Text) (sep sep' : Sep) :
    ¬ RunTouches fn sep (executablePath fn sep') := by
  rw [executablePath_eq]
  exact not_runTouches (by simp [buildExtensions])

/-- A fuzzing call compiles only when it finds no object file. -/
def FuzzCompiles (o : FuzzOutcome) (fs : FileSystem Content) (fn : Text) (sep : Sep) : Prop :=
  fs.dirExists testPath = true ∧ fs.fileExists (objectPath fn sep) = false ∧ Compiles o.build fs fn sep

def FuzzBuilds (o : FuzzOutcome) (fs : FileSystem Content) (fn : Text) (sep : Sep) : Prop :=
  FuzzCompiles o fs fn sep ∧ o.build.links = true

instance (o : FuzzOutcome) (fs : FileSystem Content) (fn : Text) (sep : Sep) :
    Decidable (FuzzCompiles o fs fn sep) := inferInstanceAs (Decidable (_ ∧ _))

instance (o : FuzzOutcome) (fs : FileSystem Content) (fn : Text) (sep : Sep) :
    Decidable (FuzzBuilds o fs fn sep) := inferInstanceAs (Decidable (_ ∧ _))

/-- What the executables were built from after `deepstate_fuzz_fun`. -/
theorem executableAt_fuzzFun (hfn : fn.head? ≠ some '.') :
    executableAt (final (deepstateFuzzFun h o fn seed timeLimit sep) w).fs (executablePath fn sep') =
      if executablePath fn sep' = executablePath fn sep ∧ FuzzCompiles o w.fs fn sep
      then linkedSource o.build w.fs fn sep else executableAt w.fs (executablePath fn sep') := by
  obtain ⟨log, hname⟩ := getPackageName_ok h w
  rw [deepstateFuzzFun, final_bind_of_ok hname, final_files_bind]
  cases hdir : w.fs.dirExists testPath with
  | false => simp [FuzzCompiles, hdir, final, stop_apply]
  | true =>
      have hens := @executableAt_ensureCompiled h _ sep sep' ⟨w.fs, log⟩ hfn o.build
      simp only [FuzzCompiles, hdir, true_and, ↓reduceIte]
      rw [← hens]
      cases hw₁ : ensureCompiled h o.build fn sep ⟨w.fs, log⟩ with
      | error e w₁ => rw [final_bind_of_error hw₁, final, hw₁]
      | ok a w₁ =>
          rw [final_bind_of_ok hw₁, final_of_ok hw₁]
          split
          · rfl
          · exact executableAt_of_frame (effects_runFuzzer o _ seed timeLimit w₁).frame
              (not_runTouches_executable fn sep sep')

end Fuzz

/-! ## Runs -/

/-- The operations on the directory of one function. -/
inductive DirectoryOperation
  | create (installed : Installation) (sep : Sep)
  | edit (sep : Sep) (text : Text)
  | compile (b : BuildOutcome) (sep : Sep)
  | fuzz (o : FuzzOutcome) (seed timeLimit : Int) (sep : Sep)

def DirectoryOperation.apply (h : Host) (fn : Text) : DirectoryOperation → World → World
  | .create installed sep => final (deepstateFunCreate h installed fn sep)
  | .edit sep text => fun w => { w with fs := w.fs.write (harnessPath fn sep) (.text text) }
  | .compile b sep => final (deepstateCompileFun h b fn sep)
  | .fuzz o seed timeLimit sep => final (deepstateFuzzFun h o fn seed timeLimit sep)

/-- A build that fails at the linker keeps the executable there was. -/
def DirectoryOperation.KeepsOld : DirectoryOperation → Prop
  | .compile b _ => b.failed = .keeps
  | .fuzz o _ _ _ => o.build.failed = .keeps
  | .create _ _ | .edit _ _ => True

/-- A run, and for every executable the contents of its harness when it was last built. -/
structure Session where
  world : World
  built : Pathname → Option Text

/-- A build that comes to its end takes the present contents of the harness. -/
def Session.rebuild (s : Session) (fn : Text) (sep : Sep) : Pathname → Option Text :=
  Function.update s.built (executablePath fn sep) (readText s.world.fs (harnessPath fn sep))

def DirectoryOperation.built (fn : Text) (s : Session) : DirectoryOperation → Pathname → Option Text
  | .compile b sep => if Builds b s.world.fs fn sep then s.rebuild fn sep else s.built
  | .fuzz o _ _ sep => if FuzzBuilds o s.world.fs fn sep then s.rebuild fn sep else s.built
  | .create _ _ | .edit _ _ => s.built

def DirectoryOperation.step (h : Host) (fn : Text) (op : DirectoryOperation) (s : Session) : Session :=
  ⟨op.apply h fn s.world, op.built fn s⟩

/-- Executables that are there before the run were built from what they remember. -/
def Session.start (w : World) : Session := ⟨w, executableAt w.fs⟩

def session (h : Host) (fn : Text) (ops : List DirectoryOperation) (w : World) : Session :=
  Run.run (DirectoryOperation.step h fn) ops (Session.start w)

/-- Every executable of the function was built from the contents its harness had at the last build. -/
def Session.Tracked (fn : Text) (s : Session) : Prop :=
  ∀ sep, executableAt s.world.fs (executablePath fn sep) = s.built (executablePath fn sep)

section Session

variable {h : Host} {fn : Text} {s : Session}

theorem executablePath_ne_harnessPath (fn : Text) (sep sep' : Sep) :
    executablePath fn sep ≠ harnessPath fn sep' :=
  fun hp => harnessPath_ne_executablePath fn fn sep' sep hp.symm

theorem Session.rebuild_apply (s : Session) (fn : Text) (sep sep' : Sep) :
    s.rebuild fn sep (executablePath fn sep') =
      if executablePath fn sep' = executablePath fn sep then readText s.world.fs (harnessPath fn sep)
      else s.built (executablePath fn sep') := by
  rw [Session.rebuild, Function.update_apply]

theorem linkedSource_of_keeps {b : BuildOutcome} {fs : FileSystem Content} {sep : Sep} (hb : b.failed = .keeps) :
    linkedSource b fs fn sep =
      if b.links then readText fs (harnessPath fn sep) else executableAt fs (executablePath fn sep) := by
  rw [linkedSource, hb, FailedLink.source]

/-- A build that keeps the old executable when it fails gives a new one when it comes to its end. -/
theorem tracked_build {b : BuildOutcome} {sep sep' : Sep} {c : Prop} [Decidable c] (hb : b.failed = .keeps)
    (hs : s.Tracked fn) :
    (if executablePath fn sep' = executablePath fn sep ∧ c then linkedSource b s.world.fs fn sep
      else executableAt s.world.fs (executablePath fn sep')) =
        (if c ∧ b.links = true then s.rebuild fn sep else s.built) (executablePath fn sep') := by
  have hs' := hs sep'
  rw [linkedSource_of_keeps hb]
  by_cases hp : executablePath fn sep' = executablePath fn sep
  · rw [hp] at hs' ⊢
    by_cases hc : c
    · cases hl : b.links <;> simp [hc, Session.rebuild_apply, hs']
    · simp [hc, hs']
  · simp only [hp, false_and, ↓reduceIte, hs']
    split <;> simp [Session.rebuild_apply, hp]

theorem tracked_step (hfn : fn.head? ≠ some '.') {op : DirectoryOperation} (hop : op.KeepsOld) (hs : s.Tracked fn) :
    (op.step h fn s).Tracked fn := by
  intro sep'
  cases op with
  | create installed sep =>
      refine (executableAt_of_frame (effects_funCreate s.world).frame ?_).trans (hs sep')
      intro ht
      rw [executablePath_eq] at ht
      have hp := eq_of_createTouches ht
      rw [← executablePath_eq] at hp
      exact executablePath_ne_harnessPath fn sep' sep hp
  | edit sep text => exact (executableAt_write_ne (executablePath_ne_harnessPath fn sep' sep)).trans (hs sep')
  | compile b sep => exact (executableAt_compileFun hfn).trans (tracked_build hop hs)
  | fuzz o seed timeLimit sep => exact (executableAt_fuzzFun hfn).trans (tracked_build hop hs)

theorem tracked_session (hfn : fn.head? ≠ some '.') {ops : List DirectoryOperation} (hops : ∀ op ∈ ops, op.KeepsOld)
    (w : World) : (session h fn ops w).Tracked fn :=
  Run.invariant (P := fun op _ => op.KeepsOld) (fun _ _ hop hs => tracked_step hfn hop hs)
    (Run.each_of_mem (fun op hop _ => hops op hop) _) (fun _ => rfl)

end Session

/-! ## The executable that runs -/

section Current

variable {h : Host} {fn : Text} {o : FuzzOutcome} {seed timeLimit : Int} {sep : Sep} {w w' : World}

/-- With an object file behind it, a compilation has compiled. -/
theorem compiles_of_object (hfn : fn.head? ≠ some '.') {w₁ : World} {b : BuildOutcome}
    (hobj : w.fs.fileExists (objectPath fn sep) = false)
    (hens : ensureCompiled h b fn sep w = .ok () w₁)
    (hthere : w₁.fs.fileExists (objectPath fn sep) = true) : Compiles b w.fs fn sep := by
  have hcompile : deepstateCompileFun h b fn sep w = .ok () w₁ := by
    rw [ensureCompiled, files_bind_apply, hobj] at hens
    exact hens
  rcases compileFun_cases h b fn sep w with ⟨hsep, _, hmake, w₂, hw₂, hfs⟩ | ⟨_, e, he⟩
  · cases hw₂.symm.trans hcompile
    rw [hfs, fileExists_object_make hfn] at hthere
    exact ⟨hsep, hthere.1, hmake, hthere.2⟩
  · cases he.symm.trans hcompile

/-- The executable a fuzzing call runs: the one the linker leaves, when there is no object file, or the one it
finds. -/
def executableRun (b : BuildOutcome) (fs : FileSystem Content) (fn : Text) (sep : Sep) : Option Text :=
  if fs.fileExists (objectPath fn sep) = false ∧ Compiles b fs fn sep then linkedSource b fs fn sep
  else executableAt fs (executablePath fn sep)

/-- A fuzzing call that returns has given its command, and run one executable. -/
theorem fuzzFun_events {r : Option Text} (hfn : fn.head? ≠ some '.')
    (hret : deepstateFuzzFun h o fn seed timeLimit sep w = .ok r w') :
    ∃ es, w'.log = w.log ++ es ∧ es.filterMap Event.ran = [executableRun o.build w.fs fn sep] ∧
      .system (runExecutable h (packageNameIn w.fs) fn seed timeLimit sep) ∈ es := by
  obtain ⟨log, w₁, _, ⟨es, hes, hquiet⟩, hens, hrun⟩ := fuzzFun_ok hret
  obtain ⟨_, ⟨es'', hes'', hran, hcommand⟩, _⟩ := runFuzzer_ok hrun
  -- The events before the run are no runs.
  have heff := @effects_ensureCompiled h fn sep o.build ⟨w.fs, log⟩
  rw [final_of_ok hens] at heff
  obtain ⟨es', hes', hquiet'⟩ := heff.events
  -- The executable is the one the compilation left.
  have hexe := @executableAt_ensureCompiled h _ sep sep ⟨w.fs, log⟩ hfn o.build
  rw [final_of_ok hens] at hexe
  refine ⟨es ++ (es' ++ es''), by rw [hes'', hes', hes]; simp, ?_, by simp [hcommand]⟩
  rw [List.filterMap_append, List.filterMap_append, List.filterMap_eq_nil_iff.mpr hquiet,
    List.filterMap_eq_nil_iff.mpr fun e he => noRun_of_compileEvents (hquiet' e he), hran, executableSource, hexe]
  simp [executableRun]

/-- What a fuzzing call that returns the name has run. -/
theorem ranSince_fuzzFun (hfn : fn.head? ≠ some '.')
    (hret : deepstateFuzzFun h o fn seed timeLimit sep w = .ok (some fn) w') :
    ranSince w w' = [if w.fs.fileExists (objectPath fn sep) = false then linkedSource o.build w.fs fn sep
      else executableAt w.fs (executablePath fn sep)] := by
  obtain ⟨log, w₁, _, _, hens, hrun⟩ := fuzzFun_ok hret
  obtain ⟨hfs, _, hthere⟩ := runFuzzer_ok hrun
  have hobj₁ : w₁.fs.fileExists (objectPath fn sep) = true := by
    have hframe : Frame (RunTouches fn sep) w₁.fs w'.fs := by
      rw [hfs]
      exact frame_fuzzEffects o
    rw [objectPath_eq, ← hframe.fileExists (not_runTouches (by simp [buildExtensions])), ← objectPath_eq]
    exact hthere rfl
  obtain ⟨es, hes, hran, _⟩ := fuzzFun_events hfn hret
  rw [ranSince_eq hes, hran, executableRun]
  congr 1
  refine if_congr ?_ rfl rfl
  cases hobj : w.fs.fileExists (objectPath fn sep) with
  | true => simp
  | false => simp [compiles_of_object hfn (w := ⟨w.fs, log⟩) hobj hens hobj₁]

/-- When failing builds keep the old executable: in every run, a fuzzing call that returns the name has run the
present contents of the harness exactly when it has built the executable itself, or the harness has the contents of
the last build. -/
theorem fuzz_current_iff {ops : List DirectoryOperation} (hfn : fn.head? ≠ some '.')
    (hops : ∀ op ∈ ops, op.KeepsOld) (hlast : o.build.failed = .keeps)
    (hret : deepstateFuzzFun h o fn seed timeLimit sep (session h fn ops w).world = .ok (some fn) w') :
    ranSince (session h fn ops w).world w' = [readText w'.fs (harnessPath fn sep)] ↔
      ((session h fn ops w).world.fs.fileExists (objectPath fn sep) = false ∧ o.build.links = true) ∨
        (session h fn ops w).built (executablePath fn sep) =
          readText (session h fn ops w).world.fs (harnessPath fn sep) := by
  have hkeep : readText w'.fs (harnessPath fn sep) =
      readText (session h fn ops w).world.fs (harnessPath fn sep) := by
    have heff := @effects_fuzzFun h fn sep o seed timeLimit (session h fn ops w).world
    rw [final_of_ok hret] at heff
    exact readText_of_frame heff.frame not_fuzzTouches_harness
  rw [ranSince_fuzzFun hfn hret, hkeep, linkedSource_of_keeps hlast, ← ite_and, tracked_session hfn hops w sep,
    List.singleton_inj]
  split
  · rename_i hlinks
    exact ⟨fun _ => Or.inl hlinks, fun _ => rfl⟩
  · rename_i hlinks
    exact ⟨Or.inr, fun hor => hor.resolve_left hlinks⟩

end Current

/-! ## A stale run -/

/-- A function directory with the makefile that is written for it. -/
def sampleDirectory : World := final (writeMakefile sampleHost "f") ⟨FileSystem.empty, []⟩

def sampleFuzz : FuzzOutcome := ⟨⟨true, true, .keeps⟩, [], [], []⟩

/-- The user writes a harness, compiles it, edits it, and the next build fails at the linker. -/
def sampleSession : Session :=
  session sampleHost "f" [.edit .infun "int x;", .compile ⟨true, true, .keeps⟩ .infun, .edit .infun "int y;",
    .compile ⟨true, false, .keeps⟩ .infun] sampleDirectory

theorem fuzz_current_sample : ∃ w', deepstateFuzzFun sampleHost sampleFuzz "f" (-1) 2 .infun
      sampleSession.world = .ok (some ("f" : Text)) w' ∧
    (ranSince sampleSession.world w' = [readText w'.fs (harnessPath "f" .infun)] ↔
      (sampleSession.world.fs.fileExists (objectPath "f" .infun) = false ∧ sampleFuzz.build.links = true) ∨
        sampleSession.built (executablePath "f" .infun) =
          readText sampleSession.world.fs (harnessPath "f" .infun)) := by
  have hret := ok_of_value? (m := deepstateFuzzFun sampleHost sampleFuzz "f" (-1) 2 .infun)
    (s := sampleSession.world) (a := some ("f" : Text)) (by with_unfolding_all decide)
  exact ⟨_, hret, fuzz_current_iff (by with_unfolding_all decide) (by simp [DirectoryOperation.KeepsOld]) rfl hret⟩

/-- The user edits the harness once it is compiled. -/
def editedSession : Session :=
  session sampleHost "f" [.edit .infun "int x;", .compile ⟨true, true, .keeps⟩ .infun, .edit .infun "int y;"]
    sampleDirectory

theorem fuzz_runs_stale : ¬ ∀ (h : Host) (fn : Text) (ops : List DirectoryOperation) (w : World)
    (o : FuzzOutcome) (seed timeLimit : Int) (sep : Sep) (w' : World), fn.head? ≠ some '.' →
      (∀ op ∈ ops, op.KeepsOld) → o.build.failed = .keeps →
      deepstateFuzzFun h o fn seed timeLimit sep (session h fn ops w).world = .ok (some fn) w' →
        ranSince (session h fn ops w).world w' = [readText w'.fs (harnessPath fn sep)] := by
  intro hall
  have hret := ok_of_value? (m := deepstateFuzzFun sampleHost sampleFuzz "f" (-1) 2 .infun)
    (s := editedSession.world) (a := some ("f" : Text)) (by with_unfolding_all decide)
  have hran := hall _ _ _ _ _ _ _ _ _ (by with_unfolding_all decide) (by simp [DirectoryOperation.KeepsOld]) rfl hret
  exact absurd hran (by with_unfolding_all decide)

end RcppDeepState
