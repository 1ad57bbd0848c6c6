import RcppDeepState.Package.Lemmas.Created
import RcppDeepState.Runs.Staleness

/-!
# The loop over the function directories

`deepstate_harness_compile_run` fuzzes every name in `inst/testfiles`, each in its own directory, and goes
on exactly as long as there is something to compile or to run.
-/

namespace RcppDeepState

open Command FileSystem

/-! ## Fuzzing one directory -/

section Fuzz

variable {h : Host} {o : FuzzOutcome} {b : BuildOutcome} {fn n : Text} {seed timeLimit : Int} {w w' : World}

theorem runFuzzer_returns (h : Host) (o : FuzzOutcome) (name : Option Text) (fn : Text) (seed timeLimit : Int)
    (w : World) : ∃ r w', runFuzzer h o name fn seed timeLimit .infun w = .ok r w' := by
  unfold runFuzzer
  rw [ite_apply]
  simp only [message_bind_apply, record_bind_apply, files_bind_apply, onFiles_bind_apply, ite_apply, pure_apply]
  split <;> split <;> exact ⟨_, _, rfl⟩

/-- Below an existing `inst/testfiles`, fuzzing returns exactly when the directory is fuzzable. -/
theorem fuzzFun_returns_iff (hdir : w.fs.dirExists testPath = true) (ht : 0 < timeLimit) :
    (∃ r w', deepstateFuzzFun h o fn seed timeLimit .infun w = .ok r w') ↔ Fuzzable w.fs fn := by
  obtain ⟨log, hname⟩ := getPackageName_ok h w
  rw [deepstateFuzzFun, Command.bind_of_ok hname, files_bind_apply, if_pos hdir]
  constructor
  · rintro ⟨r, w', hok⟩
    obtain ⟨_, w₁, hens, _⟩ := bind_eq_ok.mp hok
    obtain ⟨hf, _⟩ | ⟨_, e, he⟩ := ensureCompiled_cases h o.build fn ⟨w.fs, log⟩
    · exact hf
    · rw [he] at hens
      cases hens
  · intro hf
    obtain ⟨_, w₁, hens⟩ | ⟨hnot, _⟩ := ensureCompiled_cases h o.build fn ⟨w.fs, log⟩
    · obtain ⟨r, w', hrun⟩ := runFuzzer_returns h o (packageNameIn w.fs) fn seed timeLimit w₁
      refine ⟨r, w', bind_eq_ok.mpr ⟨(), w₁, hens, ?_⟩⟩
      rw [if_neg (by omega)]
      exact hrun
    · exact absurd hf hnot

theorem fuzzTouches_below {p : Pathname} (hp : FuzzTouches fn .infun p) : funPath fn <+: p ∧ p ≠ funPath fn := by
  obtain (⟨m, rfl, _⟩ | rfl) | rfl | ⟨m, rfl⟩ | ⟨m, rfl⟩ := hp
  all_goals
    constructor
    · simp [executablePath, logFile, outputDir, inputsPath]
    · simp [executablePath, logFile, outputDir, inputsPath]

/-- Fuzzing a function leaves the other directories, and all directories, as they are. -/
theorem not_fuzzTouches_of_ne {p : Pathname} (hne : n ≠ fn) (hp : funPath n <+: p) : ¬ FuzzTouches fn .infun p := by
  intro ht
  obtain ⟨⟨rest, rfl⟩, _⟩ := fuzzTouches_below ht
  exact hne (eq_of_funPath_extends hp)

theorem not_fuzzTouches_directory {p : Pathname} (hp : p.length ≤ 3) : ¬ FuzzTouches fn .infun p := by
  intro ht
  obtain ⟨hbelow, hne⟩ := fuzzTouches_below ht
  exact hne (hbelow.eq_of_length_le (by simpa [funPath, testPath] using hp)).symm

theorem fuzzFun_frame {r : Option Text} (hok : deepstateFuzzFun h o fn seed timeLimit .infun w = .ok r w') :
    Frame (FuzzTouches fn .infun) w.fs w'.fs := by
  have heff := @effects_fuzzFun h fn .infun o seed timeLimit w
  rw [final_of_ok hok] at heff
  exact heff.frame

theorem fuzzFun_same {r : Option Text} (hok : deepstateFuzzFun h o fn seed timeLimit .infun w = .ok r w')
    (hne : n ≠ fn) : SameDirectory n w.fs w'.fs :=
  fun p hp => fuzzFun_frame hok p (not_fuzzTouches_of_ne hne hp)

theorem fuzzFun_testPath {r : Option Text} (hok : deepstateFuzzFun h o fn seed timeLimit .infun w = .ok r w')
    (hdir : w.fs.dirExists testPath = true) : w'.fs.dirExists testPath = true := by
  rw [(fuzzFun_frame hok).dirExists (not_fuzzTouches_directory (by simp [testPath]))]
  exact hdir

end Fuzz

/-! ## The loop over the directories -/

/-- The lists of uncompiled functions an event reports. -/
def Event.uncompiled : Event → Option (List Text)
  | .message (.uncompiled functions) => some functions
  | _ => none

/-- The directory does not change what fuzzing finds. -/
theorem SameDirectory.fuzzable {n : Text} {fs fs' : FileSystem Content} (hsame : SameDirectory n fs fs') :
    Fuzzable fs' n ↔ Fuzzable fs n := by
  simp only [Fuzzable, objectPath, harnessPath, makefilePath, hsame.fileExists]

theorem SameDirectory.read {n : Text} {fs fs' : FileSystem Content} (hsame : SameDirectory n fs fs') (m : Text) :
    fs'.read (funPath n ++ [m]) = fs.read (funPath n ++ [m]) := by
  simp only [FileSystem.read, hsame.node?]

theorem SameDirectory.executableRun {n : Text} {fs fs' : FileSystem Content} (hsame : SameDirectory n fs fs')
    (b : BuildOutcome) : executableRun b fs' n .infun = executableRun b fs n .infun := by
  have hread : readText fs' (harnessPath n .infun) = readText fs (harnessPath n .infun) := by
    simp only [readText, harnessPath, hsame.read]
  have hexe : executableAt fs' (executablePath n .infun) = executableAt fs (executablePath n .infun) := by
    simp only [executableAt, executablePath, hsame.read]
  unfold RcppDeepState.executableRun
  refine if_congr ?_ ?_ hexe
  · simp only [Compiles, hread, objectPath, makefilePath, hsame.fileExists]
  · rw [linkedSource, linkedSource, hread, hexe]

section Loop

variable {h : Host} {fuzz : Text → FuzzOutcome} {seed timeLimit : Int} {lists lists' : List Text × List Text}
  {w w' : World}

/-- One round puts the function into one of the lists, and changes its own directory only. -/
theorem fuzzOne_ok {fn : Text} (hok : fuzzOne h fuzz seed timeLimit lists fn w = .ok lists' w') :
    (∃ r, deepstateFuzzFun h (fuzz fn) fn seed timeLimit .infun w = .ok r w') ∧
      (lists' = (lists.1 ++ [fn], lists.2) ∨ lists' = (lists.1, lists.2 ++ [fn])) := by
  obtain ⟨r, w₁, hcall, hend⟩ := bind_eq_ok.mp hok
  split at hend
  · cases hend
    exact ⟨⟨r, hcall⟩, Or.inl rfl⟩
  · cases hend
    exact ⟨⟨r, hcall⟩, Or.inr rfl⟩

theorem uncompiled_of_buildEvents {e : Event} (he : BuildEvents e) : e.uncompiled = none := by
  unfold BuildEvents at he
  split at he
  all_goals first | rfl | exact he.elim

/-- What a loop over different directories does when it returns. -/
structure FuzzedAll (h : Host) (fuzz : Text → FuzzOutcome) (seed timeLimit : Int) (ns : List Text) (w w' : World)
    (compiled uncompiled : List Text) : Prop where
  fuzzable : ∀ n ∈ ns, Fuzzable w.fs n
  lists : (compiled ++ uncompiled).Perm ns
  events : ∃ es, w'.log = w.log ++ es ∧
    es.filterMap Event.ran = ns.map (fun n => executableRun (fuzz n).build w.fs n .infun) ∧
    (∀ n ∈ ns, .system (runExecutable h (packageNameIn w.fs) n seed timeLimit .infun) ∈ es) ∧
    es.filterMap Event.uncompiled = []
  frame : Frame (fun p => ∃ n, FuzzTouches n .infun p) w.fs w'.fs

theorem fuzzLoop_ok {ns : List Text} (hnodup : ns.Nodup) (hvisible : ∀ n ∈ ns, n.head? ≠ some '.')
    (hdir : w.fs.dirExists testPath = true) (ht : 0 < timeLimit)
    (hok : ns.foldlM (fuzzOne h fuzz seed timeLimit) lists w = .ok lists' w') :
    ∃ compiled uncompiled, lists' = (lists.1 ++ compiled, lists.2 ++ uncompiled) ∧
      FuzzedAll h fuzz seed timeLimit ns w w' compiled uncompiled := by
  induction ns generalizing lists w with
  | nil =>
      cases hok
      exact ⟨[], [], by simp, by simp, List.Perm.nil, ⟨[], by simp, rfl, by simp, rfl⟩, Frame.refl _⟩
  | cons n ns ih =>
      rw [List.foldlM_cons] at hok
      obtain ⟨lists₁, w₁, hone, hrest⟩ := bind_eq_ok.mp hok
      obtain ⟨⟨r, hcall⟩, hlists⟩ := fuzzOne_ok hone
      have hframe := fuzzFun_frame hcall
      have hsame : ∀ m ∈ ns, SameDirectory m w.fs w₁.fs := fun m hm =>
        fuzzFun_same hcall fun he => (List.nodup_cons.mp hnodup).1 (he ▸ hm)
      have hname : packageNameIn w₁.fs = packageNameIn w.fs := by
        rw [packageNameIn, readText, hframe.read (not_fuzzTouches_directory (by simp [descriptionPath])),
          packageNameIn, readText]
      obtain ⟨compiled, uncompiled, hlists', hall⟩ := ih (List.nodup_cons.mp hnodup).2
        (fun m hm => hvisible m (by simp [hm])) (fuzzFun_testPath hcall hdir) hrest
      obtain ⟨es, hes, hran, hcommand⟩ := fuzzFun_events (hvisible n (by simp)) hcall
      have hquiet : es.filterMap Event.uncompiled = [] := by
        obtain ⟨es₁, hes₁, hbuild⟩ := (effects_fuzzFun (fuzz n) seed timeLimit w).events
        rw [final_of_ok hcall] at hes₁
        obtain rfl : es₁ = es := List.append_cancel_left (hes₁.symm.trans hes)
        exact List.filterMap_eq_nil_iff.mpr fun e he => uncompiled_of_buildEvents (hbuild e he)
      obtain ⟨es', hes', hran', hcommand', hquiet'⟩ := hall.events
      have hfuzzed : ∀ c u, (c ++ u).Perm (n :: ns) → FuzzedAll h fuzz seed timeLimit (n :: ns) w w' c u := by
        intro c u hperm
        refine ⟨?_, hperm, ⟨es ++ es', by rw [hes', hes, List.append_assoc], ?_, ?_, ?_⟩, ?_⟩
        · intro m hm
          rcases List.mem_cons.mp hm with rfl | hm
          · exact (fuzzFun_returns_iff hdir ht).mp ⟨r, w₁, hcall⟩
          · exact (hsame m hm).fuzzable.mp (hall.fuzzable m hm)
        · rw [List.filterMap_append, hran, hran', List.map_cons, List.singleton_append]
          congr 1
          exact List.map_congr_left fun m hm => (hsame m hm).executableRun _
        · intro m hm
          rcases List.mem_cons.mp hm with rfl | hm
          · exact List.mem_append.mpr (Or.inl hcommand)
          · have hm' := hcommand' m hm
            rw [hname] at hm'
            exact List.mem_append.mpr (Or.inr hm')
        · rw [List.filterMap_append, hquiet, hquiet', List.append_nil]
        · exact Frame.trans (hframe.mono fun _ hp => ⟨n, hp⟩) hall.frame
      rcases hlists with rfl | rfl
      · exact ⟨n :: compiled, uncompiled, by simp [hlists'], hfuzzed _ _ (hall.lists.cons n)⟩
      · exact ⟨compiled, n :: uncompiled, by simp [hlists'],
          hfuzzed _ _ (List.perm_middle.trans (hall.lists.cons n))⟩

/-- The loop goes through directories that are all fuzzable. -/
theorem fuzzLoop_returns {ns : List Text} (hnodup : ns.Nodup) (hdir : w.fs.dirExists testPath = true)
    (ht : 0 < timeLimit) (hf : ∀ n ∈ ns, Fuzzable w.fs n) :
    ∃ lists' w', ns.foldlM (fuzzOne h fuzz seed timeLimit) lists w = .ok lists' w' := by
  induction ns generalizing lists w with
  | nil => exact ⟨_, _, rfl⟩
  | cons n ns ih =>
      obtain ⟨r, w₁, hcall⟩ : ∃ r w₁, deepstateFuzzFun h (fuzz n) n seed timeLimit .infun w = .ok r w₁ :=
        (fuzzFun_returns_iff hdir ht).mpr (hf n (by simp))
      have hone : ∃ lists₁, fuzzOne h fuzz seed timeLimit lists n w = .ok lists₁ w₁ := by
        rw [fuzzOne, Command.bind_of_ok hcall]
        split <;> exact ⟨_, rfl⟩
      obtain ⟨lists₁, hone⟩ := hone
      have hf₁ : ∀ m ∈ ns, Fuzzable w₁.fs m := by
        intro m hm
        have hsame := fuzzFun_same hcall fun he => (List.nodup_cons.mp hnodup).1 (he ▸ hm)
        exact hsame.fuzzable.mpr (hf m (by simp [hm]))
      obtain ⟨lists', w', hrest⟩ : ∃ lists' w', ns.foldlM (fuzzOne h fuzz seed timeLimit) lists₁ w₁ = .ok lists' w' :=
        ih (List.nodup_cons.mp hnodup).2 (fuzzFun_testPath hcall hdir) hf₁
      exact ⟨lists', w', by rw [List.foldlM_cons, Command.bind_of_ok hone]; exact hrest⟩

end Loop

/-! ## The whole run -/

section CompileRun

variable {h : Host} {o : CompileRunOutcome} {timeLimit seed : Int} {harness compiled : List Text} {w w₁ w₂ : World}

/-- The run after the package call. -/
theorem compileRun_apply (ht : 0 < timeLimit) (hpkg : deepstatePkgCreate h o.pkg w = .ok harness w₁) :
    deepstateHarnessCompileRun h o timeLimit seed w =
      (if sysGlob h w₁.fs testPath = [] then
        stop "TestHarness are not created for all the function that are returned by pkg create"
      else do
        let lists ← (sysGlob h w₁.fs testPath).foldlM (fuzzOne h o.fuzz seed timeLimit) ([], [])
        if lists.2 ≠ [] then message (.uncompiled lists.2)
        return lists.1) w₁ := by
  rw [deepstateHarnessCompileRun, if_neg (by omega), Command.bind_of_ok hpkg, files_bind_apply]

/-- A run that returns has found names in `inst/testfiles`, and the path fits itself. -/
theorem compileRun_ok (hpkg : deepstatePkgCreate h o.pkg w = .ok harness w₁)
    (hok : deepstateHarnessCompileRun h o timeLimit seed w = .ok compiled w₂) :
    0 < timeLimit ∧ h.globs testPath = true ∧ w₁.fs.dirExists testPath = true ∧ ∃ uncompiled w₃,
      FuzzedAll h o.fuzz seed timeLimit (w₁.fs.listFiles testPath) w₁ w₃ compiled uncompiled ∧
      w₂ = ⟨w₃.fs, w₃.log ++ if uncompiled = [] then [] else [.message (.uncompiled uncompiled)]⟩ := by
  have ht : 0 < timeLimit := by
    by_contra hno
    rw [deepstateHarnessCompileRun, if_pos (by omega)] at hok
    cases hok
  rw [compileRun_apply ht hpkg] at hok
  split at hok
  · cases hok
  · rename_i hne
    have hg := globs_of_sysGlob_ne_nil hne
    rw [sysGlob_of_globs hg] at hne hok
    obtain ⟨lists, w₃, hloop, hend⟩ := bind_eq_ok.mp hok
    have hdir : w₁.fs.dirExists testPath = true := by
      obtain ⟨n, ns, hns⟩ := List.exists_cons_of_ne_nil hne
      rw [hns, List.foldlM_cons] at hloop
      obtain ⟨_, _, hone, _⟩ := bind_eq_ok.mp hloop
      obtain ⟨⟨r, hcall⟩, _⟩ := fuzzOne_ok hone
      obtain ⟨_, _, hdir, _⟩ := fuzzFun_ok hcall
      exact hdir
    obtain ⟨c, u, rfl, hall⟩ := fuzzLoop_ok (nodup_listFiles _ _) (fun n hn => (mem_listFiles.mp hn).2) hdir ht hloop
    refine ⟨ht, hg, hdir, u, w₃, ?_⟩
    split at hend
    · rename_i hu
      cases hend
      exact ⟨hall, by rw [if_neg (by simpa using hu)]; rfl⟩
    · rename_i hu
      cases hend
      exact ⟨hall, by rw [if_pos (by simpa using hu)]; simp⟩

theorem compileRun_returns (ht : 0 < timeLimit) (hpkg : deepstatePkgCreate h o.pkg w = .ok harness w₁)
    (hg : h.globs testPath = true) (hdir : w₁.fs.dirExists testPath = true) (hne : w₁.fs.listFiles testPath ≠ [])
    (hf : ∀ n ∈ w₁.fs.listFiles testPath, Fuzzable w₁.fs n) :
    ∃ compiled w₂, deepstateHarnessCompileRun h o timeLimit seed w = .ok compiled w₂ := by
  obtain ⟨lists, w₃, hloop⟩ : ∃ lists w₃, (w₁.fs.listFiles testPath).foldlM
      (fuzzOne h o.fuzz seed timeLimit) ([], []) w₁ = .ok lists w₃ :=
    fuzzLoop_returns (nodup_listFiles _ _) hdir ht hf
  rw [compileRun_apply ht hpkg, sysGlob_of_globs hg, if_neg hne, Command.bind_of_ok hloop]
  split <;> exact ⟨_, _, rfl⟩

end CompileRun

end RcppDeepState
