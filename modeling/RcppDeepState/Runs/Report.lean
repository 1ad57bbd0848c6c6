import RcppDeepState.Runs.Leftovers

/-!
# What a run reports as compiled

`deepstate_harness_compile_run` returns the functions whose object file and executable it finds after it
has run them, and names the others in a message. An executable of an earlier build counts, so a function
whose build fails at a linker that keeps the old one is returned as compiled.
-/

namespace RcppDeepState

open Command FileSystem

/-! ## The files of a build -/

/-- The object file and the executable of a harness are there. -/
def BuildThere (fs : FileSystem Content) (fn : Text) (sep : Sep) : Prop :=
  fs.fileExists (objectPath fn sep) = true ∧ fs.fileExists (executablePath fn sep) = true

/-- Whether a linker that fails leaves a file, given whether one was there. -/
def FailedLink.leavesFile (f : FailedLink) (there : Bool) : Bool :=
  match f with
  | .keeps => there
  | .removes => false
  | .leaves _ => true

/-- A fuzzing call leaves the files of a build. An object file is taken as it is, and with it the
executable; without one the compiler has to succeed, and the linker too unless it leaves a file when it fails. -/
def LeavesBuild (b : BuildOutcome) (fs : FileSystem Content) (fn : Text) (sep : Sep) : Prop :=
  BuildThere fs fn sep ∨ fs.fileExists (objectPath fn sep) = false ∧
    (readText fs (harnessPath fn sep)).isSome = true ∧ b.compiles = true ∧
      (b.links = true ∨ b.failed.leavesFile (fs.fileExists (executablePath fn sep)) = true)

instance (fs : FileSystem Content) (fn : Text) (sep : Sep) : Decidable (BuildThere fs fn sep) :=
  inferInstanceAs (Decidable (_ ∧ _))

instance (b : BuildOutcome) (fs : FileSystem Content) (fn : Text) (sep : Sep) :
    Decidable (LeavesBuild b fs fn sep) := inferInstanceAs (Decidable (_ ∨ _))

section Fuzz

variable {h : Host} {o : FuzzOutcome} {b : BuildOutcome} {fs fs' : FileSystem Content} {fn n : Text}
  {seed timeLimit : Int} {sep : Sep} {w w' w₁ : World}

theorem buildThere_of_frame {T : Pathname → Prop} (hframe : Frame T fs fs') (hobject : ¬ T (objectPath fn sep))
    (hexe : ¬ T (executablePath fn sep)) : BuildThere fs' fn sep ↔ BuildThere fs fn sep := by
  rw [BuildThere, BuildThere, hframe.fileExists hobject, hframe.fileExists hexe]

theorem fileExists_failedLink (f : FailedLink) {p : Pathname} :
    (f.apply p fs).fileExists p = f.leavesFile (fs.fileExists p) := by
  cases f <;> simp [FailedLink.apply, FailedLink.leavesFile, fileExists_remove, fileExists_write]

/-- make leaves the files of a build when the compiler succeeds, and the linker too unless it leaves a file. -/
theorem buildThere_make (hfn : fn.head? ≠ some '.') :
    BuildThere (make b fn sep (removeObjects fn fs)) fn sep ↔
      (readText fs (harnessPath fn sep)).isSome = true ∧ b.compiles = true ∧
        (b.links = true ∨ b.failed.leavesFile (fs.fileExists (executablePath fn sep)) = true) := by
  have hkept : (removeObjects fn fs).fileExists (executablePath fn sep) = fs.fileExists (executablePath fn sep) :=
    (@frame_removeObjects fn _).fileExists not_objectTouches_executable
  rw [BuildThere, fileExists_object_make hfn, make_removeObjects hfn]
  cases readText fs (harnessPath fn sep) with
  | none => simp
  | some source =>
      cases b.compiles with
      | false => simp
      | true =>
          cases b.links with
          | true => simp [fileExists_write]
          | false => simp [fileExists_failedLink, fileExists_write, hkept, objectPath_ne_executablePath]

theorem buildThere_ensureCompiled (hfn : fn.head? ≠ some '.') (hok : ensureCompiled h b fn sep w = .ok () w₁) :
    BuildThere w₁.fs fn sep ↔ LeavesBuild b w.fs fn sep := by
  rw [ensureCompiled, files_bind_apply] at hok
  cases hobject : w.fs.fileExists (objectPath fn sep) with
  | true =>
      rw [if_pos hobject] at hok
      cases hok
      simp [BuildThere, LeavesBuild, hobject]
  | false =>
      rw [if_neg (by simp [hobject])] at hok
      rcases compileFun_cases h b fn sep w with ⟨_, _, _, w₂, hw₂, hfs⟩ | ⟨_, e, he⟩
      · cases hw₂.symm.trans hok
        rw [hfs, buildThere_make hfn]
        simp [BuildThere, LeavesBuild, hobject]
      · cases he.symm.trans hok

/-- The fuzzer's call returns the name when the files of the build are there afterwards. -/
theorem runFuzzer_reports {name r : Option Text} (hok : runFuzzer h o name fn seed timeLimit sep w = .ok r w') :
    r = if BuildThere w'.fs fn sep then some fn else none := by
  unfold runFuzzer at hok
  rw [ite_apply] at hok
  simp only [message_bind_apply, record_bind_apply, files_bind_apply, onFiles_bind_apply, ite_apply,
    pure_apply, Bool.and_eq_true] at hok
  have hcase : ∀ {log : List Event}, (if (fuzzEffects o fn sep w.fs).fileExists (objectPath fn sep) = true ∧
        (fuzzEffects o fn sep w.fs).fileExists (executablePath fn sep) = true
      then EStateM.Result.ok (ε := Text) (some fn) (World.mk (fuzzEffects o fn sep w.fs) log)
      else .ok none (World.mk (fuzzEffects o fn sep w.fs) log)) = .ok r w' →
      r = if BuildThere w'.fs fn sep then some fn else none := by
    intro log hend
    split at hend
    · rename_i hthere
      cases hend
      exact (if_pos hthere).symm
    · rename_i hthere
      cases hend
      exact (if_neg hthere).symm
  split at hok
  · exact hcase hok
  · exact hcase hok

/-- A fuzzing call that returns gives the name exactly when it leaves the files of a build. -/
theorem fuzzFun_reports {r : Option Text} (hfn : fn.head? ≠ some '.')
    (hok : deepstateFuzzFun h o fn seed timeLimit sep w = .ok r w') :
    (BuildThere w'.fs fn sep ↔ LeavesBuild o.build w.fs fn sep) ∧
      r = if LeavesBuild o.build w.fs fn sep then some fn else none := by
  obtain ⟨log, w₁, _, _, hens, hrun⟩ := fuzzFun_ok hok
  have hleaves : BuildThere w'.fs fn sep ↔ LeavesBuild o.build w.fs fn sep := by
    have hframe : Frame (RunTouches fn sep) w₁.fs w'.fs := by
      rw [(runFuzzer_ok hrun).1]
      exact frame_fuzzEffects o
    have hobject : ¬ RunTouches fn sep (objectPath fn sep) := by
      rw [objectPath_eq]
      exact not_runTouches (by simp [buildExtensions])
    exact (buildThere_of_frame hframe hobject (not_runTouches_executable fn sep sep)).trans
      (buildThere_ensureCompiled hfn (w := ⟨w.fs, log⟩) hens)
  exact ⟨hleaves, (runFuzzer_reports hrun).trans (if_congr hleaves rfl rfl)⟩

theorem SameDirectory.buildThere (hsame : SameDirectory n fs fs') : BuildThere fs' n sep ↔ BuildThere fs n sep := by
  simp only [BuildThere, objectPath, executablePath, hsame.fileExists]

theorem SameDirectory.leavesBuild (hsame : SameDirectory n fs fs') :
    LeavesBuild b fs' n sep ↔ LeavesBuild b fs n sep := by
  have hread : readText fs' (harnessPath n sep) = readText fs (harnessPath n sep) := by
    simp only [readText, harnessPath, hsame.read]
  simp only [LeavesBuild, BuildThere, hread, objectPath, executablePath, hsame.fileExists]

end Fuzz

/-! ## The loop -/

/-- The functions of a list whose call leaves the files of a build, and the others. -/
def Built (fuzz : Text → FuzzOutcome) (fs : FileSystem Content) (ns : List Text) : List Text :=
  ns.filter fun n => LeavesBuild (fuzz n).build fs n .infun

def Unbuilt (fuzz : Text → FuzzOutcome) (fs : FileSystem Content) (ns : List Text) : List Text :=
  ns.filter fun n => ¬ LeavesBuild (fuzz n).build fs n .infun

section Loop

variable {h : Host} {fuzz : Text → FuzzOutcome} {seed timeLimit : Int} {lists lists' : List Text × List Text}
  {fn n : Text} {w w' : World}

/-- One round adds the function to the list it belongs to. -/
theorem fuzzOne_reports (hfn : fn.head? ≠ some '.')
    (hok : fuzzOne h fuzz seed timeLimit lists fn w = .ok lists' w') :
    lists' = (lists.1 ++ Built fuzz w.fs [fn], lists.2 ++ Unbuilt fuzz w.fs [fn]) ∧
      (BuildThere w'.fs fn .infun ↔ LeavesBuild (fuzz fn).build w.fs fn .infun) := by
  obtain ⟨r, w₁, hcall, hend⟩ := bind_eq_ok.mp hok
  obtain ⟨hleaves, hr⟩ := fuzzFun_reports hfn hcall
  by_cases hb : LeavesBuild (fuzz fn).build w.fs fn .infun
  · rw [if_pos (hr.trans (if_pos hb))] at hend
    cases hend
    exact ⟨by simp [Built, Unbuilt, hb], hleaves⟩
  · rw [if_neg (by simp [hr, hb])] at hend
    cases hend
    exact ⟨by simp [Built, Unbuilt, hb], hleaves⟩

theorem filter_leavesBuild_congr {fs fs' : FileSystem Content} {ns : List Text}
    (hsame : ∀ n ∈ ns, SameDirectory n fs fs') :
    Built fuzz fs' ns = Built fuzz fs ns ∧ Unbuilt fuzz fs' ns = Unbuilt fuzz fs ns := by
  constructor
  · exact List.filter_congr fun n hn => by simp only [(hsame n hn).leavesBuild]
  · exact List.filter_congr fun n hn => by simp only [(hsame n hn).leavesBuild]

/-- The loop sorts the functions by what their calls leave, each call seeing its directory as the loop found
it, and the tree at the end has the files of exactly the installed it reports. -/
theorem fuzzLoop_reports {ns : List Text} (hnodup : ns.Nodup) (hvisible : ∀ n ∈ ns, n.head? ≠ some '.')
    (hok : ns.foldlM (fuzzOne h fuzz seed timeLimit) lists w = .ok lists' w') :
    lists' = (lists.1 ++ Built fuzz w.fs ns, lists.2 ++ Unbuilt fuzz w.fs ns) ∧
      (∀ n ∈ ns, BuildThere w'.fs n .infun ↔ LeavesBuild (fuzz n).build w.fs n .infun) ∧
      ∀ n ∉ ns, SameDirectory n w.fs w'.fs := by
  induction ns generalizing lists w with
  | nil =>
      cases hok
      exact ⟨by simp [Built, Unbuilt], by simp, fun _ _ _ _ => rfl⟩
  | cons n ns ih =>
      rw [List.foldlM_cons] at hok
      obtain ⟨lists₁, w₁, hone, hrest⟩ := bind_eq_ok.mp hok
      obtain ⟨hnotin, hnodup'⟩ := List.nodup_cons.mp hnodup
      obtain ⟨⟨r, hcall⟩, _⟩ := fuzzOne_ok hone
      have hsame : ∀ m, m ≠ n → SameDirectory m w.fs w₁.fs := fun m hm => fuzzFun_same hcall hm
      have hothers : ∀ m ∈ ns, SameDirectory m w.fs w₁.fs := fun m hm =>
        hsame m fun he => hnotin (he ▸ hm)
      obtain ⟨rfl, hleaves⟩ := fuzzOne_reports (hvisible n (by simp)) hone
      obtain ⟨hlists, hthere, hrest'⟩ := ih hnodup' (fun m hm => hvisible m (by simp [hm])) hrest
      obtain ⟨hbuilt, hunbuilt⟩ := @filter_leavesBuild_congr fuzz _ _ ns hothers
      refine ⟨?_, fun m hm => ?_, fun m hm => ?_⟩
      · rw [hlists, hbuilt, hunbuilt]
        simp only [Built, Unbuilt, List.append_assoc, ← List.filter_append, List.singleton_append]
      · rcases List.mem_cons.mp hm with rfl | hm
        · exact (hrest' _ hnotin).buildThere.trans hleaves
        · exact (hthere m hm).trans (hothers m hm).leavesBuild
      · rw [List.mem_cons, not_or] at hm
        exact (hsame m hm.1).trans (hrest' m hm.2)

end Loop

/-! ## The report -/

/-- A run that returns gives the functions whose call leaves the files of a build, in the order of the
directories, and names all others in one message. The files of a build are there at the end for exactly the
functions it returns. -/
theorem compileRun_reports {h : Host} {o : CompileRunOutcome} {timeLimit seed : Int}
    {harness compiled : List Text} {w w₁ w₂ : World} (hpkg : deepstatePkgCreate h o.pkg w = .ok harness w₁)
    (hok : deepstateHarnessCompileRun h o timeLimit seed w = .ok compiled w₂) :
    compiled = Built o.fuzz w₁.fs (w₁.fs.listFiles testPath) ∧
      (eventsSince w₁ w₂).filterMap Event.uncompiled =
        (if Unbuilt o.fuzz w₁.fs (w₁.fs.listFiles testPath) = [] then []
          else [Unbuilt o.fuzz w₁.fs (w₁.fs.listFiles testPath)]) ∧
      ∀ n ∈ w₁.fs.listFiles testPath, n ∈ compiled ↔ BuildThere w₂.fs n .infun := by
  obtain ⟨ht, hg, hdir, _⟩ := compileRun_ok hpkg hok
  rw [compileRun_apply ht hpkg, sysGlob_of_globs hg] at hok
  split at hok
  · cases hok
  · obtain ⟨lists, w₃, hloop, hend⟩ := bind_eq_ok.mp hok
    have hnodup : (w₁.fs.listFiles testPath).Nodup := nodup_listFiles _ _
    have hvisible : ∀ n ∈ w₁.fs.listFiles testPath, n.head? ≠ some '.' := fun n hn => (mem_listFiles.mp hn).2
    obtain ⟨hlists, hthere, _⟩ := fuzzLoop_reports hnodup hvisible hloop
    obtain ⟨c, u, hlists', hall⟩ := fuzzLoop_ok hnodup hvisible hdir ht hloop
    obtain ⟨rfl, rfl⟩ : c = Built o.fuzz w₁.fs (w₁.fs.listFiles testPath) ∧
        u = Unbuilt o.fuzz w₁.fs (w₁.fs.listFiles testPath) := by
      simpa using hlists'.symm.trans hlists
    obtain ⟨es, hsince, hreport, _⟩ := hall.since
    have hmem : ∀ n ∈ w₁.fs.listFiles testPath,
        n ∈ Built o.fuzz w₁.fs (w₁.fs.listFiles testPath) ↔ BuildThere w₃.fs n .infun := by
      intro n hn
      simp [hthere n hn, Built, hn]
    have hreturned : lists.1 = Built o.fuzz w₁.fs (w₁.fs.listFiles testPath) := by simp [hlists]
    have hnamed : lists.2 = Unbuilt o.fuzz w₁.fs (w₁.fs.listFiles testPath) := by simp [hlists]
    rw [hnamed, hreturned] at hend
    split at hend
    · rename_i hu
      cases hend
      rw [if_neg hu] at hsince
      exact ⟨rfl, by rw [← hreport, ← hsince], hmem⟩
    · rename_i hu
      cases hend
      rw [if_pos (not_not.mp hu), List.append_nil] at hsince
      exact ⟨rfl, by rw [← hreport, ← hsince], hmem⟩

/-! ## The sample package -/

theorem noTestfiles_samplePackage {p : Pathname} (hp : testPath <+: p) : samplePackage.fs.fileExists p = false := by
  obtain ⟨rest, rfl⟩ := hp
  simp [samplePackage, fileExists_write, testPath, rcppExportsPath, descriptionPath, Text.ofString_eq]

theorem readyToRun_samplePackage : ReadyToRun sampleExports sampleRun.fuzz 5 samplePackage.fs := by
  have hnode : ∀ {p : Pathname}, testPath <+: p → samplePackage.fs.node? p = none := by
    intro p hp
    have hnot := noTestfiles_samplePackage hp
    rw [fileExists, Option.isSome_eq_false_iff, Option.isNone_iff_eq_none] at hnot
    exact hnot
  constructor
  · decide
  · rw [FileSystem.read, hnode List.prefix_rfl]
  · intro d hd
    have hnone : samplePackage.fs.node? (funPath d) = none := hnode (List.prefix_append _ _)
    rw [dirExists, hnone] at hd
    cases hd
  · intro n hn
    have hthere := (mem_listFiles.mp hn).1
    rw [noTestfiles_samplePackage (List.prefix_append _ _)] at hthere
    cases hthere
  · intro n _ _ _
    apply Or.inr
    constructor
    · rintro ⟨_, hobject⟩
      rw [noTestfiles_samplePackage (by simp [objectPath, funPath])] at hobject
      cases hobject
    · intro hharness
      rw [noTestfiles_samplePackage (by simp [harnessPath, funPath])] at hharness
      cases hharness

theorem compileRun_reports_sample : ∃ harness compiled w₁ w₂,
    deepstatePkgCreate sampleHost sampleRun.pkg samplePackage = .ok harness w₁ ∧
      deepstateHarnessCompileRun sampleHost sampleRun 5 (-1) samplePackage = .ok compiled w₂ ∧
      compiled = Built sampleRun.fuzz w₁.fs (w₁.fs.listFiles testPath) ∧
      (eventsSince w₁ w₂).filterMap Event.uncompiled =
        (if Unbuilt sampleRun.fuzz w₁.fs (w₁.fs.listFiles testPath) = [] then []
          else [Unbuilt sampleRun.fuzz w₁.fs (w₁.fs.listFiles testPath)]) ∧
      ∀ n ∈ w₁.fs.listFiles testPath, n ∈ compiled ↔ BuildThere w₂.fs n .infun := by
  obtain ⟨harness, w₁, hpkg⟩ := pkgCreate_sampleRun samplePackage
  obtain ⟨compiled, _, w₂, _, hok, _⟩ := completes_of_readyToRun rfl hpkg readyToRun_samplePackage
  exact ⟨harness, compiled, w₁, w₂, hpkg, hok, compileRun_reports hpkg hok⟩

end RcppDeepState
