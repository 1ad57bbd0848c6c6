import RcppDeepState.Analysis.FuzzAnalyze
import RcppDeepState.Runs.Leftovers

/-!
# Time limits that are refused

Three functions refuse a time limit that is not positive. The package function does so first; the other two have
compiled by then, and one of them has made its output directory.
-/

namespace RcppDeepState

open Command FileSystem

/-- The call stops, and every path of the tree is as it was. -/
structure Rejects {α : Type} (m : Program α) (w : World) : Prop where
  stops : ∃ e w', m w = .error e w'
  unchanged : ∀ p, (final m w).fs.node? p = w.fs.node? p

/-- `deepstate_compile_fun` is called and finds its files. -/
def CompileDue (fs : FileSystem Content) (fn : Text) (sep : Sep) : Prop :=
  fs.fileExists (objectPath fn sep) = false ∧ sep ≠ .other ∧ fs.fileExists (harnessPath fn sep) = true ∧
    fs.fileExists (makefilePath fn sep) = true

/-- There is an object file to remove, or the harness compiles. -/
def BuildChanges (b : BuildOutcome) (fs : FileSystem Content) (fn : Text) (sep : Sep) : Prop :=
  (∃ n ∈ fs.listFiles (funPath fn), (".o" : Text) <:+ n) ∨
    b.compiles = true ∧ (readText fs (harnessPath fn sep)).isSome = true

/-! ## make -/

section Make

variable {b : BuildOutcome} {fs : FileSystem Content} {fn : Text} {sep : Sep}

/-- The linker touches the executable and nothing else, also when it fails. -/
theorem frame_makeExecutable_own : Frame (· = executablePath fn sep) fs (makeExecutable b fs fn sep) := by
  unfold makeExecutable
  split
  · split
    · split
      · exact frame_write (T := (· = executablePath fn sep)) rfl _
      · exact frame_failedLink b.failed
    · exact Frame.refl _
  · exact Frame.refl _

/-- make writes the object file and the executable of its harness. -/
theorem frame_make_own : Frame (fun p => p = objectPath fn sep ∨ p = executablePath fn sep) fs (make b fn sep fs) := by
  have hobject : Frame (fun p => p = objectPath fn sep ∨ p = executablePath fn sep) fs
      (makeObject b.compiles fs fn sep).1 := by
    unfold makeObject
    split
    · exact Frame.refl _
    · split
      · split
        · exact frame_write (Or.inl rfl) _
        · exact Frame.refl _
      · exact Frame.refl _
  unfold make
  split
  · rename_i fs' heq
    rw [heq] at hobject
    exact Frame.trans hobject (frame_makeExecutable_own.mono fun _ hp => Or.inr hp)
  · rename_i fs' heq
    rw [heq] at hobject
    exact hobject

/-- Without an object file make compiles, when there is a harness to compile. -/
theorem make_builds (hnew : fs.mtime (objectPath fn sep) = none) (hcompiles : b.compiles = true)
    (hread : (readText fs (harnessPath fn sep)).isSome = true) :
    (make b fn sep fs).fileExists (objectPath fn sep) = true := by
  obtain ⟨source, hsource⟩ := Option.isSome_iff_exists.mp hread
  have hobject : makeObject b.compiles fs fn sep = (fs.write (objectPath fn sep) (.object source), true) := by
    simp [makeObject, hsource, stale, hnew, hcompiles]
  rw [make, hobject]
  show (makeExecutable b (fs.write (objectPath fn sep) (.object source)) fn sep).fileExists (objectPath fn sep) = true
  rw [frame_makeExecutable_own.fileExists (objectPath_ne_executablePath fn sep sep).symm]
  exact fileExists_of_read (read_write_self fs (objectPath fn sep) _)

theorem make_fails (hnew : fs.mtime (objectPath fn sep) = none)
    (hnot : ¬ (b.compiles = true ∧ (readText fs (harnessPath fn sep)).isSome = true)) : make b fn sep fs = fs := by
  cases hsource : readText fs (harnessPath fn sep) with
  | none => simp [make, makeObject, hsource]
  | some source =>
      have hcompiles : b.compiles = false := by simpa [hsource] using hnot
      simp [make, makeObject, hsource, stale, hnew, hcompiles]

/-- `p` is an object file that `rm -f *.o` removes. -/
def IsObject (fn : Text) (p : Pathname) : Prop := ∃ n, p = funPath fn ++ [n] ∧ n.head? ≠ some '.' ∧ (".o" : Text) <:+ n

theorem removesObject_iff {p : Pathname} : (match nameIn (funPath fn) p with
    | some n => decide ((".o" : Text) <:+ n)
    | none => false) = true ↔ IsObject fn p := by
  constructor
  · intro h
    split at h
    · rename_i n hn
      obtain ⟨hp, hdot⟩ := nameIn_eq_some.mp hn
      exact ⟨n, hp, hdot, of_decide_eq_true h⟩
    · cases h
  · rintro ⟨n, hp, hdot, hn⟩
    rw [nameIn_eq_some.mpr ⟨hp, hdot⟩]
    exact decide_eq_true hn

theorem node?_removeObjects_object {p : Pathname} (hp : IsObject fn p) : (removeObjects fn fs).node? p = none := by
  rw [removeObjects, node?_remove]
  exact if_pos (removesObject_iff.mpr hp)

theorem node?_removeObjects_other {p : Pathname} (hp : ¬ IsObject fn p) :
    (removeObjects fn fs).node? p = fs.node? p := by
  rw [removeObjects, node?_remove]
  exact if_neg (mt removesObject_iff.mp hp)

/-- `rm -f *.o && make` without the object file of the harness changes nothing exactly when there is no object
file to remove and the harness does not compile. -/
theorem make_unchanged_iff (hobject : fs.fileExists (objectPath fn sep) = false) :
    (∀ p, (make b fn sep (removeObjects fn fs)).node? p = fs.node? p) ↔ ¬ BuildChanges b fs fn sep := by
  have hmissing : fs.node? (objectPath fn sep) = none := by simpa [fileExists] using hobject
  have hremoved : (removeObjects fn fs).node? (objectPath fn sep) = none := by
    by_cases hp : IsObject fn (objectPath fn sep)
    · exact node?_removeObjects_object hp
    · rw [node?_removeObjects_other hp, hmissing]
  have hnew : (removeObjects fn fs).mtime (objectPath fn sep) = none := by rw [mtime, hremoved]
  have hharness : readText (removeObjects fn fs) (harnessPath fn sep) = readText fs (harnessPath fn sep) := by
    rw [readText, readText, frame_removeObjects.read]
    rintro ⟨n, hp, hn⟩
    exact harnessPath_not_object hn hp
  unfold BuildChanges
  constructor
  · rintro hsame (⟨n, hn, hsuffix⟩ | ⟨hcompiles, hread⟩)
    · -- The file is gone: make writes neither of another name.
      obtain ⟨hthere, hdot⟩ := mem_listFiles.mp hn
      have hgone : (removeObjects fn fs).node? (funPath fn ++ [n]) = none :=
        node?_removeObjects_object ⟨n, rfl, hdot, hsuffix⟩
      have hother : ¬ (funPath fn ++ [n] = objectPath fn sep ∨ funPath fn ++ [n] = executablePath fn sep) := by
        rintro (hp | hp)
        · rw [hp, hobject] at hthere
          cases hthere
        · exact executablePath_not_object hsuffix hp.symm
      rw [fileExists, ← hsame, frame_make_own _ hother, hgone] at hthere
      cases hthere
    · have hbuilt := make_builds hnew hcompiles (by rw [hharness]; exact hread)
      rw [fileExists, hsame, hmissing] at hbuilt
      cases hbuilt
  · intro hnot p
    rw [not_or] at hnot
    rw [make_fails hnew (by rw [hharness]; exact hnot.2)]
    by_cases hp : IsObject fn p
    · have hgone : (removeObjects fn fs).node? p = none := node?_removeObjects_object hp
      obtain ⟨n, rfl, hdot, hsuffix⟩ := hp
      have hthere : fs.fileExists (funPath fn ++ [n]) ≠ true := fun hthere =>
        hnot.1 ⟨n, mem_listFiles.mpr ⟨hthere, hdot⟩, hsuffix⟩
      have hnode : fs.node? (funPath fn ++ [n]) = none := by simpa [fileExists] using hthere
      rw [hgone, hnode]
    · exact node?_removeObjects_other hp

end Make

/-! ## Compiling -/

section Compile

variable {h : Host} {b : BuildOutcome} {fn : Text} {sep : Sep} {w : World}

/-- What is there after the harness has been compiled where that is due. -/
def builtFiles (b : BuildOutcome) (fs : FileSystem Content) (fn : Text) (sep : Sep) : FileSystem Content :=
  make b fn sep (removeObjects fn fs)

theorem ensureCompiled_due (hdue : CompileDue w.fs fn sep) :
    ∃ w', ensureCompiled h b fn sep w = .ok () w' ∧ w'.fs = builtFiles b w.fs fn sep := by
  obtain ⟨hobject, hfiles⟩ := hdue
  rw [ensureCompiled, files_bind_apply, hobject, if_neg Bool.false_ne_true]
  cases compileFun_cases h b fn sep w with
  | inl hbuild =>
      obtain ⟨-, -, -, hok⟩ := hbuild
      exact hok
  | inr hstop => exact absurd hfiles hstop.1

theorem ensureCompiled_not_due (hdue : ¬ CompileDue w.fs fn sep) :
    ensureCompiled h b fn sep w = .ok () w ∨ ∃ e, ensureCompiled h b fn sep w = .error e w := by
  rw [ensureCompiled, files_bind_apply]
  cases hobject : w.fs.fileExists (objectPath fn sep) with
  | true => exact .inl rfl
  | false =>
      rw [if_neg Bool.false_ne_true]
      cases compileFun_cases h b fn sep w with
      | inl hbuild => exact absurd ⟨hobject, hbuild.1, hbuild.2.1, hbuild.2.2.1⟩ hdue
      | inr hstop => exact .inr hstop.2

/-- A program that compiles where that is due, and then stops, leaves the tree alone unless a build changes it. -/
theorem rejects_compile_iff {α : Type} {m : Unit → Program α} (hm : ∀ w, ∃ e, m () w = .error e w) :
    Rejects (ensureCompiled h b fn sep >>= m) w ↔ ¬ (CompileDue w.fs fn sep ∧ BuildChanges b w.fs fn sep) := by
  by_cases hdue : CompileDue w.fs fn sep
  · obtain ⟨w', hok, hfs⟩ := @ensureCompiled_due h b fn sep w hdue
    obtain ⟨e, hstop⟩ := hm w'
    have hrun : (ensureCompiled h b fn sep >>= m) w = .error e w' := by rw [bind_of_ok hok, hstop]
    have htree : (final (ensureCompiled h b fn sep >>= m) w).fs = builtFiles b w.fs fn sep := by
      rw [final, hrun]
      exact hfs
    have hsame := @make_unchanged_iff b w.fs fn sep hdue.1
    rw [and_iff_right hdue, ← hsame]
    constructor
    · intro hrejects p
      have hp := hrejects.unchanged p
      rwa [htree] at hp
    · intro hall
      exact ⟨⟨e, w', hrun⟩, fun p => by rw [htree]; exact hall p⟩
  · have hrun : ∃ e, (ensureCompiled h b fn sep >>= m) w = .error e w := by
      cases @ensureCompiled_not_due h b fn sep w hdue with
      | inl hok =>
          obtain ⟨e, hstop⟩ := hm w
          exact ⟨e, by rw [bind_of_ok hok, hstop]⟩
      | inr hstop =>
          obtain ⟨e, he⟩ := hstop
          exact ⟨e, by rw [bind_apply, he]⟩
    obtain ⟨e, he⟩ := hrun
    exact ⟨fun _ hboth => hdue hboth.1, fun _ => ⟨⟨e, w, he⟩, fun p => by rw [final, he]⟩⟩

end Compile

/-! ## The three functions -/

section Calls

variable {h : Host} {fn : Text} {sep : Sep} {seed timeLimit : Int} {w : World}

/-- Calls that end alike from the same tree are refused alike. -/
theorem rejects_congr {α : Type} {m m' : Program α} {w' : World} (hrun : m w = m' w') (hfs : w'.fs = w.fs) :
    Rejects m w ↔ Rejects m' w' := by
  have hfinal : final m w = final m' w' := final_congr hrun
  constructor
  · rintro ⟨hstops, hsame⟩
    exact ⟨hrun ▸ hstops, fun p => by rw [← hfinal, hfs]; exact hsame p⟩
  · rintro ⟨hstops, hsame⟩
    exact ⟨hrun ▸ hstops, fun p => by rw [hfinal, ← hfs]; exact hsame p⟩

theorem rejects_stop {α : Type} (e : Text) (w : World) : Rejects (stop e : Program α) w := ⟨⟨e, w, rfl⟩, fun _ => rfl⟩

theorem rejects_fuzzFun_iff (o : FuzzOutcome) (htime : timeLimit ≤ 0) :
    Rejects (deepstateFuzzFun h o fn seed timeLimit sep) w ↔
      ¬ (w.fs.dirExists testPath = true ∧ CompileDue w.fs fn sep ∧ BuildChanges o.build w.fs fn sep) := by
  obtain ⟨log, hlog⟩ := getPackageName_ok h w
  have hrun : deepstateFuzzFun h o fn seed timeLimit sep w =
      (if w.fs.dirExists testPath then (ensureCompiled h o.build fn sep >>= fun _ => stop timeLimitError)
        else stop "Missing testfiles directory" : Program (Option Text)) { w with log := log } := by
    rw [deepstateFuzzFun, bind_of_ok hlog, files_bind_apply]
    simp only [htime, ↓reduceIte]
  rw [rejects_congr hrun rfl]
  cases hdir : w.fs.dirExists testPath with
  | true =>
      rw [if_pos rfl, rejects_compile_iff fun w => ⟨timeLimitError, rfl⟩, and_iff_right rfl]
  | false =>
      rw [if_neg Bool.false_ne_true]
      exact iff_of_true (rejects_stop _ _) fun hall => Bool.false_ne_true hall.1

theorem rejects_harnessCompileRun (o : CompileRunOutcome) (htime : timeLimit ≤ 0) :
    Rejects (deepstateHarnessCompileRun h o timeLimit seed) w := by
  rw [deepstateHarnessCompileRun, if_pos htime]
  exact rejects_stop _ _

/-! ### deepstate_fuzz_fun_analyze -/

theorem no_letter_in_folder {c : Char} (hc : c ∈ pastedInt timeLimit ++ "_" ++ pastedInt seed) :
    c.isDigit = true ∨ c ∈ ("-_" : Text) := by
  have hminus : '-' ∈ ("-_" : Text) := by with_unfolding_all decide
  have hpasted {i : Int} (hi : c ∈ pastedInt i) : c.isDigit = true ∨ c ∈ ("-_" : Text) :=
    (mem_pastedInt hi).imp_right fun h => by rw [h]; exact hminus
  rw [List.mem_append, List.mem_append] at hc
  rcases hc with (hc | hc) | hc
  · exact hpasted hc
  · have hsubset : ("_" : Text) ⊆ ("-_" : Text) := by with_unfolding_all decide
    exact .inr (hsubset hc)
  · exact hpasted hc

/-- The name of the output directory has no letter, so it is no file of a build. -/
theorem not_compileTouches_fuzzFolder : ¬ CompileTouches fn sep (fuzzFolder fn seed timeLimit) := by
  have hletter {n : Text} {c : Char} (hp : fuzzFolder fn seed timeLimit = funPath fn ++ [n]) (hc : c ∈ n) :
      c.isDigit = true ∨ c ∈ ("-_" : Text) := by
    obtain ⟨-, rfl⟩ := funPath_append_inj.mp hp
    exact no_letter_in_folder hc
  rintro (⟨n, hp, hn⟩ | hp)
  · exact absurd (hletter (c := 'o') hp (hn.subset (by with_unfolding_all decide))) (by with_unfolding_all decide)
  · have hmem : 'D' ∈ testHarness fn sep := by
      rw [testHarness, List.append_assoc]
      exact List.mem_append_right _ (List.mem_append_left _ (by with_unfolding_all decide))
    exact absurd (hletter hp hmem) (by with_unfolding_all decide)

theorem rejects_fuzzFunAnalyze_iff (xml2 : Xml2) (o : FuzzAnalyzeOutcome) (htime : timeLimit ≤ 0) :
    Rejects (deepstateFuzzFunAnalyze xml2 h o fn seed timeLimit) w ↔
      (w.fs.fileExists (funPath fn) = true → w.fs.fileExists (fuzzFolder fn seed timeLimit) = true ∧
        ¬ (CompileDue w.fs fn .infun ∧ BuildChanges o.build w.fs fn .infun)) := by
  cases hdir : w.fs.fileExists (funPath fn) with
  | false =>
      have hrun : deepstateFuzzFunAnalyze xml2 h o fn seed timeLimit w =
          (stop "No such file or directory" : Program (List (Text × InputValue) × Option (List LogRow))) w := by
        rw [deepstateFuzzFunAnalyze, files_bind_apply, hdir]
        rfl
      rw [rejects_congr hrun rfl]
      exact iff_of_true (rejects_stop _ _) fun h => absurd h Bool.false_ne_true
  | true =>
      let w₁ : World := { w with fs := w.fs.mkdir (fuzzFolder fn seed timeLimit) }
      let m : Unit → Program (List (Text × InputValue) × Option (List LogRow)) :=
        fun _ => stop "time_limit should always be greater than zero"
      have hrun : deepstateFuzzFunAnalyze xml2 h o fn seed timeLimit w =
          (ensureCompiled h o.build fn .infun >>= m) w₁ := by
        rw [deepstateFuzzFunAnalyze, files_bind_apply, hdir, if_pos rfl, onFiles_bind_apply, files_bind_apply]
        simp only [htime, ↓reduceIte]
        rfl
      simp only [true_imp_iff]
      cases hfolder : w.fs.fileExists (fuzzFolder fn seed timeLimit) with
      | true =>
          have hsame : w₁.fs = w.fs := if_pos hfolder
          rw [rejects_congr hrun hsame, rejects_compile_iff fun w => ⟨_, rfl⟩, hsame, and_iff_right rfl]
      | false =>
          -- The new directory is there at the end.
          refine iff_of_false (fun hrejects => ?_) fun hall => Bool.false_ne_true hall.1
          have heffects : Within (Effects (CompileTouches fn .infun) CompileEvents) (ensureCompiled h o.build fn .infun >>= m) :=
            effects_bind (effects_ensureCompiled o.build) fun _ => effects_stop _
          have hkept := (heffects w₁).frame.fileExists (@not_compileTouches_fuzzFolder fn .infun seed timeLimit)
          have hthere := hrejects.unchanged (fuzzFolder fn seed timeLimit)
          rw [final_congr hrun] at hthere
          rw [fileExists, hthere, ← fileExists, hfolder] at hkept
          have hmade : w₁.fs.fileExists (fuzzFolder fn seed timeLimit) = true := by
            rw [fileExists_mkdir, decide_eq_true rfl, Bool.true_or]
          rw [hmade] at hkept
          cases hkept

/-- With a time limit that is not positive the package function stops at once. The two others leave the tree alone
exactly when no build is due that changes it and, for the analysis, the output directory is there. -/
theorem timeLimit_rejected_iff (xml2 : Xml2) (h : Host) (fuzz : FuzzOutcome)
    (analyze : FuzzAnalyzeOutcome) (compileRun : CompileRunOutcome) (fn : Text) (seed : Int) (sep : Sep) (w : World)
    (htime : timeLimit ≤ 0) :
    (Rejects (deepstateFuzzFun h fuzz fn seed timeLimit sep) w ↔
      ¬ (w.fs.dirExists testPath = true ∧ CompileDue w.fs fn sep ∧ BuildChanges fuzz.build w.fs fn sep)) ∧
    (Rejects (deepstateFuzzFunAnalyze xml2 h analyze fn seed timeLimit) w ↔
      (w.fs.fileExists (funPath fn) = true → w.fs.fileExists (fuzzFolder fn seed timeLimit) = true ∧
        ¬ (CompileDue w.fs fn .infun ∧ BuildChanges analyze.build w.fs fn .infun))) ∧
    Rejects (deepstateHarnessCompileRun h compileRun timeLimit seed) w :=
  ⟨rejects_fuzzFun_iff fuzz htime, rejects_fuzzFunAnalyze_iff xml2 analyze htime,
    rejects_harnessCompileRun compileRun htime⟩

end Calls

/-- A function with a harness that has not been compiled. -/
def uncompiledWorld : World where
  fs := ((FileSystem.empty.mkdirs (funPath "f")).write (harnessPath "f" .infun) (.text [])).write
    (makefilePath "f" .infun) (.text [])
  log := []

def builtAnalyze : FuzzAnalyzeOutcome := ⟨⟨true, true, .keeps⟩, ⟨[], 0, [], []⟩⟩

theorem timeLimit_rejected_sample :
    (Rejects (deepstateFuzzFun sampleHost sampleFuzz "f" (-1) 0 .infun) uncompiledWorld ↔
      ¬ (uncompiledWorld.fs.dirExists testPath = true ∧ CompileDue uncompiledWorld.fs "f" .infun ∧
        BuildChanges sampleFuzz.build uncompiledWorld.fs "f" .infun)) ∧
    (Rejects (deepstateFuzzFunAnalyze (.ofParser fun _ => none) sampleHost builtAnalyze "f" (-1) 0) uncompiledWorld ↔
      (uncompiledWorld.fs.fileExists (funPath "f") = true →
        uncompiledWorld.fs.fileExists (fuzzFolder "f" (-1) 0) = true ∧
          ¬ (CompileDue uncompiledWorld.fs "f" .infun ∧
            BuildChanges builtAnalyze.build uncompiledWorld.fs "f" .infun))) ∧
    Rejects (deepstateHarnessCompileRun sampleHost sampleRun 0 (-1)) uncompiledWorld :=
  timeLimit_rejected_iff _ _ _ _ _ _ _ _ _ (by decide)

/-- There the fuzzing function compiles the harness before it stops. -/
theorem timeLimit_rejected_fails : ¬ ∀ (xml2 : Xml2) (h : Host) (fuzz : FuzzOutcome)
    (analyze : FuzzAnalyzeOutcome) (compileRun : CompileRunOutcome) (fn : Text) (seed timeLimit : Int) (sep : Sep)
    (w : World), timeLimit ≤ 0 →
      Rejects (deepstateFuzzFun h fuzz fn seed timeLimit sep) w ∧
      Rejects (deepstateFuzzFunAnalyze xml2 h analyze fn seed timeLimit) w ∧
      Rejects (deepstateHarnessCompileRun h compileRun timeLimit seed) w := by
  intro hall
  have hrejects := (hall (.ofParser fun _ => none) sampleHost sampleFuzz builtAnalyze sampleRun "f" (-1) 0 .infun uncompiledWorld
    (by decide)).1
  have hdue : CompileDue uncompiledWorld.fs "f" .infun := by
    unfold CompileDue
    with_unfolding_all decide
  have hread : (readText uncompiledWorld.fs (harnessPath "f" .infun)).isSome = true := by with_unfolding_all decide
  exact (rejects_fuzzFun_iff sampleFuzz (by decide)).mp hrejects ⟨by with_unfolding_all decide, hdue, .inr ⟨rfl, hread⟩⟩

end RcppDeepState
