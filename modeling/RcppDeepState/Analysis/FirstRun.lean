import RcppDeepState.Analysis.ReadBack

/-!
# Arguments listed before the run

`deepstate_fuzz_fun_analyze` lists the argument files before the run that writes them, and
`deepstate_analyze_file` after it. The two agree when the run finds a file for each argument that it dumps.
-/

namespace RcppDeepState

open Command FileSystem Overlay

variable {xml2 : Xml2} {h : Host} {fn : Text} {seed timeLimit : Int} {out : FuzzAnalyzeOutcome}
  {w w' : World} {inputs : List (Text × InputValue)} {logtable : Option (List LogRow)}

/-! ## What a run reads -/

/-- A run that returns has read the files that were listed before it, with their contents after it. -/
theorem runFuzzAnalysis_reads {o : ReplayOutcome} {runner : Text} {names : List Text}
    (hrun : runFuzzAnalysis xml2 h o fn runner seed timeLimit names w = .ok (inputs, logtable) w') :
    inputsIn fn w'.fs = overlay (dumpedInto (w.fs.dirExists (inputsPath fn)) o) (inputsIn fn w.fs) ∧
      ∃ values, (names.mapM fun x => inputValue h fn x (w'.fs.read (inputsPath fn ++ [x]))) = .ok values ∧
        inputs = values.foldl assignInput [] := by
  obtain ⟨log, hlog⟩ : ∃ log, runFuzzAnalysis xml2 h o fn runner seed timeLimit names w =
      (if o.fuzzingStops then
        stop (fuzzAnalysisError h fn (fuzzFolder fn seed timeLimit ++ [("valgrind_log_text" : Text)]))
      else
        (collectInputs h (inputsPath fn) (fuzzFolder fn seed timeLimit) names >>= fun inputs =>
          liftExcept (deepstateReadValgrindXml xml2 o.xml) >>= fun logtable => pure (inputs, logtable) :
            Program _)) ⟨fuzzAnalyzeEffects o fn seed timeLimit w.fs, log⟩ := by
    unfold runFuzzAnalysis
    rw [ite_apply]
    simp only [message_bind_apply, record_bind_apply, files_bind_apply, onFiles_bind_apply]
    split
    · exact ⟨_, rfl⟩
    · exact ⟨_, rfl⟩
  rw [hlog, ite_apply] at hrun
  split at hrun
  · cases hrun
  obtain ⟨w₁, heff, hcollect⟩ := foldlM_collectInput (h := h) (fuzzFolder_append_ne fn · · seed timeLimit) names []
    ⟨fuzzAnalyzeEffects o fn seed timeLimit w.fs, log⟩
  obtain ⟨values', w₂, hvalues, hrest⟩ := bind_eq_ok.mp hrun
  rw [collectInputs, hcollect] at hvalues
  have hinputs : ∀ x, ¬ ∃ y, inputsPath fn ++ [x] = fuzzFolder fn seed timeLimit ++ [y] := by
    rintro x ⟨y, hy⟩
    exact fuzzFolder_append_ne fn y x seed timeLimit hy.symm
  cases hread : names.mapM fun x => readInput h (inputsPath fn ++ [x])
      ((fuzzAnalyzeEffects o fn seed timeLimit w.fs).read (inputsPath fn ++ [x])) with
  | error e =>
    rw [hread] at hvalues
    cases hvalues
  | ok values =>
    rw [hread] at hvalues
    cases hvalues
    obtain ⟨t, w₃, htable, hret⟩ := bind_eq_ok.mp hrest
    have hsame : w₃ = w₁ := by
      cases hxml : deepstateReadValgrindXml xml2 o.xml with
      | error e =>
        rw [hxml] at htable
        cases htable
      | ok t' =>
        rw [hxml] at htable
        cases htable
        rfl
    cases hret
    rw [hsame]
    refine ⟨?_, values, ?_, rfl⟩
    · rw [inputsIn_congr fun x => heff.frame _ (hinputs x), inputsIn_fuzzAnalyzeEffects]
    · rw [← hread]
      refine congrArg (names.mapM ·) (funext fun x => ?_)
      rw [heff.frame.read (hinputs x)]
      rfl

/-- The names come from the inputs directory as it was before the call. -/
theorem fuzzFunAnalyze_reads
    (hrun : deepstateFuzzFunAnalyze xml2 h out fn seed timeLimit w = .ok (inputs, logtable) w') :
    inputsIn fn w'.fs = overlay (dumpedInto (w.fs.dirExists (inputsPath fn)) out.run) (inputsIn fn w.fs) ∧
      ∃ values, ((sysGlob h w.fs (inputsPath fn)).mapM fun x =>
          inputValue h fn x (w'.fs.read (inputsPath fn ++ [x]))) = .ok values ∧
        inputs = values.foldl assignInput [] := by
  let w₀ : World := { w with fs := w.fs.mkdir (fuzzFolder fn seed timeLimit) }
  have hmk : Frame (· = fuzzFolder fn seed timeLimit) w.fs w₀.fs := frame_mkdir rfl
  have hfolder : ∀ x, inputsPath fn ++ [x] ≠ fuzzFolder fn seed timeLimit := fun x hx => by
    have hlen := congrArg List.length hx
    simp [fuzzFolder, inputsPath] at hlen
  have hin₀ : inputsIn fn w₀.fs = inputsIn fn w.fs := inputsIn_congr fun x => hmk _ (hfolder x)
  have hlist : sysGlob h w₀.fs (inputsPath fn) = sysGlob h w.fs (inputsPath fn) :=
    sysGlob_congr fun x => hmk.fileExists (hfolder x)
  unfold deepstateFuzzFunAnalyze at hrun
  rw [files_bind_apply, ite_apply] at hrun
  split at hrun
  swap
  · cases hrun
  rw [onFiles_bind_apply, files_bind_apply] at hrun
  obtain ⟨⟨⟩, w₁, hcompile, hrun⟩ := bind_eq_ok.mp hrun
  have heff := @effects_ensureCompiled h fn .infun out.build w₀
  rw [final_of_ok hcompile] at heff
  have hin₁ : inputsIn fn w₁.fs = inputsIn fn w.fs :=
    (inputsIn_congr fun x => heff.frame _ (not_compileTouches_input x)).trans hin₀
  have hdir : w₁.fs.dirExists (inputsPath fn) = w.fs.dirExists (inputsPath fn) := by
    rw [heff.frame.dirExists not_compileTouches_inputs, hmk.dirExists (fuzzFolder_ne_inputs fn _ _).symm]
  rw [ite_apply] at hrun
  split at hrun
  · cases hrun
  rw [files_bind_apply] at hrun
  cases hrunner : (readText w₁.fs (harnessPath fn .infun)).bind runnerName with
  | none =>
    rw [hrunner] at hrun
    cases hrun
  | some runner =>
    rw [hrunner] at hrun
    have hreads := runFuzzAnalysis_reads hrun
    rw [hin₁, hdir] at hreads
    rw [← hlist]
    exact hreads

/-! ## The column -/

/-- The arguments that the run dumps. -/
def fuzzDump (fn : Text) (out : FuzzAnalyzeOutcome) (fs : FileSystem Content) : Inputs :=
  dumpedInto (fs.dirExists (inputsPath fn)) out.run

/-- The argument files that are listed before the call are those that the run dumps. -/
def FoundBefore (h : Host) (fn : Text) (out : FuzzAnalyzeOutcome) (fs : FileSystem Content) : Prop :=
  ∀ x, x ∈ sysGlob h fs (inputsPath fn) ↔ (fuzzDump fn out fs x).isSome

/-- The argument files that occur before the call or in the run. -/
def fuzzFiles (fn : Text) (out : FuzzAnalyzeOutcome) (fs : FileSystem Content) : Set Text :=
  {x | (inputsIn fn fs x).isSome ∨ (fuzzDump fn out fs x).isSome}

/-- The column as a row of the analysis. -/
def columnRow (inputs : List (Text × InputValue)) (logtable : Option (List LogRow)) : AnalysisRow :=
  ⟨[], inputs, logtable⟩

/-- `deepstate_analyze_file` reads the same column out of these files. -/
def AgreesWith (h : Host) (fn : Text) (fs : FileSystem Content) (inputs : List (Text × InputValue)) : Prop :=
  ∃ values, readInputs h fn fs = .ok values ∧ inputs = values.foldl assignInput []

/-- The column shows what the run has dumped, leaves none of it out, and is the one read from the files after
it. -/
structure ShowsRun (h : Host) (fn : Text) (out : FuzzAnalyzeOutcome) (fs fs' : FileSystem Content)
    (inputs : List (Text × InputValue)) (logtable : Option (List LogRow)) : Prop where
  reports : Reports h fn (fuzzDump fn out fs) (columnRow inputs logtable)
  complete : ∀ x, (fuzzDump fn out fs x).isSome → ∃ e ∈ inputs, e.1 = reportedName h fn x
  agrees : AgreesWith h fn fs' inputs

theorem sysGlob_inputs_congr {fs fs' : FileSystem Content}
    (hsame : h.globs (inputsPath fn) = true → ∀ x, (inputsIn fn fs' x).isSome ↔ (inputsIn fn fs x).isSome) :
    sysGlob h fs' (inputsPath fn) = sysGlob h fs (inputsPath fn) := by
  unfold sysGlob
  split
  · rename_i hg
    refine listFiles_eq (sorted_listFiles _ _) (nodup_listFiles _ _) fun x => ?_
    rw [mem_listFiles_inputs, ← hsame hg, ← mem_listFiles_inputs, mem_listFiles]
  · rfl

section Column

variable (hrun : deepstateFuzzFunAnalyze xml2 h out fn seed timeLimit w = .ok (inputs, logtable) w')

include hrun

/-- The column is read from the files that were there before, with what the run has made of them. -/
theorem readFrom_before : ReadFrom h fn
    (fun x => if x ∈ sysGlob h w.fs (inputsPath fn) then overlay (fuzzDump fn out w.fs) (inputsIn fn w.fs) x else none)
    (columnRow inputs logtable) := by
  obtain ⟨hin, values, hvalues, hcolumn⟩ := fuzzFunAnalyze_reads hrun
  have hsome (x : Text) (hx : x ∈ sysGlob h w.fs (inputsPath fn)) :
      (overlay (fuzzDump fn out w.fs) (inputsIn fn w.fs) x).isSome := by
    rw [overlay, Option.isSome_or, (mem_sysGlob_inputs.mp hx).2, Bool.or_true]
  refine ⟨sysGlob h w.fs (inputsPath fn), values, fun x => ?_, nodup_sysGlob _ _ _, ?_, hcolumn⟩
  · by_cases hx : x ∈ sysGlob h w.fs (inputsPath fn)
    · simp only [if_pos hx]
      exact iff_of_true hx (hsome x hx)
    · simp [hx]
  · have hboth := (List.forall₂_and_left _ _).mpr ⟨fun x hx => hx, mapM_eq_ok.mp hvalues⟩
    refine hboth.imp fun x e hxe => ?_
    obtain ⟨c, hc⟩ := Option.isSome_iff_exists.mp (hsome x hxe.1)
    have hread : w'.fs.read (inputsPath fn ++ [x]) = c := inputsIn_eq_some (by rw [hin]; exact hc)
    simp only [if_pos hxe.1, hc, Option.join_some]
    rw [← hread]
    exact hxe.2

/-- When the run finds a file for each argument it dumps, both analyses read the same files. -/
theorem agreesWith_of_foundBefore (hfound : FoundBefore h fn out w.fs) : AgreesWith h fn w'.fs inputs := by
  obtain ⟨hin, values, hvalues, hcolumn⟩ := fuzzFunAnalyze_reads hrun
  have hlist : sysGlob h w'.fs (inputsPath fn) = sysGlob h w.fs (inputsPath fn) := by
    refine sysGlob_inputs_congr fun hg x => ?_
    have hx := hfound x
    rw [mem_sysGlob_inputs, and_iff_right hg, fuzzDump] at hx
    rw [hin, overlay, Option.isSome_or, Bool.or_eq_true, ← hx, or_self]
  exact ⟨values, by rw [readInputs, hlist]; exact hvalues, hcolumn⟩

/-- When the run finds a file for each argument it dumps, the column is read from what it dumps. -/
theorem readFrom_dump (hfound : FoundBefore h fn out w.fs) :
    ReadFrom h fn (fuzzDump fn out w.fs) (columnRow inputs logtable) := by
  have hread := readFrom_before hrun
  have hsame : (fun x => if x ∈ sysGlob h w.fs (inputsPath fn) then
      overlay (fuzzDump fn out w.fs) (inputsIn fn w.fs) x else none) = fuzzDump fn out w.fs := by
    funext x
    split
    · rename_i hx
      obtain ⟨c, hc⟩ := Option.isSome_iff_exists.mp ((hfound x).mp hx)
      rw [overlay_of_some hc, hc]
    · rename_i hx
      rw [hfound x, Option.not_isSome_iff_eq_none] at hx
      exact hx.symm
  rwa [hsame] at hread

/-- When the run finds a file for each argument it dumps, none of them is left out of the column. -/
theorem showsRun_of_foundBefore (hinj : Set.InjOn (reportedName h fn) (fuzzFiles fn out w.fs))
    (hfound : FoundBefore h fn out w.fs) : ShowsRun h fn out w.fs w'.fs inputs logtable := by
  have hread := readFrom_dump hrun hfound
  have hdump := hinj.mono fun x hx => .inr hx
  refine ⟨hread.reports hdump, fun x hx => ?_, agreesWith_of_foundBefore hrun hfound⟩
  obtain ⟨c, hc⟩ := Option.isSome_iff_exists.mp hx
  obtain ⟨e, he, hval⟩ := hread.complete hdump hc
  exact ⟨e, he, inputValue_name hval⟩

/-- A column that shows the run was read from a file for each argument that the run dumps, and from no other. -/
theorem foundBefore_of_showsRun (hinj : Set.InjOn (reportedName h fn) (fuzzFiles fn out w.fs))
    (hshows : ShowsRun h fn out w.fs w'.fs inputs logtable) : FoundBefore h fn out w.fs := by
  obtain ⟨hin, -⟩ := fuzzFunAnalyze_reads hrun
  have hbefore := readFrom_before hrun
  intro x
  constructor
  · -- A file that was listed is read, so it is one that the run dumps.
    intro hx
    have hthere := (mem_sysGlob_inputs.mp hx).2
    obtain ⟨c, hc⟩ : ∃ c, overlay (fuzzDump fn out w.fs) (inputsIn fn w.fs) x = some c :=
      Option.isSome_iff_exists.mp (by rw [overlay, Option.isSome_or, hthere, Bool.or_true])
    obtain ⟨e, he, hval⟩ := hbefore.complete (n := x) (c := c) (hinj.mono fun y hy => by
      rw [Set.mem_ofPred_eq] at hy
      split at hy
      · rename_i hlisted
        exact .inl (mem_sysGlob_inputs.mp hlisted).2
      · cases hy) (by simp only [if_pos hx]; exact hc)
    obtain ⟨x', c', hx', hval'⟩ := (hshows.reports e).mp he
    have hname : x' = x := by
      refine hinj (.inr (by rw [hx']; rfl)) (.inl hthere) ?_
      rw [← inputValue_name hval, ← inputValue_name hval']
    rw [← hname, hx']
    rfl
  · -- An argument that the run dumps is in the column, and the column was read from the files that were listed.
    intro hx
    obtain ⟨e, he, hename⟩ := hshows.complete x hx
    obtain ⟨x', c', hx', hval'⟩ := hbefore.sound he
    have hlisted : x' ∈ sysGlob h w.fs (inputsPath fn) := by
      by_contra hnot
      rw [if_neg hnot] at hx'
      cases hx'
    have hname : x' = x := by
      refine hinj (.inl (mem_sysGlob_inputs.mp hlisted).2) (.inr hx) ?_
      rw [← hename, ← inputValue_name hval']
    rw [← hname]
    exact hlisted

end Column

/-- When the argument files listed before the call are those that the run dumps, the column is read from what the
run dumps, as the other analysis reads it. Where the argument files that occur are shown under different names, the
column is right exactly then. -/
theorem fuzzFunAnalyze_inputs_iff
    (hrun : deepstateFuzzFunAnalyze xml2 h out fn seed timeLimit w = .ok (inputs, logtable) w') :
    (FoundBefore h fn out w.fs → ReadFrom h fn (fuzzDump fn out w.fs) (columnRow inputs logtable) ∧
        AgreesWith h fn w'.fs inputs) ∧
      (Set.InjOn (reportedName h fn) (fuzzFiles fn out w.fs) →
        (ShowsRun h fn out w.fs w'.fs inputs logtable ↔ FoundBefore h fn out w.fs)) :=
  ⟨fun hfound => ⟨readFrom_dump hrun hfound, agreesWith_of_foundBefore hrun hfound⟩, fun hinj =>
    ⟨foundBefore_of_showsRun hrun hinj, showsRun_of_foundBefore hrun hinj⟩⟩

/-! ## The first run -/

/-- What the column shows of a run that saves a vector and a matrix. -/
def matrixColumn : List (Text × InputValue) := [("m", .scan "1 0"), ("x", .qread "2")]

theorem fuzzFunAnalyze_inputs_sample : ∃ w', deepstateFuzzFunAnalyze (.ofParser fun _ => some sampleLog) sampleHost
      ⟨⟨true, true, .keeps⟩, matrixRun⟩ "f" 7 5 matrixWorld = .ok (matrixColumn, some []) w' ∧
    (FoundBefore sampleHost "f" ⟨⟨true, true, .keeps⟩, matrixRun⟩ matrixWorld.fs →
        ReadFrom sampleHost "f" (fuzzDump "f" ⟨⟨true, true, .keeps⟩, matrixRun⟩ matrixWorld.fs)
          (columnRow matrixColumn (some [])) ∧ AgreesWith sampleHost "f" w'.fs matrixColumn) ∧
      (Set.InjOn (reportedName sampleHost "f") (fuzzFiles "f" ⟨⟨true, true, .keeps⟩, matrixRun⟩ matrixWorld.fs) →
        (ShowsRun sampleHost "f" ⟨⟨true, true, .keeps⟩, matrixRun⟩ matrixWorld.fs w'.fs matrixColumn (some []) ↔
          FoundBefore sampleHost "f" ⟨⟨true, true, .keeps⟩, matrixRun⟩ matrixWorld.fs)) := by
  have hret := ok_of_value? (m := deepstateFuzzFunAnalyze (.ofParser fun _ => some sampleLog) sampleHost
    ⟨⟨true, true, .keeps⟩, matrixRun⟩ "f" 7 5) (s := matrixWorld) (a := (matrixColumn, some [])) (by decide +kernel)
  exact ⟨_, hret, fuzzFunAnalyze_inputs_iff hret⟩

/-- A compiled function whose inputs directory is empty, as it is made. -/
def createdWorld : World :=
  ⟨((FileSystem.empty.mkdirs (inputsPath "f")).write (harnessPath "f" .infun)
    (.text "TEST(pkg, runner)\x7b")).write (objectPath "f" .infun) (.object []), []⟩

/-- The first run dumps `x`, and the column is empty. -/
theorem fuzzFunAnalyze_first_run : ¬ ∀ (xml2 : Xml2) (h : Host) (out : FuzzAnalyzeOutcome)
    (fn : Text) (seed timeLimit : Int) (w w' : World) (inputs : List (Text × InputValue))
    (logtable : Option (List LogRow)),
    deepstateFuzzFunAnalyze xml2 h out fn seed timeLimit w = .ok (inputs, logtable) w' →
      ShowsRun h fn out w.fs w'.fs inputs logtable := by
  intro hall
  have hret := ok_of_value? (m := deepstateFuzzFunAnalyze (.ofParser fun _ => some sampleLog) sampleHost
    ⟨⟨true, true, .keeps⟩, savingRun [argumentX]⟩ "f" (-1) 5) (s := createdWorld) (a := ([], some [])) (by decide +kernel)
  have hreports := (hall _ _ _ _ _ _ _ _ _ _ hret).reports
  have hdump : fuzzDump "f" ⟨⟨true, true, .keeps⟩, savingRun [argumentX]⟩ createdWorld.fs "x.qs" = some (some (.qs "2")) := by
    with_unfolding_all decide
  have hval : inputValue sampleHost "f" "x.qs" (some (.qs "2")) = .ok ("x", .qread "2") := by
    with_unfolding_all decide
  have hmem := (hreports ("x", .qread "2")).mpr ⟨_, _, hdump, hval⟩
  cases hmem

end RcppDeepState
