import RcppDeepState.Library.Overlay
import RcppDeepState.Analysis.Lemmas.Frames

/-!
# Replays over one inputs directory

What lies in the inputs directory of a function is a partial map. A replay lays the arguments it dumps over
it, and the row of the replay is read from the result.
-/

namespace RcppDeepState

open Command FileSystem Overlay

/-! ## The inputs directory -/

/-- The argument files by name; a directory among them has no contents. -/
abbrev Inputs := Text → Option (Option Content)

def visible (n : Text) : Prop := n.head? ≠ some '.'

instance (n : Text) : Decidable (visible n) := inferInstanceAs (Decidable (_ ≠ _))

def inputsIn (fn : Text) (fs : FileSystem Content) : Inputs := fun n =>
  if visible n ∧ fs.fileExists (inputsPath fn ++ [n]) = true then some (fs.read (inputsPath fn ++ [n]))
  else none

/-- What a replay dumps, when there is an inputs directory. -/
def dumpedInto (hasInputs : Bool) (o : ReplayOutcome) : Inputs := fun n =>
  if hasInputs ∧ visible n then (o.dumped.reverse.lookup n).map some else none

/-- What the replay of a saved file dumps in a pass that starts from these files. -/
def dumpedBy (fn : Text) (replay : Text → ReplayOutcome) (fs : FileSystem Content) (n : Text) : Inputs :=
  dumpedInto (fs.dirExists (inputsPath fn)) (replay n)

/-- The value of an argument file in the inputs directory of a function. -/
def inputValue (h : Host) (fn n : Text) (content : Option Content) : Except Text (Text × InputValue) :=
  readInput h (inputsPath fn ++ [n]) content

/-- The replay itself stops nothing: it ends in order, and its log can be read. -/
def SoundRun (xml2 : Xml2) (o : ReplayOutcome) : Prop :=
  ¬ o.stops ∧ ∃ t, deepstateReadValgrindXml xml2 o.xml = .ok t

/-- An argument file that `qread` or `scan` can read, should it be listed. -/
def ReadableInput (h : Host) (fn n : Text) (content : Option Content) : Prop :=
  h.globs (inputsPath fn) = true → ∃ v, inputValue h fn n content = .ok v

theorem mem_listFiles_inputs {fn n : Text} {fs : FileSystem Content} :
    n ∈ fs.listFiles (inputsPath fn) ↔ (inputsIn fn fs n).isSome := by
  rw [mem_listFiles, inputsIn]
  split
  · rename_i hn
    exact ⟨fun _ => rfl, fun _ => ⟨hn.2, hn.1⟩⟩
  · rename_i hn
    exact ⟨fun hf => absurd ⟨hf.2, hf.1⟩ hn, fun hf => by cases hf⟩

/-- What `Sys.glob` lists of the inputs directory. -/
theorem mem_sysGlob_inputs {h : Host} {fn n : Text} {fs : FileSystem Content} :
    n ∈ sysGlob h fs (inputsPath fn) ↔ h.globs (inputsPath fn) = true ∧ (inputsIn fn fs n).isSome := by
  rw [← mem_listFiles_inputs, mem_sysGlob, mem_listFiles]

theorem inputsIn_eq_some {fn n : Text} {fs : FileSystem Content} {c : Option Content}
    (hn : inputsIn fn fs n = some c) : fs.read (inputsPath fn ++ [n]) = c := by
  unfold inputsIn at hn
  split at hn
  · exact Option.some.inj hn
  · cases hn

/-! ## Writing into a directory -/

section Writing

variable {d : Pathname} {fs : FileSystem Content}

theorem foldl_write_read (entries : List (Text × Content)) (n : Text) :
    (entries.foldl (fun fs e => fs.write (d ++ [e.1]) e.2) fs).read (d ++ [n]) =
      (entries.reverse.lookup n).or (fs.read (d ++ [n])) := by
  induction entries generalizing fs with
  | nil => rfl
  | cons e es ih =>
      obtain ⟨k, c⟩ := e
      rw [List.foldl_cons, ih, List.reverse_cons, List.lookup_append, Option.or_assoc, List.lookup_cons]
      by_cases hn : n = k
      · subst hn; simp
      · rw [read_write_ne (by simpa using hn), beq_eq_false_iff_ne.mpr hn]
        simp

theorem foldl_write_fileExists (entries : List (Text × Content)) (n : Text) :
    (entries.foldl (fun fs e => fs.write (d ++ [e.1]) e.2) fs).fileExists (d ++ [n]) =
      ((entries.reverse.lookup n).isSome || fs.fileExists (d ++ [n])) := by
  induction entries generalizing fs with
  | nil => rfl
  | cons e es ih =>
      obtain ⟨k, c⟩ := e
      rw [List.foldl_cons, ih, fileExists_write, List.reverse_cons, List.lookup_append, Option.isSome_or,
        Bool.or_assoc, List.lookup_cons]
      by_cases hn : n = k
      · subst hn; simp
      · rw [beq_eq_false_iff_ne.mpr hn]
        simp [hn]

end Writing

/-! ## The files of a replay -/

section Effects

variable {fn : Text} {sep : Sep} {fs : FileSystem Content} {o : ReplayOutcome}

/-- The log folder of a saved file and the inputs directory have no path in common. -/
theorem logFolder_ne_inputs (fn n x y : Text) (sep : Sep) :
    logFolder (outputDir fn sep ++ [n]) ++ [x] ≠ inputsPath fn ++ [y] := by
  rw [logFolder_append]
  intro h
  have hlen := congrArg List.length h
  simp [outputDir, inputsPath] at hlen

theorem analyzedInputs_outputDir (fn n : Text) (sep : Sep) :
    analyzedInputs (outputDir fn sep ++ [n]) = inputsPath fn := by
  rw [analyzedInputs_append]
  simp [outputDir, inputsPath]

theorem inputsIn_congr {fs' : FileSystem Content}
    (h : ∀ n, fs'.node? (inputsPath fn ++ [n]) = fs.node? (inputsPath fn ++ [n])) :
    inputsIn fn fs' = inputsIn fn fs := by
  funext n
  have he : fs'.fileExists (inputsPath fn ++ [n]) = fs.fileExists (inputsPath fn ++ [n]) := by
    unfold FileSystem.fileExists
    rw [h n]
  have hr : fs'.read (inputsPath fn ++ [n]) = fs.read (inputsPath fn ++ [n]) := by
    unfold FileSystem.read
    rw [h n]
  rw [inputsIn, inputsIn, he, hr]

/-- What a run dumps lies over what was in the inputs directory. -/
theorem inputsIn_writeInto : inputsIn fn (writeInto (inputsPath fn) o.dumped fs) =
    overlay (dumpedInto (fs.dirExists (inputsPath fn)) o) (inputsIn fn fs) := by
  funext x
  unfold writeInto
  split
  · rename_i hd
    simp only [inputsIn, overlay, dumpedInto, foldl_write_read, foldl_write_fileExists, hd, true_and]
    by_cases hx : visible x
    · cases hl : o.dumped.reverse.lookup x <;> simp [hx]
    · simp [hx]
  · rename_i hd
    simp [overlay, dumpedInto, hd]

theorem inputsIn_replayEffects (n : Text) :
    inputsIn fn (replayEffects o (outputDir fn sep ++ [n]) fs) =
      overlay (dumpedInto (fs.dirExists (inputsPath fn)) o) (inputsIn fn fs) := by
  unfold replayEffects
  rw [analyzedInputs_outputDir]
  have hlogs : Frame (fun p => ∃ x, p = logFolder (outputDir fn sep ++ [n]) ++ [x]) fs
      (writeInto (logFolder (outputDir fn sep ++ [n]))
        [("valgrind_log", .text o.xml), ("valgrind_log_text", .text o.printed)] fs) :=
    frame_writeInto (fun x => ⟨x, rfl⟩) _
  generalize writeInto (logFolder (outputDir fn sep ++ [n])) _ fs = fs' at hlogs
  have hin : inputsIn fn fs' = inputsIn fn fs := inputsIn_congr fun x => hlogs _ (by
    rintro ⟨y, hy⟩
    exact logFolder_ne_inputs _ _ _ _ _ hy.symm)
  have hdir : fs'.dirExists (inputsPath fn) = fs.dirExists (inputsPath fn) := hlogs.dirExists (by
    rintro ⟨y, hy⟩
    rw [logFolder_append] at hy
    have hlen := congrArg List.length hy
    simp [outputDir, inputsPath] at hlen)
  rw [inputsIn_writeInto, hin, hdir]

end Effects

/-! ## Reading the arguments -/

section Collect

variable {h : Host} {dir folder : Pathname}

/-- A loop that copies the argument files and reads them, reads what was there before it. -/
theorem foldlM_collectInput (hdisj : ∀ x y, folder ++ [x] ≠ dir ++ [y]) (names : List Text)
    (inputs : List (Text × InputValue)) (w : World) :
    ∃ w', Effects (fun p => ∃ x, p = folder ++ [x]) (fun _ => False) w w' ∧
      names.foldlM (collectInput h dir folder) inputs w =
        match names.mapM fun n => readInput h (dir ++ [n]) (w.fs.read (dir ++ [n])) with
        | .ok values => .ok (values.foldl assignInput inputs) w'
        | .error e => .error e w' := by
  induction names generalizing inputs w with
  | nil => exact ⟨w, Effects.refl w, rfl⟩
  | cons n ns ih =>
      let w₁ : World := { w with fs := copyFile w.fs (dir ++ [n]) (folder ++ [n]) }
      have hstep : Effects (fun p => ∃ x, p = folder ++ [x]) (fun _ => False) w w₁ :=
        ⟨frame_copyFile ⟨n, rfl⟩, [], by simp [w₁], by simp⟩
      have hread : ∀ x, w₁.fs.read (dir ++ [x]) = w.fs.read (dir ++ [x]) := fun x =>
        hstep.frame.read (by rintro ⟨y, hy⟩; exact hdisj y x hy.symm)
      rw [List.foldlM_cons, List.mapM_cons]
      have hone : collectInput h dir folder inputs n w =
          (liftExcept (readInput h (dir ++ [n]) (w₁.fs.read (dir ++ [n]))) >>= fun v =>
            pure (assignInput inputs v) : Program _) w₁ := rfl
      rw [bind_apply, hone, hread]
      cases hr : readInput h (dir ++ [n]) (w.fs.read (dir ++ [n])) with
      | error e => exact ⟨w₁, hstep, rfl⟩
      | ok v =>
          obtain ⟨w', heff, hrun⟩ := ih (assignInput inputs v) w₁
          refine ⟨w', Effects.trans _ _ _ hstep heff, ?_⟩
          simp only [hread] at hrun
          refine Eq.trans hrun ?_
          cases ns.mapM fun n => readInput h (dir ++ [n]) (w.fs.read (dir ++ [n])) <;> rfl

end Collect

/-! ## One replay -/

/-- The values of the argument files, in the order of their names. -/
def readInputs (h : Host) (fn : Text) (fs : FileSystem Content) : Except Text (List (Text × InputValue)) :=
  (sysGlob h fs (inputsPath fn)).mapM fun n => inputValue h fn n (fs.read (inputsPath fn ++ [n]))

/-- The files that were replayed, in order. -/
def replaysOf (log : List Event) : List Pathname :=
  log.filterMap fun
    | .replay file _ => some file
    | _ => none

/-- Between two worlds one saved file has been replayed, and its log folder made unless it was there. -/
structure Replayed (fn : Text) (sep : Sep) (n : Text) (o : ReplayOutcome) (w w' : World) : Prop where
  replays : replaysOf w'.log = replaysOf w.log ++ [outputDir fn sep ++ [n]]
  inputs : inputsIn fn w'.fs = overlay (dumpedInto (w.fs.dirExists (inputsPath fn)) o) (inputsIn fn w.fs)
  hasInputs : w'.fs.dirExists (inputsPath fn) = w.fs.dirExists (inputsPath fn)
  saved : ∀ x, w'.fs.node? (outputDir fn sep ++ [x]) =
    (w.fs.mkdir (logFolder (outputDir fn sep ++ [n]))).node? (outputDir fn sep ++ [x])

theorem replaysOf_append (log log' : List Event) : replaysOf (log ++ log') = replaysOf log ++ replaysOf log' :=
  List.filterMap_append

theorem readInputs_isOk {h : Host} {fn : Text} {fs : FileSystem Content} :
    (∃ values, readInputs h fn fs = .ok values) ↔ AllGood (ReadableInput h fn) (inputsIn fn fs) := by
  unfold readInputs
  rw [exists_mapM_eq_ok]
  constructor
  · intro hall n c hn hg
    rw [← inputsIn_eq_some hn]
    rw [sysGlob_of_globs hg] at hall
    exact hall n (mem_listFiles_inputs.mpr (by rw [hn]; rfl))
  · intro hall n hn
    have hg := (mem_sysGlob.mp hn).1
    rw [sysGlob_of_globs hg] at hn
    obtain ⟨c, hc⟩ := Option.isSome_iff_exists.mp (mem_listFiles_inputs.mp hn)
    rw [inputsIn_eq_some hc]
    exact hall n c hc hg

section One

variable {xml2 : Xml2} {h : Host} {fn n : Text} {sep : Sep} {o : ReplayOutcome}
  {packageName : Option Text}

/-- A change below the log folders leaves the inputs directory as it is. -/
theorem readInputs_congr {fs fs' : FileSystem Content}
    (hframe : Frame (fun p => ∃ x, p = logFolder (outputDir fn sep ++ [n]) ++ [x]) fs fs') :
    readInputs h fn fs' = readInputs h fn fs ∧ inputsIn fn fs' = inputsIn fn fs := by
  have hnot : ∀ x, ¬ ∃ y, inputsPath fn ++ [x] = logFolder (outputDir fn sep ++ [n]) ++ [y] := by
    rintro x ⟨y, hy⟩
    exact logFolder_ne_inputs _ _ _ _ _ hy.symm
  refine ⟨?_, inputsIn_congr fun x => hframe _ (hnot x)⟩
  unfold readInputs
  rw [sysGlob_congr fun x => hframe.fileExists (hnot x)]
  simp only [hframe.read (hnot _)]

/-- What is read after a replay: a table from the log and the values of the arguments, or nothing. -/
theorem readReplay_run (w : World) :
    ∃ w', Effects (fun p => ∃ x, p = logFolder (outputDir fn sep ++ [n]) ++ [x]) (fun _ => False) w w' ∧
      readReplay xml2 h o (outputDir fn sep ++ [n]) w =
        match deepstateReadValgrindXml xml2 o.xml, readInputs h fn w.fs with
        | .ok logtable, .ok values =>
            .ok (some ⟨outputDir fn sep ++ [n], values.foldl assignInput [], logtable⟩) w'
        | .error e, _ => .error e w
        | .ok _, .error e => .error e w' := by
  obtain ⟨w', heff, hrun⟩ := foldlM_collectInput (h := h) (logFolder_ne_inputs fn n · · sep)
    (sysGlob h w.fs (inputsPath fn)) [] w
  refine ⟨w', heff, ?_⟩
  have hread : readReplay xml2 h o (outputDir fn sep ++ [n]) w =
      (liftExcept (deepstateReadValgrindXml xml2 o.xml) >>= fun logtable =>
        collectInputs h (analyzedInputs (outputDir fn sep ++ [n])) (logFolder (outputDir fn sep ++ [n]))
            (sysGlob h w.fs (analyzedInputs (outputDir fn sep ++ [n]))) >>= fun inputs =>
          pure (some ⟨outputDir fn sep ++ [n], inputs, logtable⟩) : Program _) w := rfl
  rw [hread, analyzedInputs_outputDir, bind_apply]
  cases deepstateReadValgrindXml xml2 o.xml with
  | error e => rfl
  | ok logtable =>
      show (collectInputs h (inputsPath fn) (logFolder (outputDir fn sep ++ [n])) _ >>= _ : Program _) w = _
      rw [bind_apply, collectInputs, hrun]
      unfold readInputs inputValue
      cases (sysGlob h w.fs (inputsPath fn)).mapM
        fun n => readInput h (inputsPath fn ++ [n]) (w.fs.read (inputsPath fn ++ [n])) <;> rfl

/-- The outcome of a replay is decided by what it does and by what lies in the inputs directory afterwards. -/
inductive ReplayResult (xml2 : Xml2) (h : Host) (fn : Text) (o : ReplayOutcome) (file : Pathname)
    (w' : World) : EStateM.Result Text World (Option AnalysisRow) → Prop
  | stops (e : Text) : ¬ (SoundRun xml2 o ∧ AllGood (ReadableInput h fn) (inputsIn fn w'.fs)) →
      ReplayResult xml2 h fn o file w' (.error e w')
  | returns (values : List (Text × InputValue)) (logtable : Option (List LogRow)) :
      SoundRun xml2 o ∧ AllGood (ReadableInput h fn) (inputsIn fn w'.fs) →
      readInputs h fn w'.fs = .ok values →
      ReplayResult xml2 h fn o file w' (.ok (some ⟨file, values.foldl assignInput [], logtable⟩) w')

theorem inputsPath_ne_outputDir : inputsPath fn ≠ outputDir fn sep := by
  intro hp
  have hname : ("inputs" : Text) = fn ++ "_output" ++ sep.suffix := by simpa [inputsPath, outputDir] using hp
  have hmem : '_' ∈ fn ++ ("_output" : Text) ++ sep.suffix :=
    List.mem_append_left _ (List.mem_append_right _ (by with_unfolding_all decide))
  rw [← hname] at hmem
  exact absurd hmem (by with_unfolding_all decide)

/-- What running the harness on a saved file and reading the result may change. -/
def ReplayTouches (fn : Text) (sep : Sep) (n : Text) (p : Pathname) : Prop :=
  (∃ x, p = logFolder (outputDir fn sep ++ [n]) ++ [x]) ∨ ∃ x, p = inputsPath fn ++ [x]

theorem not_replayTouches_inputs : ¬ ReplayTouches fn sep n (inputsPath fn) := by
  rintro (⟨x, hx⟩ | ⟨x, hx⟩)
  · rw [logFolder_append] at hx
    have hlen := congrArg List.length hx
    simp [outputDir, inputsPath] at hlen
  · have hlen := congrArg List.length hx
    simp at hlen

theorem not_replayTouches_saved (x : Text) : ¬ ReplayTouches fn sep n (outputDir fn sep ++ [x]) := by
  rintro (⟨y, hy⟩ | ⟨y, hy⟩)
  · rw [logFolder_append] at hy
    have hlen := congrArg List.length hy
    simp at hlen
  · exact inputsPath_ne_outputDir (List.append_inj_left' hy rfl).symm

theorem runReplay_run (w : World) :
    ∃ w', replaysOf w'.log = replaysOf w.log ++ [outputDir fn sep ++ [n]] ∧
      inputsIn fn w'.fs = overlay (dumpedInto (w.fs.dirExists (inputsPath fn)) o) (inputsIn fn w.fs) ∧
      Frame (ReplayTouches fn sep n) w.fs w'.fs ∧
      ReplayResult xml2 h fn o (outputDir fn sep ++ [n]) w'
        (runReplay xml2 h o packageName (outputDir fn sep ++ [n]) w) := by
  let w₁ : World :=
    { fs := replayEffects o (outputDir fn sep ++ [n]) w.fs
      log := (w.log ++ [.system (analyzeLine h packageName (outputDir fn sep ++ [n]))]) ++
        [.replay (outputDir fn sep ++ [n]) (executableAt w.fs (analyzedExecutable (outputDir fn sep ++ [n])))] }
  have hrun : runReplay xml2 h o packageName (outputDir fn sep ++ [n]) w =
      (if o.stops then stop (analysisError h (outputDir fn sep ++ [n]))
        else readReplay xml2 h o (outputDir fn sep ++ [n]) : Program _) w₁ := rfl
  have hlog : replaysOf w₁.log = replaysOf w.log ++ [outputDir fn sep ++ [n]] := by
    simp only [w₁, replaysOf_append]
    rw [List.append_assoc]
    rfl
  have hin : inputsIn fn w₁.fs = overlay (dumpedInto (w.fs.dirExists (inputsPath fn)) o) (inputsIn fn w.fs) :=
    inputsIn_replayEffects n
  have hframe : Frame (ReplayTouches fn sep n) w.fs w₁.fs := by
    refine Frame.trans (frame_writeInto (fun x => Or.inl ⟨x, rfl⟩) _) (frame_writeInto (fun x => ?_) _)
    rw [analyzedInputs_outputDir]
    exact Or.inr ⟨x, rfl⟩
  rw [hrun]
  split
  · rename_i hstops
    exact ⟨w₁, hlog, hin, hframe, .stops _ fun hend => hend.1.1 hstops⟩
  · rename_i hstops
    obtain ⟨w₂, heff, hread⟩ := @readReplay_run xml2 h fn n sep o w₁
    obtain ⟨hsame, hin'⟩ := readInputs_congr (h := h) heff.frame
    have hlog' : w₂.log = w₁.log := by
      obtain ⟨es, hes, hnone⟩ := heff.events
      rw [hes, List.eq_nil_iff_forall_not_mem.mpr hnone, List.append_nil]
    have hframe' : Frame (ReplayTouches fn sep n) w.fs w₂.fs :=
      Frame.trans hframe (heff.frame.mono fun p hp => Or.inl hp)
    rw [hread]
    cases hxml : deepstateReadValgrindXml xml2 o.xml with
    | error e =>
        refine ⟨w₁, hlog, hin, hframe, .stops e ?_⟩
        rintro ⟨⟨-, t, ht⟩, -⟩
        rw [hxml] at ht
        cases ht
    | ok logtable =>
        refine ⟨w₂, by rw [hlog', hlog], by rw [hin', hin], hframe', ?_⟩
        cases hvalues : readInputs h fn w₁.fs with
        | error e =>
            refine .stops e fun hend => ?_
            obtain ⟨values, hv⟩ := readInputs_isOk.mpr hend.2
            rw [hsame, hvalues] at hv
            cases hv
        | ok values =>
            exact .returns values logtable
              ⟨⟨hstops, logtable, hxml⟩, readInputs_isOk.mp ⟨values, hsame.trans hvalues⟩⟩ (hsame.trans hvalues)

/-- A saved file that is there is replayed, unless its log folder cannot be made. -/
theorem analyzeFile_run (w : World) (hfile : w.fs.fileExists (outputDir fn sep ++ [n]) = true) :
    ((w.fs.mkdir (logFolder (outputDir fn sep ++ [n]))).dirExists (logFolder (outputDir fn sep ++ [n])) =
          false ∧
        ∃ e w', deepstateAnalyzeFile xml2 h o packageName (outputDir fn sep ++ [n]) w = .error e w' ∧
          replaysOf w'.log = replaysOf w.log) ∨
      ∃ w', Replayed fn sep n o w w' ∧
        ReplayResult xml2 h fn o (outputDir fn sep ++ [n]) w'
          (deepstateAnalyzeFile xml2 h o packageName (outputDir fn sep ++ [n]) w) := by
  let w₁ : World := { w with fs := w.fs.mkdir (logFolder (outputDir fn sep ++ [n])) }
  have hrun : deepstateAnalyzeFile xml2 h o packageName (outputDir fn sep ++ [n]) w =
      (if w₁.fs.dirExists (logFolder (outputDir fn sep ++ [n])) then
        runReplay xml2 h o packageName (outputDir fn sep ++ [n])
      else stop "cannot open the connection" : Program _) w₁ := by
    unfold deepstateAnalyzeFile
    show (if w.fs.fileExists (outputDir fn sep ++ [n]) then _ else _ : Program _) w = _
    rw [hfile]
    rfl
  rw [hrun]
  split
  · right
    obtain ⟨w', hlog, hin, hframe, hres⟩ := @runReplay_run xml2 h fn n sep o packageName w₁
    have hmk : Frame (· = logFolder (outputDir fn sep ++ [n])) w.fs w₁.fs := frame_mkdir rfl
    have hdir : w₁.fs.dirExists (inputsPath fn) = w.fs.dirExists (inputsPath fn) := by
      refine hmk.dirExists fun hx => ?_
      rw [logFolder_append] at hx
      have hlen := congrArg List.length hx
      simp [outputDir, inputsPath] at hlen
    refine ⟨w', ⟨hlog, ?_, ?_, fun x => hframe _ (not_replayTouches_saved x)⟩, hres⟩
    · rw [hin, hdir]
      congr 1
      refine inputsIn_congr fun x => hmk _ fun hx => ?_
      rw [logFolder_append] at hx
      exact inputsPath_ne_outputDir (List.append_inj_left' hx rfl)
    · rw [hframe.dirExists not_replayTouches_inputs, hdir]
  · rename_i hd
    exact Or.inl ⟨by simpa using hd, _, w₁, rfl, rfl⟩

end One

/-! ## A pass over the saved files -/

section Pass

variable {xml2 : Xml2} {h : Host} {fn : Text} {sep : Sep} {maxInputs : MaxInputs}
  {replay : Text → ReplayOutcome}

/-- The files that are replayed are the first ones of the listing. -/
theorem selectFiles_initial {names selected : List Text} (hsel : selectFiles maxInputs names = .ok selected) :
    selected <+: names := by
  unfold selectFiles at hsel
  cases maxInputs with
  | all => cases hsel; exact List.take_prefix _ _
  | count k =>
      simp only at hsel
      split at hsel
      · cases hsel
      · split at hsel <;> (cases hsel; exact List.take_prefix _ _)

/-- Where the saved files are listed, so are the argument files. -/
theorem globs_inputs (hg : h.globs (outputDir fn sep) = true) : h.globs (inputsPath fn) = true := by
  apply Host.globs_of_subset hg
  intro c hc
  rcases List.mem_append.mp hc with hc | hc
  · exact Or.inl (List.mem_append_left _ hc)
  · rw [List.mem_singleton.mp hc]
    exact Or.inr (Glob.fitsItself_of_plain (by with_unfolding_all decide))

theorem getPackageName_quiet (h : Host) (w : World) :
    ∃ log, getPackageName h w = .ok (packageNameIn w.fs) { w with log := log } ∧
      replaysOf log = replaysOf w.log := by
  obtain ⟨log, hname⟩ := getPackageName_ok h w
  obtain ⟨es, hes, hquiet⟩ := (effects_getPackageName (T := fun _ => False)
    (P := fun e => ∃ m, e = .message m) (h := h) ⟨_, rfl⟩ w).events
  rw [final_of_ok hname] at hes
  refine ⟨log, hname, ?_⟩
  simp only at hes
  have hnone : replaysOf es = [] := List.filterMap_eq_nil_iff.mpr fun e he => by
    obtain ⟨m, rfl⟩ := hquiet e he
    rfl
  rw [hes, replaysOf_append, hnone, List.append_nil]

/-- A saved file stays where it is. -/
theorem Replayed.fileExists {n x : Text} {o : ReplayOutcome} {w w' : World} (hr : Replayed fn sep n o w w')
    (hx : w.fs.fileExists (outputDir fn sep ++ [x]) = true) :
    w'.fs.fileExists (outputDir fn sep ++ [x]) = true := by
  have hsame : w'.fs.fileExists (outputDir fn sep ++ [x]) =
      (w.fs.mkdir (logFolder (outputDir fn sep ++ [n]))).fileExists (outputDir fn sep ++ [x]) := by
    unfold FileSystem.fileExists
    rw [hr.saved x]
  rw [hsame, fileExists_mkdir, hx, Bool.or_true]

/-- No saved file is replayed. -/
def Idle (h : Host) (fn : Text) (maxInputs : MaxInputs) (sep : Sep) (fs : FileSystem Content) : Prop :=
  fs.fileExists (funPath fn) = false ∨ sysGlob h fs (outputDir fn sep) = [] ∨
    ∃ e, selectFiles maxInputs (sysGlob h fs (outputDir fn sep)) = .error e

/-- An analysis is a pass over the selected files, or it ends before it. -/
theorem analyzeFun_run (w : World) :
    ∃ log, replaysOf log = replaysOf w.log ∧
      ((Idle h fn maxInputs sep w.fs ∧
          Command.final (deepstateAnalyzeFun xml2 h replay fn maxInputs sep) w = { w with log := log } ∧
          ∀ rows w', deepstateAnalyzeFun xml2 h replay fn maxInputs sep w ≠ .ok (some rows) w') ∨
        ∃ selected, ¬ Idle h fn maxInputs sep w.fs ∧
          selectFiles maxInputs (sysGlob h w.fs (outputDir fn sep)) = .ok selected ∧
          deepstateAnalyzeFun xml2 h replay fn maxInputs sep w =
            (analyzeFiles xml2 h replay (packageNameIn w.fs) (outputDir fn sep) selected >>= fun rows =>
              pure (some rows) : Program _) { w with log := log }) := by
  have hstart : deepstateAnalyzeFun xml2 h replay fn maxInputs sep w =
      (if w.fs.fileExists (funPath fn) then _ else stop "No such file or directory" : Program _) w := rfl
  by_cases hfun : w.fs.fileExists (funPath fn) = true
  · obtain ⟨log, hname, hquiet⟩ := getPackageName_quiet h w
    rw [if_pos hfun, bind_of_ok hname] at hstart
    have hfiles : deepstateAnalyzeFun xml2 h replay fn maxInputs sep w =
        (if sysGlob h w.fs (outputDir fn sep) = [] then _ else _ : Program _) { w with log := log } := hstart
    by_cases hnil : sysGlob h w.fs (outputDir fn sep) = []
    · rw [if_pos hnil] at hfiles
      refine ⟨log ++ [.message (.noBinFiles fn)], ?_, Or.inl ⟨Or.inr (Or.inl hnil), ?_, ?_⟩⟩
      · rw [replaysOf_append, hquiet]
        exact List.append_nil _
      · rw [Command.final, hfiles]; rfl
      · intro rows w' hr
        rw [hfiles] at hr
        cases hr
    · refine ⟨log, hquiet, ?_⟩
      rw [if_neg hnil] at hfiles
      cases hsel : selectFiles maxInputs (sysGlob h w.fs (outputDir fn sep)) with
      | error e =>
          rw [hsel] at hfiles
          left
          refine ⟨Or.inr (Or.inr ⟨e, hsel⟩), ?_, ?_⟩
          · rw [Command.final, hfiles]; rfl
          · intro rows w' hr
            rw [hfiles] at hr
            cases hr
      | ok selected =>
          rw [hsel] at hfiles
          right
          refine ⟨selected, ?_, rfl, hfiles⟩
          rintro (hf | hn | ⟨e, he⟩)
          · rw [hfun] at hf; cases hf
          · exact hnil hn
          · rw [hsel] at he; cases he
  · rw [if_neg hfun] at hstart
    refine ⟨w.log, rfl, Or.inl ⟨Or.inl (by simpa using hfun), ?_, ?_⟩⟩
    · rw [Command.final, hstart]; rfl
    · intro rows w' hr
      rw [hstart] at hr
      cases hr

end Pass

end RcppDeepState
