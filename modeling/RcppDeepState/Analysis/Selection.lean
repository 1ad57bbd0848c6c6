import RcppDeepState.Analysis.ReadBack
import RcppDeepState.Analysis.Repeat
import RcppDeepState.Package.Lemmas.Created

/-!
# Which files are analysed

`deepstate_harness_analyze_pkg` cuts the list of functions off, `deepstate_analyze_fun` the list of saved
files. The first cut runs past the end of a short list, and the second falls back to three files, without a limit
and whenever the limit is larger than the number of files.
-/

namespace RcppDeepState

open Command FileSystem Overlay

/-! ## The cut-offs -/

/-- The first entries of a list, as many as are asked for. -/
def firstNames (limit : MaxInputs) (names : List Text) : List Text :=
  match limit with
  | .all => names
  | .count k => names.take k.toNat

/-- Something is asked for. -/
def MaxInputs.Positive : MaxInputs → Prop
  | .all => True
  | .count k => 1 ≤ k

/-- One limit asks for no more than another. -/
def MaxInputs.AtMost : MaxInputs → MaxInputs → Prop
  | _, .all => True
  | .all, .count _ => False
  | .count k, .count k' => k ≤ k'

/-- The saved files that are kept under a positive limit. -/
def keptNames (maxInputs : MaxInputs) (names : List Text) : List Text :=
  match maxInputs with
  | .all => names.take 3
  | .count m => if m ≤ names.length then names.take m.toNat else names.take 3

def savedFiles (fs : FileSystem Content) (fn : Text) : List Text := fs.listFiles (outputDir fn .infun)

/-- The first saved files of a function, as many as are asked for. -/
def requestedOf (maxInputs : MaxInputs) (fs : FileSystem Content) (fn : Text) : List Pathname :=
  (firstNames maxInputs (savedFiles fs fn)).map (outputDir fn .infun ++ [·])

/-- The saved files of a function that are found and kept. -/
def keptOf (h : Host) (maxInputs : MaxInputs) (fs : FileSystem Content) (fn : Text) : List Pathname :=
  (keptNames maxInputs (sysGlob h fs (outputDir fn .infun))).map (outputDir fn .infun ++ [·])

/-- The first saved files of the first functions, function by function. -/
def requestedFiles (testfiles maxInputs : MaxInputs) (fs : FileSystem Content) : List Pathname :=
  (firstNames testfiles (fs.listFiles testPath)).flatMap (requestedOf maxInputs fs)

/-- There are as many functions as are asked for. -/
def FunctionsInRange : MaxInputs → List Text → Prop
  | .all, _ => True
  | .count k, names => k ≤ names.length

/-- There are as many files as are asked for, or no more than three. -/
def FilesInRange : MaxInputs → List Text → Prop
  | .all, names => names.length ≤ 3
  | .count m, names => m ≤ names.length ∨ names.length ≤ 3

/-- The limits are in range, and the saved files of the functions that are taken are found. -/
structure InRange (h : Host) (testfiles maxInputs : MaxInputs) (fs : FileSystem Content) : Prop where
  functions : FunctionsInRange testfiles (fs.listFiles testPath)
  files : ∀ fn ∈ firstNames testfiles (fs.listFiles testPath),
    h.globs (outputDir fn .infun) = true ∧ FilesInRange maxInputs (savedFiles fs fn)

section Cuts

variable {limit limit' testfiles maxInputs maxInputs' : MaxInputs} {names : List Text} {h : Host} {fn : Text}
  {fs : FileSystem Content}

theorem firstNames_initial (limit : MaxInputs) (names : List Text) : firstNames limit names <+: names := by
  cases limit with
  | all => exact List.prefix_rfl
  | count k => exact List.take_prefix _ _

theorem firstNames_ne_nil (hpos : limit.Positive) (hne : names ≠ []) : firstNames limit names ≠ [] := by
  cases limit with
  | all => exact hne
  | count k =>
      have hk : 1 ≤ k := hpos
      have hlen := List.length_pos_iff.mpr hne
      rw [firstNames, ← List.length_pos_iff, List.length_take]
      omega

theorem firstNames_subset (hle : limit.AtMost limit') (names : List Text) :
    firstNames limit names ⊆ firstNames limit' names := by
  cases limit' with
  | all => exact (firstNames_initial limit names).subset
  | count k' =>
      cases limit with
      | all => exact hle.elim
      | count k =>
          have hk : k ≤ k' := hle
          exact List.take_subset_take_left _ (by omega)

theorem MaxInputs.Positive.mono (hpos : limit.Positive) (hle : limit.AtMost limit') : limit'.Positive := by
  cases limit' with
  | all => trivial
  | count k' =>
      cases limit with
      | all => exact hle.elim
      | count k =>
          have hk : 1 ≤ k := hpos
          have hkk : k ≤ k' := hle
          exact le_trans hk hkk

theorem selectFiles_eq (hpos : maxInputs.Positive) (names : List Text) :
    selectFiles maxInputs names = .ok (keptNames maxInputs names) := by
  cases maxInputs with
  | all => rfl
  | count m =>
      have hm : 1 ≤ m := hpos
      have hmax : max m.toNat 1 = m.toNat := by omega
      rw [selectFiles, if_neg (by omega), hmax, keptNames]
      split <;> rfl

/-- No more files are kept than are asked for, and they are the first. -/
theorem keptNames_initial (maxInputs : MaxInputs) (names : List Text) :
    keptNames maxInputs names <+: firstNames maxInputs names := by
  cases maxInputs with
  | all => exact List.take_prefix _ _
  | count m =>
      rw [keptNames, firstNames]
      split
      · exact List.prefix_rfl
      · rw [List.take_of_length_le (i := m.toNat) (by omega)]
        exact List.take_prefix _ _

/-- All the files that are asked for are kept exactly when the limit is in range. -/
theorem keptNames_eq_iff : keptNames maxInputs names = firstNames maxInputs names ↔ FilesInRange maxInputs names := by
  cases maxInputs with
  | all =>
      rw [keptNames, firstNames, FilesInRange]
      exact List.take_eq_self_iff names
  | count m =>
      rw [keptNames, firstNames, FilesInRange]
      split
      · rename_i hm
        exact iff_of_true rfl (Or.inl hm)
      · rename_i hm
        rw [List.take_of_length_le (i := m.toNat) (by omega), List.take_eq_self_iff]
        exact ⟨Or.inr, fun hor => hor.resolve_left hm⟩

theorem keptNames_ne_nil (hpos : maxInputs.Positive) (hne : names ≠ []) : keptNames maxInputs names ≠ [] :=
  selectFiles_ne_nil hne (selectFiles_eq hpos names)

theorem keptOf_of_not_globs (hg : h.globs (outputDir fn .infun) = false) : keptOf h maxInputs fs fn = [] := by
  rw [keptOf, sysGlob_of_not_globs hg]
  cases maxInputs with
  | all => rfl
  | count m =>
      rw [keptNames]
      split
      · rw [List.take_nil]
        rfl
      · rfl

theorem keptOf_initial (h : Host) (maxInputs : MaxInputs) (fs : FileSystem Content) (fn : Text) :
    keptOf h maxInputs fs fn <+: requestedOf maxInputs fs fn := by
  cases hg : h.globs (outputDir fn .infun) with
  | false =>
      rw [keptOf_of_not_globs hg]
      exact List.nil_prefix
  | true =>
      rw [keptOf, requestedOf, sysGlob_of_globs hg, savedFiles]
      exact (keptNames_initial maxInputs _).map _

theorem requestedOf_ne_nil (hpos : maxInputs.Positive) (hne : savedFiles fs fn ≠ []) :
    requestedOf maxInputs fs fn ≠ [] := by
  rw [requestedOf, ne_eq, List.map_eq_nil_iff]
  exact firstNames_ne_nil hpos hne

/-- The files of a function that are kept are those that are asked for exactly when they are found, and the limit is
in range. -/
theorem keptOf_eq_iff (hpos : maxInputs.Positive) (hne : savedFiles fs fn ≠ []) :
    keptOf h maxInputs fs fn = requestedOf maxInputs fs fn ↔
      h.globs (outputDir fn .infun) = true ∧ FilesInRange maxInputs (savedFiles fs fn) := by
  cases hg : h.globs (outputDir fn .infun) with
  | false =>
      rw [keptOf_of_not_globs hg]
      exact iff_of_false (requestedOf_ne_nil hpos hne).symm fun hand => Bool.false_ne_true hand.1
  | true =>
      have hinj : Function.Injective fun n : Text => outputDir fn .infun ++ [n] := fun x y hxy => by simpa using hxy
      rw [keptOf, requestedOf, sysGlob_of_globs hg, hinj.list_map.eq_iff, and_iff_right rfl]
      exact keptNames_eq_iff

theorem mem_requestedOf {p : Pathname} (hp : p ∈ requestedOf maxInputs fs fn) :
    ∃ n ∈ savedFiles fs fn, p = outputDir fn .infun ++ [n] := by
  obtain ⟨n, hn, rfl⟩ := List.mem_map.mp hp
  exact ⟨n, (firstNames_initial maxInputs _).subset hn, rfl⟩

/-- Larger limits ask for all that smaller ones do. -/
theorem requestedFiles_subset (hle : testfiles.AtMost limit') (hle' : maxInputs.AtMost maxInputs')
    (fs : FileSystem Content) : requestedFiles testfiles maxInputs fs ⊆ requestedFiles limit' maxInputs' fs := by
  intro p hp
  obtain ⟨fn, hfn, hp⟩ := List.mem_flatMap.mp hp
  obtain ⟨n, hn, rfl⟩ := List.mem_map.mp hp
  exact List.mem_flatMap.mpr ⟨fn, firstNames_subset hle _ hfn,
    List.mem_map.mpr ⟨n, firstNames_subset hle' _ hn, rfl⟩⟩

theorem outputDir_inj {fn fn' n n' : Text} (heq : outputDir fn .infun ++ [n] = outputDir fn' .infun ++ [n']) :
    fn = fn' ∧ n = n' := by
  have hdir : outputDir fn .infun = outputDir fn' .infun := List.append_inj_left' heq rfl
  rw [outputDir, outputDir] at hdir
  exact ⟨(funPath_append_inj.mp hdir).1, by simpa using List.append_inj_right' heq rfl⟩

/-- No file is asked for twice. -/
theorem nodup_requestedFiles (testfiles maxInputs : MaxInputs) (fs : FileSystem Content) :
    (requestedFiles testfiles maxInputs fs).Nodup := by
  have hfunctions := (nodup_listFiles fs testPath).sublist (firstNames_initial testfiles _).sublist
  rw [requestedFiles, List.nodup_flatMap]
  refine ⟨fun fn _ => ?_, hfunctions.imp fun hne => ?_⟩
  · refine List.Nodup.map (fun a b hab => by simpa using hab) ?_
    exact (nodup_listFiles _ _).sublist (firstNames_initial maxInputs _).sublist
  · intro p hp hp'
    obtain ⟨n, -, rfl⟩ := List.mem_map.mp hp
    obtain ⟨n', -, heq⟩ := List.mem_map.mp hp'
    exact hne (outputDir_inj heq).1.symm

theorem length_flatMap_le {α β : Type} {f g : α → List β} {xs : List α} (hpre : ∀ x ∈ xs, f x <+: g x) :
    (xs.flatMap f).length ≤ (xs.flatMap g).length := by
  induction xs with
  | nil => exact le_refl _
  | cons x xs ih =>
      rw [List.flatMap_cons, List.flatMap_cons, List.length_append, List.length_append]
      exact Nat.add_le_add (hpre x (by simp)).length_le (ih fun y hy => hpre y (by simp [hy]))

/-- Where each part begins another, the wholes agree exactly when all the parts do. -/
theorem flatMap_eq_iff_of_prefix {α β : Type} {f g : α → List β} {xs : List α} (hpre : ∀ x ∈ xs, f x <+: g x) :
    xs.flatMap f = xs.flatMap g ↔ ∀ x ∈ xs, f x = g x := by
  induction xs with
  | nil => simp
  | cons x xs ih =>
      obtain ⟨hx, hxs⟩ := List.forall_mem_cons.mp hpre
      have hle := hx.length_le
      have hles := length_flatMap_le hxs
      rw [List.forall_mem_cons, ← ih hxs, List.flatMap_cons, List.flatMap_cons]
      constructor
      · intro heq
        have hlen := congrArg List.length heq
        rw [List.length_append, List.length_append] at hlen
        have hfirst : f x = g x := hx.eq_of_length (by omega)
        rw [hfirst] at heq
        exact ⟨hfirst, List.append_cancel_left heq⟩
      · rintro ⟨hfirst, hrest⟩
        rw [hfirst, hrest]

end Cuts

/-! ## The files of one function -/

section Files

variable {xml2 : Xml2} {h : Host} {fn : Text} {sep : Sep} {replay : Text → ReplayOutcome}
  {packageName : Option Text}

/-- The files that have been replayed so far. -/
def replayed (w : World) : List Pathname := replaysOf w.log

/-- Analysing a saved file replays it, unless its log folder cannot be made. -/
theorem emits_analyzeFile {n : Text} {o : ReplayOutcome} {w : World}
    (hfile : w.fs.fileExists (outputDir fn sep ++ [n]) = true) :
    Emits replayed [outputDir fn sep ++ [n]]
        (deepstateAnalyzeFile xml2 h o packageName (outputDir fn sep ++ [n])) w ∧
      ∀ r w', deepstateAnalyzeFile xml2 h o packageName (outputDir fn sep ++ [n]) w = .ok r w' →
        Replayed fn sep n o w w' := by
  rcases @analyzeFile_run xml2 h _ _ _ o packageName w hfile with ⟨-, e, w', herr, hlog⟩ | ⟨w', hr, hres⟩
  · refine ⟨Emits.error herr hlog, fun r w'' hok => ?_⟩
    rw [herr] at hok
    cases hok
  · have hfinal : final (deepstateAnalyzeFile xml2 h o packageName (outputDir fn sep ++ [n])) w = w' := by
      rw [final]
      generalize deepstateAnalyzeFile xml2 h o packageName (outputDir fn sep ++ [n]) w = res at hres
      cases hres <;> rfl
    refine ⟨⟨[outputDir fn sep ++ [n]], List.prefix_rfl, ?_, fun _ _ _ => rfl⟩, fun r w'' hok => ?_⟩
    · rw [hfinal]
      exact hr.replays
    · rw [final_of_ok hok] at hfinal
      rw [hfinal]
      exact hr

theorem emits_analyzeFiles {names : List Text} {w : World}
    (hfiles : ∀ n ∈ names, w.fs.fileExists (outputDir fn sep ++ [n]) = true) :
    Emits replayed (names.map (outputDir fn sep ++ [·]))
      (analyzeFiles xml2 h replay packageName (outputDir fn sep) names) w := by
  have hloop : Emits replayed (names.flatMap fun n => [outputDir fn sep ++ [n]]) (names.mapM fun n =>
      deepstateAnalyzeFile xml2 h (replay n) packageName (outputDir fn sep ++ [n])) w := by
    refine Emits.mapM (I := fun ns w => ∀ n ∈ ns, w.fs.fileExists (outputDir fn sep ++ [n]) = true) ?_ hfiles
    intro n ns w hall
    obtain ⟨hone, hnext⟩ := emits_analyzeFile (hall n (by simp))
    exact ⟨hone, fun r w' hok x hx => (hnext r w' hok).fileExists (hall x (by simp [hx]))⟩
  have hall := hloop.bind fun rows w' _ => Emits.pure (rows.filterMap id) w'
  rw [List.append_nil, ← List.map_eq_flatMap] at hall
  exact hall

/-- The replays of some saved files one after the other end in order, find arguments that can be read, and have
folders for their logs. -/
structure Replayable (xml2 : Xml2) (h : Host) (replay : Text → ReplayOutcome) (fn : Text)
    (sep : Sep) (names : List Text) (fs : FileSystem Content) : Prop where
  folders : Foldered fn sep fs
  completes : Completes (dumpedBy fn replay fs) (fun n => SoundRun xml2 (replay n)) (ReadableInput h fn)
    (inputsIn fn fs) names

theorem Replayable.initial {names names' : List Text} {fs : FileSystem Content}
    (hreplay : Replayable xml2 h replay fn sep names fs) (hpre : names' <+: names) :
    Replayable xml2 h replay fn sep names' fs := by
  obtain ⟨rest, rfl⟩ := hpre
  exact ⟨hreplay.folders, ((completes_append _ _).mp hreplay.completes).1⟩

theorem analyzeFiles_returns {names : List Text} {w : World}
    (hfiles : ∀ n ∈ names, w.fs.fileExists (outputDir fn sep ++ [n]) = true)
    (hreplay : Replayable xml2 h replay fn sep names w.fs) :
    ∃ rows w', analyzeFiles xml2 h replay packageName (outputDir fn sep) names w = .ok rows w' := by
  have hloop : ∃ rows w', (names.mapM fun n =>
      deepstateAnalyzeFile xml2 h (replay n) packageName (outputDir fn sep ++ [n])) w = .ok rows w' := by
    refine mapM_returns (I := fun ns w => (∀ n ∈ ns, w.fs.fileExists (outputDir fn sep ++ [n]) = true) ∧
      Replayable xml2 h replay fn sep ns w.fs) ?_ ⟨hfiles, hreplay⟩
    rintro n ns w ⟨hall, hfolders, hends, hrest⟩
    rcases @analyzeFile_run xml2 h _ _ _ (replay n) packageName w (hall n (by simp)) with
        ⟨hno, -⟩ | ⟨w', hr, hres⟩
    · rw [hfolders.mkdir n] at hno
      cases hno
    · have hdump : dumpedBy fn replay w'.fs = dumpedBy fn replay w.fs := by
        unfold dumpedBy
        rw [hr.hasInputs]
      have hin : inputsIn fn w'.fs = overlay (dumpedBy fn replay w.fs n) (inputsIn fn w.fs) := hr.inputs
      generalize deepstateAnalyzeFile xml2 h (replay n) packageName (outputDir fn sep ++ [n]) w = res at hres
      cases hres with
      | stops e hstop => exact absurd (hin ▸ hends) hstop
      | returns values logtable _ _ =>
          refine ⟨_, w', rfl, fun x hx => hr.fileExists (hall x (by simp [hx])), hr.foldered hfolders, ?_⟩
          rw [hdump, hin]
          exact hrest
  obtain ⟨rows, w', hok⟩ := hloop
  exact ⟨_, w', by rw [analyzeFiles, bind_of_ok hok]; rfl⟩

end Files

/-! ## One function after the other -/

section Functions

variable {xml2 : Xml2} {h : Host} {fn : Text} {replay : Text → ReplayOutcome}
  {testfiles maxInputs : MaxInputs} {fs fs' : FileSystem Content} {w : World}

theorem SameDirectory.listed (hsame : SameDirectory fn fs fs') :
    sysGlob h fs' (outputDir fn .infun) = sysGlob h fs (outputDir fn .infun) := by
  refine sysGlob_congr fun n => ?_
  rw [FileSystem.fileExists, hsame _ (by simp [outputDir]), FileSystem.fileExists]

theorem SameDirectory.savedFiles (hsame : SameDirectory fn fs fs') : savedFiles fs' fn = savedFiles fs fn := by
  refine listFiles_congr fun n => ?_
  rw [FileSystem.fileExists, hsame _ (by simp [outputDir]), FileSystem.fileExists]

theorem SameDirectory.keptOf (hsame : SameDirectory fn fs fs') : keptOf h maxInputs fs' fn = keptOf h maxInputs fs fn := by
  rw [RcppDeepState.keptOf, RcppDeepState.keptOf, hsame.listed]

theorem SameDirectory.replayable {names : List Text} (hsame : SameDirectory fn fs fs')
    (hr : Replayable xml2 h replay fn .infun names fs) : Replayable xml2 h replay fn .infun names fs' := by
  have hdump : dumpedBy fn replay fs' = dumpedBy fn replay fs := by
    unfold dumpedBy
    rw [FileSystem.dirExists, inputsPath, hsame.node?, FileSystem.dirExists]
  have hin : inputsIn fn fs' = inputsIn fn fs := inputsIn_congr fun n => hsame _ (by simp [inputsPath])
  refine ⟨fun n => ?_, ?_⟩
  · rw [hsame _ (by simp [outputDir])]
    exact hr.folders n
  · rw [hdump, hin]
    exact hr.completes

/-- Analysing a function leaves the directories of the others as they are. -/
theorem sameDirectory_analyzeFun {n : Text} (hne : n ≠ fn) :
    SameDirectory n w.fs (final (deepstateAnalyzeFun xml2 h replay fn maxInputs .infun) w).fs := by
  intro p hp
  refine (effects_analyzeFun replay fn maxInputs .infun w).frame p fun ht => ?_
  rcases ht with ⟨m, rfl⟩ | ⟨m, x, rfl⟩ | ⟨m, rfl⟩
  · rw [outputDir, List.append_assoc] at hp
    exact hne (eq_of_funPath_extends hp)
  · rw [outputDir, List.append_assoc, List.append_assoc] at hp
    exact hne (eq_of_funPath_extends hp)
  · rw [outputDir, List.dropLast_concat, List.append_assoc] at hp
    exact hne (eq_of_funPath_extends hp)

/-- A function that is there is analysed on the files that are kept, unless none is found. -/
theorem analyzeFun_apply (hfun : w.fs.fileExists (funPath fn) = true) (hpos : maxInputs.Positive) :
    ∃ log, replaysOf log = replaysOf w.log ∧
      ((sysGlob h w.fs (outputDir fn .infun) = [] ∧
          deepstateAnalyzeFun xml2 h replay fn maxInputs .infun w = .ok none { w with log := log }) ∨
        deepstateAnalyzeFun xml2 h replay fn maxInputs .infun w =
          (analyzeFiles xml2 h replay (packageNameIn w.fs) (outputDir fn .infun)
              (keptNames maxInputs (sysGlob h w.fs (outputDir fn .infun))) >>= fun rows =>
            pure (some rows) : Program _) { w with log := log }) := by
  obtain ⟨log, hname, hquiet⟩ := getPackageName_quiet h w
  have hstart : deepstateAnalyzeFun xml2 h replay fn maxInputs .infun w =
      (if w.fs.fileExists (funPath fn) then _ else stop "No such file or directory" : Program _) w := rfl
  rw [if_pos hfun, bind_of_ok hname] at hstart
  have hfiles : deepstateAnalyzeFun xml2 h replay fn maxInputs .infun w =
      (if sysGlob h w.fs (outputDir fn .infun) = [] then _ else _ : Program _) { w with log := log } := hstart
  by_cases hnil : sysGlob h w.fs (outputDir fn .infun) = []
  · rw [if_pos hnil] at hfiles
    refine ⟨log ++ [Event.message (.noBinFiles fn)], ?_, Or.inl ⟨hnil, hfiles⟩⟩
    rw [replaysOf_append, hquiet]
    exact List.append_nil _
  · rw [if_neg hnil, selectFiles_eq hpos] at hfiles
    exact ⟨log, hquiet, Or.inr hfiles⟩

theorem exists_keptNames (h : Host) (maxInputs : MaxInputs) (fs : FileSystem Content) (fn : Text) :
    ∀ n ∈ keptNames maxInputs (sysGlob h fs (outputDir fn .infun)),
      fs.fileExists (outputDir fn .infun ++ [n]) = true := fun _ hn =>
  (mem_sysGlob.mp ((firstNames_initial maxInputs _).subset ((keptNames_initial maxInputs _).subset hn))).2.1

theorem keptOf_of_nil (hnil : sysGlob h fs (outputDir fn .infun) = []) : keptOf h maxInputs fs fn = [] := by
  have hinitial := (keptNames_initial maxInputs []).trans (firstNames_initial maxInputs [])
  rw [keptOf, hnil, List.prefix_nil.mp hinitial, List.map_nil]

/-- Analysing a function replays the files that are kept. -/
theorem emits_analyzeFun (hfun : w.fs.fileExists (funPath fn) = true) (hpos : maxInputs.Positive) :
    Emits replayed (keptOf h maxInputs w.fs fn) (deepstateAnalyzeFun xml2 h replay fn maxInputs .infun) w := by
  obtain ⟨log, hlog, ⟨hnil, hrun⟩ | hrun⟩ := @analyzeFun_apply xml2 h _ replay _ _ hfun hpos
  · rw [keptOf_of_nil hnil]
    have hpure : deepstateAnalyzeFun xml2 h replay fn maxInputs .infun w =
        (pure none : Program (Option (List AnalysisRow))) { w with log := log } := hrun
    exact (Emits.pure _ _).congr hpure hlog
  · have hfiles := @emits_analyzeFiles xml2 h fn .infun replay (packageNameIn w.fs) _ { w with log := log }
      (exists_keptNames h maxInputs w.fs fn)
    have hall := hfiles.bind fun rows w' _ => Emits.pure (some rows) w'
    rw [List.append_nil] at hall
    exact hall.congr hrun hlog

theorem analyzeFun_returns (hfun : w.fs.fileExists (funPath fn) = true) (hpos : maxInputs.Positive)
    (hreplay : Replayable xml2 h replay fn .infun (savedFiles w.fs fn) w.fs) :
    ∃ rows w', deepstateAnalyzeFun xml2 h replay fn maxInputs .infun w = .ok rows w' := by
  obtain ⟨log, -, ⟨-, hrun⟩ | hrun⟩ := @analyzeFun_apply xml2 h _ replay _ _ hfun hpos
  · exact ⟨none, _, hrun⟩
  · have hkept : keptNames maxInputs (sysGlob h w.fs (outputDir fn .infun)) <+: savedFiles w.fs fn := by
      have hinitial : ∀ names, keptNames maxInputs names <+: names := fun names =>
        (keptNames_initial maxInputs names).trans (firstNames_initial maxInputs names)
      cases hg : h.globs (outputDir fn .infun) with
      | false =>
          rw [sysGlob_of_not_globs hg, List.prefix_nil.mp (hinitial [])]
          exact List.nil_prefix
      | true =>
          rw [sysGlob_of_globs hg]
          exact hinitial _
    obtain ⟨rows, w', hok⟩ := @analyzeFiles_returns xml2 h fn .infun replay (packageNameIn w.fs) _
      { w with log := log } (exists_keptNames h maxInputs w.fs fn) (hreplay.initial hkept)
    exact ⟨some rows, w', by rw [hrun, bind_of_ok hok]; rfl⟩

/-- A missing directory stops the analysis. -/
theorem exists_of_analyzeFun_ok {rows : Option (List AnalysisRow)} {w' : World}
    (hok : deepstateAnalyzeFun xml2 h replay fn maxInputs .infun w = .ok rows w') :
    w.fs.fileExists (funPath fn) = true := by
  by_contra hno
  rw [deepstateAnalyzeFun, files_bind_apply, if_neg hno] at hok
  cases hok

/-- A saved file stays where it is, and the names of the log folders stay free for them. -/
theorem analyzeFun_keeps {n : Text} (hfold : Foldered fn .infun w.fs)
    (hn : w.fs.fileExists (outputDir fn .infun ++ [n]) = true) :
    (final (deepstateAnalyzeFun xml2 h replay fn maxInputs .infun) w).fs.fileExists
        (outputDir fn .infun ++ [n]) = true ∧
      Foldered fn .infun (final (deepstateAnalyzeFun xml2 h replay fn maxInputs .infun) w).fs := by
  by_cases hidle : Idle h fn maxInputs .infun w.fs
  · rw [(analyzeFun_idle hidle).1]
    exact ⟨hn, hfold⟩
  · obtain ⟨_, rs, -, -, hleaves⟩ := @analyzeFun_pass xml2 h _ _ replay _ _ hfold hidle
    exact ⟨(hleaves.listed n).mpr (Or.inr hn), hleaves.folders⟩

end Functions

/-! ## The package -/

section Package

variable {xml2 : Xml2} {h : Host} {replay : Text → Text → ReplayOutcome}
  {testfiles maxInputs : MaxInputs} {fs : FileSystem Content} {w : World}

/-- The functions that are taken under a positive limit; past the end of the list stands NA. -/
def takenFunctions (testfiles : MaxInputs) (names : List Text) : List Text :=
  match testfiles with
  | .all => names
  | .count k => names.take k.toNat ++ List.replicate (k.toNat - names.length) ("NA" : Text)

theorem selectFunctions_eq (hpos : testfiles.Positive) (names : List Text) :
    selectFunctions testfiles names = .ok (takenFunctions testfiles names) := by
  cases testfiles with
  | all => rfl
  | count k =>
      have hk : 1 ≤ k := hpos
      have hmax : max k.toNat 1 = k.toNat := by omega
      rw [selectFunctions, if_neg (by omega), hmax, takenFunctions]
      refine congrArg Except.ok (List.ext_getElem ?_ fun i hi hi' => ?_)
      · simp only [List.length_map, List.length_range, List.length_append, List.length_take, List.length_replicate]
        omega
      · rw [List.getElem_map, List.getElem_range]
        by_cases hlt : i < names.length
        · rw [List.length_map, List.length_range] at hi
          rw [List.getElem_append_left (by rw [List.length_take]; omega), List.getElem_take,
            List.getElem?_eq_getElem hlt]
          rfl
        · rw [List.getElem_append_right (by rw [List.length_take]; omega), List.getElem_replicate,
            List.getElem?_eq_none (by omega)]
          rfl

theorem takenFunctions_eq {names : List Text} (hrange : FunctionsInRange testfiles names) :
    takenFunctions testfiles names = firstNames testfiles names := by
  cases testfiles with
  | all => rfl
  | count k =>
      have hk : k ≤ names.length := hrange
      have hzero : k.toNat - names.length = 0 := by omega
      rw [takenFunctions, firstNames, hzero, List.replicate_zero, List.append_nil]

/-- What is left to do finds its directories as they were. -/
structure Untouched (fs : FileSystem Content) (fns : List Text) (w : World) : Prop where
  nodup : fns.Nodup
  listed : fns ⊆ fs.listFiles testPath
  same : ∀ fn ∈ fns, SameDirectory fn fs w.fs

theorem Untouched.next {fns : List Text} {fn : Text} {replay : Text → ReplayOutcome}
    (hu : Untouched fs (fn :: fns) w) :
    Untouched fs fns (final (deepstateAnalyzeFun xml2 h replay fn maxInputs .infun) w) := by
  obtain ⟨hnodup, hsub, hsame⟩ := hu
  rw [List.nodup_cons] at hnodup
  refine ⟨hnodup.2, fun x hx => hsub (List.mem_cons_of_mem _ hx), fun n hn => ?_⟩
  exact (hsame n (by simp [hn])).trans (sameDirectory_analyzeFun fun he => hnodup.1 (he ▸ hn))

theorem Untouched.fileExists {fns : List Text} {fn : Text} (hu : Untouched fs (fn :: fns) w) :
    w.fs.fileExists (funPath fn) = true := by
  rw [FileSystem.fileExists, hu.same fn (by simp) _ List.prefix_rfl]
  exact (mem_listFiles.mp (hu.listed List.mem_cons_self)).1

/-- Different functions are analysed on the files that are kept of each. -/
theorem emits_functions (hpos : maxInputs.Positive) {fns : List Text} (hu : Untouched fs fns w) :
    Emits replayed (fns.flatMap (keptOf h maxInputs fs))
      (fns.mapM fun fn => deepstateAnalyzeFun xml2 h (replay fn) fn maxInputs .infun) w := by
  refine Emits.mapM (I := Untouched fs) ?_ hu
  intro fn fns w' hu
  rw [← (hu.same fn (by simp)).keptOf]
  exact ⟨emits_analyzeFun hu.fileExists hpos, fun r w'' hok => final_of_ok hok ▸ hu.next⟩

theorem functions_return (hpos : maxInputs.Positive) {fns : List Text} (hu : Untouched fs fns w)
    (hreplay : ∀ fn ∈ fs.listFiles testPath, Replayable xml2 h (replay fn) fn .infun (savedFiles fs fn) fs) :
    ∃ tables w', (fns.mapM fun fn => deepstateAnalyzeFun xml2 h (replay fn) fn maxInputs .infun) w =
      .ok tables w' := by
  refine mapM_returns (I := Untouched fs) ?_ hu
  intro fn fns w' hu
  have hsame := hu.same fn (by simp)
  have hgood := hsame.replayable (hreplay fn (hu.listed List.mem_cons_self))
  rw [← hsame.savedFiles] at hgood
  obtain ⟨rows, w'', hok⟩ := analyzeFun_returns hu.fileExists hpos hgood
  exact ⟨rows, w'', hok, final_of_ok hok ▸ hu.next⟩

/-- The world in which the functions are listed. -/
theorem analyzePkg_apply (htests : w.fs.fileExists testPath = true) (hpos : testfiles.Positive) :
    ∃ w₁, replayed w₁ = replayed w ∧ (∀ fn, SameDirectory fn w.fs w₁.fs) ∧
      deepstateHarnessAnalyzePkg xml2 h replay testfiles maxInputs w =
        ((takenFunctions testfiles (sysGlob h w.fs testPath)).mapM (fun fn =>
            deepstateAnalyzeFun xml2 h (replay fn) fn maxInputs .infun) >>= fun tables =>
          pure (some (tables.filterMap id).flatten) : Program _) w₁ := by
  let w₀ : World := { w with fs := w.fs.mkdir [("inst" : Text)] }
  obtain ⟨log, hname, hlog⟩ := getPackageName_quiet h w₀
  have hmk : Frame (· = [("inst" : Text)]) w.fs w₀.fs := frame_mkdir rfl
  have hlist : sysGlob h w₀.fs testPath = sysGlob h w.fs testPath :=
    sysGlob_congr fun n => hmk.fileExists (by simp [testPath])
  have htests₀ : w₀.fs.fileExists testPath = true := by
    rw [hmk.fileExists (by simp [testPath])]
    exact htests
  refine ⟨{ w₀ with log := log }, hlog, fun fn p hp => ?_, ?_⟩
  · refine hmk p ?_
    rintro rfl
    have hlen := hp.length_le
    simp [funPath, testPath] at hlen
  · have hstart : deepstateHarnessAnalyzePkg xml2 h replay testfiles maxInputs w =
        (if w₀.fs.fileExists testPath then _ else _ : Program _) w₀ := rfl
    rw [hstart, if_pos htests₀, bind_of_ok hname, files_bind_apply]
    show (liftExcept (selectFunctions testfiles (sysGlob h w₀.fs testPath)) >>= _ : Program _) _ = _
    rw [hlist, selectFunctions_eq hpos]
    rfl

theorem globs_testPath {fn : Text} (hg : h.globs (outputDir fn .infun) = true) : h.globs testPath = true :=
  Host.globs_of_subset hg fun c hc => Or.inl (by simp [outputDir, funPath, hc])

/-- Below a path that does not fit itself no file is found, so it does not matter that no function is. -/
theorem flatMap_keptOf (testfiles maxInputs : MaxInputs) (fs : FileSystem Content) :
    (firstNames testfiles (sysGlob h fs testPath)).flatMap (keptOf h maxInputs fs) =
      (firstNames testfiles (fs.listFiles testPath)).flatMap (keptOf h maxInputs fs) := by
  cases hg : h.globs testPath with
  | true => rw [sysGlob_of_globs hg]
  | false =>
      have hnone : ∀ fns : List Text, fns.flatMap (keptOf h maxInputs fs) = [] := fun fns =>
        List.flatMap_eq_nil_iff.mpr fun fn _ => keptOf_of_not_globs (by
          by_contra hno
          rw [globs_testPath (by simpa using hno)] at hg
          cases hg)
      rw [hnone, hnone]

/-- As long as there are the functions that are asked for, the analysis comes to its end and replays the files that
are kept of each. -/
theorem analyzePkg_kept (htests : w.fs.fileExists testPath = true) (hpos : testfiles.Positive)
    (hpos' : maxInputs.Positive)
    (hreplay : ∀ fn ∈ w.fs.listFiles testPath, Replayable xml2 h (replay fn) fn .infun (savedFiles w.fs fn) w.fs)
    (hrange : FunctionsInRange testfiles (sysGlob h w.fs testPath)) :
    ∃ rows w', deepstateHarnessAnalyzePkg xml2 h replay testfiles maxInputs w = .ok rows w' ∧
      replaysSince w w' = (firstNames testfiles (w.fs.listFiles testPath)).flatMap (keptOf h maxInputs w.fs) := by
  obtain ⟨w₁, hreplayed, hsame, hrun⟩ := @analyzePkg_apply xml2 h replay _ maxInputs w htests hpos
  rw [takenFunctions_eq hrange] at hrun
  have hlisted : sysGlob h w.fs testPath ⊆ w.fs.listFiles testPath := fun n hn => by
    rw [mem_sysGlob] at hn
    exact mem_listFiles.mpr hn.2
  have hfirst := firstNames_initial testfiles (sysGlob h w.fs testPath)
  have hu : Untouched w.fs (firstNames testfiles (sysGlob h w.fs testPath)) w₁ :=
    ⟨(nodup_sysGlob _ _ _).sublist hfirst.sublist, fun n hn => hlisted (hfirst.subset hn), fun fn _ => hsame fn⟩
  obtain ⟨tables, w', hok⟩ := @functions_return xml2 h _ _ _ _ hpos' _ hu hreplay
  obtain ⟨done, -, hdone, hall⟩ := @emits_functions xml2 h replay _ _ _ hpos' _ hu
  rw [final_of_ok hok, hreplayed, hall _ _ hok, flatMap_keptOf] at hdone
  refine ⟨_, w', by rw [hrun, bind_of_ok hok]; rfl, ?_⟩
  have hlog : replaysOf w'.log = replaysOf w.log ++ _ := hdone
  rw [replaysSince, hlog, List.drop_left]

/-- The run returns, and has analysed the files that are asked for, each once and in order. -/
def AnalysesRequested (xml2 : Xml2) (h : Host) (replay : Text → Text → ReplayOutcome)
    (testfiles maxInputs : MaxInputs) (w : World) : Prop :=
  ∃ rows w', deepstateHarnessAnalyzePkg xml2 h replay testfiles maxInputs w = .ok rows w' ∧
    replaysSince w w' = requestedFiles testfiles maxInputs w.fs

theorem head_mem_keptNames {n : Text} {names : List Text} (hpos : maxInputs.Positive) :
    n ∈ keptNames maxInputs (n :: names) := by
  have hinitial := (keptNames_initial maxInputs (n :: names)).trans (firstNames_initial maxInputs _)
  obtain ⟨x, xs, hxs⟩ := List.exists_cons_of_ne_nil (keptNames_ne_nil hpos (List.cons_ne_nil n names))
  rw [hxs] at hinitial ⊢
  rw [(List.cons_prefix_cons.mp hinitial).1]
  exact List.mem_cons_self

/-- Below a path that does not fit itself nothing is analysed. -/
theorem emits_unlisted {fn : Text} {replay : Text → ReplayOutcome} (hpos : maxInputs.Positive)
    (hg : h.globs testPath = false) :
    Emits replayed [] (deepstateAnalyzeFun xml2 h replay fn maxInputs .infun) w := by
  by_cases hfun : w.fs.fileExists (funPath fn) = true
  · have hunlisted : h.globs (outputDir fn .infun) = false := by
      by_contra hno
      rw [globs_testPath (by simpa using hno)] at hg
      cases hg
    rw [← @keptOf_of_not_globs maxInputs _ _ w.fs hunlisted]
    exact emits_analyzeFun hfun hpos
  · have hstop : deepstateAnalyzeFun xml2 h replay fn maxInputs .infun w = .error "No such file or directory" w := by
      rw [deepstateAnalyzeFun, files_bind_apply, if_neg hfun]
      rfl
    exact Emits.error hstop rfl

theorem emits_unlistedPkg (htests : w.fs.fileExists testPath = true) (hpos : testfiles.Positive)
    (hpos' : maxInputs.Positive) (hg : h.globs testPath = false) :
    Emits replayed [] (deepstateHarnessAnalyzePkg xml2 h replay testfiles maxInputs) w := by
  obtain ⟨w₁, hreplayed, -, hrun⟩ := @analyzePkg_apply xml2 h replay _ maxInputs w htests hpos
  have hloop : Emits replayed ((takenFunctions testfiles (sysGlob h w.fs testPath)).flatMap fun _ => [])
      ((takenFunctions testfiles (sysGlob h w.fs testPath)).mapM fun fn =>
        deepstateAnalyzeFun xml2 h (replay fn) fn maxInputs .infun) w₁ :=
    Emits.mapM (I := fun _ _ => True) (fun _ _ _ _ => ⟨emits_unlisted hpos' hg, fun _ _ _ => trivial⟩) trivial
  have hall := hloop.bind fun tables w' _ => Emits.pure (some (tables.filterMap id).flatten) w'
  rw [List.append_nil, List.flatMap_eq_nil_iff.mpr fun _ _ => rfl] at hall
  exact hall.congr hrun hreplayed

theorem effects_functions (fns : List Text) : Within (Effects AnalyzePkgTouches AnalysisEvents)
    (fns.mapM fun fn => deepstateAnalyzeFun xml2 h (replay fn) fn maxInputs .infun) :=
  effects_mapM fun fn _ => effects_mono (fun _ hp => Or.inr ⟨fn, hp⟩) (fun _ => id)
    (effects_analyzeFun (replay fn) fn maxInputs .infun)

/-- Analysing functions makes no directory for one. -/
theorem funPath_exists_functions {fn : Text} {fns : List Text} :
    (final (fns.mapM fun fn => deepstateAnalyzeFun xml2 h (replay fn) fn maxInputs .infun) w).fs.fileExists
      (funPath fn) = w.fs.fileExists (funPath fn) := by
  refine (effects_functions fns w).frame.fileExists ?_
  rintro (hp | ⟨fn', ⟨x, hp⟩ | ⟨x, y, hp⟩ | ⟨x, hp⟩⟩)
  all_goals
    have hlen := congrArg List.length hp
    simp [outputDir, funPath, testPath] at hlen

theorem replayed_grows {α : Type} {m : Program α} {T : Pathname → Prop} {P : Event → Prop}
    (hm : Within (Effects T P) m) {a : α} {w w' : World} (hok : m w = .ok a w') :
    ∃ more, replayed w' = replayed w ++ more := by
  obtain ⟨events, hlog, -⟩ := (final_of_ok hok ▸ hm w).events
  exact ⟨replaysOf events, by rw [replayed, hlog, replaysOf_append]; rfl⟩

/-- A run that returns although there are fewer functions than are asked for has analysed them all, and then one
called NA. -/
theorem returns_beyond {k : Int} {w' : World} {rows : Option (List AnalysisRow)}
    (htests : w.fs.fileExists testPath = true) (hlt : (sysGlob h w.fs testPath).length < k)
    (hok : deepstateHarnessAnalyzePkg xml2 h replay (.count k) maxInputs w = .ok rows w') :
    ∃ w₁ tables w₂ row w₃ more, replayed w₁ = replayed w ∧ (∀ fn, SameDirectory fn w.fs w₁.fs) ∧
      ((sysGlob h w.fs testPath).mapM fun fn =>
        deepstateAnalyzeFun xml2 h (replay fn) fn maxInputs .infun) w₁ = .ok tables w₂ ∧
      deepstateAnalyzeFun xml2 h (replay "NA") "NA" maxInputs .infun w₂ = .ok row w₃ ∧
      replayed w' = replayed w₃ ++ more := by
  have hpos : (MaxInputs.count k).Positive := show 1 ≤ k by omega
  obtain ⟨w₁, hreplayed, hsame, hrun⟩ := @analyzePkg_apply xml2 h replay _ maxInputs w htests hpos
  rw [hrun] at hok
  obtain ⟨tables, w₄, htables, hret⟩ := bind_eq_ok.mp hok
  cases hret
  obtain ⟨r, hr⟩ : ∃ r, k.toNat - (sysGlob h w.fs testPath).length = r + 1 := ⟨_, (Nat.succ_pred (by omega)).symm⟩
  have htaken : takenFunctions (.count k) (sysGlob h w.fs testPath) =
      sysGlob h w.fs testPath ++ ("NA" : Text) :: List.replicate r ("NA" : Text) := by
    show (sysGlob h w.fs testPath).take k.toNat ++ _ = _
    rw [hr, List.take_of_length_le (by omega), List.replicate_succ]
  rw [htaken, List.mapM_append] at htables
  obtain ⟨first, w₂, hfirst, hrest⟩ := bind_eq_ok.mp htables
  rw [List.mapM_cons] at hrest
  obtain ⟨second, w₅, hsecond, hret⟩ := bind_eq_ok.mp hrest
  cases hret
  obtain ⟨row, w₃, hna, hlast⟩ := bind_eq_ok.mp hsecond
  obtain ⟨others, w₆, hothers, hret⟩ := bind_eq_ok.mp hlast
  cases hret
  obtain ⟨more, hmore⟩ := replayed_grows (effects_functions _) hothers
  exact ⟨w₁, first, w₂, row, w₃, more, hreplayed, hsame, hfirst, hna, hmore⟩

/-- Two ordered lists that hold each other's heads begin alike. -/
theorem heads_eq {n n' : Text} {names names' : List Text} (hsorted : (n :: names).Pairwise (· ≤ ·))
    (hsorted' : (n' :: names').Pairwise (· ≤ ·)) (hn' : n' ∈ n :: names) (hn : n ∈ n' :: names') : n = n' := by
  have hle : n ≤ n' := by
    rcases List.mem_cons.mp hn' with rfl | hn'
    · exact le_refl _
    · exact List.rel_of_pairwise_cons hsorted hn'
  have hle' : n' ≤ n := by
    rcases List.mem_cons.mp hn with rfl | hn
    · exact le_refl _
    · exact List.rel_of_pairwise_cons hsorted' hn
  exact le_antisymm hle hle'

/-- A function called NA that has been analysed once replays one of its files again, or a log folder, when it is
analysed a second time. -/
theorem second_analysis_repeats {w₁ w₂ : World} {tables : List (Option (List AnalysisRow))}
    (hpos : maxInputs.Positive) (hsame : ∀ fn, SameDirectory fn w.fs w₁.fs)
    (hg : h.globs (outputDir "NA" .infun) = true) (hsaved : savedFiles w.fs "NA" ≠ [])
    (hfold : Foldered "NA" .infun w.fs)
    (hfirst : ((w.fs.listFiles testPath).mapM fun fn =>
      deepstateAnalyzeFun xml2 h (replay fn) fn maxInputs .infun) w₁ = .ok tables w₂) :
    ∃ n, outputDir "NA" .infun ++ [n] ∈ keptOf h maxInputs w₂.fs "NA" ∧
      (n ∈ savedFiles w.fs "NA" → outputDir "NA" .infun ++ [n] ∈ keptOf h maxInputs w.fs "NA") := by
  have hhead : ∀ (fs : FileSystem Content) (n : Text) (names : List Text), savedFiles fs "NA" = n :: names →
      outputDir "NA" .infun ++ [n] ∈ keptOf h maxInputs fs "NA" := fun fs n names hn => by
    rw [keptOf, sysGlob_of_globs hg]
    rw [savedFiles] at hn
    exact List.mem_map_of_mem (hn ▸ head_mem_keptNames hpos)
  obtain ⟨n, names, hnames⟩ := List.exists_cons_of_ne_nil hsaved
  -- The first saved file is still there, so nothing that is there now is listed before it but new folders.
  have hthere := mem_listFiles.mp (show n ∈ w.fs.listFiles (outputDir "NA" .infun) by
    rw [← savedFiles, hnames]; exact List.mem_cons_self)
  have hkept : w₂.fs.fileExists (outputDir "NA" .infun ++ [n]) = true ∧ Foldered "NA" .infun w₂.fs := by
    refine mapM_keeps (J := fun w => w.fs.fileExists (outputDir "NA" .infun ++ [n]) = true ∧
      Foldered "NA" .infun w.fs) ?_ ?_ hfirst
    · rintro fn w row w' ⟨hfile, hfold⟩ hok
      rw [← final_of_ok hok]
      by_cases hfn : fn = "NA"
      · subst hfn
        exact analyzeFun_keeps hfold hfile
      · have hframe := @sameDirectory_analyzeFun xml2 h fn (replay fn) maxInputs w "NA" (Ne.symm hfn)
        refine ⟨?_, fun x => ?_⟩
        · rw [FileSystem.fileExists, hframe _ (by simp [outputDir])]
          exact hfile
        · rw [hframe _ (by simp [outputDir])]
          exact hfold x
    · refine ⟨?_, fun x => ?_⟩
      · rw [FileSystem.fileExists, hsame "NA" _ (by simp [outputDir])]
        exact hthere.1
      · rw [hsame "NA" _ (by simp [outputDir])]
        exact hfold x
  have hmem : n ∈ savedFiles w₂.fs "NA" := mem_listFiles.mpr ⟨hkept.1, hthere.2⟩
  obtain ⟨n', names', hnames'⟩ := List.exists_cons_of_ne_nil (List.ne_nil_of_mem hmem)
  refine ⟨n', hhead _ _ _ hnames', fun hn' => ?_⟩
  have hsorted : (n :: names).Pairwise (· ≤ ·) := hnames ▸ sorted_listFiles _ _
  have hsorted' : (n' :: names').Pairwise (· ≤ ·) := hnames' ▸ sorted_listFiles _ _
  rw [hnames] at hn'
  rw [hnames'] at hmem
  rw [← heads_eq hsorted hsorted' hn' hmem]
  exact hhead _ _ _ hnames

theorem requestedFiles_ne_nil {fs : FileSystem Content} (hpos : testfiles.Positive) (hpos' : maxInputs.Positive)
    (hsaved : ∀ fn ∈ fs.listFiles testPath, savedFiles fs fn ≠ []) (hne : fs.listFiles testPath ≠ []) :
    requestedFiles testfiles maxInputs fs ≠ [] := by
  obtain ⟨fn, hfn⟩ := List.exists_mem_of_ne_nil _ (firstNames_ne_nil hpos hne)
  rw [requestedFiles, Ne, List.flatMap_eq_nil_iff]
  exact fun hnil => requestedOf_ne_nil hpos' (hsaved fn ((firstNames_initial _ _).subset hfn)) (hnil fn hfn)

theorem globs_outputDir_na (hg : h.globs testPath = true) : h.globs (outputDir "NA" .infun) = true := by
  refine Host.globs_of_subset hg fun c hc => ?_
  rw [outputDir, funPath, List.append_assoc, List.mem_append] at hc
  refine hc.imp_right fun hc => ?_
  have hplain : ∀ c ∈ ([("NA" : Text)] ++ [("NA" : Text) ++ "_output" ++ Sep.infun.suffix]),
      ∀ x ∈ c, x ∉ Glob.special := by with_unfolding_all decide
  exact Glob.fitsItself_of_plain (hplain c hc)

/-- When more functions are asked for than there are, the analysis stops at the first that is missing, or analyses
a function called NA again. -/
theorem not_analysesRequested_of_beyond {k : Int} (htests : w.fs.fileExists testPath = true)
    (hpos : maxInputs.Positive) (hk : 1 ≤ k) (hsaved : ∀ fn ∈ w.fs.listFiles testPath, savedFiles w.fs fn ≠ [])
    (hreplay : ∀ fn ∈ w.fs.listFiles testPath, Replayable xml2 h (replay fn) fn .infun (savedFiles w.fs fn) w.fs)
    (hlt : (sysGlob h w.fs testPath).length < k) :
    ¬ AnalysesRequested xml2 h replay (.count k) maxInputs w := by
  rintro ⟨rows, w', hok, hrequested⟩
  obtain ⟨w₁, tables, w₂, row, w₃, more, hreplayed, hsame, hfirst, hna, hmore⟩ := returns_beyond htests hlt hok
  have hthere : ("NA" : Text) ∈ w.fs.listFiles testPath := by
    have hex := exists_of_analyzeFun_ok hna
    rw [← final_of_ok hfirst, funPath_exists_functions, FileSystem.fileExists, hsame "NA" _ List.prefix_rfl] at hex
    exact mem_listFiles.mpr ⟨hex, by with_unfolding_all decide⟩
  cases hg : h.globs testPath with
  | false =>
      -- Nothing is found, but something is asked for.
      obtain ⟨done, hpre, hdone, -⟩ := @emits_unlistedPkg xml2 h replay (.count k) _ _ htests hk hpos hg
      rw [List.prefix_nil.mp hpre, List.append_nil, final_of_ok hok] at hdone
      have hlog : replaysOf w'.log = replaysOf w.log := hdone
      rw [replaysSince, hlog, List.drop_length] at hrequested
      exact @requestedFiles_ne_nil (.count k) _ _ hk hpos hsaved (List.ne_nil_of_mem hthere) hrequested.symm
  | true =>
      rw [sysGlob_of_globs hg] at hfirst
      obtain ⟨n, hagain, hbefore⟩ := second_analysis_repeats hpos hsame (globs_outputDir_na hg)
        (hsaved _ hthere) (hreplay _ hthere).folders hfirst
      have hu : Untouched w.fs (w.fs.listFiles testPath) w₁ :=
        ⟨nodup_listFiles _ _, List.Subset.refl _, fun fn _ => hsame fn⟩
      obtain ⟨done, -, hdone, hall⟩ := @emits_functions xml2 h replay _ _ _ hpos _ hu
      rw [final_of_ok hfirst, hreplayed, hall _ _ hfirst] at hdone
      obtain ⟨done', -, hdone', hall'⟩ := @emits_analyzeFun xml2 h _ (replay "NA") _ _
        (exists_of_analyzeFun_ok hna) hpos
      rw [final_of_ok hna, hdone, hall' _ _ hna] at hdone'
      have hlog : replaysOf w'.log = replaysOf w.log ++ (((w.fs.listFiles testPath).flatMap
          (keptOf h maxInputs w.fs) ++ keptOf h maxInputs w₂.fs "NA") ++ more) := by
        rw [← List.append_assoc, ← List.append_assoc]
        exact hmore.trans (congrArg (· ++ more) hdone')
      have hsince : requestedFiles (.count k) maxInputs w.fs =
          ((w.fs.listFiles testPath).flatMap (keptOf h maxInputs w.fs) ++ keptOf h maxInputs w₂.fs "NA") ++ more := by
        rw [← hrequested, replaysSince, hlog, List.drop_left]
      have hmem : outputDir "NA" .infun ++ [n] ∈ requestedFiles (.count k) maxInputs w.fs := by
        rw [hsince]
        exact List.mem_append_left _ (List.mem_append_right _ hagain)
      have hn : n ∈ savedFiles w.fs "NA" := by
        obtain ⟨fn, -, hp⟩ := List.mem_flatMap.mp hmem
        obtain ⟨n', hn', heq⟩ := mem_requestedOf hp
        obtain ⟨rfl, rfl⟩ := outputDir_inj heq
        exact hn'
      have hnodup := nodup_requestedFiles (.count k) maxInputs w.fs
      rw [hsince, List.nodup_append, List.nodup_append] at hnodup
      exact hnodup.1.2.2 _ (List.mem_flatMap.mpr ⟨_, hthere, hbefore hn⟩) _ hagain rfl

theorem analysesRequested_iff (htests : w.fs.fileExists testPath = true) (hpos : testfiles.Positive)
    (hpos' : maxInputs.Positive) (hsaved : ∀ fn ∈ w.fs.listFiles testPath, savedFiles w.fs fn ≠ [])
    (hreplay : ∀ fn ∈ w.fs.listFiles testPath,
      Replayable xml2 h (replay fn) fn .infun (savedFiles w.fs fn) w.fs) :
    AnalysesRequested xml2 h replay testfiles maxInputs w ↔ InRange h testfiles maxInputs w.fs := by
  by_cases hrange : FunctionsInRange testfiles (sysGlob h w.fs testPath)
  · obtain ⟨rows, w', hok, hkept⟩ := analyzePkg_kept htests hpos hpos' hreplay hrange
    have hall : AnalysesRequested xml2 h replay testfiles maxInputs w ↔
        ∀ fn ∈ firstNames testfiles (w.fs.listFiles testPath),
          h.globs (outputDir fn .infun) = true ∧ FilesInRange maxInputs (savedFiles w.fs fn) := by
      have hparts : (∀ fn ∈ firstNames testfiles (w.fs.listFiles testPath),
          keptOf h maxInputs w.fs fn = requestedOf maxInputs w.fs fn) ↔ _ :=
        forall₂_congr fun fn hfn => keptOf_eq_iff hpos' (hsaved fn ((firstNames_initial _ _).subset hfn))
      rw [← hparts, ← flatMap_eq_iff_of_prefix fun fn _ => keptOf_initial h maxInputs w.fs fn, ← hkept]
      constructor
      · rintro ⟨rows', w'', hok', hrequested⟩
        rw [hok] at hok'
        cases hok'
        exact hrequested
      · exact fun hrequested => ⟨rows, w', hok, hrequested⟩
    rw [hall]
    refine ⟨fun hfiles => ⟨?_, hfiles⟩, InRange.files⟩
    -- Fewer are listed than there are, if any.
    cases testfiles with
    | all => trivial
    | count k =>
        refine le_trans hrange (Int.ofNat_le.mpr ?_)
        unfold sysGlob
        split
        · exact le_refl _
        · exact Nat.zero_le _
  · cases testfiles with
    | all => exact absurd trivial hrange
    | count k =>
        have hlt : (sysGlob h w.fs testPath).length < k := not_le.mp hrange
        refine iff_of_false (not_analysesRequested_of_beyond htests hpos' hpos hsaved hreplay hlt) fun hin => ?_
        have hle : k ≤ (w.fs.listFiles testPath).length := hin.functions
        have hne : w.fs.listFiles testPath ≠ [] := by
          intro hnil
          have hk : 1 ≤ k := hpos
          rw [hnil, List.length_nil] at hle
          omega
        obtain ⟨fn, hfn⟩ := List.exists_mem_of_ne_nil _ (@firstNames_ne_nil (.count k) _ hpos hne)
        rw [sysGlob_of_globs (globs_testPath (hin.files fn hfn).1)] at hlt
        omega

end Package

/-! ## Four saved files -/

/-- Two functions with saved files and no inputs directories: four files of `f` and two of `g`. -/
def crowdedWorld : World :=
  let tests := (FileSystem.empty.mkdirs (outputDir "f" .infun)).mkdirs (outputDir "g" .infun)
  let saved := [("0a.crash" : Text), "0b.crash", "0c.fail", "0d.pass"].foldl
    (fun fs n => fs.write (outputDir "f" .infun ++ [n]) (.testCase [])) tests
  ⟨[("0e.crash" : Text), "0f.pass"].foldl (fun fs n => fs.write (outputDir "g" .infun ++ [n]) (.testCase [])) saved, []⟩

theorem functions_crowdedWorld : crowdedWorld.fs.listFiles testPath = [("f" : Text), "g"] := by
  with_unfolding_all decide

theorem savedFiles_crowdedWorld : savedFiles crowdedWorld.fs "f" = [("0a.crash" : Text), "0b.crash", "0c.fail", "0d.pass"] ∧
    savedFiles crowdedWorld.fs "g" = [("0e.crash" : Text), "0f.pass"] := by with_unfolding_all decide

theorem savedName_crowdedWorld {fn : Text} (hfn : fn ∈ crowdedWorld.fs.listFiles testPath) :
    ∀ n ∈ savedFiles crowdedWorld.fs fn, SavedName n := by
  have hdigits : ∀ n ∈ ([("0a.crash" : Text), "0b.crash", "0c.fail", "0d.pass", "0e.crash", "0f.pass"] : List Text),
      SavedName n := by
    intro n hn
    refine ⟨n.take 2, n.drop 2, (List.take_append_drop 2 n).symm, ?_⟩
    revert n
    with_unfolding_all decide
  intro n hn
  rw [functions_crowdedWorld] at hfn
  rcases List.mem_pair.mp hfn with rfl | rfl
  · rw [savedFiles_crowdedWorld.1] at hn
    exact hdigits n (List.mem_append_left [("0e.crash" : Text), "0f.pass"] hn)
  · rw [savedFiles_crowdedWorld.2] at hn
    exact hdigits n (List.mem_append_right [("0a.crash" : Text), "0b.crash", "0c.fail", "0d.pass"] hn)

theorem replayable_crowdedWorld : ∀ fn ∈ crowdedWorld.fs.listFiles testPath,
    Replayable (.ofParser fun _ => some sampleLog) sampleHost (fun _ => savingRun []) fn .infun
      (savedFiles crowdedWorld.fs fn) crowdedWorld.fs := by
  intro fn hfn
  have hdump : dumpedBy fn (fun _ => savingRun []) crowdedWorld.fs = fun _ _ => none := by
    funext n x
    simp [dumpedBy, dumpedInto, savingRun, dumpedFiles]
  have hin : inputsIn fn crowdedWorld.fs = fun _ => none := by
    have hnone : ∀ fn ∈ [("f" : Text), "g"], crowdedWorld.fs.listFiles (inputsPath fn) = [] := by
      with_unfolding_all decide
    funext x
    rw [← Option.not_isSome_iff_eq_none, ← mem_listFiles_inputs, hnone fn (functions_crowdedWorld ▸ hfn)]
    exact List.not_mem_nil
  refine ⟨foldered_of_savedNames (savedName_crowdedWorld hfn), ?_⟩
  rw [hdump, hin]
  induction savedFiles crowdedWorld.fs fn with
  | nil => trivial
  | cons n ns ih => exact ⟨⟨⟨fun hs => hs.1 rfl, some [], sampleLog_read⟩, fun _ _ hc => by cases hc⟩, ih⟩

theorem saved_crowdedWorld : ∀ fn ∈ crowdedWorld.fs.listFiles testPath, savedFiles crowdedWorld.fs fn ≠ [] := by
  rw [functions_crowdedWorld]
  intro fn hfn
  rcases List.mem_pair.mp hfn with rfl | rfl
  · rw [savedFiles_crowdedWorld.1]
    exact List.cons_ne_nil _ _
  · rw [savedFiles_crowdedWorld.2]
    exact List.cons_ne_nil _ _

end RcppDeepState
