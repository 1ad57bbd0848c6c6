import Mathlib.Data.List.Dedup
import RcppDeepState.Analysis.Inputs

/-!
# Analysing twice

The log folders of an analysis lie among the saved files, where the next analysis looks for its inputs.
-/

namespace RcppDeepState

open Command FileSystem Overlay

/-! ## A pass and what it leaves -/

def logName (n : Text) : Text := "log_" ++ stem n

/-- The log folders that are there are directories. -/
def Foldered (fn : Text) (sep : Sep) (fs : FileSystem Content) : Prop :=
  ∀ n, fs.node? (outputDir fn sep ++ [logName n]) = none ∨ fs.node? (outputDir fn sep ++ [logName n]) = some .dir

/-- What replaying the files of `rs` one after the other leaves. -/
structure PassLeaves (fn : Text) (sep : Sep) (replay : Text → ReplayOutcome) (rs : List Text) (w w' : World) :
    Prop where
  replays : replaysOf w'.log = replaysOf w.log ++ rs.map (outputDir fn sep ++ [·])
  inputs : inputsIn fn w'.fs = after (inputsIn fn w.fs) (rs.map (dumpedBy fn replay w.fs))
  hasInputs : w'.fs.dirExists (inputsPath fn) = w.fs.dirExists (inputsPath fn)
  listed : ∀ x, w'.fs.fileExists (outputDir fn sep ++ [x]) = true ↔
    x ∈ rs.map logName ∨ w.fs.fileExists (outputDir fn sep ++ [x]) = true
  folders : Foldered fn sep w'.fs

section Pass

variable {xml2 : Xml2} {h : Host} {fn : Text} {sep : Sep} {replay : Text → ReplayOutcome}
  {packageName : Option Text}

theorem PassLeaves.nil {w : World} (hfold : Foldered fn sep w.fs) : PassLeaves fn sep replay [] w w where
  replays := by simp
  inputs := rfl
  hasInputs := rfl
  listed := by simp
  folders := hfold

theorem Replayed.listed {n : Text} {o : ReplayOutcome} {w w' : World} (hr : Replayed fn sep n o w w') (x : Text) :
    w'.fs.fileExists (outputDir fn sep ++ [x]) = true ↔
      x = logName n ∨ w.fs.fileExists (outputDir fn sep ++ [x]) = true := by
  have hsame : w'.fs.fileExists (outputDir fn sep ++ [x]) =
      (w.fs.mkdir (logFolder (outputDir fn sep ++ [n]))).fileExists (outputDir fn sep ++ [x]) := by
    unfold FileSystem.fileExists
    rw [hr.saved x]
  rw [hsame, fileExists_mkdir, logFolder_append, Bool.or_eq_true, decide_eq_true_eq, List.append_right_inj,
    List.singleton_inj, logName]

theorem Replayed.foldered {n : Text} {o : ReplayOutcome} {w w' : World} (hr : Replayed fn sep n o w w')
    (hfold : Foldered fn sep w.fs) : Foldered fn sep w'.fs := by
  intro x
  rw [hr.saved, node?_mkdir]
  split
  · exact Or.inr rfl
  · exact hfold x

theorem Foldered.mkdir {fs : FileSystem Content} (hfold : Foldered fn sep fs) (n : Text) :
    (fs.mkdir (logFolder (outputDir fn sep ++ [n]))).dirExists (logFolder (outputDir fn sep ++ [n])) = true := by
  unfold FileSystem.dirExists
  rw [node?_mkdir, logFolder_append]
  rcases hfold n with hnone | hdir
  · rw [logName] at hnone
    simp [hnone]
  · rw [logName] at hdir
    simp [hdir]

theorem PassLeaves.cons {n : Text} {rs : List Text} {w w' w'' : World}
    (hr : Replayed fn sep n (replay n) w w') (hrest : PassLeaves fn sep replay rs w' w'') :
    PassLeaves fn sep replay (n :: rs) w w'' where
  replays := by rw [hrest.replays, hr.replays]; simp
  inputs := by
    have hdump : dumpedBy fn replay w'.fs = dumpedBy fn replay w.fs := by
      unfold dumpedBy
      rw [hr.hasInputs]
    rw [hrest.inputs, hr.inputs, hdump]
    rfl
  hasInputs := hrest.hasInputs.trans hr.hasInputs
  listed x := by rw [hrest.listed, hr.listed, List.map_cons, List.mem_cons, or_left_comm, or_assoc]
  folders := hrest.folders

/-- A pass over saved files that are there begins the replays that the argument files allow. -/
theorem mapM_analyzeFile {names : List Text} {w : World} (hfold : Foldered fn sep w.fs)
    (hfiles : ∀ n ∈ names, w.fs.fileExists (outputDir fn sep ++ [n]) = true) :
    ∃ rs, Overlay.Pass (dumpedBy fn replay w.fs) (fun n => SoundRun xml2 (replay n)) (ReadableInput h fn)
        (inputsIn fn w.fs) names rs ∧
      PassLeaves fn sep replay rs w (Command.final (names.mapM fun n =>
        deepstateAnalyzeFile xml2 h (replay n) packageName (outputDir fn sep ++ [n])) w) := by
  induction names generalizing w with
  | nil => exact ⟨[], .nil, .nil hfold⟩
  | cons n ns ih =>
      rw [List.mapM_cons]
      rcases @analyzeFile_run xml2 h _ _ _ (replay n) packageName w (hfiles n (by simp)) with
          ⟨hno, -⟩ | ⟨w', hr, hres⟩
      · rw [hfold.mkdir n] at hno
        cases hno
      · generalize hone : deepstateAnalyzeFile xml2 h (replay n) packageName (outputDir fn sep ++ [n]) w = r
          at hres
        cases hres with
        | stops e hstop =>
            rw [hr.inputs] at hstop
            refine ⟨[n], .stop hstop, ?_⟩
            rw [final_bind_of_error hone]
            exact .cons hr (.nil (hr.foldered hfold))
        | returns values logtable hend hvalues =>
            rw [hr.inputs] at hend
            obtain ⟨rs, hpass, hleaves⟩ := ih (w := w') (hr.foldered hfold)
              (fun x hx => hr.fileExists (hfiles x (by simp [hx])))
            have hdump : dumpedBy fn replay w'.fs = dumpedBy fn replay w.fs := by
              unfold dumpedBy
              rw [hr.hasInputs]
            rw [hr.inputs, hdump] at hpass
            refine ⟨n :: rs, .next hend hpass, ?_⟩
            rw [final_bind_of_ok hone, final_bind_pure]
            exact .cons hr hleaves

theorem listed_of_not_idle {maxInputs : MaxInputs} {fs : FileSystem Content} (hbusy : ¬ Idle h fn maxInputs sep fs) :
    sysGlob h fs (outputDir fn sep) = fs.listFiles (outputDir fn sep) :=
  sysGlob_of_globs (globs_of_sysGlob_ne_nil fun hnil => hbusy (Or.inr (Or.inl hnil))) fs

/-- What an analysis leaves, when it comes to its files. -/
theorem analyzeFun_pass {maxInputs : MaxInputs} {w : World} (hfold : Foldered fn sep w.fs)
    (hbusy : ¬ Idle h fn maxInputs sep w.fs) :
    ∃ selected rs, selectFiles maxInputs (w.fs.listFiles (outputDir fn sep)) = .ok selected ∧
      Overlay.Pass (dumpedBy fn replay w.fs) (fun n => SoundRun xml2 (replay n)) (ReadableInput h fn)
        (inputsIn fn w.fs) selected rs ∧
      PassLeaves fn sep replay rs w
        (Command.final (deepstateAnalyzeFun xml2 h replay fn maxInputs sep) w) := by
  obtain ⟨log, hlog, hidle | ⟨selected, -, hsel, hrun⟩⟩ := @analyzeFun_run xml2 h fn sep maxInputs replay w
  · exact absurd hidle.1 hbusy
  · rw [listed_of_not_idle hbusy] at hsel
    obtain ⟨rs, hpass, hleaves⟩ := @mapM_analyzeFile xml2 h _ _ replay (packageNameIn w.fs) selected
        { w with log := log } hfold (fun n hn => (mem_listFiles.mp ((selectFiles_initial hsel).subset hn)).1)
    refine ⟨selected, rs, hsel, hpass, ?_⟩
    have hfinal : Command.final (deepstateAnalyzeFun xml2 h replay fn maxInputs sep) w =
        Command.final (selected.mapM fun n =>
          deepstateAnalyzeFile xml2 h (replay n) (packageNameIn w.fs) (outputDir fn sep ++ [n]))
          { w with log := log } := by
      rw [Command.final, hrun]
      show Command.final (analyzeFiles _ _ _ _ _ _ >>= fun rows => pure (some rows) : Program _) _ = _
      rw [final_bind_pure]
      exact final_bind_pure _ _ _
    rw [hfinal]
    exact ⟨by rw [hleaves.replays, hlog], hleaves.inputs, hleaves.hasInputs, hleaves.listed, hleaves.folders⟩

theorem analyzeFun_idle {maxInputs : MaxInputs} {w : World} (hidle : Idle h fn maxInputs sep w.fs) :
    (Command.final (deepstateAnalyzeFun xml2 h replay fn maxInputs sep) w).fs = w.fs ∧
      replaysOf (Command.final (deepstateAnalyzeFun xml2 h replay fn maxInputs sep) w).log = replaysOf w.log := by
  obtain ⟨log, hlog, ⟨-, hfinal, -⟩ | ⟨_, hbusy, -⟩⟩ := @analyzeFun_run xml2 h fn sep maxInputs replay w
  · rw [hfinal]
    exact ⟨rfl, hlog⟩
  · exact absurd hidle hbusy

end Pass

/-! ## Saved names and log names -/

def isHexDigit (c : Char) : Bool := c.isDigit || ('a' ≤ c && c ≤ 'f')

/-- The name of a saved test: hexadecimal digits and one of three endings. -/
def SavedName (n : Text) : Prop :=
  ∃ digits ending, n = digits ++ ending ∧ digits ≠ [] ∧ (∀ c ∈ digits, isHexDigit c = true) ∧
    ending ∈ ([".pass", ".fail", ".crash"] : List Text)

theorem isHexDigit_lt {c : Char} (hc : isHexDigit c = true) : c < 'l' := by
  unfold isHexDigit Char.isDigit at hc
  simp only [Bool.or_eq_true, Bool.and_eq_true, decide_eq_true_eq] at hc
  show c.val.toNat < ('l' : Char).val.toNat
  rcases hc with ⟨-, hc⟩ | ⟨-, hc⟩
  · exact Nat.lt_of_le_of_lt (UInt32.le_iff_toNat_le.mp hc) (by decide)
  · exact Nat.lt_of_le_of_lt (UInt32.le_iff_toNat_le.mp hc) (by decide)

theorem logName_eq (n : Text) : logName n = 'l' :: 'o' :: 'g' :: '_' :: stem n := by
  have hlog : ("log_" : Text) = ['l', 'o', 'g', '_'] := by with_unfolding_all decide
  rw [logName, hlog]
  rfl

theorem SavedName.lt_logName {n : Text} (hn : SavedName n) (x : Text) : n < logName x := by
  obtain ⟨digits, ending, rfl, hne, hdigits, -⟩ := hn
  obtain ⟨d, ds, rfl⟩ := List.exists_cons_of_ne_nil hne
  rw [logName_eq]
  exact List.Lex.rel (isHexDigit_lt (hdigits d (by simp)))

theorem visible_logName (n : Text) : (logName n).head? ≠ some '.' := by
  rw [logName_eq]
  simp

/-- The log folders that replaying some files makes, as they are listed. -/
def logNames (rs : List Text) : List Text := (rs.map logName).dedup.insertionSort (· ≤ ·)

theorem mem_logNames {rs : List Text} {x : Text} : x ∈ logNames rs ↔ x ∈ rs.map logName := by
  rw [logNames, (List.perm_insertionSort _ _).mem_iff, List.mem_dedup]

theorem length_logNames (rs : List Text) : (logNames rs).length = (rs.map logName).dedup.length :=
  (List.perm_insertionSort _ _).length_eq

section Listing

variable {fn : Text} {sep : Sep} {replay : Text → ReplayOutcome} {w w' : World} {rs : List Text}

theorem foldered_of_savedNames (hsaved : ∀ n ∈ w.fs.listFiles (outputDir fn sep), SavedName n) :
    Foldered fn sep w.fs := by
  intro n
  left
  by_contra hsome
  have hex : w.fs.fileExists (outputDir fn sep ++ [logName n]) = true := by
    unfold FileSystem.fileExists
    rw [Option.isSome_iff_ne_none]
    exact hsome
  exact lt_irrefl _ ((hsaved _ (mem_listFiles.mpr ⟨hex, visible_logName n⟩)).lt_logName n)

/-- After a pass the log folders stand behind the saved files. -/
theorem PassLeaves.listFiles (hleaves : PassLeaves fn sep replay rs w w')
    (hsaved : ∀ n ∈ w.fs.listFiles (outputDir fn sep), SavedName n) :
    w'.fs.listFiles (outputDir fn sep) = w.fs.listFiles (outputDir fn sep) ++ logNames rs := by
  have hlt : ∀ n ∈ w.fs.listFiles (outputDir fn sep), ∀ x ∈ logNames rs, n < x := by
    intro n hn x hx
    obtain ⟨y, -, rfl⟩ := List.mem_map.mp (mem_logNames.mp hx)
    exact (hsaved n hn).lt_logName y
  refine listFiles_eq ?_ ?_ fun x => ?_
  · rw [List.pairwise_append]
    exact ⟨sorted_listFiles _ _, List.pairwise_insertionSort _ _, fun n hn x hx => (hlt n hn x hx).le⟩
  · rw [List.nodup_append]
    refine ⟨nodup_listFiles _ _, ?_, fun n hn x hx => (hlt n hn x hx).ne⟩
    rw [logNames, (List.perm_insertionSort _ _).nodup_iff]
    exact List.nodup_dedup _
  · rw [List.mem_append, mem_listFiles, hleaves.listed, mem_logNames]
    constructor
    · rintro (hx | hx)
      · exact ⟨Or.inr hx.1, hx.2⟩
      · obtain ⟨y, -, rfl⟩ := List.mem_map.mp hx
        exact ⟨Or.inl hx, visible_logName y⟩
    · rintro ⟨hx | hx, hv⟩
      · exact Or.inr hx
      · exact Or.inl ⟨hx, hv⟩

end Listing

/-! ## The cut-off -/

/-- The cut-off does not reach the log folders: with `count` log folders behind the saved files the same files
are selected. -/
def Settled (maxInputs : MaxInputs) (names : List Text) (count : Nat) : Prop :=
  match maxInputs with
  | .all => 3 ≤ names.length
  | .count k => k ≤ names.length ∨ (3 ≤ names.length ∧ names.length + count < k)

theorem take_append_eq_iff {α : Type} {names logs : List α} (hlogs : logs ≠ []) :
    (names ++ logs).take 3 = names.take 3 ↔ 3 ≤ names.length := by
  have hpos : 0 < logs.length := List.length_pos_iff.mpr hlogs
  constructor
  · intro heq
    have hlen := congrArg List.length heq
    simp only [List.length_take, List.length_append] at hlen
    omega
  · intro hle
    rw [List.take_append_of_le_length hle]

theorem selectFiles_again {maxInputs : MaxInputs} {names logs selected : List Text} (hne : names ≠ [])
    (hlogs : logs ≠ []) (hsel : selectFiles maxInputs names = .ok selected) :
    ∃ again, selectFiles maxInputs (names ++ logs) = .ok again ∧ selected <+: again ∧
      (again = selected ↔ Settled maxInputs names logs.length) := by
  have hpos : 0 < names.length := List.length_pos_iff.mpr hne
  have hprefix : ∀ i, names.take i <+: (names ++ logs).take i := fun i =>
    (List.prefix_append names logs).take i
  unfold selectFiles at hsel ⊢
  unfold Settled
  cases maxInputs with
  | all =>
      cases hsel
      exact ⟨_, rfl, hprefix 3, take_append_eq_iff hlogs⟩
  | count k =>
      simp only [List.length_append, Int.natCast_add] at hsel ⊢
      by_cases hneg : k < 0
      · rw [if_pos hneg] at hsel
        cases hsel
      · rw [if_neg hneg] at hsel ⊢
        by_cases hk : k ≤ names.length
        · rw [if_pos hk] at hsel
          rw [if_pos (by omega)]
          cases hsel
          have hmax : max k.toNat 1 ≤ names.length := by omega
          refine ⟨_, rfl, hprefix _, ?_⟩
          rw [List.take_append_of_le_length hmax]
          exact ⟨fun _ => Or.inl hk, fun _ => rfl⟩
        · rw [if_neg hk] at hsel
          cases hsel
          by_cases hk' : k ≤ names.length + logs.length
          · rw [if_pos hk']
            refine ⟨_, rfl, ?_, ?_⟩
            · refine List.prefix_take_iff.mpr ⟨(List.take_prefix _ _).trans (List.prefix_append _ _), ?_⟩
              rw [List.length_take]
              omega
            · constructor
              · intro heq
                have hlen := congrArg List.length heq
                simp only [List.length_take, List.length_append] at hlen
                omega
              · rintro (hle | ⟨-, hlt⟩)
                · exact absurd hle hk
                · omega
          · rw [if_neg hk']
            refine ⟨_, rfl, hprefix 3, ?_⟩
            rw [take_append_eq_iff hlogs]
            exact ⟨fun hle => Or.inr ⟨hle, by omega⟩, fun hor => (hor.resolve_left hk).1⟩

theorem selectFiles_ne_nil {maxInputs : MaxInputs} {names selected : List Text} (hne : names ≠ [])
    (hsel : selectFiles maxInputs names = .ok selected) : selected ≠ [] := by
  have hpos : 0 < names.length := List.length_pos_iff.mpr hne
  have htake : ∀ i, 0 < i → names.take i ≠ [] := by
    intro i hi
    rw [← List.length_pos_iff, List.length_take]
    omega
  unfold selectFiles at hsel
  cases maxInputs with
  | all => cases hsel; exact htake 3 (by omega)
  | count k =>
      simp only at hsel
      split at hsel
      · cases hsel
      · split at hsel
        · cases hsel; exact htake _ (by omega)
        · cases hsel; exact htake 3 (by omega)

/-! ## Two analyses -/

/-- The files replayed between two worlds of a run. -/
def replaysSince (w w' : World) : List Pathname := (replaysOf w'.log).drop (replaysOf w.log).length

section Repeat

variable (xml2 : Xml2) (h : Host) (replay : Text → ReplayOutcome) (fn : Text)
  (maxInputs : MaxInputs) (sep : Sep)

/-- The world after an analysis. -/
def analyzed (w : World) : World := Command.final (deepstateAnalyzeFun xml2 h replay fn maxInputs sep) w

/-- A second analysis replays the files of the first in the same order, and both replay files that were there
before. -/
def SameReplays (w : World) : Prop :=
  let w₁ := analyzed xml2 h replay fn maxInputs sep w
  let w₂ := analyzed xml2 h replay fn maxInputs sep w₁
  replaysSince w₁ w₂ = replaysSince w w₁ ∧
    ∀ file ∈ replaysSince w w₁ ++ replaysSince w₁ w₂,
      ∃ n ∈ w.fs.listFiles (outputDir fn sep), file = outputDir fn sep ++ [n]

end Repeat

section Repeat

variable {xml2 : Xml2} {h : Host} {replay : Text → ReplayOutcome} {fn : Text}
  {maxInputs : MaxInputs} {sep : Sep}

theorem PassLeaves.replaysSince {rs : List Text} {w w' : World} (hleaves : PassLeaves fn sep replay rs w w') :
    replaysSince w w' = rs.map (outputDir fn sep ++ [·]) := by
  rw [RcppDeepState.replaysSince, hleaves.replays, List.drop_left]

theorem sameReplays_of_idle {w : World} (hidle : Idle h fn maxInputs sep w.fs) :
    SameReplays xml2 h replay fn maxInputs sep w := by
  have hsince : ∀ w, Idle h fn maxInputs sep w.fs →
      replaysSince w (analyzed xml2 h replay fn maxInputs sep w) = [] := by
    intro w hw
    rw [replaysSince, analyzed, (analyzeFun_idle hw).2, List.drop_length]
  have hidle' : Idle h fn maxInputs sep (analyzed xml2 h replay fn maxInputs sep w).fs := by
    rw [analyzed, (analyzeFun_idle hidle).1]
    exact hidle
  simp [SameReplays, hsince w hidle, hsince _ hidle']

theorem funPath_exists_analyzed {w : World} (hfun : w.fs.fileExists (funPath fn) = true) :
    (analyzed xml2 h replay fn maxInputs sep w).fs.fileExists (funPath fn) = true := by
  have heff := @effects_analyzeFun xml2 h replay fn maxInputs sep w
  rw [analyzed, heff.frame.fileExists ?_]
  · exact hfun
  · rintro (⟨x, hx⟩ | ⟨x, y, hx⟩ | ⟨x, hx⟩)
    all_goals
      have hlen := congrArg List.length hx
      simp [outputDir] at hlen

theorem sameReplays_iff {rs rs' : List Text} {w : World}
    (hleaves : PassLeaves fn sep replay rs w (analyzed xml2 h replay fn maxInputs sep w))
    (hleaves' : PassLeaves fn sep replay rs' (analyzed xml2 h replay fn maxInputs sep w)
      (analyzed xml2 h replay fn maxInputs sep (analyzed xml2 h replay fn maxInputs sep w)))
    (hrs : ∀ n ∈ rs, n ∈ w.fs.listFiles (outputDir fn sep)) :
    SameReplays xml2 h replay fn maxInputs sep w ↔ rs' = rs := by
  simp only [SameReplays, hleaves.replaysSince, hleaves'.replaysSince]
  have hinj : Function.Injective fun n : Text => outputDir fn sep ++ [n] := by
    intro x y hxy
    simpa using hxy
  rw [hinj.list_map.eq_iff]
  refine and_iff_left_of_imp ?_
  rintro rfl file hfile
  have hmem : file ∈ rs'.map (outputDir fn sep ++ [·]) := by simpa using hfile
  obtain ⟨n, hn, rfl⟩ := List.mem_map.mp hmem
  exact ⟨n, hrs n hn, rfl⟩

/-- Analysing a second time, with nothing fuzzed in between, replays the same files exactly when there is
nothing to replay, or the first pass comes to its end and the cut-off does not reach its log folders, or a
replay stops both passes. -/
theorem analyzeFun_twice_iff {w : World} (hsaved : ∀ n ∈ w.fs.listFiles (outputDir fn sep), SavedName n) :
    SameReplays xml2 h replay fn maxInputs sep w ↔ Idle h fn maxInputs sep w.fs ∨
      ∃ selected, selectFiles maxInputs (w.fs.listFiles (outputDir fn sep)) = .ok selected ∧
        ((Completes (dumpedBy fn replay w.fs) (fun n => SoundRun xml2 (replay n)) (ReadableInput h fn)
              (inputsIn fn w.fs) selected ∧
            Settled maxInputs (w.fs.listFiles (outputDir fn sep)) (selected.map logName).dedup.length) ∨
          StopsAlike (dumpedBy fn replay w.fs) (fun n => SoundRun xml2 (replay n)) (ReadableInput h fn)
            (inputsIn fn w.fs) selected) := by
  by_cases hidle : Idle h fn maxInputs sep w.fs
  · exact ⟨fun _ => Or.inl hidle, fun _ => sameReplays_of_idle hidle⟩
  · have hfun : w.fs.fileExists (funPath fn) = true := by
      simpa using mt Or.inl hidle
    have hg : h.globs (outputDir fn sep) = true :=
      globs_of_sysGlob_ne_nil fun hnil => hidle (Or.inr (Or.inl hnil))
    have hne : w.fs.listFiles (outputDir fn sep) ≠ [] := by
      rw [← sysGlob_of_globs hg]
      exact fun hnil => hidle (Or.inr (Or.inl hnil))
    obtain ⟨selected, rs, hsel, hpass, hleaves⟩ := @analyzeFun_pass xml2 h _ _ replay _ _
        (foldered_of_savedNames hsaved) hidle
    have hlogs : logNames rs ≠ [] := by
      obtain ⟨n, hn⟩ := List.exists_mem_of_ne_nil _ (hpass.ne_nil (selectFiles_ne_nil hne hsel))
      exact List.ne_nil_of_mem (mem_logNames.mpr (List.mem_map_of_mem hn))
    obtain ⟨again, hagain, hpre, hsettled⟩ := selectFiles_again hne hlogs hsel
    have hlist := hleaves.listFiles hsaved
    have hbusy : ¬ Idle h fn maxInputs sep (analyzed xml2 h replay fn maxInputs sep w).fs := by
      rintro (hf | hnil | ⟨e, he⟩)
      · rw [funPath_exists_analyzed hfun] at hf
        cases hf
      · rw [sysGlob_of_globs hg] at hnil
        exact hne (List.append_eq_nil_iff.mp (hlist.symm.trans hnil)).1
      · rw [sysGlob_of_globs hg, analyzed, hlist, hagain] at he
        cases he
    obtain ⟨again', rs', hsel', hpass', hleaves'⟩ := @analyzeFun_pass xml2 h _ _ replay maxInputs _
        hleaves.folders hbusy
    have hsame : again' = again := by
      rw [hlist, hagain] at hsel'
      cases hsel'
      rfl
    subst hsame
    have hdump : dumpedBy fn replay (analyzed xml2 h replay fn maxInputs sep w).fs =
        dumpedBy fn replay w.fs := by
      unfold dumpedBy
      rw [analyzed, hleaves.hasInputs]
    have hcut : Completes (dumpedBy fn replay w.fs) (fun n => SoundRun xml2 (replay n)) (ReadableInput h fn)
        (inputsIn fn w.fs) selected → rs = selected := by
      intro hc
      rcases hpass.cases with ⟨rfl, -⟩ | ⟨done, n, rest, rfl, -, hstop⟩
      · rfl
      · exact absurd hc hstop.not_completes
    change Overlay.Pass (dumpedBy fn replay (analyzed xml2 h replay fn maxInputs sep w).fs) _ _ _ _ _ at hpass'
    rw [hdump, hleaves.inputs] at hpass'
    rw [sameReplays_iff hleaves hleaves' (fun n hn => (selectFiles_initial hsel).subset (hpass.subset hn)),
      second_pass_iff hpass hpass' hpre, hsettled, length_logNames]
    constructor
    · rintro (⟨hc, hset⟩ | hstop)
      · rw [hcut hc] at hset
        exact Or.inr ⟨selected, hsel, Or.inl ⟨hc, hset⟩⟩
      · exact Or.inr ⟨selected, hsel, Or.inr hstop⟩
    · rintro (hno | ⟨selected', hsel'', hor⟩)
      · exact absurd hno hidle
      · rw [hsel] at hsel''
        cases hsel''
        refine hor.imp_left fun ⟨hc, hset⟩ => ⟨hc, ?_⟩
        rw [hcut hc]
        exact hset

end Repeat

theorem savedName_fuzzedWorld :
    ∀ n ∈ fuzzedWorld.fs.listFiles (outputDir "f" .infun), SavedName n := by
  have hlist : fuzzedWorld.fs.listFiles (outputDir "f" .infun) = ["0a.crash"] := by with_unfolding_all decide
  rw [hlist]
  intro n hn
  rw [List.mem_singleton.mp hn]
  exact ⟨['0', 'a'], ".crash", by with_unfolding_all decide, by simp, by decide, by simp⟩

theorem analyzeFun_twice_sample :
    SameReplays (.ofParser fun _ => some sampleLog) sampleHost (fun _ => fullDump) "f" (.count 1) .infun fuzzedWorld ↔
      Idle sampleHost "f" (.count 1) .infun fuzzedWorld.fs ∨
        ∃ selected, selectFiles (.count 1) (fuzzedWorld.fs.listFiles (outputDir "f" .infun)) = .ok selected ∧
          ((Completes (dumpedBy "f" (fun _ => fullDump) fuzzedWorld.fs)
                (fun _ => SoundRun (.ofParser fun _ => some sampleLog) fullDump) (ReadableInput sampleHost "f")
                (inputsIn "f" fuzzedWorld.fs) selected ∧
              Settled (.count 1) (fuzzedWorld.fs.listFiles (outputDir "f" .infun))
                (selected.map logName).dedup.length) ∨
            StopsAlike (dumpedBy "f" (fun _ => fullDump) fuzzedWorld.fs)
              (fun _ => SoundRun (.ofParser fun _ => some sampleLog) fullDump) (ReadableInput sampleHost "f")
              (inputsIn "f" fuzzedWorld.fs) selected) :=
  analyzeFun_twice_iff savedName_fuzzedWorld

/-- The second analysis replays the log folder of the first. -/
theorem analyzeFun_twice_differs : ¬ ∀ (xml2 : Xml2) (h : Host) (replay : Text → ReplayOutcome)
    (fn : Text) (maxInputs : MaxInputs) (sep : Sep) (w : World),
    (∀ n ∈ w.fs.listFiles (outputDir fn sep), SavedName n) →
      SameReplays xml2 h replay fn maxInputs sep w := by
  intro hall
  have hsame := hall (.ofParser fun _ => some sampleLog) sampleHost (fun _ => fullDump) "f" .all .infun fuzzedWorld
    savedName_fuzzedWorld
  exact absurd hsame.1 (by decide +kernel)

end RcppDeepState
