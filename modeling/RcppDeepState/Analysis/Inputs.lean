import RcppDeepState.Analysis.Lemmas.Replays
import RcppDeepState.Harness.Text
import RcppDeepState.Package.Atomicity

/-!
# The inputs column

The inputs directory is never cleared, so the row of a saved file is read from everything the earlier runs
have left there. The column is right exactly when every replay dumps at least what lies there already.
-/

namespace RcppDeepState

open Command FileSystem Overlay

/-! ## Names of the column -/

/-- The name under which the value of an argument file is reported. -/
def reportedName (h : Host) (fn n : Text) : Text :=
  if (".qs" : Text) <:+: h.file (inputsPath fn ++ [n]) then stripQs n else n

section Column

variable {h : Host} {fn : Text}

theorem inputValue_name {n : Text} {c : Option Content} {e : Text × InputValue}
    (hv : inputValue h fn n c = .ok e) : e.1 = reportedName h fn n := by
  unfold inputValue readInput at hv
  unfold reportedName
  have hname : fileName (inputsPath fn ++ [n]) = n := by simp [fileName]
  rw [hname] at hv
  split at hv
  · rename_i hqs
    rw [if_pos hqs]
    split at hv
    · cases hv; rfl
    · cases hv
  · rename_i hqs
    rw [if_neg hqs]
    split at hv
    · cases hv; rfl
    · cases hv

/-- The file that the harness saves an argument in. -/
def dumpFile (a : Argument) : Text := if a.key = "mat" then a.name else a.name ++ ".qs"

theorem stripQs_cons {c : Char} {t : Text} (ht : ¬ ("qs" : Text) <+: t) : stripQs (c :: t) = c :: stripQs t := by
  have hqs : ("qs" : Text) = ['q', 's'] := by with_unfolding_all decide
  rw [stripQs]
  rintro x hx
  exact ht ⟨x, by rw [hqs, hx]; rfl⟩

/-- The suffix of a saved file is taken off, whatever else is. -/
theorem stripQs_append_suffix (t : Text) : stripQs (t ++ ".qs") = stripQs t := by
  have hdot : (".qs" : Text) = ['.', 'q', 's'] := by with_unfolding_all decide
  have hqs : ("qs" : Text) = ['q', 's'] := by with_unfolding_all decide
  induction t using stripQs.induct with
  | case1 c t ih =>
      rw [List.cons_append, List.cons_append, List.cons_append, stripQs, stripQs]
      exact ih
  | case2 c t hne ih =>
      have ht : ¬ ("qs" : Text) <+: t := by
        rw [hqs]
        rintro ⟨s, rfl⟩
        exact hne s rfl
      rw [List.cons_append, stripQs_cons, ih, stripQs_cons ht]
      -- The suffix cannot end an occurrence that begins in the name.
      rw [hqs] at ht ⊢
      rw [hdot]
      rcases t with _ | ⟨a, _ | ⟨b, t⟩⟩
      · simp
      · simp
      · simpa using ht
  | case3 => rw [hdot]; rfl

theorem length_stripQs_le (t : Text) : (stripQs t).length ≤ t.length := by
  induction t using stripQs.induct with
  | case1 c t ih =>
      rw [stripQs]
      simp only [List.length_cons]
      omega
  | case2 c t hne ih =>
      rw [stripQs.eq_2 c t hne]
      simpa using ih
  | case3 => exact Nat.le_refl _

theorem length_stripQs_eq {t : Text} (hlen : (stripQs t).length = t.length) : stripQs t = t := by
  induction t using stripQs.induct with
  | case1 c t ih =>
      have hle := length_stripQs_le t
      rw [stripQs] at hlen
      simp only [List.length_cons] at hlen
      omega
  | case2 c t hne ih =>
      rw [stripQs.eq_2 c t hne] at hlen ⊢
      rw [ih (by simpa using hlen)]
  | case3 => rfl

/-- A name stays whole exactly when no character in it is followed by `qs`. -/
theorem stripQs_eq_self_iff {t : Text} : stripQs t = t ↔ ¬ ("qs" : Text) <:+: t.tail := by
  have hqs : ("qs" : Text) = ['q', 's'] := by with_unfolding_all decide
  induction t using stripQs.induct with
  | case1 c t ih =>
      have hin : ("qs" : Text) <:+: 'q' :: 's' :: t := hqs ▸ (List.prefix_append ['q', 's'] t).isInfix
      rw [stripQs, List.tail_cons]
      refine ⟨fun h => ?_, fun h => absurd hin h⟩
      have hlen := length_stripQs_le t
      rw [h] at hlen
      simp only [List.length_cons] at hlen
      omega
  | case2 c t hne ih =>
      rw [stripQs.eq_2 c t hne, List.cons.injEq, List.tail_cons, and_iff_right rfl]
      refine Iff.trans ih ?_
      cases t with
      | nil => simp [hqs]
      | cons d t =>
          rw [List.infix_cons_iff, List.tail_cons, not_or, iff_and_self]
          rintro - ⟨s, hs⟩
          rw [hqs] at hs
          exact hne s hs.symm
  | case3 => simp [stripQs, hqs]

theorem reportedName_dumpFile {a : Argument} (ha : ¬ ("qs" : Text) <:+: a.name.tail) :
    reportedName h fn (dumpFile a) = a.name := by
  unfold reportedName dumpFile
  by_cases hmat : a.key = "mat"
  · rw [if_pos hmat]
    split
    · exact stripQs_eq_self_iff.mpr ha
    · rfl
  · have hsuffix : (".qs" : Text) <:+: h.file (inputsPath fn ++ [a.name ++ ".qs"]) := by
      simp only [Host.file, List.flatMap_append, List.flatMap_cons, List.flatMap_nil, List.append_nil]
      exact ((List.suffix_append _ _).trans ((List.suffix_append _ _).trans
        ((List.suffix_append _ _).trans (List.suffix_append _ _)))).isInfix
    rw [if_neg hmat, if_pos hsuffix, stripQs_append_suffix]
    exact stripQs_eq_self_iff.mpr ha

/-- The argument files of a function have different names in the column when no argument has `qs` inside its
name. -/
theorem reportedName_injOn {args : List Argument} (hnodup : (args.map (·.name)).Nodup)
    (hqs : ∀ a ∈ args, ¬ ("qs" : Text) <:+: a.name.tail) :
    Set.InjOn (reportedName h fn) {x | ∃ a ∈ args, x = dumpFile a} := by
  rintro _ ⟨a, ha, rfl⟩ _ ⟨b, hb, rfl⟩ hab
  rw [reportedName_dumpFile (hqs a ha), reportedName_dumpFile (hqs b hb)] at hab
  rw [List.inj_on_of_nodup_map hnodup ha hb hab]

/-- An entry of the column is one of the values that were assigned. -/
theorem mem_foldl_assignInput {values acc : List (Text × InputValue)} {e : Text × InputValue}
    (he : e ∈ values.foldl assignInput acc) : e ∈ acc ∨ e ∈ values := by
  induction values generalizing acc with
  | nil => exact Or.inl he
  | cons v vs ih =>
      rcases ih he with ha | hvs
      · unfold assignInput at ha
        split at ha
        · obtain ⟨x, hx, hxe⟩ := List.mem_map.mp ha
          split at hxe
          · exact Or.inr (by simp [← hxe])
          · exact Or.inl (hxe ▸ hx)
        · rcases List.mem_append.mp ha with ha | ha
          · exact Or.inl ha
          · exact Or.inr (by simp [List.mem_singleton.mp ha])
      · exact Or.inr (List.mem_cons_of_mem _ hvs)

/-- Values with different names are all there. -/
theorem foldl_assignInput_of_nodup {values acc : List (Text × InputValue)}
    (hnodup : ((acc ++ values).map (·.1)).Nodup) : values.foldl assignInput acc = acc ++ values := by
  induction values generalizing acc with
  | nil => simp
  | cons v vs ih =>
      have hnew : v.1 ∉ acc.map (·.1) := by
        rw [List.map_append, List.map_cons] at hnodup
        exact fun hv => (List.nodup_append.mp hnodup).2.2 _ hv _ (by simp) rfl
      have hone : assignInput acc v = acc ++ [v] := if_neg fun hc => hnew hc.2
      rw [List.foldl_cons, hone, ih (by simpa using hnodup)]
      simp

/-! ## What a row is read from -/

/-- The column was filled from the argument files of `m`, in some order. -/
def ReadFrom (h : Host) (fn : Text) (m : Inputs) (row : AnalysisRow) : Prop :=
  ∃ names values, (∀ n, n ∈ names ↔ (m n).isSome) ∧ names.Nodup ∧
    List.Forall₂ (fun n e => inputValue h fn n (m n).join = .ok e) names values ∧
    row.inputs = values.foldl assignInput []

/-- The column holds the values of `m` and no others. -/
def Reports (h : Host) (fn : Text) (m : Inputs) (row : AnalysisRow) : Prop :=
  ∀ e, e ∈ row.inputs ↔ ∃ n c, m n = some c ∧ inputValue h fn n c = .ok e

theorem readFrom_of_readInputs {fs : FileSystem Content} {values : List (Text × InputValue)}
    {row : AnalysisRow} (hg : h.globs (inputsPath fn) = true) (hv : readInputs h fn fs = .ok values)
    (hrow : row.inputs = values.foldl assignInput []) : ReadFrom h fn (inputsIn fn fs) row := by
  rw [readInputs, sysGlob_of_globs hg] at hv
  refine ⟨fs.listFiles (inputsPath fn), values, fun n => mem_listFiles_inputs, nodup_listFiles fs _, ?_, hrow⟩
  have hboth := (List.forall₂_and_left _ _).mpr ⟨fun n hn => hn, mapM_eq_ok.mp hv⟩
  refine hboth.imp fun n e hne => ?_
  obtain ⟨hn, he⟩ := hne
  obtain ⟨c, hc⟩ := Option.isSome_iff_exists.mp (mem_listFiles_inputs.mp hn)
  rw [hc, Option.join_some, ← inputsIn_eq_some hc]
  exact he

section ReadFrom

variable {m : Inputs} {row : AnalysisRow}

/-- What the column shows is the value of some argument file. -/
theorem ReadFrom.sound (hr : ReadFrom h fn m row) {e : Text × InputValue} (he : e ∈ row.inputs) :
    ∃ n c, m n = some c ∧ inputValue h fn n c = .ok e := by
  obtain ⟨names, values, hnames, -, hvalues, hrow⟩ := hr
  rw [hrow] at he
  obtain ⟨n, hn, hval⟩ := exists_of_mem_right hvalues ((mem_foldl_assignInput he).resolve_left (by simp))
  obtain ⟨c, hc⟩ := Option.isSome_iff_exists.mp ((hnames n).mp hn)
  rw [hc, Option.join_some] at hval
  exact ⟨n, c, hc, hval⟩

/-- Under different names every argument file is shown. -/
theorem ReadFrom.complete (hr : ReadFrom h fn m row)
    (hinj : Set.InjOn (reportedName h fn) {n | (m n).isSome}) {n : Text} {c : Option Content} (hn : m n = some c) :
    ∃ e ∈ row.inputs, inputValue h fn n c = .ok e := by
  obtain ⟨names, values, hnames, hnodup, hvalues, hrow⟩ := hr
  have hfst : values.map (·.1) = names.map (reportedName h fn) := by
    refine Eq.symm (List.forall₂_eq_eq_eq ▸ ?_)
    rw [List.forall₂_map_left_iff, List.forall₂_map_right_iff]
    exact hvalues.imp fun n e he => (inputValue_name he).symm
  have hall : row.inputs = values := by
    rw [hrow]
    refine foldl_assignInput_of_nodup ?_
    rw [List.nil_append, hfst]
    exact hnodup.map_on fun x hx y hy => hinj ((hnames x).mp hx) ((hnames y).mp hy)
  rw [hall]
  obtain ⟨e, he, hval⟩ := exists_of_mem_left hvalues ((hnames n).mpr (by rw [hn]; rfl))
  rw [hn, Option.join_some] at hval
  exact ⟨e, he, hval⟩

theorem ReadFrom.reports (hr : ReadFrom h fn m row)
    (hinj : Set.InjOn (reportedName h fn) {n | (m n).isSome}) : Reports h fn m row := by
  refine fun e => ⟨hr.sound, ?_⟩
  rintro ⟨n, c, hn, hval⟩
  obtain ⟨e', he', hval'⟩ := hr.complete hinj hn
  rw [hval] at hval'
  cases hval'
  exact he'

/-- A row read from `d` laid over `m` shows `d` alone exactly when `d` covers `m`. -/
theorem ReadFrom.reports_iff {d : Inputs} (hr : ReadFrom h fn (overlay d m) row)
    (hinj : Set.InjOn (reportedName h fn) {n | (overlay d m n).isSome}) :
    Reports h fn d row ↔ overlay d m = d := by
  constructor
  · intro hd
    rw [overlay_eq_left_iff]
    intro n hn
    by_contra hnone
    rw [Option.not_isSome_iff_eq_none] at hnone
    obtain ⟨c, hc⟩ := Option.isSome_iff_exists.mp hn
    have hover : overlay d m n = some c := by rw [overlay_of_none hnone, hc]
    obtain ⟨e, he, hval⟩ := hr.complete hinj hover
    obtain ⟨n', c', hn', hval'⟩ := (hd e).mp he
    have hname : n' = n := by
      refine hinj (by rw [Set.mem_ofPred_eq, overlay_of_some hn']; rfl) (by rw [Set.mem_ofPred_eq, hover]; rfl) ?_
      rw [← inputValue_name hval, ← inputValue_name hval']
    rw [hname, hnone] at hn'
    cases hn'
  · intro heq
    rw [heq] at hr hinj
    exact hr.reports hinj

end ReadFrom

/-- Rows read after one round each show their own round exactly when every round finds its own writes. -/
theorem forall₂_reports_iff {m : Inputs} {ds : List Inputs} {rows : List AnalysisRow} {A : Set Text}
    (hinj : Set.InjOn (reportedName h fn) A) (hm : {n | (m n).isSome} ⊆ A)
    (hds : ∀ d ∈ ds, {n | (d n).isSome} ⊆ A)
    (hread : List.Forall₂ (ReadFrom h fn) (findings m ds) rows) :
    List.Forall₂ (Reports h fn) ds rows ↔ findings m ds = ds := by
  induction ds generalizing m rows with
  | nil =>
      rw [findings, List.forall₂_nil_left_iff] at hread
      simp [hread, findings]
  | cons d ds ih =>
      rw [findings, List.forall₂_cons_left_iff] at hread
      obtain ⟨row, rows', hrow, hrows, rfl⟩ := hread
      have hover : {n | (overlay d m n).isSome} ⊆ A := by
        intro n hn
        obtain ⟨c, hc⟩ := Option.isSome_iff_exists.mp hn
        rcases overlay_eq_some hc with hd | ⟨-, hm'⟩
        · exact hds d (by simp) (by rw [Set.mem_ofPred_eq, hd]; rfl)
        · exact hm (by rw [Set.mem_ofPred_eq, hm']; rfl)
      rw [List.forall₂_cons, findings, List.cons.injEq, hrow.reports_iff (hinj.mono hover),
        ih hover (fun e he => hds e (by simp [he])) hrows]

end Column

/-! ## The rows of a pass -/

section Rows

variable {xml2 : Xml2} {h : Host} {fn : Text} {sep : Sep} {replay : Text → ReplayOutcome}

/-- The rows of a pass belong to its files in order, each read from what its replay and the runs before it have
left. -/
theorem analyzeFiles_rows {packageName : Option Text} {names : List Text} {w w' : World}
    {rows : List AnalysisRow} (hg : h.globs (inputsPath fn) = true)
    (hfiles : ∀ n ∈ names, w.fs.fileExists (outputDir fn sep ++ [n]) = true)
    (hrun : analyzeFiles xml2 h replay packageName (outputDir fn sep) names w = .ok rows w') :
    List.Forall₂ (ReadFrom h fn) (findings (inputsIn fn w.fs)
        (names.map fun n => dumpedInto (w.fs.dirExists (inputsPath fn)) (replay n))) rows ∧
      rows.map (·.binaryfile) = names.map (outputDir fn sep ++ [·]) := by
  obtain ⟨rs, w₁, hmap, hrows⟩ := bind_eq_ok.mp hrun
  cases hrows
  clear hrun
  induction names generalizing w rs with
  | nil =>
      cases hmap
      exact ⟨.nil, rfl⟩
  | cons n ns ih =>
      rw [List.mapM_cons] at hmap
      obtain ⟨r, w₂, hone, hmap⟩ := bind_eq_ok.mp hmap
      obtain ⟨rs', w₃, hrest, hret⟩ := bind_eq_ok.mp hmap
      cases hret
      rcases @analyzeFile_run xml2 h _ _ _ (replay n) packageName w (hfiles n (by simp)) with
          ⟨-, e, w₄, herr, -⟩ | ⟨w₄, hr, hres⟩
      · rw [hone] at herr
        cases herr
      · rw [hone] at hres
        cases hres with
        | returns values logtable hok hvalues =>
            obtain ⟨hread, hnames⟩ := ih (fun x hx => hr.fileExists (hfiles x (by simp [hx]))) rs' hrest
            rw [hr.inputs, hr.hasInputs] at hread
            refine ⟨.cons ?_ hread, ?_⟩
            · rw [← hr.inputs]
              exact readFrom_of_readInputs hg hvalues rfl
            · rw [List.map_cons, ← hnames]
              rfl

/-- Every argument file that lies in the inputs directory before a replay is dumped again by it. -/
def Redumps (fn : Text) (replay : Text → ReplayOutcome) (fs : FileSystem Content) (selected : List Text) : Prop :=
  (inputsIn fn fs :: selected.map (dumpedBy fn replay fs)).IsChain Covered

/-- The argument files there are before the pass and those its replays dump. -/
def occurring (fn : Text) (replay : Text → ReplayOutcome) (fs : FileSystem Content) (selected : List Text) :
    Set Text :=
  {x | (inputsIn fn fs x).isSome ∨ ∃ n ∈ selected, (dumpedBy fn replay fs n x).isSome}

theorem forall₂_binaryfile {R : Inputs → AnalysisRow → Prop} {dump : Text → Inputs} {dir : Pathname} {names : List Text}
    {rows : List AnalysisRow} (hfiles : rows.map (·.binaryfile) = names.map (dir ++ [·])) :
    List.Forall₂ R (names.map dump) rows ↔ ∀ row ∈ rows, R (dump (fileName row.binaryfile)) row := by
  induction names generalizing rows with
  | nil =>
      rw [List.map_nil, List.map_eq_nil_iff] at hfiles
      simp [hfiles]
  | cons n ns ih =>
      cases rows with
      | nil => cases hfiles
      | cons row rows =>
          rw [List.map_cons, List.map_cons, List.cons.injEq] at hfiles
          have hname : fileName row.binaryfile = n := by rw [hfiles.1]; simp [fileName]
          rw [List.map_cons, List.forall₂_cons, ih hfiles.2, List.forall_mem_cons, hname]

/-- The rows of an analysis show only what the replay of their own file has dumped when every replay dumps
again what lies there. Where the argument files that occur are shown under different names, the rows are right
exactly then. -/
theorem analyzeFun_inputs_iff {maxInputs : MaxInputs} {selected : List Text} {w w' : World}
    {rows : List AnalysisRow}
    (hsel : selectFiles maxInputs (sysGlob h w.fs (outputDir fn sep)) = .ok selected)
    (hrun : deepstateAnalyzeFun xml2 h replay fn maxInputs sep w = .ok (some rows) w') :
    (Redumps fn replay w.fs selected → ∀ row ∈ rows, ∀ e ∈ row.inputs, ∃ n c,
        dumpedBy fn replay w.fs (fileName row.binaryfile) n = some c ∧ inputValue h fn n c = .ok e) ∧
      (Set.InjOn (reportedName h fn) (occurring fn replay w.fs selected) →
        ((∀ row ∈ rows, Reports h fn (dumpedBy fn replay w.fs (fileName row.binaryfile)) row) ↔
          Redumps fn replay w.fs selected)) := by
  obtain ⟨log, -, hidle | ⟨selected', hbusy, hsel', hpass⟩⟩ := @analyzeFun_run xml2 h fn sep maxInputs replay w
  · exact absurd hrun (hidle.2.2 rows w')
  · rw [hsel] at hsel'
    cases hsel'
    rw [hpass] at hrun
    obtain ⟨rows', w₁, hfiles, hret⟩ := bind_eq_ok.mp hrun
    cases hret
    have hg : h.globs (outputDir fn sep) = true := by
      by_contra hno
      exact hbusy (Or.inr (Or.inl (sysGlob_of_not_globs (by simpa using hno) _)))
    obtain ⟨hread, hnames⟩ := analyzeFiles_rows (w := { w with log := log }) (globs_inputs hg) (fun n hn =>
      (mem_sysGlob.mp ((selectFiles_initial hsel).subset hn)).2.1) hfiles
    change List.Forall₂ (ReadFrom h fn) (findings (inputsIn fn w.fs) (selected.map (dumpedBy fn replay w.fs)))
      rows at hread
    constructor
    · intro hre
      rw [(findings_eq_iff _ _).mpr hre] at hread
      intro row hrow e he
      exact ((forall₂_binaryfile hnames).mp hread row hrow).sound he
    · intro hinj
      rw [Redumps, ← findings_eq_iff, ← @forall₂_binaryfile (Reports h fn) (dumpedBy fn replay w.fs) _ _ _ hnames]
      refine forall₂_reports_iff hinj (fun x hx => Or.inl hx) (fun d hd x hx => ?_) hread
      obtain ⟨n, hn, rfl⟩ := List.mem_map.mp hd
      exact Or.inr ⟨n, hn, hx⟩

end Rows

/-! ## A stale value -/

/-- A fuzzed function with one saved file and an argument that an earlier run has dumped. -/
def fuzzedWorld : World :=
  ⟨(((FileSystem.empty.mkdirs (inputsPath "f")).mkdirs (outputDir "f" .infun)).write
    (inputsPath "f" ++ [("x.qs" : Text)]) (.qs "1")).write (outputDir "f" .infun ++ [("0a.crash" : Text)])
      (.testCase []), []⟩

/-- A run that ends before the argument is dumped. -/
def earlyEnd : ReplayOutcome := ⟨[], 1, "Initialized test input buffer", []⟩

/-- A run that dumps the argument. -/
def fullDump : ReplayOutcome := ⟨[("x.qs", .qs "2")], 1, "Initialized test input buffer", []⟩

/-- The row of the saved file with that value in its inputs column. -/
def fuzzedRow (value : Text) : AnalysisRow :=
  ⟨outputDir "f" .infun ++ [("0a.crash" : Text)], [("x", .qread value)], some []⟩

/-- The same function with a second saved file. -/
def crowdedInputs : World :=
  ⟨fuzzedWorld.fs.write (outputDir "f" .infun ++ [("1b.pass" : Text)]) (.testCase "0"), []⟩

/-- Runs that dump two arguments, with other values for each saved file. -/
def pairDump (n : Text) : ReplayOutcome :=
  if n = "0a.crash" then ⟨[("x.qs", .qs "2"), ("y.qs", .qs "5")], 1, "Initialized test input buffer", []⟩
  else ⟨[("x.qs", .qs "3"), ("y.qs", .qs "6")], 0, "Initialized test input buffer", []⟩

def pairRow (n x y : Text) : AnalysisRow :=
  ⟨outputDir "f" .infun ++ [n], [("x", .qread x), ("y", .qread y)], some []⟩

/-- The rows of the two saved files. -/
def pairRows : List AnalysisRow := [pairRow "0a.crash" "2" "5", pairRow "1b.pass" "3" "6"]

theorem analyzeFun_inputs_sample : ∃ w', deepstateAnalyzeFun (.ofParser fun _ => some sampleLog) sampleHost
      pairDump "f" .all .infun crowdedInputs = .ok (some pairRows) w' ∧
    (Redumps "f" pairDump crowdedInputs.fs ["0a.crash", "1b.pass"] →
        ∀ row ∈ pairRows, ∀ e ∈ row.inputs, ∃ n c,
          dumpedBy "f" pairDump crowdedInputs.fs (fileName row.binaryfile) n = some c ∧
            inputValue sampleHost "f" n c = .ok e) ∧
      (Set.InjOn (reportedName sampleHost "f") (occurring "f" pairDump crowdedInputs.fs ["0a.crash", "1b.pass"]) →
        ((∀ row ∈ pairRows, Reports sampleHost "f"
            (dumpedBy "f" pairDump crowdedInputs.fs (fileName row.binaryfile)) row) ↔
          Redumps "f" pairDump crowdedInputs.fs ["0a.crash", "1b.pass"])) := by
  have hret := ok_of_value? (m := deepstateAnalyzeFun (.ofParser fun _ => some sampleLog) sampleHost pairDump
    "f" .all .infun) (s := crowdedInputs) (a := some pairRows) (by decide +kernel)
  have hlist : sysGlob sampleHost crowdedInputs.fs (outputDir "f" .infun) = ["0a.crash", "1b.pass"] := by
    with_unfolding_all decide
  exact ⟨_, hret, analyzeFun_inputs_iff (by rw [hlist]; rfl) hret⟩

theorem analyzeFun_inputs_stale : ¬ ∀ (xml2 : Xml2) (h : Host) (fn : Text) (sep : Sep)
    (replay : Text → ReplayOutcome) (maxInputs : MaxInputs) (w w' : World) (rows : List AnalysisRow),
    deepstateAnalyzeFun xml2 h replay fn maxInputs sep w = .ok (some rows) w' →
      ∀ row ∈ rows, Reports h fn (dumpedBy fn replay w.fs (fileName row.binaryfile)) row := by
  intro hall
  have hret := ok_of_value? (m := deepstateAnalyzeFun (.ofParser fun _ => some sampleLog) sampleHost (fun _ => earlyEnd)
    "f" .all .infun) (s := fuzzedWorld) (a := some [fuzzedRow "1"]) (by decide +kernel)
  obtain ⟨n, c, hdump, -⟩ := (hall _ _ _ _ _ _ _ _ _ hret _ (List.mem_singleton.mpr rfl) _).mp
    (List.mem_singleton.mpr rfl)
  have hnone : dumpedBy "f" (fun _ => earlyEnd) fuzzedWorld.fs (fileName (fuzzedRow "1").binaryfile) n = none := by
    simp [dumpedBy, dumpedInto, earlyEnd]
  rw [hnone] at hdump
  cases hdump

end RcppDeepState
