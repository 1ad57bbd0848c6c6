import RcppDeepState.Package.Lemmas.PkgCreate

/-!
# Every export is accounted for

`deepstate_pkg_create` takes its functions from the argument table, which has no row for a function
without parameters.
-/

namespace RcppDeepState

open Command FileSystem

/-- The returned harness files and the reported failures split the functions of those names; the counts
are the sizes of the two lists, and the returned files are in order. -/
def Accounted (names harness : List Text) (es : List Event) : Prop :=
  ∃ created failed, harness = created.map (harnessFile · .infun) ∧
    reportedCreated es = [created.length] ∧
    reportedFailures es = (if failed = [] then [] else [(failed.length, failed)]) ∧
    (created ++ failed).Perm names ∧ created.Sublist names

/-! ## One call -/

section Call

variable {h : Host} {o : PkgOutcome} {f : ExportsFile} {w w' : World}

/-- The tree the loop starts from. -/
def preparedFiles (o : PkgOutcome) (f : ExportsFile) (fs : FileSystem Content) : FileSystem Content :=
  (o.writeInterfaces (prepareTestfiles fs)).write rcppExportsPath (.text f.text)

theorem readText_preparedFiles (o : PkgOutcome) (f : ExportsFile) (fs : FileSystem Content) :
    readText (preparedFiles o f fs) rcppExportsPath = some f.text := by
  simp [readText, preparedFiles]

theorem readFunctions_ok (hread : readText w.fs rcppExportsPath = some f.text) (hne : f.exports ≠ []) :
    readFunctions w = .ok (f.exports.flatMap Export.argRows) w := by
  unfold readFunctions
  rw [files_bind_apply, hread, packageDetails_text]
  simp only [functionBody_details f.names_nodup, if_neg hne]
  rfl

/-- The call is the loop over the functions with parameters, and the report. -/
theorem pkgCreate_apply (ho : o.exports = some f.text) (hne : f.exports ≠ []) :
    ∃ es, (∀ e ∈ es, NoReport e) ∧ deepstatePkgCreate h o w =
      ((tableNames (f.exports.flatMap Export.argRows)).foldlM (createOne h o.installed) Tally.empty >>=
        fun t => reportTally (tableNames (f.exports.flatMap Export.argRows)).length t)
        ⟨preparedFiles o f w.fs, w.log ++ es⟩ := by
  have hread : ∀ log, readFunctions ⟨preparedFiles o f w.fs, log⟩ =
      .ok (f.exports.flatMap Export.argRows) ⟨preparedFiles o f w.fs, log⟩ :=
    fun log => readFunctions_ok (readText_preparedFiles o f w.fs) hne
  unfold deepstatePkgCreate
  rw [onFiles_bind_apply]
  split
  · refine ⟨[.makeRun, .compileAttributes], by simp [NoReport, Event.failures, Event.createdCount], ?_⟩
    simp only [record_bind_apply, compileAttributes, bind_assoc, ho, onFiles_bind_apply,
      List.append_assoc, List.cons_append, List.nil_append]
    exact Command.bind_of_ok (hread _)
  · refine ⟨[.compileAttributes], by simp [NoReport, Event.failures, Event.createdCount], ?_⟩
    simp only [record_bind_apply, compileAttributes, bind_assoc, ho, onFiles_bind_apply]
    exact Command.bind_of_ok (hread _)

theorem pkgCreate_ok {harness : List Text} (ho : o.exports = some f.text) (hne : f.exports ≠ [])
    (hok : deepstatePkgCreate h o w = .ok harness w') :
    ∃ es, w'.log = w.log ++ es ∧
      Accounted (tableNames (f.exports.flatMap Export.argRows)) harness es := by
  obtain ⟨es₁, hes₁, happly⟩ := pkgCreate_apply (h := h) (w := w) ho hne
  obtain ⟨t, w₁, hloop, hreport⟩ := bind_eq_ok.mp (happly.symm.trans hok)
  obtain ⟨created, failed, rfl, hsub, hperm⟩ := createLoop_ok hloop
  have heff := @effects_createLoop h o.installed (tableNames (f.exports.flatMap Export.argRows)) Tally.empty
      ⟨preparedFiles o f w.fs, w.log ++ es₁⟩
  rw [final_of_ok hloop] at heff
  obtain ⟨es₂, hes₂, hquiet⟩ := heff.events
  obtain ⟨hharness, es₃, hes₃, hcreated, hfailures⟩ := reportTally_ok hperm hreport
  have hq₁ := reported_of_noReport hes₁
  have hq₂ := reported_of_noReport fun e he => noReport_of_createEvents (hquiet e he)
  refine ⟨es₁ ++ (es₂ ++ es₃), ?_, created, failed, hharness, ?_, ?_, hperm, hsub⟩
  · rw [hes₃, hes₂]
    simp
  · rw [reportedCreated, List.filterMap_append, List.filterMap_append, ← reportedCreated,
      ← reportedCreated, ← reportedCreated, hq₁.2, hq₂.2, hcreated]
    rfl
  · rw [reportedFailures, List.filterMap_append, List.filterMap_append, ← reportedFailures,
      ← reportedFailures, ← reportedFailures, hq₁.1, hq₂.1, hfailures]
    rfl

end Call

/-! ## Comparing two accounts -/

theorem harnessFile_injective {fn fn' : Text} {sep : Sep} (h : harnessFile fn sep = harnessFile fn' sep) :
    fn = fn' := by
  simpa [harnessFile, testHarness] using h

/-- The returned files and the report determine what they account for. -/
theorem Accounted.perm {names names' harness : List Text} {es : List Event}
    (h : Accounted names harness es) (h' : Accounted names' harness es) : names.Perm names' := by
  obtain ⟨created, failed, hharness, _, hfailures, hperm, _⟩ := h
  obtain ⟨created', failed', hharness', _, hfailures', hperm', _⟩ := h'
  have hc : created = created' :=
    List.map_injective_iff.mpr (fun _ _ => harnessFile_injective) (hharness.symm.trans hharness')
  have hf : failed = failed' := by
    rw [hfailures] at hfailures'
    by_cases hn : failed = [] <;> by_cases hn' : failed' = [] <;> simp_all
  subst hc hf
  exact hperm.symm.trans hperm'

/-! ## Calls that return -/

theorem basename_of_not_mem {t : Text} (ht : '/' ∉ t) : basename t = t := by
  have hall : t.reverse.takeWhile (· ≠ '/') = t.reverse := by
    rw [List.takeWhile_eq_self_iff]
    intro c hc
    have hne : c ≠ '/' := by rintro rfl; exact ht (List.mem_reverse.mp hc)
    simpa using hne
  rw [basename, hall, List.reverse_reverse]

theorem slash_not_mem_harnessFile {n : Text} (hn : Identifier n) : '/' ∉ harnessFile n .infun := by
  simp only [harnessFile, testHarness, Sep.suffix, List.append_nil, List.mem_append, not_or]
  exact ⟨⟨hn.not_mem (by decide), by with_unfolding_all decide⟩, by with_unfolding_all decide⟩

section Returns

variable {h : Host} {f : ExportsFile} {e : Export} {installed : Text → Installation}

/-- With a shared object to be had, the loop goes on with every function of the table, and counts the
functions whose types are supported as created. -/
theorem createOne_returns {t : Tally} {w : World} (hg : h.globs ["src"] = true)
    (hread : readText w.fs rcppExportsPath = some f.text) (he : e ∈ f.exports) (hp : e.params ≠ [])
    (hb : (installed e.name).builds = true) :
    ∃ t' w', createOne h installed t e.name w = .ok t' w' ∧
      readText w'.fs rcppExportsPath = some f.text ∧ t.matchCount ≤ t'.matchCount ∧
      (unsupportedTypes e.args = [] → t.matchCount < t'.matchCount) := by
  have hne : f.exports ≠ [] := List.ne_nil_of_mem he
  have ht := exportsTable_of_file hread hne
  have hargs : argumentsOf (f.exports.flatMap Export.argRows) e.name = e.args :=
    argumentsOf_exports f.names_nodup he
  have hbase : basename (harnessFile e.name .infun) = harnessFile e.name .infun :=
    basename_of_not_mem (slash_not_mem_harnessFile e.name_ok)
  have hcall : ∃ filepath w', deepstateFunCreate h (installed e.name) e.name .infun w = .ok filepath w' ∧
      (unsupportedTypes e.args = [] → filepath = some (harnessFile e.name .infun)) := by
    by_cases hcase : w.fs.fileExists (harnessPath e.name .infun) = true ∨ unsupportedTypes e.args = []
    · rw [← hargs] at hcase
      obtain ⟨w', hw'⟩ := funCreate_returns (h := h) hb hg ht (by rw [hargs]; exact mt args_eq_nil.mp hp) hcase
      exact ⟨_, w', hw', fun _ => rfl⟩
    · rw [not_or] at hcase
      obtain ⟨log, happly⟩ := @funCreate_apply h (installed e.name) e.name .infun _ _ _ ht
      rw [if_neg hcase.1, hargs, if_pos hcase.2] at happly
      exact ⟨_, _, happly, fun hs => absurd hs hcase.2⟩
  obtain ⟨filepath, w', hw', hsome⟩ := hcall
  have hkeep : readText w'.fs rcppExportsPath = some f.text := by
    have hread' := @readText_funCreate h (installed e.name) e.name .infun w
    rw [final_of_ok hw'] at hread'
    exact hread'.trans hread
  rw [createOne, Command.bind_of_ok hw']
  by_cases hm : filepath.map basename = some (harnessFile e.name .infun)
  · rw [if_pos hm]
    exact ⟨_, w', rfl, hkeep, Nat.le_succ _, fun _ => Nat.lt_succ_self _⟩
  · rw [if_neg hm]
    refine ⟨_, w', rfl, hkeep, Nat.le_refl _, fun hs => absurd ?_ hm⟩
    rw [hsome hs, Option.map_some, hbase]

theorem createLoop_returns {es : List Export} (hg : h.globs ["src"] = true)
    (hsub : ∀ a ∈ es, a ∈ f.exports ∧ a.params ≠ []) (hb : ∀ n, (installed n).builds = true) {t : Tally} {w : World}
    (hread : readText w.fs rcppExportsPath = some f.text) :
    ∃ t' w', (es.map (·.name)).foldlM (createOne h installed) t w = .ok t' w' ∧
      t.matchCount ≤ t'.matchCount ∧
      (∀ a ∈ es, unsupportedTypes a.args = [] → t.matchCount < t'.matchCount) := by
  induction es generalizing t w with
  | nil => exact ⟨t, w, rfl, Nat.le_refl _, by simp⟩
  | cons a es ih =>
      obtain ⟨ha, hp⟩ := hsub a (by simp)
      obtain ⟨t₁, w₁, hone, hread₁, hle₁, hlt₁⟩ := createOne_returns (t := t) hg hread ha hp (hb a.name)
      obtain ⟨t₂, w₂, hrest, hle₂, hlt₂⟩ := ih (t := t₁) (fun x hx => hsub x (by simp [hx])) hread₁
      refine ⟨t₂, w₂, ?_, by omega, ?_⟩
      · rw [List.map_cons, List.foldlM_cons, Command.bind_of_ok hone]
        exact hrest
      · intro x hx hs
        rcases List.mem_cons.mp hx with rfl | hx
        · have := hlt₁ hs
          omega
        · have := hlt₂ x hx hs
          omega

/-- The call returns when the package can be installed and some function can be tested. -/
theorem pkgCreate_returns {o : PkgOutcome} {w : World} (hg : h.globs ["src"] = true) (ho : o.exports = some f.text)
    (hb : ∀ n, (o.installed n).builds = true) (he : e ∈ f.exports) (hp : e.params ≠ [])
    (hs : unsupportedTypes e.args = []) :
    ∃ harness w' es, deepstatePkgCreate h o w = .ok harness w' ∧ w'.log = w.log ++ es := by
  have hne : f.exports ≠ [] := List.ne_nil_of_mem he
  obtain ⟨es, _, happly⟩ := pkgCreate_apply (h := h) (w := w) ho hne
  rw [tableNames_exports f.names_nodup] at happly
  obtain ⟨t, w₁, hloop, _, hlt⟩ := @createLoop_returns h f o.installed (f.exports.filter (·.params ≠ []))
      hg (fun a ha => by simpa using List.mem_filter.mp ha) hb Tally.empty ⟨preparedFiles o f w.fs, w.log ++ es⟩
      (readText_preparedFiles o f w.fs)
  have hpos : 0 < t.matchCount := hlt e (List.mem_filter.mpr ⟨he, by simpa using hp⟩) hs
  obtain ⟨created, failed, rfl, _, hperm⟩ := createLoop_ok hloop
  have hlen := hperm.length_eq
  rw [List.length_append] at hlen
  have hreport : ∃ harness w', reportTally ((f.exports.filter (·.params ≠ [])).map (·.name)).length
      (Tally.empty.add created failed) w₁ = .ok harness w' := by
    rw [← hlen]
    simp only [Tally.add, Tally.empty, Nat.zero_add, List.nil_append, reportTally] at hpos ⊢
    by_cases hf : failed = []
    · rw [if_pos ⟨hpos, by simp [hf]⟩]
      exact ⟨_, _, rfl⟩
    · have hfpos := List.length_pos_iff.mpr hf
      rw [if_neg (by omega), if_pos ⟨by omega, hf, by omega⟩]
      exact ⟨_, _, rfl⟩
  obtain ⟨harness, w', hw'⟩ := hreport
  have hok : deepstatePkgCreate h o w = .ok harness w' := by
    rw [happly, Command.bind_of_ok hloop]
    exact hw'
  obtain ⟨es', hes', _⟩ := pkgCreate_ok ho hne hok
  exact ⟨harness, w', es', hok, hes'⟩

end Returns

/-! ## Exports without parameters -/

theorem params_of_accounted {f : ExportsFile} {harness : List Text} {es : List Event}
    (hacc : Accounted (tableNames (f.exports.flatMap Export.argRows)) harness es)
    (hall : Accounted (f.exports.map (·.name)) harness es) : ∀ e ∈ f.exports, e.params ≠ [] := by
  rw [tableNames_exports f.names_nodup] at hacc
  have hlen := (hall.perm hacc).length_eq
  rw [List.length_map, List.length_map] at hlen
  have hfilter : f.exports.filter (·.params ≠ []) = f.exports :=
    List.filter_sublist.eq_of_length hlen.symm
  intro e he
  rw [← hfilter] at he
  simpa using (List.mem_filter.mp he).2

/-- A call that returns accounts for every export exactly when every export has a parameter. -/
theorem pkgCreate_accounted_iff {h : Host} {o : PkgOutcome} {f : ExportsFile} {w w' : World}
    {harness : List Text} {es : List Event} (ho : o.exports = some f.text) (hne : f.exports ≠ [])
    (hok : deepstatePkgCreate h o w = .ok harness w') (hes : w'.log = w.log ++ es) :
    Accounted (f.exports.map (·.name)) harness es ↔ ∀ e ∈ f.exports, e.params ≠ [] := by
  obtain ⟨es', hes', hacc⟩ := pkgCreate_ok ho hne hok
  obtain rfl : es' = es := List.append_cancel_left (hes'.symm.trans hes)
  refine ⟨params_of_accounted hacc, fun hall => ?_⟩
  have hfilter : f.exports.filter (·.params ≠ []) = f.exports := by
    rw [List.filter_eq_self]
    intro e he
    simpa using hall e he
  rw [tableNames_exports f.names_nodup, hfilter] at hacc
  exact hacc

def sampleOutcome (f : ExportsFile) : PkgOutcome where
  deepstateBuilt := true
  exports := some f.text
  wrappers := some "# Generator token: 10BE3573-1514-4C36-9D1C-5A225CD40393\n"
  headers := [("pkg_RcppExports.h", "#include <Rcpp.h>\n"), ("pkg.h", "#include \"pkg_RcppExports.h\"\n")]
  installed _ := sampleInstallation true

theorem pkgCreate_sample (w : World) : ∃ harness w' es,
    deepstatePkgCreate sampleHost (sampleOutcome sampleExports) w = .ok harness w' ∧ w'.log = w.log ++ es :=
  @pkgCreate_returns sampleHost sampleExports sampleExport (sampleOutcome sampleExports) w
    (globs_sampleHost (by with_unfolding_all decide)) rfl (fun _ => rfl) (by simp [sampleExports])
    (by simp [sampleExport]) (by with_unfolding_all decide)

theorem typeText_double : TypeText "double" := typeText_of_decide (by with_unfolding_all decide)

theorem typeText_numericVector : TypeText "Rcpp::NumericVector" := typeText_of_decide (by with_unfolding_all decide)

theorem typeText_logicalVector : TypeText "Rcpp::LogicalVector" := typeText_of_decide (by with_unfolding_all decide)

theorem identifier_g : Identifier "g" := identifier_of_decide (by with_unfolding_all decide)

theorem identifier_k : Identifier "k" := identifier_of_decide (by with_unfolding_all decide)

theorem identifier_m : Identifier "m" := identifier_of_decide (by with_unfolding_all decide)

theorem identifier_n : Identifier "n" := identifier_of_decide (by with_unfolding_all decide)

theorem identifier_v : Identifier "v" := identifier_of_decide (by with_unfolding_all decide)

/-- `int k(Rcpp::LogicalVector x)` -/
def logicalExport : Export where
  returnType := "int"
  name := "k"
  params := [⟨"Rcpp::LogicalVector", "x", typeText_logicalVector, identifier_x⟩]
  rng := true
  returnType_ok := typeText_int
  name_ok := identifier_k

/-- `double m(Rcpp::NumericVector v, int n)` -/
def numericExport : Export where
  returnType := "double"
  name := "m"
  params := [⟨"Rcpp::NumericVector", "v", typeText_numericVector, identifier_v⟩,
    ⟨"int", "n", typeText_int, identifier_n⟩]
  rng := true
  returnType_ok := typeText_double
  name_ok := identifier_m

/-- Two functions of supported types, and one that no harness is made for. -/
def severalExports : ExportsFile :=
  { sampleExports with
    exports := [sampleExport, logicalExport, numericExport]
    names_nodup := by with_unfolding_all decide }

theorem pkgCreate_accounted_sample : ∃ harness w' es,
    deepstatePkgCreate sampleHost (sampleOutcome severalExports) samplePackage = .ok harness w' ∧
      (Accounted (severalExports.exports.map (·.name)) harness es ↔
        ∀ e ∈ severalExports.exports, e.params ≠ []) := by
  obtain ⟨harness, w', es, hok, hes⟩ := pkgCreate_returns (h := sampleHost) (f := severalExports)
    (e := numericExport) (o := sampleOutcome severalExports) (w := samplePackage)
    (globs_sampleHost (by with_unfolding_all decide)) rfl (fun _ => rfl)
    (by simp [severalExports]) (by simp [numericExport]) (by with_unfolding_all decide)
  exact ⟨harness, w', es, hok, pkgCreate_accounted_iff rfl (by simp [severalExports]) hok hes⟩

/-- `void g()` -/
def niladicExport : Export where
  returnType := "void"
  name := "g"
  params := []
  rng := false
  returnType_ok := typeText_void
  name_ok := identifier_g

def mixedExports : ExportsFile :=
  { sampleExports with
    exports := [sampleExport, niladicExport]
    names_nodup := by with_unfolding_all decide }

/-- `g` is neither among the returned harness files nor among the reported failures. -/
theorem pkgCreate_accounted_fails : ¬ ∀ (h : Host) (o : PkgOutcome) (f : ExportsFile) (w w' : World)
    (harness : List Text) (es : List Event), o.exports = some f.text → f.exports ≠ [] →
      deepstatePkgCreate h o w = .ok harness w' → w'.log = w.log ++ es →
        Accounted (f.exports.map (·.name)) harness es := by
  intro hall
  have hne : mixedExports.exports ≠ [] := by simp [mixedExports]
  obtain ⟨harness, w', es, hok, hes⟩ := pkgCreate_returns (h := sampleHost) (f := mixedExports)
    (e := sampleExport) (o := sampleOutcome mixedExports) (w := samplePackage)
    (globs_sampleHost (by with_unfolding_all decide)) rfl (fun _ => rfl) (by simp [mixedExports])
    (by simp [sampleExport]) (by with_unfolding_all decide)
  obtain ⟨es', hes', hacc⟩ := pkgCreate_ok rfl hne hok
  obtain rfl : es' = es := List.append_cancel_left (hes'.symm.trans hes)
  exact params_of_accounted hacc (hall _ _ _ _ _ _ _ rfl hne hok hes) niladicExport
    (by simp [mixedExports]) rfl

end RcppDeepState
