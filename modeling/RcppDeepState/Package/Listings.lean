import RcppDeepState.Package.Lemmas.Created

/-!
# The listing functions

`deepstate_harness_files` and `deepstate_list_bin_directory` put the paths of a package together by themselves,
without the directory of the function, and take every `rcpp_` out of the whole path.
-/

namespace RcppDeepState

open Command FileSystem

/-- `gsub("rcpp_", "", paste0(test_path, "/", name))` -/
def listedPath (h : Host) (name : Text) : Text := Text.gsub "rcpp_" [] (h.file testPath ++ "/" ++ name)

/-- The harness files, and then the makefiles. -/
def deepstateHarnessFiles (h : Host) : Program (List Text) := do
  let (_, rows) ← readExports
  let harnessfiles := (tableNames rows).map fun fn => listedPath h (fn ++ "_DeepState_TestHarness.cpp")
  let makefiles := (tableNames rows).map fun fn => listedPath h (fn ++ ".Makefile")
  return harnessfiles ++ makefiles

def deepstateListBinDirectory (h : Host) : Program (List Text) := do
  let (_, rows) ← readExports
  return (tableNames rows).map fun fn => listedPath h (fn ++ "_output")

/-- The listed paths are, one for one, those of the harness, the makefile and the output directory of the
functions. -/
structure ListingsAgree (h : Host) (functions files dirs : List Text) : Prop where
  files_nodup : files.Nodup
  dirs_nodup : dirs.Nodup
  files_perm : files.Perm (functions.map (fun fn => h.file (harnessPath fn .infun)) ++
    functions.map fun fn => h.file (makefilePath fn .infun))
  dirs_perm : dirs.Perm (functions.map fun fn => h.file (outputDir fn .infun))

/-! ## Slashes -/

section Slashes

variable {h : Host} {fn n : Text}

theorem count_slash_listedPath (h : Host) (n : Text) :
    (listedPath h n).count '/' = (h.file testPath).count '/' + 1 + n.count '/' := by
  have hslash : ("/" : Text).count '/' = 1 := by with_unfolding_all decide
  rw [listedPath, Text.count_gsub (by with_unfolding_all decide) (by with_unfolding_all decide) (by simp),
    List.count_append, List.count_append, hslash]

/-- A file in the directory of a function lies one directory deeper. -/
theorem count_slash_funPath (h : Host) (fn n : Text) :
    (h.file testPath).count '/' + 2 ≤ (h.file (funPath fn ++ [n])).count '/' := by
  have hslash : ("/" : Text).count '/' = 1 := by with_unfolding_all decide
  simp only [Host.file, funPath, List.flatMap_append, List.flatMap_cons, List.flatMap_nil, List.count_append, hslash]
  omega

theorem listedPath_ne (hn : '/' ∉ n) (fn m : Text) : listedPath h n ≠ h.file (funPath fn ++ [m]) := by
  intro hp
  have hcount := count_slash_listedPath h n
  have hdeeper := count_slash_funPath h fn m
  rw [List.count_eq_zero.mpr hn] at hcount
  rw [← hp] at hdeeper
  omega

/-- A function and the one with `rcpp_` before its name are listed under the same path. -/
theorem listedPath_rcpp (h : Host) (n : Text) : listedPath h ("rcpp_" ++ n) = listedPath h n := by
  have hpattern : ("rcpp_" : Text) ≠ [] ∧ '/' ∉ ("rcpp_" : Text) := by with_unfolding_all decide
  have hslash : ("/" : Text) = ['/'] := by with_unfolding_all decide
  rw [listedPath, listedPath, hslash, List.append_assoc, List.append_assoc, List.singleton_append, List.singleton_append,
    Text.gsub_append_cons hpattern.1 hpattern.2, Text.gsub_append_cons hpattern.1 hpattern.2,
    Text.gsub_prefix hpattern.1, List.nil_append]

/-- No path that is listed for a name lies in the directory of a function. -/
theorem listedPaths_ne {names : List Text} {suffix : Text} (hnames : ∀ n ∈ names, '/' ∉ n) (hsuffix : '/' ∉ suffix) :
    ∀ p ∈ names.map fun n => listedPath h (n ++ suffix), ∀ fn m, p ≠ h.file (funPath fn ++ [m]) := by
  intro p hp
  obtain ⟨n, hn, rfl⟩ := List.mem_map.mp hp
  exact listedPath_ne fun hmem => (List.mem_append.mp hmem).elim (hnames n hn) hsuffix

end Slashes

/-! ## After the package function -/

section Created

variable {h : Host} {o : PkgOutcome} {f : ExportsFile} {harness : List Text} {w w' : World}

theorem readText_createLoop {installed : Text → Installation} {names : List Text} {t t' : Tally}
    (hok : names.foldlM (createOne h installed) t w = .ok t' w') :
    readText w'.fs rcppExportsPath = readText w.fs rcppExportsPath := by
  induction names generalizing t w with
  | nil =>
      cases hok
      rfl
  | cons fn names ih =>
      rw [List.foldlM_cons] at hok
      obtain ⟨t₁, w₁, hone, hrest⟩ := bind_eq_ok.mp hok
      rw [ih hrest, readText_createOne hone]

/-- The exports file is still the one that was written. -/
theorem readText_pkgCreate (ho : o.exports = some f.text) (hok : deepstatePkgCreate h o w = .ok harness w') :
    readText w'.fs rcppExportsPath = some f.text := by
  obtain ⟨log, t, w₁, hloop, hreport⟩ := pkgCreate_loop ho hok
  rw [reportTally_files hreport, readText_createLoop hloop, readText_preparedFiles]

theorem readExports_pkgCreate (ho : o.exports = some f.text) (hok : deepstatePkgCreate h o w = .ok harness w') :
    readExports w' = .ok (f.exports.map (Details.ofExport f.symbol), f.exports.flatMap Export.argRows) w' :=
  readExports_some (exportsTable_of_file (readText_pkgCreate ho hok) (exports_ne_nil ho hok))

/-- The functions of the table: those with a parameter. There is one, and no name has a slash. -/
theorem tableNames_pkgCreate (ho : o.exports = some f.text) (hok : deepstatePkgCreate h o w = .ok harness w') :
    tableNames (f.exports.flatMap Export.argRows) ≠ [] ∧
      ∀ fn ∈ tableNames (f.exports.flatMap Export.argRows), '/' ∉ fn := by
  rw [tableNames_exports f.names_nodup]
  constructor
  · obtain ⟨-, ⟨n, e, he, -, hp, -⟩, -⟩ := pkgCreate_creates ho hok
    have hmem : e ∈ f.exports.filter (·.params ≠ []) := List.mem_filter.mpr ⟨he, by simpa using hp⟩
    exact List.ne_nil_of_mem (List.mem_map_of_mem hmem)
  · intro fn hfn
    obtain ⟨e, -, rfl⟩ := List.mem_map.mp hfn
    exact e.name_ok.not_mem (by decide)

theorem harnessFiles_ok {details : List Details} {rows : List ArgRow} (hread : readExports w = .ok (details, rows) w) :
    deepstateHarnessFiles h w = .ok ((tableNames rows).map (fun fn => listedPath h (fn ++ "_DeepState_TestHarness.cpp")) ++
      (tableNames rows).map fun fn => listedPath h (fn ++ ".Makefile")) w := by
  rw [deepstateHarnessFiles, bind_of_ok hread]
  rfl

theorem listBinDirectory_ok {details : List Details} {rows : List ArgRow}
    (hread : readExports w = .ok (details, rows) w) :
    deepstateListBinDirectory h w = .ok ((tableNames rows).map fun fn => listedPath h (fn ++ "_output")) w := by
  rw [deepstateListBinDirectory, bind_of_ok hread]
  rfl

theorem outputs_ne {names : List Text} (hnames : ∀ n ∈ names, '/' ∉ n) :
    ∀ p ∈ names.map fun fn => listedPath h (fn ++ "_output"), ∀ fn, p ≠ h.file (outputDir fn .infun) :=
  fun p hp fn => listedPaths_ne hnames (by with_unfolding_all decide) p hp fn _

/-- The first listed directory would be one of the directories of the functions. -/
theorem not_listingsAgree {names functions files : List Text} (hne : names ≠ []) (hnames : ∀ n ∈ names, '/' ∉ n) :
    ¬ ListingsAgree h functions files (names.map fun fn => listedPath h (fn ++ "_output")) := by
  intro hagree
  obtain ⟨p, hp⟩ := List.exists_mem_of_ne_nil _ (List.map_eq_nil_iff.not.mpr hne)
  obtain ⟨fn, -, hfn⟩ := List.mem_map.mp (hagree.dirs_perm.mem_iff.mp hp)
  exact outputs_ne hnames p hp fn hfn.symm

/-- The functions list paths of their own: none of them is the path of a harness, a makefile or an output
directory of any function. -/
theorem listings_disagree (ho : o.exports = some f.text) (hok : deepstatePkgCreate h o w = .ok harness w') :
    ∃ files dirs, deepstateHarnessFiles h w' = .ok files w' ∧ deepstateListBinDirectory h w' = .ok dirs w' ∧
      (∀ p ∈ files, ∀ fn, p ≠ h.file (harnessPath fn .infun) ∧ p ≠ h.file (makefilePath fn .infun)) ∧
      (∀ p ∈ dirs, ∀ fn, p ≠ h.file (outputDir fn .infun)) ∧
      ∀ functions, ¬ ListingsAgree h functions files dirs := by
  have hread := readExports_pkgCreate ho hok
  obtain ⟨hne, hnames⟩ := tableNames_pkgCreate ho hok
  refine ⟨_, _, harnessFiles_ok hread, listBinDirectory_ok hread, ?_, outputs_ne hnames,
    fun functions => not_listingsAgree hne hnames⟩
  rw [List.forall_mem_append]
  constructor
  · intro p hp fn
    have hother := listedPaths_ne hnames (by with_unfolding_all decide) p hp fn
    exact ⟨hother _, hother _⟩
  · intro p hp fn
    have hother := listedPaths_ne hnames (by with_unfolding_all decide) p hp fn
    exact ⟨hother _, hother _⟩

end Created

theorem listings_disagree_sample : ∃ harness w', deepstatePkgCreate sampleHost (sampleOutcome sampleExports)
      samplePackage = .ok harness w' ∧
    ∃ files dirs, deepstateHarnessFiles sampleHost w' = .ok files w' ∧
      deepstateListBinDirectory sampleHost w' = .ok dirs w' ∧
      (∀ p ∈ files, ∀ fn, p ≠ sampleHost.file (harnessPath fn .infun) ∧ p ≠ sampleHost.file (makefilePath fn .infun)) ∧
      (∀ p ∈ dirs, ∀ fn, p ≠ sampleHost.file (outputDir fn .infun)) ∧
      ∀ functions, ¬ ListingsAgree sampleHost functions files dirs := by
  obtain ⟨harness, w', -, hok, -⟩ := pkgCreate_sample samplePackage
  exact ⟨harness, w', hok, listings_disagree rfl hok⟩

/-- The listings disagree already for a package with one function `f`. -/
theorem listings_disagree_fails : ¬ ∀ (h : Host) (o : PkgOutcome) (f : ExportsFile) (harness : List Text) (w w' : World),
    o.exports = some f.text → deepstatePkgCreate h o w = .ok harness w' →
      (∀ fn ∈ tableNames (f.exports.flatMap Export.argRows), harnessFile fn .infun ∈ harness) →
        ∃ files dirs, deepstateHarnessFiles h w' = .ok files w' ∧ deepstateListBinDirectory h w' = .ok dirs w' ∧
          ListingsAgree h (tableNames (f.exports.flatMap Export.argRows)) files dirs := by
  intro hall
  obtain ⟨harness, w', -, hok, -⟩ := pkgCreate_sample samplePackage
  have hcreated : ∀ fn ∈ tableNames (sampleExports.exports.flatMap Export.argRows), harnessFile fn .infun ∈ harness := by
    intro fn hfn
    obtain ⟨e, he, rfl⟩ := List.mem_map.mp (tableNames_exports sampleExports.names_nodup ▸ hfn)
    cases List.mem_singleton.mp (List.mem_of_mem_filter he : e ∈ [sampleExport])
    have hcreates : Creates sampleExports (preparedFiles (sampleOutcome sampleExports) sampleExports samplePackage.fs) "f" :=
      ⟨sampleExport, by simp [sampleExports], rfl, by simp [sampleExport], .inr (by with_unfolding_all decide)⟩
    exact ((pkgCreate_creates rfl hok).2.2 _).mpr hcreates
  obtain ⟨files, dirs, -, hdirs, hagree⟩ := hall _ _ _ _ _ _ rfl hok hcreated
  obtain ⟨hne, hnames⟩ := tableNames_pkgCreate rfl hok
  cases (listBinDirectory_ok (readExports_pkgCreate rfl hok)).symm.trans hdirs
  exact not_listingsAgree hne hnames hagree

end RcppDeepState
