import RcppDeepState.Package.Lemmas.Recreate
import RcppDeepState.Library.Run

/-!
# Creating the harnesses of a package again and again

A call of `deepstate_pkg_create` that returns may delete what the calls before it left. From the second call on every
call returns the same names and leaves the same tree, whatever was there before the first one.
-/

namespace RcppDeepState

open Command FileSystem

/-! ## Packages whose harnesses are there -/

section Definitions

variable (h : Host) (o : PkgOutcome) (f : ExportsFile) (fs : FileSystem Content)

instance (n : Text) : Decidable (Creates f fs n) :=
  inferInstanceAs (Decidable (∃ e ∈ f.exports, e.name = n ∧ e.params ≠ [] ∧
    (fs.fileExists (harnessPath n .infun) = true ∨ unsupportedTypes e.args = [])))

/-- The functions that get a harness or have one, in the order of the table. -/
def createdNames : List Text :=
  ((f.exports.filter (·.params ≠ [])).map (·.name)).filter fun n => decide (Creates f fs n)

/-- The harnesses that the package call would create are there, with all that belongs to them. -/
structure AllMade : Prop where
  made : ∀ n, Creates f fs n → Made h n fs
  created : ∃ n, Creates f fs n

/-- What a further call leaves. -/
def recreated : FileSystem Content := withMakefiles h (createdNames f fs) (preparedFiles o f fs)

end Definitions

/-! ## Paths beside the makefiles -/

section Paths

variable {h : Host} {fs : FileSystem Content} {fn fn' n : Text} {fns : List Text}

theorem not_dirsOf_harness : harnessPath fn' .infun ∉ dirsOf fn := by
  intro hmem
  rcases List.mem_cons.mp hmem with hp | hp
  · exact buildPath_ne_inputsPath fn' fn .infun ".cpp" hp
  · have hpre := (List.mem_inits _ _).mp (List.mem_of_mem_tail hp)
    exact buildPath_ne_outputDir fn' fn .infun .infun ".cpp"
      (hpre.eq_of_length (by simp [harnessPath, outputDir, funPath]))

theorem not_dirsOf_src : [("src" : Text), n] ∉ dirsOf fn := by
  intro hmem
  have hpre : [("src" : Text), n] <+: outputDir fn .infun ∨ [("src" : Text), n] = inputsPath fn := by
    rcases List.mem_cons.mp hmem with hp | hp
    · exact .inr hp
    · exact .inl ((List.mem_inits _ _).mp (List.mem_of_mem_tail hp))
  rcases hpre with hp | hp
  · simp [outputDir, funPath, testPath, Text.ofString_eq] at hp
  · simp [inputsPath, funPath, testPath, Text.ofString_eq] at hp

theorem makefilePath_ne_src : [("src" : Text), n] ≠ makefilePath fn .infun := by
  simp [makefilePath, funPath, testPath]

theorem fileExists_withMakefiles_harness :
    (withMakefiles h fns fs).fileExists (harnessPath fn .infun) = fs.fileExists (harnessPath fn .infun) := by
  rw [fileExists_eq_kind, fileExists_eq_kind,
    kind?_withMakefiles_other (fun _ _ => (makefilePath_ne_harnessPath _ _ _ _).symm) fun _ _ => not_dirsOf_harness]

theorem kind?_withMakefiles_src : (withMakefiles h fns fs).kind? ["src", n] = fs.kind? ["src", n] :=
  kind?_withMakefiles_other (fun _ _ => makefilePath_ne_src) fun _ _ => not_dirsOf_src

theorem sharedObjects_withMakefiles : sharedObjects h (withMakefiles h fns fs) = sharedObjects h fs :=
  sharedObjects_congr fun n => by rw [fileExists_eq_kind, fileExists_eq_kind, kind?_withMakefiles_src]

theorem readText_withMakefiles : readText (withMakefiles h fns fs) rcppExportsPath = readText fs rcppExportsPath := by
  unfold readText
  rw [read_eq_kind, read_eq_kind, rcppExportsPath, kind?_withMakefiles_src]

end Paths

/-! ## The loop over settled functions -/

section Loop

variable {h : Host} {f : ExportsFile} {installed : Text → Installation} {t t' : Tally} {w w' : World} {e : Export}

/-- A function whose harness is there gets its makefile again, the others stay without. -/
theorem createOne_settled (hread : readText w.fs rcppExportsPath = some f.text) (he : e ∈ f.exports)
    (hp : e.params ≠ []) (hs : sharedObjects h w.fs ≠ [])
    (hharness : Creates f w.fs e.name → w.fs.fileExists (harnessPath e.name .infun) = true) :
    (Creates f w.fs e.name → ∃ log, createOne h installed t e.name w =
        .ok (t.add [e.name] []) ⟨withMakefile h w.fs e.name, log⟩) ∧
      (¬ Creates f w.fs e.name → ∃ log, createOne h installed t e.name w = .ok (t.add [] [e.name]) ⟨w.fs, log⟩) := by
  have hargs : argumentsOf (f.exports.flatMap Export.argRows) e.name = e.args := argumentsOf_exports f.names_nodup he
  have hbase : basename (harnessFile e.name .infun) = harnessFile e.name .infun :=
    basename_of_not_mem (slash_not_mem_harnessFile e.name_ok)
  obtain ⟨log, happly⟩ := @funCreate_apply h (installed e.name) e.name .infun w _ _
    (exportsTable_of_file hread (List.ne_nil_of_mem he))
  rw [hargs] at happly
  constructor
  · intro hcr
    have hmake := @createMakefile_built h (installed e.name) e.name ⟨w.fs, log⟩ hs
    rw [if_pos (hharness hcr), Command.bind_of_ok hmake] at happly
    obtain ⟨log', hcall⟩ : ∃ log', deepstateFunCreate h (installed e.name) e.name .infun w =
        .ok (some (harnessFile e.name .infun)) ⟨withMakefile h w.fs e.name, log'⟩ := ⟨_, happly⟩
    refine ⟨log', ?_⟩
    rw [createOne, Command.bind_of_ok hcall, Option.map_some, hbase, if_pos rfl]
    simp [Tally.add]
  · intro hcr
    rw [creates_iff he hp, not_or] at hcr
    rw [if_neg hcr.1, if_pos hcr.2] at happly
    obtain ⟨log', hcall⟩ : ∃ log', deepstateFunCreate h (installed e.name) e.name .infun w = .ok none ⟨w.fs, log'⟩ :=
      ⟨_, happly⟩
    refine ⟨log', ?_⟩
    rw [createOne, Command.bind_of_ok hcall, Option.map_none, if_neg (by simp)]
    simp [Tally.add]

theorem createLoop_settled {es : List Export} (hsub : ∀ a ∈ es, a ∈ f.exports ∧ a.params ≠ [])
    (hread : readText w.fs rcppExportsPath = some f.text) (hs : sharedObjects h w.fs ≠ [])
    (hharness : ∀ n, Creates f w.fs n → w.fs.fileExists (harnessPath n .infun) = true) :
    ∃ log, (es.map (·.name)).foldlM (createOne h installed) t w =
      .ok (t.add ((es.map (·.name)).filter fun n => decide (Creates f w.fs n))
          ((es.map (·.name)).filter fun n => !decide (Creates f w.fs n)))
        ⟨withMakefiles h ((es.map (·.name)).filter fun n => decide (Creates f w.fs n)) w.fs, log⟩ := by
  induction es generalizing t w with
  | nil => exact ⟨w.log, by simp [Tally.add, withMakefiles]⟩
  | cons a es ih =>
      obtain ⟨ha, hpa⟩ := hsub a (by simp)
      obtain ⟨hyes, hno⟩ := @createOne_settled h f installed t w a hread ha hpa hs (hharness a.name)
      rw [List.map_cons, List.foldlM_cons]
      by_cases hcr : Creates f w.fs a.name
      · obtain ⟨log, hone⟩ := hyes hcr
        have hexists : ∀ n, (withMakefile h w.fs a.name).fileExists (harnessPath n .infun) =
            w.fs.fileExists (harnessPath n .infun) := fun n => @fileExists_withMakefiles_harness h w.fs n [a.name]
        have hsame : ∀ n, Creates f (withMakefile h w.fs a.name) n ↔ Creates f w.fs n :=
          fun n => creates_congr (hexists n)
        obtain ⟨log', hrest⟩ := @ih (t.add [a.name] []) ⟨withMakefile h w.fs a.name, log⟩
          (fun x hx => hsub x (by simp [hx])) ((@readText_withMakefiles h w.fs [a.name]).trans hread)
          (by rw [show withMakefile h w.fs a.name = withMakefiles h [a.name] w.fs from rfl, sharedObjects_withMakefiles]
              exact hs)
          (fun n hn => (hexists n).trans (hharness n ((hsame n).mp hn)))
        refine ⟨log', ?_⟩
        rw [Command.bind_of_ok hone, hrest]
        simp only [hsame, List.filter_cons, hcr, decide_true, ↓reduceIte, Bool.not_true, Bool.false_eq_true,
          Tally.add_add]
        rfl
      · obtain ⟨log, hone⟩ := hno hcr
        obtain ⟨log', hrest⟩ := @ih (t.add [] [a.name]) ⟨w.fs, log⟩ (fun x hx => hsub x (by simp [hx])) hread hs hharness
        refine ⟨log', ?_⟩
        rw [Command.bind_of_ok hone, hrest]
        simp only [List.filter_cons, hcr, decide_false, Bool.not_false, ↓reduceIte, Bool.false_eq_true, Tally.add_add]
        rfl

/-- A loop that returns has made what it counts. -/
theorem createLoop_made {es : List Export} (hsub : ∀ a ∈ es, a ∈ f.exports ∧ a.params ≠ [])
    (hnodup : (es.map (·.name)).Nodup) (hread : readText w.fs rcppExportsPath = some f.text)
    (hok : (es.map (·.name)).foldlM (createOne h installed) t w = .ok t' w') :
    t' = t.add ((es.map (·.name)).filter fun n => decide (Creates f w.fs n))
        ((es.map (·.name)).filter fun n => !decide (Creates f w.fs n)) ∧
      ∀ n ∈ es.map (·.name), Creates f w.fs n → Made h n w'.fs := by
  induction es generalizing t w with
  | nil =>
      cases hok
      exact ⟨by simp [Tally.add], by simp⟩
  | cons a es ih =>
      rw [List.map_cons, List.foldlM_cons] at hok
      obtain ⟨t₁, w₁, hone, hrest⟩ := bind_eq_ok.mp hok
      rw [List.map_cons, List.nodup_cons] at hnodup
      obtain ⟨ha, hpa⟩ := hsub a (by simp)
      obtain ⟨ht, hmade⟩ := ih (fun x hx => hsub x (by simp [hx])) hnodup.2 ((readText_createOne hone).trans hread) hrest
      have hadds : OnlyAdds w₁ w' := by
        have hall := Within.foldlM OnlyAdds.refl OnlyAdds.trans
          (fun t fn => @adds_createOne h fn installed t) (es.map (·.name)) t₁ w₁
        rw [final_of_ok hrest] at hall
        exact hall
      have hcongr : ∀ n ∈ es.map (·.name), (Creates f w₁.fs n ↔ Creates f w.fs n) := by
        intro n hn
        have hne : n ≠ a.name := fun he => hnodup.1 (he ▸ hn)
        exact creates_congr ((createOne_same hne hone).fileExists _)
      have hyes : (es.map (·.name)).filter (fun n => decide (Creates f w₁.fs n)) =
          (es.map (·.name)).filter fun n => decide (Creates f w.fs n) :=
        List.filter_congr fun n hn => decide_eq_decide.mpr (hcongr n hn)
      have hno : (es.map (·.name)).filter (fun n => !decide (Creates f w₁.fs n)) =
          (es.map (·.name)).filter fun n => !decide (Creates f w.fs n) :=
        List.filter_congr fun n hn => congrArg _ (decide_eq_decide.mpr (hcongr n hn))
      rw [hyes, hno] at ht
      obtain ⟨_, htally⟩ := createOne_creates hread ha hpa hone
      have hfirst : Creates f w.fs a.name → Made h a.name w₁.fs := by
        intro hcr
        obtain ⟨r, w₂, hcall, hend⟩ := bind_eq_ok.mp hone
        obtain ⟨_, ⟨_, rfl⟩ | ⟨hnot, _⟩⟩ := funCreate_creates_in hread ha hpa hcall
        · have hw : w₂ = w₁ := by split at hend <;> cases hend <;> rfl
          exact hw ▸ made_funCreate hcall
        · exact absurd hcr hnot
      refine ⟨?_, fun n hn hcr => ?_⟩
      · rw [ht]
        cases htally with
        | inl hcr =>
            rw [hcr.2, Tally.add_add]
            simp [hcr.1]
        | inr hcr =>
            rw [hcr.2, Tally.add_add]
            simp [hcr.1]
      · rcases List.mem_cons.mp hn with rfl | hn
        · exact (hfirst hcr).of_adds hadds
        · exact hmade n hn ((hcongr n hn).mpr hcr)

end Loop

/-! ## One more call -/

section Prepared

variable {h : Host} {o : PkgOutcome} {f : ExportsFile} {fs : FileSystem Content} {n : Text} {p : Pathname}

theorem AllMade.testfiles (hm : AllMade h f fs) : ∀ q ∈ testPath.inits.tail, fs.fileExists q = true := by
  intro q hq
  obtain ⟨n, hn⟩ := hm.created
  have hinits : testPath.inits.tail ⊆ (outputDir n .infun).inits.tail := by
    simp [testPath, outputDir, funPath]
  exact (hm.made n hn).dirs q (List.mem_cons_of_mem _ (hinits hq))

theorem kind?_preparedFiles_tests (hp : testPath <+: p) :
    (preparedFiles o f fs).kind? p = (prepareTestfiles fs).kind? p := by
  rw [kind?, node?_preparedFiles_tests hp, kind?]

theorem not_gone_src : ¬ Gone fs ["src", n] := by
  rintro ⟨fn, m, _, _, _, _, hp⟩
  simp [funPath, testPath, Text.ofString_eq] at hp

theorem not_gone_short (hp : p.length < 4) : ¬ Gone fs p := by
  rintro ⟨fn, m, _, _, _, _, hpre⟩
  have hlen := hpre.length_le
  simp [funPath, testPath] at hlen
  omega

theorem sharedObjects_preparedFiles (hm : AllMade h f fs) : sharedObjects h (preparedFiles o f fs) ≠ [] := by
  obtain ⟨n, hn⟩ := hm.created
  obtain ⟨m, hm'⟩ := List.exists_mem_of_ne_nil _ (hm.made n hn).built
  obtain ⟨hg, hex, hdot, hso⟩ := mem_sharedObjects.mp hm'
  refine List.ne_nil_of_mem (mem_sharedObjects.mpr ⟨hg, ?_, hdot, hso⟩)
  have hsrc : ¬ InterfaceTouches [("src" : Text), m] := by
    simp [InterfaceTouches, includePath, Text.ofString_eq]
  rw [preparedFiles, fileExists_write, (frame_writeInterfaces o _).fileExists hsrc, fileExists_eq_kind,
    kind?_prepareTestfiles_kept not_gone_src hm.testfiles, ← fileExists_eq_kind, hex, Bool.or_true]

theorem settlesAt_writeInterfaces : SettlesAt p o.writeInterfaces := by
  have hwrappers : SettlesAt p fun fs : FileSystem Content =>
      o.wrappers.elim fs fun t => (fs.mkdir ["R"]).write wrappersPath (.text t) := by
    cases o.wrappers with
    | none => exact settlesAt_id
    | some t => exact (settlesAt_mkdir _).comp (settlesAt_write _ _)
  unfold PkgOutcome.writeInterfaces
  split
  · exact hwrappers
  · exact hwrappers.comp ((settlesAt_mkdirs _).comp (SettlesAt.foldl (fun e => settlesAt_write _ _) _))

theorem settlesAt_withMakefiles {fns : List Text} : SettlesAt p (withMakefiles h fns) :=
  SettlesAt.foldl (fun _ => (settlesAt_mkdirs _).comp ((settlesAt_mkdir _).comp (settlesAt_write _ _))) fns

theorem mem_createdNames : n ∈ createdNames f fs ↔ Creates f fs n := by
  unfold createdNames
  rw [List.mem_filter, decide_eq_true_eq]
  constructor
  · exact fun hn => hn.2
  · intro hn
    obtain ⟨e, he, rfl, hp, _⟩ := id hn
    exact ⟨List.mem_map.mpr ⟨e, List.mem_filter.mpr ⟨he, by simpa using hp⟩, rfl⟩, hn⟩

theorem createdNames_congr {fs' : FileSystem Content} (h : ∀ n, Creates f fs' n ↔ Creates f fs n) :
    createdNames f fs' = createdNames f fs :=
  List.filter_congr fun n _ => decide_eq_decide.mpr (h n)

end Prepared

section Call

variable {h : Host} {o : PkgOutcome} {f : ExportsFile} {w w' : World} {harness : List Text}

/-- With a harness created the report returns the created names. -/
theorem reportTally_created {created failed fns : List Text} (hne : created ≠ [])
    (hlen : created.length + failed.length = fns.length) :
    ∃ log, reportTally fns.length (Tally.empty.add created failed) w =
      .ok (created.map (harnessFile · .infun)) { w with log := log } := by
  have hpos := List.length_pos_iff.mpr hne
  rw [← hlen]
  simp only [Tally.add, Tally.empty, Nat.zero_add, List.nil_append, reportTally]
  by_cases hf : failed = []
  · rw [if_pos ⟨hpos, by simp [hf]⟩]
    exact ⟨_, rfl⟩
  · have hfpos := List.length_pos_iff.mpr hf
    rw [if_neg (by omega), if_pos ⟨by omega, hf, by omega⟩]
    exact ⟨_, rfl⟩

/-- In a settled package the call returns, and what it leaves depends on the tree alone. -/
theorem pkgCreate_settled (hw : AllMade h f w.fs) (ho : o.exports = some f.text) :
    ∃ log, deepstatePkgCreate h o w =
      .ok ((createdNames f w.fs).map (harnessFile · .infun)) ⟨recreated h o f w.fs, log⟩ := by
  obtain ⟨n, hn⟩ := hw.created
  have hne : f.exports ≠ [] := by
    obtain ⟨e, he, _⟩ := hn
    exact List.ne_nil_of_mem he
  obtain ⟨es, _, happly⟩ := pkgCreate_apply (h := h) (w := w) ho hne
  rw [tableNames_exports f.names_nodup] at happly
  have hnames : ((f.exports.filter (·.params ≠ [])).map (·.name)).filter
      (fun n => decide (Creates f (preparedFiles o f w.fs) n)) = createdNames f w.fs :=
    createdNames_congr fun n => creates_preparedFiles
  obtain ⟨log, hloop⟩ := @createLoop_settled h f o.installed Tally.empty ⟨preparedFiles o f w.fs, w.log ++ es⟩
    (f.exports.filter (·.params ≠ [])) (fun a ha => by simpa using List.mem_filter.mp ha)
    (readText_preparedFiles o f w.fs) (sharedObjects_preparedFiles hw) (fun n hn => by
      rw [fileExists, node?_preparedFiles_harness]
      exact (hw.made n (creates_preparedFiles.mp hn)).harness)
  obtain ⟨log', hreport⟩ := @reportTally_created ⟨recreated h o f w.fs, log⟩ (createdNames f w.fs)
    (((f.exports.filter (·.params ≠ [])).map (·.name)).filter fun n => !decide (Creates f (preparedFiles o f w.fs) n))
    ((f.exports.filter (·.params ≠ [])).map (·.name)) (List.ne_nil_of_mem (mem_createdNames.mpr hn)) (by
      rw [← hnames]
      exact List.length_eq_length_filter_add _ |>.symm)
  refine ⟨log', ?_⟩
  rw [hnames] at hloop
  rw [happly, Command.bind_of_ok hloop]
  exact hreport

/-- A call that returns settles the package. -/
theorem settled_of_pkgCreate (ho : o.exports = some f.text) (hok : deepstatePkgCreate h o w = .ok harness w') :
    AllMade h f w'.fs ∧ harness = (createdNames f w'.fs).map (harnessFile · .infun) := by
  obtain ⟨hin, ⟨n, hn⟩, _⟩ := pkgCreate_creates ho hok
  have hsame : ∀ n, Creates f w'.fs n ↔ Creates f (preparedFiles o f w.fs) n := by
    intro n
    by_cases hcr : Creates f (preparedFiles o f w.fs) n
    · obtain ⟨e, he, hname, hp, _⟩ := id hcr
      exact ⟨fun _ => hcr, fun _ => ⟨e, he, hname, hp, .inl ((hin n).created hcr).1⟩⟩
    · exact creates_congr (((hin n).kept hcr).fileExists _)
  obtain ⟨log, t, w₁, hloop, hreport⟩ := pkgCreate_loop ho hok
  obtain ⟨ht, hmade⟩ := createLoop_made (fun a ha => by simpa using List.mem_filter.mp ha)
    ((List.filter_sublist.map _).nodup f.names_nodup) (readText_preparedFiles o f w.fs) hloop
  obtain ⟨created, failed, ht', _, hperm⟩ := createLoop_ok hloop
  have hfs := reportTally_files hreport
  refine ⟨⟨fun n hn => ?_, n, (hsame n).mpr hn⟩, ?_⟩
  · rw [hfs]
    have hcr := (hsame n).mp hn
    obtain ⟨e, he, rfl, hp, _⟩ := id hcr
    exact hmade e.name (List.mem_map.mpr ⟨e, List.mem_filter.mpr ⟨he, by simpa using hp⟩, rfl⟩) hcr
  · rw [ht'] at hreport
    rw [(reportTally_ok hperm hreport).1]
    have hharness := congrArg Tally.harness (ht'.symm.trans ht)
    simp only [Tally.add, Tally.empty, List.nil_append] at hharness
    rw [hharness, createdNames_congr hsame]
    rfl

/-- A call that returns has found a shared object, so the path of the package fits itself. -/
theorem globs_pkgCreate (ho : o.exports = some f.text) (hok : deepstatePkgCreate h o w = .ok harness w') :
    h.globs testPath = true := by
  have hm := (settled_of_pkgCreate ho hok).1
  obtain ⟨n, hn⟩ := hm.created
  obtain ⟨m, hso⟩ := List.exists_mem_of_ne_nil _ (hm.made n hn).built
  refine Host.globs_of_subset (mem_sharedObjects.mp hso).1 fun c hc => Or.inr ?_
  have hplain : ∀ c ∈ testPath, ∀ x ∈ c, x ∉ Glob.special := by with_unfolding_all decide
  exact Glob.fitsItself_of_plain (hplain c hc)

end Call

/-! ## The second call and the ones after it -/

section Again

variable {h : Host} {o : PkgOutcome} {f : ExportsFile} {fs : FileSystem Content} {n : Text} {p : Pathname}

theorem kind?_recreated_makefile (hn : Creates f fs n) : (recreated h o f fs).kind? (makefilePath n .infun) =
    some (some (.text (Text.unlines [makefileText h (h.file (executablePath n .infun))]))) :=
  kind?_withMakefiles_makefile (mem_createdNames.mpr hn)

theorem kind?_recreated_dir (hn : Creates f fs n) (hp : p ∈ dirsOf n) :
    (recreated h o f fs).kind? p = ((preparedFiles o f fs).kind? p).or (some none) :=
  kind?_withMakefiles_dir ⟨n, mem_createdNames.mpr hn, hp⟩

theorem fileExists_recreated_harness :
    (recreated h o f fs).fileExists (harnessPath n .infun) = fs.fileExists (harnessPath n .infun) := by
  rw [recreated, fileExists_withMakefiles_harness, fileExists, node?_preparedFiles_harness, fileExists]

theorem creates_recreated : Creates f (recreated h o f fs) n ↔ Creates f fs n :=
  creates_congr fileExists_recreated_harness

/-- With the functions to create fixed, a further call cleans the directories and writes. -/
theorem exists_settles (h : Host) (o : PkgOutcome) (f : ExportsFile) (fns : List Text) (p : Pathname) :
    ∃ g, Settles g ∧ ∀ fs, createdNames f fs = fns →
      (recreated h o f fs).kind? p = g ((prepareTestfiles fs).kind? p) := by
  obtain ⟨g, hg, hall⟩ := (@settlesAt_writeInterfaces o p).comp
    ((settlesAt_write rcppExportsPath (Content.text f.text)).comp (@settlesAt_withMakefiles h p fns))
  exact ⟨g, hg, fun fs hfns => by rw [recreated, hfns]; exact hall _⟩

/-- In the directories of the functions nothing is new. -/
theorem fileExists_of_recreated (hs : AllMade h f fs) (hp : testPath <+: p)
    (hex : (recreated h o f fs).fileExists p = true) : fs.fileExists p = true := by
  by_cases hmakefile : ∃ n, Creates f fs n ∧ p = makefilePath n .infun
  · obtain ⟨n, hn, rfl⟩ := hmakefile
    exact (hs.made n hn).makefile
  · by_cases hdir : ∃ n, Creates f fs n ∧ p ∈ dirsOf n
    · obtain ⟨n, hn, hmem⟩ := hdir
      exact (hs.made n hn).dirs p hmem
    · have hother : (recreated h o f fs).kind? p = (preparedFiles o f fs).kind? p :=
        kind?_withMakefiles_other (fun n hn hpn => hmakefile ⟨n, mem_createdNames.mp hn, hpn⟩)
          fun n hn hmem => hdir ⟨n, mem_createdNames.mp hn, hmem⟩
      rw [fileExists_eq_kind, hother, kind?_preparedFiles_tests hp] at hex
      by_cases hgone : Gone fs p
      · rw [kind?_prepareTestfiles_gone hgone] at hex
        cases hex
      · rw [kind?_prepareTestfiles_kept hgone hs.testfiles] at hex
        rw [fileExists_eq_kind]
        exact hex

theorem dirExists_recreated (hs : AllMade h f fs) :
    (recreated h o f fs).dirExists testPath = fs.dirExists testPath := by
  obtain ⟨n, hn⟩ := hs.created
  have hdir : testPath ∈ dirsOf n := by simp [dirsOf, outputDir, funPath, testPath]
  have hex := (hs.made n hn).dirs testPath hdir
  rw [fileExists_eq_kind] at hex
  obtain ⟨k, hk⟩ := Option.isSome_iff_exists.mp hex
  rw [dirExists_eq_kind, dirExists_eq_kind, kind?_recreated_dir hn hdir, kind?_preparedFiles_tests List.prefix_rfl,
    kind?_prepareTestfiles_kept (not_gone_short (by simp [testPath])) hs.testfiles, hk]
  rfl

/-- A further call deletes nothing that the one before it has not deleted. -/
theorem gone_of_recreated (hs : AllMade h f fs) (hgone : Gone (recreated h o f fs) p) : Gone fs p := by
  obtain ⟨fn, m, ⟨hdir, hlisted, hharness⟩, hne, hdot, hex, hpre⟩ := hgone
  have hlisted' := mem_listFiles.mp hlisted
  refine ⟨fn, m, ⟨?_, mem_listFiles.mpr ⟨?_, hlisted'.2⟩, ?_⟩, hne, hdot, ?_, hpre⟩
  · rw [← dirExists_recreated (h := h) (o := o) hs]
    exact hdir
  · exact fileExists_of_recreated hs (List.prefix_append _ _) hlisted'.1
  · rw [← fileExists_recreated_harness (h := h) (o := o) (f := f)]
    exact hharness
  · exact fileExists_of_recreated hs (by simp [funPath]) hex

theorem settled_recreated (hs : AllMade h f fs) : AllMade h f (recreated h o f fs) := by
  refine ⟨fun n hn => ?_, ?_⟩
  · have hcr := creates_recreated.mp hn
    refine ⟨?_, ?_, fun p hp => ?_, ?_⟩
    · rw [fileExists_recreated_harness]
      exact (hs.made n hcr).harness
    · rw [fileExists_eq_kind, kind?_recreated_makefile hcr]
      rfl
    · rw [fileExists_eq_kind, kind?_recreated_dir hcr hp]
      cases (preparedFiles o f fs).kind? p <;> rfl
    · rw [recreated, sharedObjects_withMakefiles]
      exact sharedObjects_preparedFiles hs
  · obtain ⟨n, hn⟩ := hs.created
    exact ⟨n, creates_recreated.mpr hn⟩

/-- The second of two further calls leaves what the first one left. -/
theorem kind?_recreated_recreated (hs : AllMade h f fs) (p : Pathname) :
    (recreated h o f (recreated h o f fs)).kind? p = (recreated h o f fs).kind? p := by
  obtain ⟨g, hg, hrecreated⟩ := exists_settles h o f (createdNames f fs) p
  have hfirst := hrecreated fs rfl
  rw [hrecreated _ (createdNames_congr fun n => creates_recreated)]
  by_cases hgone : Gone (recreated h o f fs) p
  · -- What the second call deletes, the first one had deleted as well.
    rw [hfirst, kind?_prepareTestfiles_gone hgone, kind?_prepareTestfiles_gone (gone_of_recreated hs hgone)]
  · rw [kind?_prepareTestfiles_kept hgone (settled_recreated hs).testfiles, hfirst, hg.again]

end Again

/-! ## Any number of calls -/

section Run

variable {h : Host} {f : ExportsFile} {w w₁ : World} {harness : List Text}

/-- The world after further calls, each with what the machine does during it. -/
def createAgain (h : Host) (os : List PkgOutcome) (w : World) : World :=
  Run.run (fun o => final (deepstatePkgCreate h o)) os w

/-- The calls have the same interfaces to write. -/
def SameInterfaces (o o' : PkgOutcome) : Prop := o.wrappers = o'.wrappers ∧ o.headers = o'.headers

theorem recreated_congr {o o' : PkgOutcome} {fs : FileSystem Content} (hsame : SameInterfaces o o') :
    recreated h o f fs = recreated h o' f fs := by
  unfold recreated preparedFiles PkgOutcome.writeInterfaces
  rw [hsame.1, hsame.2]

theorem createAgain_fs (hw : AllMade h f w.fs) {o : PkgOutcome} (ho : o.exports = some f.text) (os : List PkgOutcome) :
    ∃ log, createAgain h (o :: os) w = createAgain h os ⟨recreated h o f w.fs, log⟩ := by
  obtain ⟨log, hcall⟩ := @pkgCreate_settled h o f w hw ho
  exact ⟨log, congrArg (createAgain h os) (final_of_ok hcall)⟩

theorem createAgain_settled {os : List PkgOutcome} (hos : ∀ o ∈ os, o.exports = some f.text) (hw : AllMade h f w.fs) :
    AllMade h f (createAgain h os w).fs ∧ createdNames f (createAgain h os w).fs = createdNames f w.fs := by
  induction os generalizing w with
  | nil => exact ⟨hw, rfl⟩
  | cons o os ih =>
      obtain ⟨log, hrest⟩ := @createAgain_fs h f w hw o (hos o (by simp)) os
      obtain ⟨hsettled, hnames⟩ :=
        @ih ⟨recreated h o f w.fs, log⟩ (fun x hx => hos x (by simp [hx])) (settled_recreated hw)
      rw [hrest]
      exact ⟨hsettled, hnames.trans (createdNames_congr fun n => creates_recreated)⟩

theorem createAgain_kinds {o' : PkgOutcome} {os : List PkgOutcome} (hos : ∀ o ∈ os, o.exports = some f.text)
    (hsame : ∀ o ∈ os, SameInterfaces o o') (hw : AllMade h f w.fs) (p : Pathname) :
    (recreated h o' f (createAgain h os w).fs).kind? p = (recreated h o' f w.fs).kind? p := by
  induction os generalizing w with
  | nil => rfl
  | cons o os ih =>
      obtain ⟨log, hrest⟩ := @createAgain_fs h f w hw o (hos o (by simp)) os
      have hkinds := @ih ⟨recreated h o f w.fs, log⟩ (fun x hx => hos x (by simp [hx])) (fun x hx => hsame x (by simp [hx]))
        (settled_recreated hw)
      rw [hrest, hkinds, recreated_congr (hsame o (by simp)), kind?_recreated_recreated hw]

/-- After a call that returns, every further call returns the same names. When the further calls have the same
interfaces to write, each leaves the tree that the first of them leaves. -/
theorem pkgCreate_converges {o : PkgOutcome} (ho : o.exports = some f.text)
    (hok : deepstatePkgCreate h o w = .ok harness w₁) {os : List PkgOutcome}
    (hos : ∀ o ∈ os, o.exports = some f.text) {o' : PkgOutcome} (ho' : o'.exports = some f.text) :
    value? (deepstatePkgCreate h o') (createAgain h os w₁) = some harness ∧
      ((∀ o ∈ os, SameInterfaces o o') →
        ∀ p, (createAgain h (os ++ [o']) w₁).fs.kind? p = (createAgain h [o'] w₁).fs.kind? p) := by
  obtain ⟨hw, rfl⟩ := settled_of_pkgCreate ho hok
  obtain ⟨hsettled, hnames⟩ := @createAgain_settled h f w₁ os hos hw
  obtain ⟨log, hlast⟩ := @pkgCreate_settled h o' f _ hsettled ho'
  obtain ⟨log', hfirst⟩ := @pkgCreate_settled h o' f w₁ hw ho'
  constructor
  · rw [value?, hlast, hnames]
  · intro hsame p
    have happend : createAgain h (os ++ [o']) w₁ = final (deepstatePkgCreate h o') (createAgain h os w₁) := by
      unfold createAgain Run.run
      rw [List.foldl_append]
      rfl
    have hone : createAgain h [o'] w₁ = final (deepstatePkgCreate h o') w₁ := rfl
    rw [happend, hone, final_of_ok hlast, final_of_ok hfirst]
    exact createAgain_kinds hos hsame hw p

end Run

theorem pkgCreate_converges_sample : ∃ harness w₁,
    deepstatePkgCreate sampleHost (sampleOutcome sampleExports) ⟨samplePackage.fs.write (harnessPath "f" .checks)
      (.text "edited"), []⟩ = .ok harness w₁ ∧
      ∀ p, (createAgain sampleHost [sampleOutcome sampleExports, sampleOutcome sampleExports] w₁).fs.kind? p =
        (createAgain sampleHost [sampleOutcome sampleExports] w₁).fs.kind? p := by
  obtain ⟨harness, w₁, _, hok, _⟩ := pkgCreate_sample
    ⟨samplePackage.fs.write (harnessPath "f" .checks) (.text "edited"), []⟩
  exact ⟨harness, w₁, hok, (@pkgCreate_converges _ _ _ _ _ _ rfl hok [sampleOutcome sampleExports]
    (fun _ ho => by cases List.mem_singleton.mp ho; rfl) (sampleOutcome sampleExports) rfl).2
    fun _ ho => by cases List.mem_singleton.mp ho; exact ⟨rfl, rfl⟩⟩

end RcppDeepState
