import RcppDeepState.Package.Accounting
import RcppDeepState.Package.Lemmas.Clean
import RcppDeepState.Package.Lemmas.Makefiles

/-!
# What deepstate_pkg_create leaves

The directory of a function is cleaned when it holds a default harness, and then gets the harness and the
makefile when the function is among the exports and can be tested. Nothing else happens to it.
-/

namespace RcppDeepState

open Command FileSystem

/-! ## What stays through a creation -/

/-- What exists at a path stays as it is. -/
def Stays (p : Pathname) (w w' : World) : Prop :=
  w.fs.fileExists p = true → w'.fs.node? p = w.fs.node? p

theorem Stays.refl (p : Pathname) (w : World) : Stays p w w := fun _ => rfl

theorem Stays.trans (p : Pathname) (w w' w'' : World) (h : Stays p w w') (h' : Stays p w' w'') :
    Stays p w w'' := by
  intro hex
  have hex' : w'.fs.fileExists p = true := by
    rw [fileExists, h hex]
    exact hex
  rw [h' hex', h hex]

section Stays

variable {p q : Pathname} {fs : FileSystem Content}

theorem node?_write_ne (c : Content) (hne : p ≠ q) : (fs.write q c).node? p = fs.node? p := by
  rw [node?_write, if_neg hne]

theorem node?_mkdir_of_exists (hex : fs.fileExists p = true) : (fs.mkdir q).node? p = fs.node? p := by
  rw [node?_mkdir, if_neg]
  rintro ⟨rfl, hn⟩
  rw [fileExists, hn] at hex
  cases hex

theorem node?_mkdirs_of_exists (hex : fs.fileExists p = true) : (fs.mkdirs q).node? p = fs.node? p := by
  unfold mkdirs
  induction q.inits.tail generalizing fs with
  | nil => rfl
  | cons r rs ih =>
      have hnode := @node?_mkdir_of_exists p r fs hex
      have hex' : (fs.mkdir r).fileExists p = true := by
        rw [fileExists, hnode]
        exact hex
      rw [List.foldl_cons, ih hex', hnode]

variable {h : Host} {installed : Installation} {fn : Text}

theorem stays_bind {α β : Type} {m : Program α} {f : α → Program β} (hm : Within (Stays p) m)
    (hf : ∀ a, Within (Stays p) (f a)) : Within (Stays p) (m >>= f) :=
  Within.bind (Stays.trans p) hm hf

theorem stays_onFiles {f : FileSystem Content → FileSystem Content}
    (hf : ∀ fs, fs.fileExists p = true → (f fs).node? p = fs.node? p) : Within (Stays p) (onFiles f) :=
  fun w hex => hf w.fs hex

/-- Writing the makefile of a function keeps what exists but for the files it writes. -/
theorem stays_createMakefile (hvars : p ≠ makevarsPath) (hinst : ¬ InstallTouches h p)
    (hmake : p ≠ makefilePath fn .infun) : Within (Stays p) (deepstateCreateMakefile h installed fn) := by
  have hinstall : Within (Stays p) (installPackage h installed) := by
    exact stays_bind (fun _ _ => rfl) fun _ => stays_onFiles fun fs _ => frame_leave installed fs p hinst
  have hend : Within (Stays p) (do
      installPackage h installed
      if sharedObjects h (← files) = [] then stop sharedObjectError) :=
    stays_bind hinstall fun _ => stays_bind (fun _ _ => rfl) fun _ =>
      Within.ite (Within.throw (Stays.refl p) _) (Within.pure (Stays.refl p) _)
  refine stays_bind ?_ fun _ => ?_
  · refine stays_bind (fun _ _ => rfl) fun _ => Within.ite ?_ (Within.pure (Stays.refl p) _)
    refine stays_bind (fun _ _ => rfl) fun _ => Within.ite ?_ hend
    exact stays_bind (stays_onFiles fun _ _ => node?_write_ne _ hvars) fun _ => hend
  · refine stays_bind (stays_onFiles fun _ hex => node?_mkdirs_of_exists hex) fun _ => ?_
    refine stays_bind (stays_onFiles fun _ hex => node?_mkdir_of_exists hex) fun _ => ?_
    exact stays_onFiles fun _ _ => node?_write_ne _ hmake

/-- Creating a default harness keeps what exists but for the files it writes. -/
theorem funCreate_stays {r : Option Text} {w w' : World} (hvars : p ≠ makevarsPath)
    (hinst : ¬ InstallTouches h p) (hmake : p ≠ makefilePath fn .infun)
    (hharness : w.fs.fileExists (harnessPath fn .infun) = false → p ≠ harnessPath fn .infun)
    (hok : deepstateFunCreate h installed fn .infun w = .ok r w') : Stays p w w' := by
  intro hex
  have hwithin : Within (Stays p) (deepstateCreateMakefile h installed fn) := stays_createMakefile hvars hinst hmake
  obtain ⟨_, _, _, ⟨_, _, log, w₁, hcreate, hfs⟩ | ⟨_, _, _, hfs⟩ | ⟨hnew, _, _, log, w₁, text, hstep, hfs⟩⟩ :=
    funCreate_cases hok
  · have hstays := hwithin ⟨w.fs, log⟩
    rw [final_of_ok hcreate] at hstays
    rw [hfs]
    exact hstays hex
  · rw [hfs]
  · have hne := hharness hnew
    have hempty : (withEmptyHarness w.fs fn .infun).node? p = w.fs.node? p := by
      rw [withEmptyHarness, node?_write_ne _ hne, node?_mkdirs_of_exists hex]
    have hex' : (withEmptyHarness w.fs fn .infun).fileExists p = true := by
      rw [fileExists, hempty]
      exact hex
    have hstays := hwithin ⟨withEmptyHarness w.fs fn .infun, log⟩
    rw [makefileStep, if_neg (by decide)] at hstep
    rw [final_of_ok hstep] at hstays
    have hnode : w₁.fs.node? p = w.fs.node? p := (hstays hex').trans hempty
    have hex₁ : w₁.fs.fileExists p = true := by
      rw [fileExists, hnode]
      exact hex
    rw [hfs, appendText, node?_write_ne _ hne, node?_mkdir_of_exists hex₁, hnode]

end Stays

/-! ## The directory of a function -/

/-- The directory of a function, and what lies below it, is the same in both trees. -/
def SameDirectory (n : Text) (fs fs' : FileSystem Content) : Prop :=
  ∀ p, funPath n <+: p → fs'.node? p = fs.node? p

/-- The package call makes a default harness for a function, or finds one: the function is exported with a
parameter, and the harness is there or its types are supported. -/
def Creates (f : ExportsFile) (fs : FileSystem Content) (n : Text) : Prop :=
  ∃ e ∈ f.exports, e.name = n ∧ e.params ≠ [] ∧
    (fs.fileExists (harnessPath n .infun) = true ∨ unsupportedTypes e.args = [])

/-- What becomes of the directory of a function: its harness and makefile are there when the call creates
them, a harness that was there and the files of a build stay, and without a harness nothing happens. -/
structure CreatedIn (f : ExportsFile) (fs fs' : FileSystem Content) (n : Text) : Prop where
  directory : Creates f fs n → fs'.fileExists (funPath n) = true
  created : Creates f fs n → fs'.fileExists (harnessPath n .infun) = true ∧
    fs'.fileExists (makefilePath n .infun) = true
  text : Creates f fs n → fs.fileExists (harnessPath n .infun) = false →
    (readText fs' (harnessPath n .infun)).isSome = true
  harness : fs.fileExists (harnessPath n .infun) = true →
    fs'.node? (harnessPath n .infun) = fs.node? (harnessPath n .infun)
  object : fs'.node? (objectPath n .infun) = fs.node? (objectPath n .infun)
  executable : fs'.node? (executablePath n .infun) = fs.node? (executablePath n .infun)
  kept : ¬ Creates f fs n → SameDirectory n fs fs'

section Directory

variable {f : ExportsFile} {fs fs₁ fs' : FileSystem Content} {n m : Text} {sep : Sep} {h : Host}

theorem SameDirectory.node? (hsame : SameDirectory n fs fs') (m : Text) :
    fs'.node? (funPath n ++ [m]) = fs.node? (funPath n ++ [m]) := hsame _ (List.prefix_append _ _)

theorem SameDirectory.fileExists (hsame : SameDirectory n fs fs') (m : Text) :
    fs'.fileExists (funPath n ++ [m]) = fs.fileExists (funPath n ++ [m]) := by
  rw [FileSystem.fileExists, hsame.node?, FileSystem.fileExists]

theorem creates_iff {e : Export} (he : e ∈ f.exports) (hp : e.params ≠ []) :
    Creates f fs e.name ↔ fs.fileExists (harnessPath e.name .infun) = true ∨ unsupportedTypes e.args = [] := by
  constructor
  · rintro ⟨a, ha, hname, _, hcase⟩
    rwa [List.inj_on_of_nodup_map f.names_nodup ha he hname] at hcase
  · exact fun hcase => ⟨e, he, rfl, hp, hcase⟩

theorem creates_congr (hex : fs₁.fileExists (harnessPath n .infun) = fs.fileExists (harnessPath n .infun)) :
    Creates f fs₁ n ↔ Creates f fs n := by
  unfold Creates
  rw [hex]

theorem Creates.identifier (hc : Creates f fs n) : Identifier n := by
  obtain ⟨e, _, rfl, _⟩ := hc
  exact e.name_ok

theorem eq_of_funPath_extends {rest : Pathname} (hp : funPath n <+: funPath m ++ rest) : n = m := by
  simpa [funPath, testPath] using hp

/-- Creating the harness of another function touches nothing in the directory. -/
theorem not_createTouches_of_ne {p : Pathname} (hne : n ≠ m) (hp : funPath n <+: p) :
    ¬ CreateTouches h m sep p := by
  rintro (((rfl | hinst | hp' | rfl | rfl) | rfl | hp' | rfl) | rfl)
  · simp [makevarsPath, funPath, testPath, Text.ofString_eq] at hp
  · obtain ⟨rest, rfl⟩ := hp
    exact not_installTouches (by simp [funPath, testPath, Text.ofString_eq]) hinst
  · exact hne (eq_of_funPath_extends (hp.trans hp'))
  · exact hne (eq_of_funPath_extends hp)
  · exact hne (eq_of_funPath_extends hp)
  · exact hne (eq_of_funPath_extends hp)
  · obtain ⟨rest, rfl⟩ := hp'
    rw [makefilePath, List.append_assoc] at hp
    exact hne (eq_of_funPath_extends hp)
  · exact hne (eq_of_funPath_extends hp)
  · exact hne (eq_of_funPath_extends hp)

/-- What happens before and after in other directories is of no account. -/
theorem CreatedIn.of_same {fs₂ : FileSystem Content} (hsame : SameDirectory n fs fs₁)
    (hc : CreatedIn f fs₁ fs₂ n) (hsame' : SameDirectory n fs₂ fs') : CreatedIn f fs fs' n := by
  have hiff : Creates f fs₁ n ↔ Creates f fs n := creates_congr (hsame.fileExists _)
  have hnode : ∀ m, fs₂.node? (funPath n ++ [m]) = fs₁.node? (funPath n ++ [m]) →
      fs'.node? (funPath n ++ [m]) = fs.node? (funPath n ++ [m]) :=
    fun m hm => (hsame'.node? m).trans (hm.trans (hsame.node? m))
  constructor
  · intro hcr
    rw [FileSystem.fileExists, hsame' _ List.prefix_rfl]
    exact hc.directory (hiff.mpr hcr)
  · intro hcr
    obtain ⟨hharness, hmake⟩ := hc.created (hiff.mpr hcr)
    exact ⟨(hsame'.fileExists _).trans hharness, (hsame'.fileExists _).trans hmake⟩
  · intro hcr hnew
    have hread : readText fs' (harnessPath n .infun) = readText fs₂ (harnessPath n .infun) := by
      simp only [readText, FileSystem.read, harnessPath, hsame'.node?]
    rw [hread]
    exact hc.text (hiff.mpr hcr) ((hsame.fileExists _).trans hnew)
  · exact fun hex => hnode _ (hc.harness ((hsame.fileExists _).trans hex))
  · exact hnode _ hc.object
  · exact hnode _ hc.executable
  · intro hno p hp
    rw [hsame' p hp, hc.kept (mt hiff.mp hno) p hp, hsame p hp]

end Directory

/-! ## The loop over the functions -/

section Loop

variable {f : ExportsFile} {h : Host} {installed : Text → Installation} {e : Export} {t t' : Tally} {w w' : World}

theorem directory_createMakefile {b : Installation} {fn : Text} (hok : deepstateCreateMakefile h b fn w = .ok () w') :
    w'.fs.fileExists (funPath fn) = true := by
  obtain ⟨_, w₁, _, hwrite⟩ := bind_eq_ok.mp hok
  cases hwrite
  have hmem : funPath fn ∈ (outputDir fn .infun).inits.tail := by simp [outputDir, funPath, testPath]
  simp [fileExists_write, fileExists_mkdir, fileExists_mkdirs, hmem]

theorem node?_object_funCreate {b : Installation} {fn : Text} {r : Option Text} {ext : Text} (hext : ext = ".o" ∨ ext = "")
    (hok : deepstateFunCreate h b fn .infun w = .ok r w') :
    w'.fs.node? (buildPath fn .infun ext) = w.fs.node? (buildPath fn .infun ext) := by
  have heff := @effects_funCreate h b fn .infun w
  rw [final_of_ok hok] at heff
  refine heff.frame _ fun ht => ?_
  have hcpp := (buildPath_inj (by rcases hext with rfl | rfl <;> simp [buildExtensions])
    (by simp [buildExtensions]) (eq_of_createTouches ht)).2.2
  rcases hext with rfl | rfl <;> exact absurd hcpp (by with_unfolding_all decide)

/-- What a call for an exported function does in its directory, and which name it returns. -/
theorem funCreate_creates_in {b : Installation} {r : Option Text} (hread : readText w.fs rcppExportsPath = some f.text)
    (he : e ∈ f.exports) (hp : e.params ≠ []) (hok : deepstateFunCreate h b e.name .infun w = .ok r w') :
    CreatedIn f w.fs w'.fs e.name ∧ (Creates f w.fs e.name ∧ r = some (harnessFile e.name .infun) ∨
      ¬ Creates f w.fs e.name ∧ r = none) := by
  have hobject : w'.fs.node? (objectPath e.name .infun) = w.fs.node? (objectPath e.name .infun) :=
    node?_object_funCreate (Or.inl rfl) hok
  have hexe : w'.fs.node? (executablePath e.name .infun) = w.fs.node? (executablePath e.name .infun) := by
    rw [executablePath_eq]
    exact node?_object_funCreate (Or.inr rfl) hok
  have hargs : argumentsOf (f.exports.flatMap Export.argRows) e.name = e.args := argumentsOf_exports f.names_nodup he
  obtain ⟨d, rows, ht, hcases⟩ := funCreate_cases hok
  rw [exportsTable_of_file hread (List.ne_nil_of_mem he)] at ht
  cases ht
  rw [hargs] at hcases
  obtain ⟨hex, hr, log, w₁, hmake, hfs⟩ | ⟨hnew, htypes, hr, hfs⟩ | ⟨hnew, htypes, hr, log, w₁, text, hstep, hfs⟩ :=
    hcases
  · -- The harness is there: only the makefile is written.
    have hcr : Creates f w.fs e.name := (creates_iff he hp).mpr (Or.inl hex)
    have heff := effects_createMakefile h b e.name ⟨w.fs, log⟩
    rw [final_of_ok hmake] at heff
    have hharness : w'.fs.node? (harnessPath e.name .infun) = w.fs.node? (harnessPath e.name .infun) := by
      rw [hfs]
      exact heff.frame _ (@not_makefileTouches _ _ _ _ ".cpp")
    refine ⟨⟨fun _ => ?_, fun _ => ⟨?_, ?_⟩, fun _ hnew => ?_, fun _ => hharness, hobject, hexe,
      fun hno => absurd hcr hno⟩, Or.inl ⟨hcr, hr⟩⟩
    · rw [hfs]
      exact directory_createMakefile hmake
    · rw [FileSystem.fileExists, hharness]
      exact hex
    · rw [hfs]
      exact fileExists_createMakefile hmake
    · rw [hex] at hnew
      cases hnew
  · have hno : ¬ Creates f w.fs e.name := by
      rw [creates_iff he hp, hnew, not_or]
      exact ⟨by simp, htypes⟩
    refine ⟨⟨fun hc => absurd hc hno, fun hc => absurd hc hno, fun hc => absurd hc hno, fun _ => ?_, hobject, hexe,
      fun _ p _ => ?_⟩, Or.inr ⟨hno, hr⟩⟩
    · rw [hfs]
    · rw [hfs]
  · -- The harness is made.
    have hcr : Creates f w.fs e.name := (creates_iff he hp).mpr (Or.inr htypes)
    rw [makefileStep, if_neg (by decide)] at hstep
    refine ⟨⟨fun _ => ?_, fun _ => ⟨?_, ?_⟩, fun _ _ => ?_, fun hex => ?_, hobject, hexe,
      fun hno => absurd hcr hno⟩, Or.inl ⟨hcr, hr⟩⟩
    · simp [hfs, appendText, fileExists_write, fileExists_mkdir, directory_createMakefile hstep]
    · simp [hfs, appendText, fileExists_write]
    · simp [hfs, appendText, fileExists_write, fileExists_mkdir, fileExists_createMakefile hstep]
    · simp [hfs, appendText, readText]
    · rw [hnew] at hex
      cases hex

/-- One round of the loop. -/
theorem createOne_creates (hread : readText w.fs rcppExportsPath = some f.text) (he : e ∈ f.exports)
    (hp : e.params ≠ []) (hok : createOne h installed t e.name w = .ok t' w') :
    CreatedIn f w.fs w'.fs e.name ∧ (Creates f w.fs e.name ∧ t' = t.add [e.name] [] ∨
      ¬ Creates f w.fs e.name ∧ t' = t.add [] [e.name]) := by
  obtain ⟨r, w₁, hcall, hend⟩ := bind_eq_ok.mp hok
  have hbase : basename (harnessFile e.name .infun) = harnessFile e.name .infun :=
    basename_of_not_mem (slash_not_mem_harnessFile e.name_ok)
  obtain ⟨hin, ⟨hcr, rfl⟩ | ⟨hno, rfl⟩⟩ := funCreate_creates_in hread he hp hcall
  · rw [Option.map_some, hbase, if_pos rfl] at hend
    cases hend
    exact ⟨hin, Or.inl ⟨hcr, by simp [Tally.add]⟩⟩
  · rw [Option.map_none, if_neg (by simp)] at hend
    cases hend
    exact ⟨hin, Or.inr ⟨hno, by simp [Tally.add]⟩⟩

theorem SameDirectory.trans {n : Text} {fs fs₁ fs' : FileSystem Content} (hsame : SameDirectory n fs fs₁)
    (hsame' : SameDirectory n fs₁ fs') : SameDirectory n fs fs' :=
  fun p hp => (hsame' p hp).trans (hsame p hp)

/-- Nothing happens in a directory without a harness to create. -/
theorem CreatedIn.of_sameDirectory {n : Text} {fs fs' : FileSystem Content} (hno : ¬ Creates f fs n)
    (hsame : SameDirectory n fs fs') : CreatedIn f fs fs' n where
  directory hc := absurd hc hno
  created hc := absurd hc hno
  text hc := absurd hc hno
  harness _ := hsame.node? _
  object := hsame.node? _
  executable := hsame.node? _
  kept _ := hsame

theorem createOne_same {fn n : Text} (hne : n ≠ fn) (hok : createOne h installed t fn w = .ok t' w') :
    SameDirectory n w.fs w'.fs := by
  have heff := @effects_createOne h installed fn t w
  rw [final_of_ok hok] at heff
  exact fun p hp => heff.frame p (not_createTouches_of_ne hne hp)

theorem readText_createOne {fn : Text} (hok : createOne h installed t fn w = .ok t' w') :
    readText w'.fs rcppExportsPath = readText w.fs rcppExportsPath := by
  have heff := @effects_createOne h installed fn t w
  rw [final_of_ok hok] at heff
  have hframe := heff.frame.read (p := rcppExportsPath)
    (not_createTouches_src (by with_unfolding_all decide) (by with_unfolding_all decide)
      (by with_unfolding_all decide))
  rw [readText, hframe, readText]

/-- The loop treats every function in its own directory, and counts those it creates. -/
theorem createLoop_creates {es : List Export} (hsub : ∀ a ∈ es, a ∈ f.exports ∧ a.params ≠ [])
    (hnodup : (es.map (·.name)).Nodup) (hread : readText w.fs rcppExportsPath = some f.text)
    (hok : (es.map (·.name)).foldlM (createOne h installed) t w = .ok t' w') :
    (∀ a ∈ es, CreatedIn f w.fs w'.fs a.name) ∧
      (∀ n, n ∉ es.map (·.name) → SameDirectory n w.fs w'.fs) ∧
      ∃ created failed, t' = t.add created failed ∧
        ∀ n, n ∈ created ↔ n ∈ es.map (·.name) ∧ Creates f w.fs n := by
  induction es generalizing t w with
  | nil =>
      cases hok
      exact ⟨by simp, fun n _ p _ => rfl, [], [], by simp [Tally.add], by simp⟩
  | cons a es ih =>
      rw [List.map_cons, List.foldlM_cons] at hok
      obtain ⟨t₁, w₁, hone, hrest⟩ := bind_eq_ok.mp hok
      rw [List.map_cons, List.nodup_cons] at hnodup
      obtain ⟨ha, hpa⟩ := hsub a (by simp)
      obtain ⟨hin, htally⟩ := createOne_creates hread ha hpa hone
      obtain ⟨hes, hothers, created, failed, ht', hcreated⟩ := ih (fun x hx => hsub x (by simp [hx])) hnodup.2
        ((readText_createOne hone).trans hread) hrest
      have hsame : ∀ n, n ≠ a.name → SameDirectory n w.fs w₁.fs := fun n hne => createOne_same hne hone
      have hcongr : ∀ n, n ∈ es.map (·.name) → (Creates f w₁.fs n ↔ Creates f w.fs n) := by
        intro n hn
        have hne : n ≠ a.name := fun he => hnodup.1 (he ▸ hn)
        exact creates_congr ((hsame n hne).fileExists _)
      refine ⟨?_, ?_, ?_⟩
      · intro x hx
        rcases List.mem_cons.mp hx with rfl | hx
        · exact hin.of_same (fun _ _ => rfl) (hothers _ hnodup.1)
        · have hne : x.name ≠ a.name := fun he => hnodup.1 (he ▸ List.mem_map.mpr ⟨x, hx, rfl⟩)
          exact (hes x hx).of_same (hsame _ hne) (fun _ _ => rfl)
      · intro n hn
        rw [List.map_cons, List.mem_cons, not_or] at hn
        exact (hsame n hn.1).trans (hothers n hn.2)
      · have hmem : ∀ n, n ∈ created ↔ n ∈ es.map (·.name) ∧ Creates f w.fs n := fun n => by
          rw [hcreated]
          exact and_congr_right fun hn => hcongr n hn
        obtain ⟨hcr, rfl⟩ | ⟨hno, rfl⟩ := htally
        · refine ⟨a.name :: created, failed, by rw [ht', Tally.add_add]; rfl, fun n => ?_⟩
          rw [List.mem_cons, List.map_cons, List.mem_cons, hmem]
          constructor
          · rintro (rfl | ⟨hn, hc⟩)
            · exact ⟨Or.inl rfl, hcr⟩
            · exact ⟨Or.inr hn, hc⟩
          · rintro ⟨rfl | hn, hc⟩
            · exact Or.inl rfl
            · exact Or.inr ⟨hn, hc⟩
        · refine ⟨created, a.name :: failed, by rw [ht', Tally.add_add]; rfl, fun n => ?_⟩
          rw [List.map_cons, List.mem_cons, hmem]
          constructor
          · rintro ⟨hn, hc⟩
            exact ⟨Or.inr hn, hc⟩
          · rintro ⟨rfl | hn, hc⟩
            · exact absurd hc hno
            · exact ⟨hn, hc⟩

end Loop

/-! ## The whole call -/

section Call

variable {h : Host} {o : PkgOutcome} {f : ExportsFile} {w w' : World} {harness : List Text}

/-- A call that returns has created a harness. -/
theorem exists_created_of_reportTally {fns created failed : List Text}
    (hlen : created.length + failed.length = fns.length)
    (hok : reportTally fns.length (Tally.empty.add created failed) w = .ok harness w') : created ≠ [] := by
  rintro rfl
  have hfailed : failed.length = fns.length := by simpa using hlen
  simp [reportTally, Tally.add, Tally.empty, hfailed] at hok

theorem exports_ne_nil (ho : o.exports = some f.text) (hok : deepstatePkgCreate h o w = .ok harness w') :
    f.exports ≠ [] := by
  intro hnil
  have hread : ∀ log, readFunctions ⟨preparedFiles o f w.fs, log⟩ =
      .error "No Rcpp function to test in the package" ⟨preparedFiles o f w.fs, log⟩ := by
    intro log
    unfold readFunctions
    rw [files_bind_apply, readText_preparedFiles, packageDetails_text]
    simp only [functionBody_details f.names_nodup, if_pos hnil]
    rfl
  unfold deepstatePkgCreate at hok
  rw [onFiles_bind_apply] at hok
  split at hok
  all_goals
    simp only [record_bind_apply, compileAttributes, bind_assoc, ho, onFiles_bind_apply] at hok
    rw [bind_apply] at hok
    erw [hread] at hok
    cases hok

theorem reportTally_files {functions : Nat} {t : Tally} (hok : reportTally functions t w = .ok harness w') :
    w'.fs = w.fs := by
  unfold reportTally at hok
  split at hok
  · cases hok; rfl
  · split at hok
    · cases hok; rfl
    · split at hok
      · cases hok
      · cases hok; rfl

/-- A call that returns is the loop over the functions with parameters, and the report. -/
theorem pkgCreate_loop (ho : o.exports = some f.text) (hok : deepstatePkgCreate h o w = .ok harness w') :
    ∃ log t w₁, ((f.exports.filter (·.params ≠ [])).map (·.name)).foldlM (createOne h o.installed) Tally.empty
        ⟨preparedFiles o f w.fs, log⟩ = .ok t w₁ ∧
      reportTally ((f.exports.filter (·.params ≠ [])).map (·.name)).length t w₁ = .ok harness w' := by
  obtain ⟨es, _, happly⟩ := pkgCreate_apply (h := h) (w := w) ho (exports_ne_nil ho hok)
  rw [tableNames_exports f.names_nodup] at happly
  obtain ⟨t, w₁, hloop, hreport⟩ := bind_eq_ok.mp (happly.symm.trans hok)
  exact ⟨_, t, w₁, hloop, hreport⟩

/-- Every directory is treated by itself, there is a harness created, and the returned names are those of the
created harnesses. -/
theorem pkgCreate_creates (ho : o.exports = some f.text) (hok : deepstatePkgCreate h o w = .ok harness w') :
    (∀ n, CreatedIn f (preparedFiles o f w.fs) w'.fs n) ∧ (∃ n, Creates f (preparedFiles o f w.fs) n) ∧
      ∀ n, harnessFile n .infun ∈ harness ↔ Creates f (preparedFiles o f w.fs) n := by
  obtain ⟨log, t, w₁, hloop, hreport⟩ := pkgCreate_loop ho hok
  have hsub : ∀ a ∈ f.exports.filter (·.params ≠ []), a ∈ f.exports ∧ a.params ≠ [] :=
    fun a ha => by simpa using List.mem_filter.mp ha
  have hnodup : ((f.exports.filter (·.params ≠ [])).map (·.name)).Nodup :=
    (List.filter_sublist.map _).nodup f.names_nodup
  obtain ⟨hin, hothers, created, failed, rfl, hcreated⟩ :=
    createLoop_creates hsub hnodup (readText_preparedFiles o f w.fs) hloop
  have hnames : ∀ n, Creates f (preparedFiles o f w.fs) n → n ∈ (f.exports.filter (·.params ≠ [])).map (·.name) := by
    rintro n ⟨e, he, rfl, hp, _⟩
    exact List.mem_map.mpr ⟨e, List.mem_filter.mpr ⟨he, by simpa using hp⟩, rfl⟩
  obtain ⟨created', failed', ht, _, hperm⟩ := createLoop_ok hloop
  have hlists : created = created' ∧ failed = failed' := by
    have hharness := congrArg Tally.harness ht
    have hfailed := congrArg Tally.failedHarness ht
    simp only [Tally.add, Tally.empty, List.nil_append] at hharness hfailed
    exact ⟨List.map_injective_iff.mpr (fun _ _ => harnessFile_injective) hharness, hfailed⟩
  obtain ⟨rfl, rfl⟩ := hlists
  have hlen := hperm.length_eq
  rw [List.length_append] at hlen
  have hfs := reportTally_files hreport
  obtain ⟨rfl, _⟩ := reportTally_ok hperm hreport
  refine ⟨fun n => ?_, ?_, fun n => ?_⟩
  · rw [hfs]
    by_cases hn : n ∈ (f.exports.filter (·.params ≠ [])).map (·.name)
    · obtain ⟨a, ha, rfl⟩ := List.mem_map.mp hn
      exact hin a ha
    · exact CreatedIn.of_sameDirectory (mt (hnames n) hn) (hothers n hn)
  · obtain ⟨n, hn⟩ := List.exists_mem_of_ne_nil _ (exists_created_of_reportTally hlen hreport)
    exact ⟨n, ((hcreated n).mp hn).2⟩
  · constructor
    · intro hn
      obtain ⟨m, hm, he⟩ := List.mem_map.mp hn
      rw [harnessFile_injective he] at hm
      exact ((hcreated n).mp hm).2
    · exact fun hc => List.mem_map.mpr ⟨n, (hcreated n).mpr ⟨hnames n hc, hc⟩, rfl⟩

/-- `inst/testfiles` itself stays through the loop. -/
theorem stays_createLoop {installed : Text → Installation} {fns : List Text} {t t' : Tally}
    (hok : fns.foldlM (createOne h installed) t w = .ok t' w') : Stays testPath w w' := by
  induction fns generalizing t w with
  | nil =>
      cases hok
      exact Stays.refl _ _
  | cons fn fns ih =>
      rw [List.foldlM_cons] at hok
      obtain ⟨t₁, w₁, hone, hrest⟩ := bind_eq_ok.mp hok
      obtain ⟨r, w₂, hcall, hend⟩ := bind_eq_ok.mp hone
      have hfirst : Stays testPath w w₂ := by
        refine funCreate_stays ?_ ?_ ?_ (fun _ => ?_) hcall
        · simp [testPath, makevarsPath, Text.ofString_eq]
        · exact not_installTouches (by simp [testPath, Text.ofString_eq])
        · simp [testPath, makefilePath, funPath]
        · simp [testPath, harnessPath, funPath]
      have hw : w₂ = w₁ := by
        split at hend <;> cases hend <;> rfl
      subst hw
      exact Stays.trans _ _ _ _ hfirst (ih hrest)

end Call

/-! ## The prepared tree -/

section Prepared

variable {f : ExportsFile} {o : PkgOutcome} {fs : FileSystem Content} {n m : Text} {p : Pathname}

/-- Below `inst/testfiles` what `compileAttributes` writes is of no account. -/
theorem node?_preparedFiles_tests (hp : testPath <+: p) :
    (preparedFiles o f fs).node? p = (prepareTestfiles fs).node? p := by
  have hne : p ≠ rcppExportsPath := by
    rintro rfl
    exact absurd hp (by with_unfolding_all decide)
  rw [preparedFiles, node?_write_ne _ hne, frame_writeInterfaces o _ p (not_interfaceTouches hp)]

theorem node?_preparedFiles (m : Text) : (preparedFiles o f fs).node? (funPath n ++ [m]) =
    if m ≠ harnessFile n .infun ∧ m.head? ≠ some '.' ∧ Cleaned fs n then none
    else fs.node? (funPath n ++ [m]) := by
  rw [node?_preparedFiles_tests (by simp [funPath]), node?_prepareTestfiles]

/-- The function directories themselves stay. -/
theorem node?_preparedFiles_directory : (preparedFiles o f fs).node? (funPath n) = fs.node? (funPath n) := by
  rw [node?_preparedFiles_tests (by simp [funPath])]
  unfold prepareTestfiles
  split
  · refine frame_cleanFunctions _ _ ?_
    rintro ⟨fn, m, hp⟩
    have := hp.length_le
    simp [funPath, testPath] at this
  · refine node?_mkdirs _ _ _ (fun hp => ?_)
    have := hp.1.length_le
    simp [funPath, testPath] at this

theorem node?_preparedFiles_harness :
    (preparedFiles o f fs).node? (harnessPath n .infun) = fs.node? (harnessPath n .infun) := by
  rw [harnessPath, node?_preparedFiles, if_neg (fun hc => hc.1 rfl)]

theorem creates_preparedFiles : Creates f (preparedFiles o f fs) n ↔ Creates f fs n := by
  refine creates_congr ?_
  rw [fileExists, node?_preparedFiles_harness, fileExists]

/-- Anything else in a cleaned directory is gone. -/
theorem node?_preparedFiles_other (hm : m ≠ harnessFile n .infun) (hdot : n.head? ≠ some '.' → m.head? ≠ some '.') :
    (preparedFiles o f fs).node? (funPath n ++ [m]) =
      if Cleaned fs n then none else fs.node? (funPath n ++ [m]) := by
  rw [node?_preparedFiles]
  refine if_congr ⟨fun hc => hc.2.2, fun hc => ⟨hm, hdot (mem_listFiles.mp hc.2.1).2, hc⟩⟩ rfl rfl

/-- Preparing makes `inst/testfiles` unless it is there. -/
theorem node?_preparedFiles_testPath :
    (preparedFiles o f fs).node? testPath = some ((fs.node? testPath).getD .dir) := by
  rw [node?_preparedFiles_tests List.prefix_rfl]
  unfold prepareTestfiles dirExists
  cases hnode : fs.node? testPath with
  | none =>
      have hmade : (fs.mkdirs testPath).node? testPath = some .dir := by
        have hinits : testPath.inits.tail = [[("inst" : Text)], testPath] := by simp [testPath]
        have hinst : (fs.mkdir [("inst" : Text)]).node? testPath = none := by
          rw [node?_mkdir, if_neg (by simp [testPath]), hnode]
        rw [mkdirs, hinits, List.foldl_cons, List.foldl_cons, List.foldl_nil, node?_mkdir, if_pos ⟨rfl, hinst⟩]
      simp [hmade]
  | some x =>
      cases x with
      | dir =>
          have hkeep : ((fs.listFiles testPath).foldl cleanFunction fs).node? testPath = fs.node? testPath := by
            refine frame_cleanFunctions _ _ ?_
            rintro ⟨fn, m, hp⟩
            have := hp.length_le
            simp [funPath, testPath] at this
          simp [hkeep, hnode]
      | file c t =>
          have hkeep : (fs.mkdirs testPath).node? testPath = fs.node? testPath :=
            node?_mkdirs_of_exists (by rw [fileExists, hnode]; rfl)
          simp [hkeep, hnode]

/-- After a call that returns there is a directory `inst/testfiles`, unless it was a file. -/
theorem dirExists_pkgCreate {h : Host} {o : PkgOutcome} {w w' : World} {harness : List Text}
    (ho : o.exports = some f.text) (hok : deepstatePkgCreate h o w = .ok harness w') :
    w'.fs.dirExists testPath = true ↔ w.fs.read testPath = none := by
  obtain ⟨log, t, w₁, hloop, hreport⟩ := pkgCreate_loop ho hok
  have hnode := @node?_preparedFiles_testPath f o w.fs
  have hstays := stays_createLoop hloop (by rw [fileExists, hnode]; rfl)
  rw [reportTally_files hreport, dirExists, hstays, hnode, FileSystem.read]
  cases hn : w.fs.node? testPath with
  | none => simp
  | some x => cases x <;> simp

end Prepared

end RcppDeepState
