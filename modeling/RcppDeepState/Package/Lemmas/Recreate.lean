import RcppDeepState.Library.TreeView
import RcppDeepState.Package.Lemmas.Created

/-!
# Creating the harnesses again

Once the harnesses of a package are there, a further call cleans the function directories and writes the makefiles
again. What it leaves is a function of what it finds.
-/

namespace RcppDeepState

open Command FileSystem

/-! ## Creating deletes nothing -/

/-- What exists goes on existing. -/
def OnlyAdds (w w' : World) : Prop := ∀ p, w.fs.fileExists p = true → w'.fs.fileExists p = true

section OnlyAdds

variable {α β : Type} {h : Host} {installed : Installation} {fn : Text}

theorem OnlyAdds.refl (w : World) : OnlyAdds w w := fun _ hp => hp

theorem OnlyAdds.trans (w w' w'' : World) (h : OnlyAdds w w') (h' : OnlyAdds w' w'') : OnlyAdds w w'' :=
  fun p hp => h' p (h p hp)

theorem adds_bind {m : Program α} {f : α → Program β} (hm : Within OnlyAdds m) (hf : ∀ a, Within OnlyAdds (f a)) :
    Within OnlyAdds (m >>= f) := Within.bind OnlyAdds.trans hm hf

theorem adds_pure (a : α) : Within OnlyAdds (pure a : Program α) := Within.pure OnlyAdds.refl a

theorem adds_stop (t : Text) : Within OnlyAdds (stop t : Program α) := Within.throw OnlyAdds.refl t

theorem adds_record (e : Event) : Within OnlyAdds (record e) := fun _ _ hp => hp

theorem adds_files {f : FileSystem Content → Program α} (hf : ∀ fs, Within OnlyAdds (f fs)) :
    Within OnlyAdds (files >>= f) := fun w => hf w.fs w

theorem fileExists_write_of_exists {fs : FileSystem Content} {q : Pathname} (hq : fs.fileExists q = true) (p : Pathname)
    (c : Content) : (fs.write p c).fileExists q = true := by
  rw [fileExists_write, hq, Bool.or_true]

theorem adds_write (p : Pathname) (c : FileSystem Content → Content) :
    Within OnlyAdds (onFiles fun fs => fs.write p (c fs)) := by
  intro w q hq
  exact fileExists_write_of_exists hq p _

theorem adds_mkdir (p : Pathname) : Within OnlyAdds (onFiles (·.mkdir p)) := by
  intro w q hq
  show (w.fs.mkdir p).fileExists q = true
  rw [fileExists_mkdir, hq, Bool.or_true]

theorem adds_mkdirs (p : Pathname) : Within OnlyAdds (onFiles (·.mkdirs p)) := by
  intro w q hq
  show (w.fs.mkdirs p).fileExists q = true
  rw [fileExists_mkdirs, hq, Bool.or_true]

theorem fileExists_leaveObjects {fs : FileSystem Content} {q : Pathname} (hq : fs.fileExists q = true) :
    (installed.leaveObjects fs).fileExists q = true := by
  unfold Installation.leaveObjects
  induction installed.objects generalizing fs with
  | nil => exact hq
  | cons e es ih => exact ih (fileExists_write_of_exists hq _ _)

theorem adds_leave : Within OnlyAdds (onFiles (installed.leave h)) := by
  intro w q hq
  have hobjects := @fileExists_leaveObjects installed _ _ hq
  show (installed.leave h w.fs).fileExists q = true
  unfold Installation.leave
  split
  · exact fileExists_write_of_exists hobjects _ _
  · exact hobjects

theorem adds_ensureSharedObject : Within OnlyAdds (ensureSharedObject h installed) := by
  have hend : Within OnlyAdds (do
      installPackage h installed
      if sharedObjects h (← files) = [] then stop sharedObjectError) := by
    apply adds_bind
    · exact adds_bind (adds_record _) fun _ => adds_leave
    · intro _
      exact adds_files fun _ => Within.ite (adds_stop _) (adds_pure _)
  apply adds_files
  intro fs
  apply Within.ite
  · apply adds_files
    intro fs
    exact Within.ite (adds_bind (adds_write _ _) fun _ => hend) hend
  · exact adds_pure _

theorem adds_createMakefile : Within OnlyAdds (deepstateCreateMakefile h installed fn) := by
  apply adds_bind adds_ensureSharedObject
  intro _
  apply adds_bind (adds_mkdirs _)
  intro _
  exact adds_bind (adds_mkdir _) fun _ => adds_write _ _

theorem adds_funCreate : Within OnlyAdds (deepstateFunCreate h installed fn .infun) := by
  apply adds_bind
  · apply adds_files
    intro fs
    split
    · exact adds_bind (adds_record _) fun _ => adds_pure _
    · exact adds_pure _
  · intro packagename
    apply adds_bind
    · apply adds_files
      intro fs
      split
      · exact adds_stop _
      · split
        · exact adds_stop _
        · exact adds_pure _
    · intro tables
      apply adds_files
      intro fs
      apply Within.ite
      · exact adds_bind adds_createMakefile fun _ => adds_bind (adds_record _) fun _ => adds_pure _
      · apply Within.ite
        · exact adds_bind (adds_record _) fun _ => adds_pure _
        · apply adds_bind (adds_mkdirs _)
          intro _
          apply adds_bind (adds_write _ _)
          intro _
          apply adds_bind adds_createMakefile
          intro _
          apply adds_bind (adds_mkdir _)
          intro _
          exact Within.ite (adds_stop _) (adds_bind (adds_write _ _) fun _ => adds_pure _)

theorem adds_createOne {installed : Text → Installation} {t : Tally} : Within OnlyAdds (createOne h installed t fn) :=
  adds_bind adds_funCreate fun _ => Within.ite (adds_pure _) (adds_pure _)

end OnlyAdds

/-! ## What a created harness stands beside -/

/-- The directories that writing a makefile makes. -/
def dirsOf (fn : Text) : List Pathname := inputsPath fn :: (outputDir fn .infun).inits.tail

/-- The files and directories of a harness are there, and the shared object is. -/
structure Made (h : Host) (fn : Text) (fs : FileSystem Content) : Prop where
  harness : fs.fileExists (harnessPath fn .infun) = true
  makefile : fs.fileExists (makefilePath fn .infun) = true
  dirs : ∀ p ∈ dirsOf fn, fs.fileExists p = true
  built : sharedObjects h fs ≠ []

section Made

variable {h : Host} {b : Installation} {fn : Text} {w w' : World}

theorem sharedObjects_of_adds (hadds : OnlyAdds w w') (hs : sharedObjects h w.fs ≠ []) :
    sharedObjects h w'.fs ≠ [] := by
  obtain ⟨n, hn⟩ := List.exists_mem_of_ne_nil _ hs
  obtain ⟨hg, he, hdot, hso⟩ := mem_sharedObjects.mp hn
  exact List.ne_nil_of_mem (mem_sharedObjects.mpr ⟨hg, hadds _ he, hdot, hso⟩)

theorem Made.of_adds (hm : Made h fn w.fs) (hadds : OnlyAdds w w') : Made h fn w'.fs where
  harness := hadds _ hm.harness
  makefile := hadds _ hm.makefile
  dirs p hp := hadds _ (hm.dirs p hp)
  built := sharedObjects_of_adds hadds hm.built

theorem built_of_ensureSharedObject (hok : ensureSharedObject h b w = .ok () w') : sharedObjects h w'.fs ≠ [] := by
  by_cases hs : sharedObjects h w.fs = []
  · have hlast : ∀ w₁, (do
        installPackage h b
        if sharedObjects h (← files) = [] then stop sharedObjectError) w₁ = .ok () w' → sharedObjects h w'.fs ≠ [] := by
      intro w₁ hlast
      obtain ⟨_, w₂, _, hend⟩ := bind_eq_ok.mp hlast
      rw [files_bind_apply, ite_apply] at hend
      split at hend
      · cases hend
      · rename_i hne
        cases hend
        exact hne
    rw [ensureSharedObject, files_bind_apply, if_pos hs, files_bind_apply, ite_apply] at hok
    split at hok
    · exact hlast _ hok
    · exact hlast _ hok
  · rw [ensureSharedObject_of_ne hs] at hok
    cases hok
    exact hs

/-- What a makefile that is written leaves, where the harness is there. -/
theorem made_createMakefile (hok : deepstateCreateMakefile h b fn w = .ok () w')
    (hharness : w.fs.fileExists (harnessPath fn .infun) = true) : Made h fn w'.fs := by
  have hadds := @adds_createMakefile h b fn w
  rw [final_of_ok hok] at hadds
  obtain ⟨_, w₁, hensure, hwrite⟩ := bind_eq_ok.mp hok
  have hbuilt := built_of_ensureSharedObject hensure
  cases hwrite
  refine ⟨hadds _ hharness, by simp [fileExists_write], fun p hp => ?_, ?_⟩
  · rw [fileExists_write, fileExists_mkdir, fileExists_mkdirs]
    rcases List.mem_cons.mp hp with rfl | hp
    · simp
    · simp [hp]
  · refine sharedObjects_of_adds (h := h) (w := w₁) (fun p hp => ?_) hbuilt
    show FileSystem.fileExists (FileSystem.write _ _ _) p = true
    rw [fileExists_write, fileExists_mkdir, fileExists_mkdirs, hp]
    simp

theorem made_funCreate {name : Text} (hok : deepstateFunCreate h b fn .infun w = .ok (some name) w') :
    Made h fn w'.fs := by
  obtain ⟨_, _, _, ⟨hex, _, log, w₁, hmake, hfs⟩ | ⟨_, _, hr, _⟩ | ⟨_, _, _, log, w₁, text, hstep, hfs⟩⟩ :=
    funCreate_cases hok
  · rw [hfs]
    exact made_createMakefile hmake hex
  · cases hr
  · rw [makefileStep, if_neg (by decide)] at hstep
    have hmade := made_createMakefile hstep (by simp [withEmptyHarness, fileExists_write])
    have hafter : OnlyAdds w₁ ⟨appendText (w₁.fs.mkdir (inputsPath fn)) (harnessPath fn .infun) text, w₁.log⟩ := by
      intro p hp
      show FileSystem.fileExists (FileSystem.write _ _ _) p = true
      rw [fileExists_write, fileExists_mkdir, hp, Bool.or_true, Bool.or_true]
    rw [hfs]
    exact hmade.of_adds hafter

end Made

/-! ## Writing the makefiles again -/

/-- What writing the makefile of a function does to the tree. -/
def withMakefile (h : Host) (fs : FileSystem Content) (fn : Text) : FileSystem Content :=
  ((fs.mkdirs (outputDir fn .infun)).mkdir (inputsPath fn)).write (makefilePath fn .infun)
    (.text (Text.unlines [makefileText h (h.file (executablePath fn .infun))]))

def withMakefiles (h : Host) (fns : List Text) (fs : FileSystem Content) : FileSystem Content :=
  fns.foldl (withMakefile h) fs

theorem createMakefile_built {h : Host} {b : Installation} {fn : Text} {w : World} (hs : sharedObjects h w.fs ≠ []) :
    deepstateCreateMakefile h b fn w = .ok () { w with fs := withMakefile h w.fs fn } := by
  rw [deepstateCreateMakefile, Command.bind_of_ok (ensureSharedObject_of_ne hs)]
  rfl

theorem not_dirsOf_makefile (fn fn' : Text) : makefilePath fn' .infun ∉ dirsOf fn := by
  intro hmem
  rcases List.mem_cons.mp hmem with hp | hp
  · exact makefilePath_ne_inputsPath fn' fn .infun hp
  · have hpre := (List.mem_inits _ _).mp (List.mem_of_mem_tail hp)
    exact makefilePath_ne_outputDir fn' fn .infun .infun (hpre.eq_of_length (by simp [makefilePath, outputDir, funPath]))

section WithMakefiles

variable {h : Host} {fs : FileSystem Content} {fn : Text} {fns : List Text} {p : Pathname}

theorem kind?_withMakefile : (withMakefile h fs fn).kind? p =
    if p = makefilePath fn .infun then
      some (some (.text (Text.unlines [makefileText h (h.file (executablePath fn .infun))])))
    else if p ∈ dirsOf fn then (fs.kind? p).or (some none) else fs.kind? p := by
  unfold withMakefile dirsOf
  rw [kind?_write]
  split
  · rfl
  · rw [kind?_mkdir, kind?_mkdirs (q := inputsPath fn)]
    by_cases hp : p = inputsPath fn
    · subst hp
      rw [if_pos rfl, if_pos List.mem_cons_self]
      split
      · cases fs.kind? (inputsPath fn) <;> rfl
      · rfl
    · rw [if_neg hp, kind?_mkdirs]
      simp only [List.mem_cons, hp, false_or]

/-- The makefile of a function is the one that is generated for it. -/
theorem kind?_withMakefiles_makefile (hfn : fn ∈ fns) : (withMakefiles h fns fs).kind? (makefilePath fn .infun) =
    some (some (.text (Text.unlines [makefileText h (h.file (executablePath fn .infun))]))) := by
  have hstays : ∀ (fns : List Text) (fs : FileSystem Content),
      fs.kind? (makefilePath fn .infun) =
        some (some (.text (Text.unlines [makefileText h (h.file (executablePath fn .infun))]))) →
      (fns.foldl (withMakefile h) fs).kind? (makefilePath fn .infun) =
        some (some (.text (Text.unlines [makefileText h (h.file (executablePath fn .infun))]))) := by
    intro fns
    induction fns with
    | nil => exact fun _ h => h
    | cons fn' fns ih =>
        intro fs hfs
        apply ih
        rw [kind?_withMakefile, if_neg (not_dirsOf_makefile fn' fn)]
        split
        · rename_i heq
          obtain ⟨rfl, _⟩ := funPath_append_inj.mp heq
          rfl
        · exact hfs
  unfold withMakefiles
  induction fns generalizing fs with
  | nil => cases hfn
  | cons fn' fns ih =>
      rcases List.mem_cons.mp hfn with rfl | hfn
      · exact hstays fns _ (by rw [kind?_withMakefile, if_pos rfl])
      · exact ih hfn

/-- A directory that is there already stays what it is. -/
theorem kind?_withMakefiles_dir (hp : ∃ fn ∈ fns, p ∈ dirsOf fn) :
    (withMakefiles h fns fs).kind? p = (fs.kind? p).or (some none) := by
  have hnot : ∀ fn, p ≠ makefilePath fn .infun := by
    rintro fn rfl
    obtain ⟨fn', _, hmem⟩ := hp
    exact not_dirsOf_makefile fn' fn hmem
  have hstays : ∀ (fns : List Text) (fs : FileSystem Content) (k : Option Content), fs.kind? p = some k →
      (fns.foldl (withMakefile h) fs).kind? p = some k := by
    intro fns
    induction fns with
    | nil => exact fun _ _ h => h
    | cons fn' fns ih =>
        intro fs k hfs
        apply ih
        rw [kind?_withMakefile, if_neg (hnot fn'), hfs]
        split <;> rfl
  unfold withMakefiles
  induction fns generalizing fs with
  | nil =>
      obtain ⟨_, hmem, _⟩ := hp
      cases hmem
  | cons fn' fns ih =>
      by_cases hhead : p ∈ dirsOf fn'
      · rw [List.foldl_cons]
        have hnode : (withMakefile h fs fn').kind? p = (fs.kind? p).or (some none) := by
          rw [kind?_withMakefile, if_neg (hnot fn'), if_pos hhead]
        cases hk : fs.kind? p with
        | none => exact hstays fns _ none (by rw [hnode, hk]; rfl)
        | some k => exact hstays fns _ k (by rw [hnode, hk]; rfl)
      · obtain ⟨fn, hmem, hdir⟩ := hp
        have hrest : fn ∈ fns := by
          rcases List.mem_cons.mp hmem with rfl | hmem
          · exact absurd hdir hhead
          · exact hmem
        rw [List.foldl_cons, ih ⟨fn, hrest, hdir⟩, kind?_withMakefile, if_neg (hnot fn'), if_neg hhead]

theorem kind?_withMakefiles_other (hmakefile : ∀ fn ∈ fns, p ≠ makefilePath fn .infun)
    (hdir : ∀ fn ∈ fns, p ∉ dirsOf fn) : (withMakefiles h fns fs).kind? p = fs.kind? p := by
  unfold withMakefiles
  induction fns generalizing fs with
  | nil => rfl
  | cons fn fns ih =>
      rw [List.foldl_cons, ih (fun n hn => hmakefile n (by simp [hn])) (fun n hn => hdir n (by simp [hn])),
        kind?_withMakefile, if_neg (hmakefile fn (by simp)), if_neg (hdir fn (by simp))]

end WithMakefiles

/-! ## Cleaning again -/

/-- What cleaning deletes: what lies beside a default harness, and below. -/
def Gone (fs : FileSystem Content) (p : Pathname) : Prop :=
  ∃ fn n, Cleaned fs fn ∧ n ≠ harnessFile fn .infun ∧ n.head? ≠ some '.' ∧
    fs.fileExists (funPath fn ++ [n]) = true ∧ funPath fn ++ [n] <+: p

section Clean

variable {fs : FileSystem Content} {p : Pathname}

theorem mem_gone_iff {fs : FileSystem Content} {fn : Text} :
    (((fs.listFiles (funPath fn)).filter (· ≠ harnessFile fn .infun)).any fun n =>
      (funPath fn ++ [n]).isPrefixOf p) = true ↔
    ∃ n, n ≠ harnessFile fn .infun ∧ n.head? ≠ some '.' ∧ fs.fileExists (funPath fn ++ [n]) = true ∧
      funPath fn ++ [n] <+: p := by
  simp only [List.any_eq_true, List.mem_filter, List.isPrefixOf_iff_prefix, decide_eq_true_eq, mem_listFiles]
  constructor
  · rintro ⟨n, ⟨⟨hex, hdot⟩, hne⟩, hp⟩
    exact ⟨n, hne, hdot, hex, hp⟩
  · rintro ⟨n, hne, hdot, hex, hp⟩
    exact ⟨n, ⟨⟨hex, hdot⟩, hne⟩, hp⟩

theorem fileExists_cleanFunction {fs : FileSystem Content} {fn : Text}
    (h : (cleanFunction fs fn).fileExists p = true) : fs.fileExists p = true := by
  unfold cleanFunction at h
  split at h
  · rw [fileExists_remove, Bool.and_eq_true] at h
    exact h.2
  · exact h

theorem frame_cleanAll {fns : List Text} {fs' : FileSystem Content} (hdir : fs.dirExists testPath = true)
    (hfns : ∀ fn ∈ fns, fn ∈ fs.listFiles testPath)
    (hless : ∀ p, fs'.fileExists p = true → fs.fileExists p = true) :
    Frame (Gone fs) fs' (fns.foldl cleanFunction fs') := by
  induction fns generalizing fs' with
  | nil => exact Frame.refl _
  | cons fn fns ih =>
      have hone : Frame (Gone fs) fs' (cleanFunction fs' fn) := by
        unfold cleanFunction
        split
        · rename_i hharness
          refine frame_remove fun p hp => ?_
          obtain ⟨n, hne, hdot, hex, hpre⟩ := mem_gone_iff.mp hp
          exact ⟨fn, n, ⟨hdir, hfns fn (by simp), hless _ hharness⟩, hne, hdot, hless _ hex, hpre⟩
        · exact Frame.refl _
      exact hone.trans (ih (fun x hx => hfns x (by simp [hx])) fun p hp => hless p (fileExists_cleanFunction hp))

/-- What is not deleted stays. -/
theorem kind?_prepareTestfiles_kept (hgone : ¬ Gone fs p) (hthere : ∀ q ∈ testPath.inits.tail, fs.fileExists q = true) :
    (prepareTestfiles fs).kind? p = fs.kind? p := by
  unfold prepareTestfiles
  split
  · rename_i hdir
    unfold kind?
    rw [frame_cleanAll hdir (fun _ h => h) (fun _ h => h) p hgone]
  · rw [kind?_mkdirs]
    split
    · rename_i hmem
      have hex := hthere p hmem
      rw [fileExists_eq_kind] at hex
      obtain ⟨k, hk⟩ := Option.isSome_iff_exists.mp hex
      rw [hk]
      rfl
    · rfl

theorem kind?_cleanFunction_none {fs : FileSystem Content} {fn : Text} (h : fs.kind? p = none) :
    (cleanFunction fs fn).kind? p = none := by
  unfold cleanFunction
  split
  · rw [kind?_remove, h, ite_self]
  · exact h

/-- What is deleted is gone. -/
theorem kind?_prepareTestfiles_gone (hgone : Gone fs p) : (prepareTestfiles fs).kind? p = none := by
  obtain ⟨fn, n, ⟨hdir, hlisted, hharness⟩, hne, hdot, hex, hpre⟩ := hgone
  have hloop : ∀ (fns : List Text) (fs' : FileSystem Content), fn ∈ fns →
      fs'.fileExists (harnessPath fn .infun) = true →
      fs'.fileExists (funPath fn ++ [n]) = true ∨ fs'.kind? p = none → (fns.foldl cleanFunction fs').kind? p = none := by
    intro fns
    induction fns with
    | nil => exact fun _ h => absurd h List.not_mem_nil
    | cons fn' fns ih =>
        intro fs' hmem hharness hstate
        have hnone : ∀ (fns : List Text) (fs' : FileSystem Content), fs'.kind? p = none →
            (fns.foldl cleanFunction fs').kind? p = none := by
          intro fns
          induction fns with
          | nil => exact fun _ h => h
          | cons x xs ihx => exact fun fs' h => ihx _ (kind?_cleanFunction_none h)
        rw [List.foldl_cons]
        by_cases hfn : fn' = fn
        · subst hfn
          apply hnone
          rcases hstate with hex | hk
          · unfold cleanFunction
            rw [if_pos hharness, kind?_remove, if_pos (mem_gone_iff.mpr ⟨n, hne, hdot, hex, hpre⟩)]
          · exact kind?_cleanFunction_none hk
        · refine ih _ ((List.mem_cons.mp hmem).resolve_left (Ne.symm hfn)) ?_ ?_
          · rw [fileExists, harnessPath, node?_cleanFunction, if_neg (fun h => hfn h.1)]
            exact hharness
          · cases hstate with
            | inl hex =>
                refine .inl ?_
                rw [fileExists, node?_cleanFunction, if_neg (fun h => hfn h.1)]
                exact hex
            | inr hk => exact .inr (kind?_cleanFunction_none hk)
  unfold prepareTestfiles
  rw [if_pos hdir]
  exact hloop _ fs hlisted hharness (.inl hex)

end Clean

end RcppDeepState
