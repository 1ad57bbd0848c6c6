import RcppDeepState.Package.Variants

/-!
# The makefile of an editable harness

It is the default makefile with the path of the default harness replaced, line by line. Below the flags
every occurrence of that path is one that has to be replaced, whatever the package is called.
-/

namespace RcppDeepState

open Command FileSystem

/-! ## The parts of a makefile -/

/-- What `deepstate_create_makefile` writes for a harness with that path. -/
def generatedMakefile (h : Host) (harness : Text) : Text := Text.unlines [makefileText h harness]

/-- What stands above the rules. -/
def headParts (h : Host) : List Text :=
  ["R_HOME=" ++ h.rHome, "R_INCLUDE=" ++ h.rInclude, "R_LIB=" ++ h.rLib, "\n",
    "CPPFLAGS=" ++ Text.join " " ((cppflags h).map fun f => ("-I" : Text) ++ f),
    "LDFLAGS=" ++ Text.join " " (ldflags h), "LDLIBS=-lR -lRInside -ldeepstate", "\n"]

def makefileHead (h : Host) : Text := Text.join "\n" (headParts h)

/-- The rules for an executable, its object file and its harness. -/
def ruleLines (sharedObjects exe obj cpp : Text) : List Text :=
  [exe ++ " : " ++ obj,
    "\tclang++ -g -gdwarf-4 " ++ obj ++ " ${CPPFLAGS}  ${LDFLAGS}  ${LDLIBS} " ++ sharedObjects ++ " -o " ++ exe,
    [],
    obj ++ " : " ++ cpp,
    "\tclang++ -g -gdwarf-4 -c  ${CPPFLAGS} " ++ cpp ++ " -o " ++ obj,
    []]

def sharedObjectPattern (h : Host) : Text := h.packagePath ++ "/src/*.so"

/-- The rules for the files that compiling and fuzzing a harness look for. -/
def harnessRules (h : Host) (fn : Text) (sep : Sep) : List Text :=
  ruleLines (sharedObjectPattern h) (h.file (executablePath fn sep)) (h.file (objectPath fn sep))
    (h.file (harnessPath fn sep))

/-- A path below the test files of the package `p`. -/
def inPackage (p t : Text) : Text := p ++ ("/inst/testfil" ++ t)

section Parts

variable {h : Host} {fn : Text} {sep : Sep}

theorem generatedMakefile_eq (harness : Text) : generatedMakefile h harness = makefileHead h ++ ['\n'] ++
    Text.unlines (ruleLines (sharedObjectPattern h) harness (harness ++ ".o") (harness ++ ".cpp")) := by
  have htab : ("\n\t" : Text) = '\n' :: ("\t" : Text) := by with_unfolding_all decide
  have hexe : ("\tclang++ -g -gdwarf-4 " : Text) = "\t" ++ "clang++ -g -gdwarf-4 " := by with_unfolding_all decide
  have hobj : ("\tclang++ -g -gdwarf-4 -c  ${CPPFLAGS} " : Text) = "\t" ++ "clang++ -g -gdwarf-4 -c  ${CPPFLAGS} " := by
    with_unfolding_all decide
  have hflags : (".o ${CPPFLAGS}  ${LDFLAGS}  ${LDLIBS} " : Text) = ".o" ++ " ${CPPFLAGS}  ${LDFLAGS}  ${LDLIBS} " := by
    with_unfolding_all decide
  have hcpp : (".cpp -o " : Text) = ".cpp" ++ " -o " := by with_unfolding_all decide
  have hnl : ("\n" : Text) = ['\n'] := by with_unfolding_all decide
  have hjoin : makefileText h harness = makefileHead h ++ "\n" ++
      Text.join "\n" [exeRule (sharedObjectPattern h) harness, objRule harness] :=
    @Text.join_append "\n" (headParts h) [exeRule (sharedObjectPattern h) harness, objRule harness]
      (List.cons_ne_nil _ _) (List.cons_ne_nil _ _)
  rw [generatedMakefile, hjoin, Text.join_cons _ (List.cons_ne_nil _ _), Text.join, exeRule, genRule, objRule, genRule,
    ruleLines, htab, hexe, hobj, hflags, hcpp, hnl]
  simp only [Text.unlines_cons, Text.unlines_nil, List.append_assoc, List.cons_append, List.nil_append]

theorem file_executablePath : h.file (executablePath fn sep) =
    inPackage h.packagePath ("es/" ++ fn ++ "/" ++ fn ++ "_DeepState_TestHarness" ++ sep.suffix) := by
  have hpath : ("/" : Text) ++ "inst" ++ ("/" ++ "testfiles") ++ "/" = "/inst/testfil" ++ "es/" := by
    with_unfolding_all decide
  have hfile : h.file (executablePath fn sep) = h.packagePath ++ (("/" : Text) ++ "inst" ++ ("/" ++ "testfiles") ++ "/" ++
      (fn ++ "/" ++ fn ++ "_DeepState_TestHarness" ++ sep.suffix)) := by
    simp [Host.file, executablePath, testHarness, funPath, testPath]
  rw [hfile, hpath, inPackage]
  simp only [List.append_assoc]

theorem file_executablePath_suffix :
    h.file (executablePath fn sep) = h.file (executablePath fn .infun) ++ sep.suffix := by
  simp [Host.file, executablePath, testHarness, Sep.suffix]

theorem file_objectPath : h.file (objectPath fn sep) = h.file (executablePath fn sep) ++ ".o" := by
  simp [Host.file, executablePath, objectPath]

theorem file_harnessPath : h.file (harnessPath fn sep) = h.file (executablePath fn sep) ++ ".cpp" := by
  simp [Host.file, executablePath, harnessPath, harnessFile]

end Parts

/-! ## Replacing the harness in the rules -/

section Rules

variable {p t rep : Text}

theorem slash_mem_inPackage : '/' ∈ inPackage p t := by
  have hslash : '/' ∈ ("/inst/testfil" : Text) := by with_unfolding_all decide
  simp [inPackage, hslash]

/-- Text without a slash stays before a harness, and at the end of a line. -/
theorem gsub_before {u : Text} (hu : '/' ∉ u) (s : Text) :
    Text.gsub (inPackage p t) rep (u ++ (inPackage p t ++ s)) = u ++ (rep ++ Text.gsub (inPackage p t) rep s) :=
  Text.gsub_append_of_not_mem slash_mem_inPackage hu

theorem gsub_after {u : Text} (hu : '/' ∉ u) : Text.gsub (inPackage p t) rep u = u :=
  Text.gsub_of_not_infix fun hi => hu (hi.subset slash_mem_inPackage)

/-- The path of a harness does not begin in the pattern of the shared objects, although that begins with the
path of the same package. -/
theorem gsub_sharedObjects {u w : Text} (hu : '/' ∉ u) (hl : w.length = 13) (hw : 'i' ∉ w) :
    Text.gsub (inPackage p t) rep (u ++ p ++ w ++ inPackage p t) = u ++ p ++ w ++ rep := by
  have hi : 'i' ∈ inPackage p t := by
    have hmem : 'i' ∈ ("/inst/testfil" : Text) := by with_unfolding_all decide
    simp [inPackage, hmem]
  have hfirst := @Text.gsub_append_first (inPackage p t) rep (List.ne_nil_of_mem hi) (u ++ p ++ w) [] ?_
  · simpa using hfirst
  intro v hv hne h
  rw [List.append_nil] at h
  cases Text.suffix_append_cases hv with
  | inl hlast =>
    -- It would begin in the end of the pattern, which has no `i`.
    obtain ⟨a, b, hab⟩ := List.append_of_mem hi
    refine Text.not_prefix_shift hne (fun hm => hw (hlast.subset hm)) (p := a) (t := 'i' :: b) ?_
    rw [← hab]
    exact List.IsPrefix.trans ⟨b, by simp [hab]⟩ h
  | inr hpath =>
    obtain ⟨z, hz, hzs, rfl⟩ := hpath
    cases Text.suffix_append_cases hzs with
    | inl hpackage =>
      -- It would begin in the path of the package: the characters before `/src` would stand before `/inst`.
      obtain ⟨q, rfl⟩ := hpackage
      refine Text.not_prefix_rotation (c := 'i') (p := q) (s := z) (t := "/inst/testfil") (v := w)
        (u := z ++ ("/inst/testfil" ++ t)) ?_ ?_ ?_
      · rw [hl]
        with_unfolding_all decide
      · rw [List.count_eq_zero_of_not_mem hw]
        with_unfolding_all decide
      · simp only [inPackage, List.append_assoc] at h ⊢
        exact List.IsPrefix.trans ⟨t, by simp⟩ h
    | inr hflags =>
      -- It would begin in the flags, which have no slash.
      obtain ⟨y, hy, hys, rfl⟩ := hflags
      refine Text.not_prefix_shift hy (fun hm => hu (hys.subset hm)) (c := '/') (p := p) (t := w ++ inPackage p t) ?_
      simp only [List.append_assoc] at h ⊢
      exact List.IsPrefix.trans ⟨("inst/testfil" : Text) ++ t, by simp [inPackage, Text.ofString_eq]⟩ h

/-- In the rules every harness is replaced, and nothing else. -/
theorem map_gsub_ruleLines : (ruleLines (p ++ "/src/*.so") (inPackage p t) (inPackage p t ++ ".o")
      (inPackage p t ++ ".cpp")).map (Text.gsub (inPackage p t) rep) =
    ruleLines (p ++ "/src/*.so") rep (rep ++ ".o") (rep ++ ".cpp") := by
  have hne : inPackage p t ≠ [] := List.ne_nil_of_mem slash_mem_inPackage
  have hobj : Text.gsub (inPackage p t) rep ".o" = ".o" := gsub_after (by with_unfolding_all decide)
  have hcpp : Text.gsub (inPackage p t) rep ".cpp" = ".cpp" := gsub_after (by with_unfolding_all decide)
  have hexeRule : Text.gsub (inPackage p t) rep (inPackage p t ++ " : " ++ (inPackage p t ++ ".o")) =
      rep ++ " : " ++ (rep ++ ".o") := by
    rw [List.append_assoc, Text.gsub_prefix hne, gsub_before (by with_unfolding_all decide), hobj, List.append_assoc]
  have hlink : Text.gsub (inPackage p t) rep ("\tclang++ -g -gdwarf-4 " ++ (inPackage p t ++ ".o") ++
        " ${CPPFLAGS}  ${LDFLAGS}  ${LDLIBS} " ++ (p ++ "/src/*.so") ++ " -o " ++ inPackage p t) =
      "\tclang++ -g -gdwarf-4 " ++ (rep ++ ".o") ++ " ${CPPFLAGS}  ${LDFLAGS}  ${LDLIBS} " ++ (p ++ "/src/*.so") ++
        " -o " ++ rep := by
    have hend := @gsub_sharedObjects p t rep (".o" ++ " ${CPPFLAGS}  ${LDFLAGS}  ${LDLIBS} ") ("/src/*.so" ++ " -o ")
      (by with_unfolding_all decide) (by with_unfolding_all decide) (by with_unfolding_all decide)
    simp only [List.append_assoc] at hend ⊢
    rw [gsub_before (by with_unfolding_all decide), hend]
  have hobjRule : Text.gsub (inPackage p t) rep (inPackage p t ++ ".o" ++ " : " ++ (inPackage p t ++ ".cpp")) =
      rep ++ ".o" ++ " : " ++ (rep ++ ".cpp") := by
    have hnext := @gsub_before p t rep (".o" ++ " : ") (by with_unfolding_all decide) ".cpp"
    simp only [List.append_assoc] at hnext ⊢
    rw [Text.gsub_prefix hne, hnext, hcpp]
  have hcompile : Text.gsub (inPackage p t) rep ("\tclang++ -g -gdwarf-4 -c  ${CPPFLAGS} " ++ (inPackage p t ++ ".cpp") ++
        " -o " ++ (inPackage p t ++ ".o")) =
      "\tclang++ -g -gdwarf-4 -c  ${CPPFLAGS} " ++ (rep ++ ".cpp") ++ " -o " ++ (rep ++ ".o") := by
    have hnext := @gsub_before p t rep (".cpp" ++ " -o ") (by with_unfolding_all decide) ".o"
    simp only [List.append_assoc] at hnext ⊢
    rw [gsub_before (by with_unfolding_all decide), hnext, hobj]
  simp only [ruleLines, List.map_cons, List.map_nil, Text.gsub_nil, hexeRule, hlink, hobjRule, hcompile]

end Rules

/-! ## The derived makefile -/

section Derived

variable {h : Host} {installed : Installation} {fn file : Text} {sep : Sep} {w w' : World}

/-- The makefile that `deepstate_create_makefile` would write for a variant of the harness. -/
def variantMakefile (h : Host) (fn : Text) (sep : Sep) : Text := generatedMakefile h (h.file (executablePath fn sep))

theorem variantMakefile_eq : variantMakefile h fn sep =
    makefileHead h ++ ['\n'] ++ Text.unlines (harnessRules h fn sep) := by
  rw [variantMakefile, generatedMakefile_eq, harnessRules, file_objectPath, file_harnessPath]

theorem oneLine_file (hpath : h.packagePath.OneLine) (hfn : fn.OneLine) : (h.file (executablePath fn sep)).OneLine := by
  have hparts : ("/inst/testfil" : Text).OneLine ∧ ("es/" : Text).OneLine ∧ ("/" : Text).OneLine ∧
      ("_DeepState_TestHarness" : Text).OneLine := by
    with_unfolding_all decide
  have hsuffix : sep.suffix.OneLine := by cases sep <;> with_unfolding_all decide
  simp [file_executablePath, inPackage, hpath, hfn, hparts, hsuffix]

/-- A path over several lines has a character at which a line ends. -/
theorem oneLine_of_file (hfile : (h.file (executablePath fn sep)).OneLine) : h.packagePath.OneLine ∧ fn.OneLine := by
  simp only [file_executablePath, inPackage, Text.oneLine_append] at hfile
  tauto

theorem oneLine_harnessRules (hpath : h.packagePath.OneLine) (hfn : fn.OneLine) :
    ∀ l ∈ harnessRules h fn sep, l.OneLine := by
  have hexe := @oneLine_file h fn sep hpath hfn
  have hparts : (" : " : Text).OneLine ∧ (".o" : Text).OneLine ∧ (".cpp" : Text).OneLine ∧
      ("\tclang++ -g -gdwarf-4 " : Text).OneLine ∧ (" ${CPPFLAGS}  ${LDFLAGS}  ${LDLIBS} " : Text).OneLine ∧
      ("/src/*.so" : Text).OneLine ∧ (" -o " : Text).OneLine ∧
      ("\tclang++ -g -gdwarf-4 -c  ${CPPFLAGS} " : Text).OneLine := by
    with_unfolding_all decide
  simp [harnessRules, ruleLines, file_objectPath, file_harnessPath, sharedObjectPattern, hexe, hpath, hparts,
    Text.oneLine_nil]

/-- Its lines are those above the rules, and the rules. -/
theorem lines_variantMakefile (hpath : h.packagePath.OneLine) (hfn : fn.OneLine) :
    (variantMakefile h fn sep).lines = (makefileHead h ++ ['\n']).lines ++ harnessRules h fn sep := by
  rw [variantMakefile_eq, List.append_assoc, List.singleton_append, Text.lines_append_lines,
    Text.lines_unlines (oneLine_harnessRules hpath hfn)]

theorem return_not_mem_variantMakefile_iff :
    '\r' ∉ variantMakefile h fn sep ↔ '\r' ∉ makefileHead h ∧ '\r' ∉ h.packagePath ∧ '\r' ∉ fn := by
  have hparts : '\r' ∉ (" : " : Text) ∧ '\r' ∉ (".o" : Text) ∧ '\r' ∉ (".cpp" : Text) ∧
      '\r' ∉ ("\tclang++ -g -gdwarf-4 " : Text) ∧ '\r' ∉ (" ${CPPFLAGS}  ${LDFLAGS}  ${LDLIBS} " : Text) ∧
      '\r' ∉ ("/src/*.so" : Text) ∧ '\r' ∉ (" -o " : Text) ∧ '\r' ∉ ("\tclang++ -g -gdwarf-4 -c  ${CPPFLAGS} " : Text) ∧
      '\r' ∉ ("/inst/testfil" : Text) ∧ '\r' ∉ ("es/" : Text) ∧ '\r' ∉ ("/" : Text) ∧
      '\r' ∉ ("_DeepState_TestHarness" : Text) := by
    with_unfolding_all decide
  have hsuffix : '\r' ∉ sep.suffix := by cases sep <;> with_unfolding_all decide
  simp only [variantMakefile_eq, harnessRules, ruleLines, file_objectPath, file_harnessPath, file_executablePath,
    inPackage, sharedObjectPattern, Text.unlines_cons, Text.unlines_nil, List.mem_append, List.mem_cons,
    List.not_mem_nil, hparts, hsuffix]
  simp
  tauto

theorem unlines_lines_variantMakefile (hreturn : '\r' ∉ variantMakefile h fn sep) :
    Text.unlines (variantMakefile h fn sep).lines = variantMakefile h fn sep := by
  have hend : variantMakefile h fn sep = makefileText h (h.file (executablePath fn sep)) ++ ['\n'] := by
    simp [variantMakefile, generatedMakefile]
  rw [hend] at hreturn ⊢
  exact Text.unlines_lines fun hr => hreturn (List.mem_append_left _ hr)

theorem suffix_length_pos (hsep : sep.editable = true) : 0 < sep.suffix.length := by
  cases sep with
  | infun => cases hsep
  | other => cases hsep
  | generation => with_unfolding_all decide
  | checks => with_unfolding_all decide

/-- A path that reaches over the end of a line is replaced nowhere. -/
theorem makefileLines_of_lines {t : Text} (hfile : ¬ (h.file (executablePath fn .infun)).OneLine) :
    makefileLines h fn sep t = t.lines := by
  rw [makefileLines, List.map_congr_left (g := id) ?_, List.map_id]
  intro l hl
  exact Text.gsub_of_not_infix fun hi => hfile ((Text.oneLine_of_mem_lines hl).of_subset hi.subset)

theorem makefileLines_variantMakefile (hpath : h.packagePath.OneLine) (hfn : fn.OneLine) :
    makefileLines h fn sep (variantMakefile h fn .infun) =
      (makefileHead h ++ ['\n']).lines.map
          (Text.gsub (h.file (executablePath fn .infun)) (h.file (executablePath fn sep))) ++ harnessRules h fn sep := by
  rw [makefileLines, lines_variantMakefile hpath hfn, List.map_append, List.append_cancel_left_eq]
  simp only [harnessRules, file_objectPath, file_harnessPath]
  rw [@file_executablePath h fn .infun]
  exact map_gsub_ruleLines

theorem oneLine_makefileLines {t : Text} : ∀ l ∈ makefileLines h fn sep t, l.OneLine := by
  intro l hl
  by_cases hfile : (h.file (executablePath fn .infun)).OneLine
  · obtain ⟨hpath, hfn⟩ := oneLine_of_file hfile
    have hrep := @oneLine_file h fn sep hpath hfn
    obtain ⟨k, hk, rfl⟩ := List.mem_map.mp hl
    have hline := Text.oneLine_of_mem_lines hk
    exact ⟨fun hn => (Text.mem_gsub hn).elim hline.1 hrep.1, fun hr => (Text.mem_gsub hr).elim hline.2 hrep.2⟩
  · rw [makefileLines_of_lines hfile] at hl
    exact Text.oneLine_of_mem_lines hl

/-- Written out and read back, the lines are the same. -/
theorem lines_makefileLines {t : Text} : (Text.unlines (makefileLines h fn sep t)).lines = makefileLines h fn sep t :=
  Text.lines_unlines oneLine_makefileLines

theorem length_variantMakefile : (variantMakefile h fn sep).length =
    (variantMakefile h fn .infun).length + 8 * sep.suffix.length := by
  have hfile := congrArg List.length (@file_executablePath_suffix h fn sep)
  rw [List.length_append] at hfile
  simp only [variantMakefile_eq, harnessRules, ruleLines, file_objectPath, file_harnessPath, Text.unlines_cons,
    Text.unlines_nil, List.length_append, List.length_cons, List.length_nil, hfile]
  omega

/-- The lines are replaced as they should be exactly when the flags do not have the path of the default harness. -/
theorem makefileLines_eq_iff (hsep : sep.editable = true) (hpath : h.packagePath.OneLine) (hfn : fn.OneLine) :
    makefileLines h fn sep (variantMakefile h fn .infun) = (variantMakefile h fn sep).lines ↔
      ¬ h.file (executablePath fn .infun) <:+: makefileHead h := by
  have hpos := suffix_length_pos hsep
  have hline := @oneLine_file h fn .infun hpath hfn
  have hne : h.file (executablePath fn .infun) ≠ [] := by
    rw [file_executablePath]
    exact List.ne_nil_of_mem slash_mem_inPackage
  have hlength : (h.file (executablePath fn .infun)).length ≠ (h.file (executablePath fn sep)).length := by
    rw [@file_executablePath_suffix h fn sep, List.length_append]
    omega
  have hhead : h.file (executablePath fn .infun) <:+: makefileHead h ++ ['\n'] ↔
      h.file (executablePath fn .infun) <:+: makefileHead h := by
    rw [Text.infix_append_cons_of_not_mem hline.1, List.infix_nil, or_iff_left hne]
  rw [makefileLines_variantMakefile hpath hfn, lines_variantMakefile hpath hfn, List.append_cancel_right_eq,
    ← hhead, ← Text.exists_line_infix_iff hline hne]
  constructor
  · intro hmap
    rintro ⟨l, hl, hin⟩
    have hself := List.map_inj_left.mp (hmap.trans (List.map_id _).symm) l hl
    exact (Text.gsub_eq_self_iff hne hlength).mp hself hin
  · intro hall
    apply Eq.trans (List.map_congr_left _) (List.map_id _)
    intro l hl
    exact Text.gsub_of_not_infix fun hin => hall ⟨l, hl, hin⟩

/-- The replaced makefile is that of the variant exactly when the paths are on one line, no line above the rules
ends in a carriage return, and the flags do not have the path of the default harness. -/
theorem unlines_makefileLines_eq_iff (hsep : sep.editable = true) :
    Text.unlines (makefileLines h fn sep (variantMakefile h fn .infun)) = variantMakefile h fn sep ↔
      h.packagePath.OneLine ∧ fn.OneLine ∧ '\r' ∉ makefileHead h ∧
        ¬ h.file (executablePath fn .infun) <:+: makefileHead h := by
  constructor
  · intro htext
    have hreturn : '\r' ∉ variantMakefile h fn sep := by
      rw [← htext]
      exact Text.not_mem_unlines (by decide) fun l hl => (oneLine_makefileLines l hl).2
    have hhead : '\r' ∉ makefileHead h := (return_not_mem_variantMakefile_iff.mp hreturn).1
    have hlines := congrArg Text.lines htext
    rw [lines_makefileLines] at hlines
    by_cases hfile : (h.file (executablePath fn .infun)).OneLine
    · obtain ⟨hpath, hfn⟩ := oneLine_of_file hfile
      exact ⟨hpath, hfn, hhead, (makefileLines_eq_iff hsep hpath hfn).mp hlines⟩
    · -- Nothing is replaced, and the makefile of the variant is longer.
      have hreturn' : '\r' ∉ variantMakefile h fn .infun :=
        return_not_mem_variantMakefile_iff.mpr (return_not_mem_variantMakefile_iff.mp hreturn)
      rw [makefileLines_of_lines hfile, unlines_lines_variantMakefile hreturn'] at htext
      have hlength := congrArg List.length htext
      rw [@length_variantMakefile h fn sep] at hlength
      have hpos := suffix_length_pos hsep
      omega
  · rintro ⟨hpath, hfn, hhead, hflags⟩
    rw [(makefileLines_eq_iff hsep hpath hfn).mpr hflags,
      unlines_lines_variantMakefile (return_not_mem_variantMakefile_iff.mpr ⟨hhead, hpath.2, hfn.2⟩)]

end Derived

/-! ## A call that makes an editable harness -/

section Call

variable {h : Host} {installed : Installation} {fn file : Text} {sep : Sep} {w w' : World}

/-- If there is a default makefile, it is as `deepstate_create_makefile` writes it. -/
def DefaultMakefile (h : Host) (fn : Text) (fs : FileSystem Content) : Prop :=
  fs.fileExists (makefilePath fn .infun) = true →
    readText fs (makefilePath fn .infun) = some (variantMakefile h fn .infun)

theorem readText_createMakefile (hok : deepstateCreateMakefile h installed fn w = .ok () w') :
    readText w'.fs (makefilePath fn .infun) = some (variantMakefile h fn .infun) := by
  obtain ⟨_, w₁, _, hwrite⟩ := bind_eq_ok.mp hok
  cases hwrite
  rw [readText, read_write_self]
  rfl

theorem readText_deriveMakefile (hsep : sep.editable = true) (hdefault : DefaultMakefile h fn w.fs)
    (hok : deriveMakefile h installed fn sep w = .ok () w') : readText w'.fs (makefilePath fn sep) =
      some (Text.unlines (makefileLines h fn sep (variantMakefile h fn .infun))) := by
  have hne : makefilePath fn .infun ≠ makefilePath fn sep := (makefilePath_ne hsep (by rintro rfl; cases hsep)).symm
  have hend (fs : FileSystem Content) (t : Text) :
      readText (((fs.write (makefilePath fn sep) (.text t)).unlink (makefilePath fn .infun)).mkdir (outputDir fn sep))
        (makefilePath fn sep) = some t := by
    have hnot : (makefilePath fn .infun).isPrefixOf (makefilePath fn sep) = false := by
      rw [Bool.eq_false_iff]
      exact fun hp => hne (eq_of_makefilePath_extends (List.isPrefixOf_iff_prefix.mp hp))
    rw [readText, read_mkdir, unlink, read_remove, hnot, if_neg Bool.false_ne_true, read_write_self]
  rw [deriveMakefile, files_bind_apply, ite_apply] at hok
  cases hthere : w.fs.fileExists (makefilePath fn .infun) with
  | true =>
    rw [if_pos hthere] at hok
    have hcopy : readText (copyFile w.fs (makefilePath fn .infun) (makefilePath fn sep)) (makefilePath fn .infun) =
        some (variantMakefile h fn .infun) := by
      rw [readText, (frame_copyFile (T := (· = makefilePath fn sep)) rfl).read hne, ← readText]
      exact hdefault hthere
    cases hok
    rw [hend, hcopy]
    rfl
  | false =>
    rw [if_neg (by rw [hthere]; exact Bool.false_ne_true)] at hok
    obtain ⟨_, w₁, hcreate, hrest⟩ := bind_eq_ok.mp hok
    cases hrest
    rw [hend, readText_createMakefile hcreate]
    rfl

/-- What a call that makes an editable harness leaves in its makefile. -/
theorem readText_funCreate_makefile (hsep : sep.editable = true)
    (hnew : w.fs.fileExists (harnessPath fn sep) = false) (hdefault : DefaultMakefile h fn w.fs)
    (hok : deepstateFunCreate h installed fn sep w = .ok (some file) w') : readText w'.fs (makefilePath fn sep) =
      some (Text.unlines (makefileLines h fn sep (variantMakefile h fn .infun))) := by
  obtain ⟨_, _, _, ⟨hex, _⟩ | ⟨_, _, hr, _⟩ | ⟨_, _, _, log, w₁, text, hstep, hfs⟩⟩ := funCreate_cases hok
  · rw [hnew] at hex
    cases hex
  · cases hr
  · have hsame : DefaultMakefile h fn (withEmptyHarness w.fs fn sep) := by
      have hframe := @frame_withEmptyHarness fn sep w.fs
      rw [DefaultMakefile, hframe.fileExists not_emptyHarnessTouches_makefile, readText,
        hframe.read not_emptyHarnessTouches_makefile]
      exact hdefault
    rw [makefileStep, if_pos hsep] at hstep
    rw [hfs, readText, (frame_appendText (T := (· = harnessPath fn sep)) rfl _).read
      (makefilePath_ne_harnessPath fn fn sep sep), read_mkdir, ← readText]
    exact readText_deriveMakefile hsep hsame hstep

/-- The makefile of an editable harness is what would have been generated for it, the lines above the rules and
the rules for the files that compiling and fuzzing the harness look for, exactly when the package path and the
name of the function are on one line, no line above the rules ends in a carriage return, and the path of the
default harness does not occur above the rules. -/
theorem funCreate_makefile_iff (hsep : sep.editable = true)
    (hnew : w.fs.fileExists (harnessPath fn sep) = false) (hdefault : DefaultMakefile h fn w.fs)
    (hok : deepstateFunCreate h installed fn sep w = .ok (some file) w') :
    (∃ t, readText w'.fs (makefilePath fn sep) = some t ∧ t = variantMakefile h fn sep ∧
        t.lines = (makefileHead h ++ ['\n']).lines ++ harnessRules h fn sep) ↔
      h.packagePath.OneLine ∧ fn.OneLine ∧ '\r' ∉ makefileHead h ∧
        ¬ h.file (executablePath fn .infun) <:+: makefileHead h := by
  have hread := readText_funCreate_makefile hsep hnew hdefault hok
  constructor
  · rintro ⟨t, ht, htext, -⟩
    cases hread.symm.trans ht
    exact (unlines_makefileLines_eq_iff hsep).mp htext
  · intro hall
    refine ⟨_, hread, (unlines_makefileLines_eq_iff hsep).mpr hall, ?_⟩
    rw [(unlines_makefileLines_eq_iff hsep).mpr hall, lines_variantMakefile hall.1 hall.2.1]

end Call

theorem new_samplePackage : samplePackage.fs.fileExists (harnessPath "f" .generation) = false :=
  emptyDirectory_samplePackage "f" _ (List.prefix_append _ _) (by simp [harnessPath])

/-- The generation harness of `f` can be made on any host. -/
theorem funCreate_samplePackage {h : Host} (hg : h.globs ["src"] = true) :
    ∃ w', deepstateFunCreate h (sampleInstallation true) "f" .generation samplePackage =
      .ok (some (harnessFile "f" .generation)) w' :=
  funCreate_returns rfl hg exportsTable_samplePackage (by with_unfolding_all decide) (.inr (by with_unfolding_all decide))

theorem defaultMakefile_samplePackage (h : Host) : DefaultMakefile h "f" samplePackage.fs := by
  intro hthere
  have hnot := emptyDirectory_samplePackage "f" (makefilePath "f" .infun) (List.prefix_append _ _) (by simp [makefilePath])
  rw [hnot] at hthere
  cases hthere

theorem funCreate_makefile_sample : ∃ w',
    deepstateFunCreate sampleHost (sampleInstallation true) "f" .generation samplePackage =
      .ok (some (harnessFile "f" .generation)) w' ∧
    ((∃ t, readText w'.fs (makefilePath "f" .generation) = some t ∧
        t = variantMakefile sampleHost "f" .generation ∧
        t.lines = (makefileHead sampleHost ++ ['\n']).lines ++ harnessRules sampleHost "f" .generation) ↔
      sampleHost.packagePath.OneLine ∧ ("f" : Text).OneLine ∧ '\r' ∉ makefileHead sampleHost ∧
        ¬ sampleHost.file (executablePath "f" .infun) <:+: makefileHead sampleHost) := by
  obtain ⟨w', hok⟩ := funCreate_samplePackage (globs_sampleHost (by with_unfolding_all decide))
  exact ⟨w', hok, funCreate_makefile_iff rfl new_samplePackage (defaultMakefile_samplePackage sampleHost) hok⟩

/-- The paths of the toolchain. -/
def systemPaths (h : Host) : List Text :=
  [h.rHome, h.rInclude, h.rLib, h.rcppInclude, h.rcppdeepstateInclude, h.rcpparmadilloInclude, h.rinsideInclude,
    h.qsInclude, h.rinsideLib]

/-- A package in a directory with a line feed in its name. -/
def brokenHost : Host := { sampleHost with packagePath := "/home/user/my\npkg" }

/-- There the path of the default harness lies on two lines, and is replaced nowhere. -/
theorem funCreate_makefile_fails : ¬ ∀ (h : Host) (installed : Installation) (fn : Text) (sep : Sep) (w w' : World)
    (file : Text), sep.editable = true → (∀ p ∈ systemPaths h, ¬ h.file (executablePath fn .infun) <:+: p) →
      w.fs.fileExists (harnessPath fn sep) = false → DefaultMakefile h fn w.fs →
        deepstateFunCreate h installed fn sep w = .ok (some file) w' →
          ∃ t, readText w'.fs (makefilePath fn sep) = some t ∧ t.lines = (variantMakefile h fn sep).lines := by
  intro hall
  have hdefault := defaultMakefile_samplePackage brokenHost
  obtain ⟨w', hok⟩ := @funCreate_samplePackage brokenHost (by with_unfolding_all decide)
  obtain ⟨t, ht, hlines⟩ := hall _ _ _ _ _ _ _ rfl (by with_unfolding_all decide) new_samplePackage hdefault hok
  cases (readText_funCreate_makefile rfl new_samplePackage hdefault hok).symm.trans ht
  rw [lines_makefileLines] at hlines
  have htext := (congrArg Text.unlines hlines).trans (unlines_lines_variantMakefile
    (return_not_mem_variantMakefile_iff.mpr (by decide +kernel)))
  exact ((unlines_makefileLines_eq_iff rfl).mp htext).1.1 (by with_unfolding_all decide)

end RcppDeepState
