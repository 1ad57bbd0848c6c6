import RcppDeepState.Analysis.FuzzAnalyze
import RcppDeepState.Harness.TestNames

/-!
# The test that is fuzzed under valgrind

`deepstate_fuzz_fun_analyze` takes the name of the test from the first line of the harness that begins with
`TEST` and has `runner` behind it. Three lines can be that line: the prototype of the function, the header of
the generator test and the header of the runner test.
-/

namespace RcppDeepState

open Command FileSystem

/-! ## Lines of a text without tests -/

section Lines

variable {a b : Text}

/-- The first line begins the text, and every other one stands behind a line feed. -/
theorem splitLines_spec {t l : Text} {ls : List Text} (h : Text.splitLines t = l :: ls) :
    l <+: t ∧ ∀ m ∈ ls, '\n' :: m <:+: t := by
  induction t generalizing l ls with
  | nil => cases h
  | cons c t ih =>
      rw [Text.splitLines] at h
      split at h
      · rename_i hc
        subst hc
        obtain ⟨rfl, rfl⟩ := List.cons.inj h
        refine ⟨List.nil_prefix, fun m hm => ?_⟩
        cases hls : Text.splitLines t with
        | nil =>
            rw [hls] at hm
            cases hm
        | cons l ls =>
            obtain ⟨hl, hrest⟩ := ih hls
            rw [hls] at hm
            rcases List.mem_cons.mp hm with rfl | hm
            · exact (List.cons_prefix_cons.mpr ⟨rfl, hl⟩).isInfix
            · exact List.infix_cons (hrest m hm)
      · split at h
        · obtain ⟨rfl, rfl⟩ := List.cons.inj h
          exact ⟨⟨t, rfl⟩, by simp⟩
        · rename_i l' ls' hls
          obtain ⟨rfl, rfl⟩ := List.cons.inj h
          obtain ⟨hl, hrest⟩ := ih hls
          exact ⟨List.cons_prefix_cons.mpr ⟨rfl, hl⟩, fun m hm => List.infix_cons (hrest m hm)⟩

theorem isRunnerLine_head {l : Text} (h : isRunnerLine l = true) : ['T'] <+: l := by
  rw [isRunnerLine, Bool.and_eq_true, decide_eq_true_eq] at h
  exact List.IsPrefix.trans (by with_unfolding_all decide) h.1

/-- No line of an inner text is the line of a test. -/
theorem find?_lines_inner (ha : Inner a) (b : Text) :
    (Text.lines (a ++ '\n' :: b)).find? isRunnerLine = (Text.lines b).find? isRunnerLine := by
  have hinner : Inner (a ++ ['\n']) := ha.append (inner_of_check (by decide))
  rw [Text.lines_append_lines, List.find?_append]
  have hnone : (Text.lines (a ++ ['\n'])).find? isRunnerLine = none := by
    rw [List.find?_eq_none]
    intro l hl hline
    have hhead := isRunnerLine_head hline
    rw [Text.lines_of_no_return hinner.noReturn] at hl
    obtain ⟨m, ms, hms⟩ := List.exists_cons_of_ne_nil (List.ne_nil_of_mem hl)
    obtain ⟨hm, hrest⟩ := splitLines_spec hms
    rw [hms] at hl
    rcases List.mem_cons.mp hl with rfl | hl
    · obtain ⟨s, hs⟩ := hhead.trans hm
      exact hinner.head (by rw [← hs]; rfl)
    · exact hinner.indented ((List.cons_prefix_cons.mpr ⟨rfl, hhead⟩).isInfix.trans (hrest l hl))
  rw [hnone, Option.none_or]

/-- A single line is looked at before the rest. -/
theorem find?_lines_line {l : Text} (hl : l.OneLine) (b : Text) :
    (Text.lines (l ++ '\n' :: b)).find? isRunnerLine =
      if isRunnerLine l then some l else (Text.lines b).find? isRunnerLine := by
  rw [Text.lines_append_newline hl, List.find?_cons]
  cases isRunnerLine l <;> rfl

end Lines

/-! ## The name in a line -/

section Name

variable {u n : Text}

theorem splitOn_append_cons {p : Char → Bool} {a b : Text} {c : Char} (ha : ∀ x ∈ a, p x = false)
    (hc : p c = true) : splitOn p (a ++ c :: b) = a :: splitOn p b := by
  have hall : ∀ piece, splitFrom p piece (a ++ c :: b) = (piece ++ a) :: splitFrom p [] b := by
    induction a with
    | nil => intro piece; simp [splitFrom, hc]
    | cons x a ih =>
        intro piece
        rw [List.cons_append, splitFrom, ha x (by simp), if_neg (by simp), ih fun y hy => ha y (by simp [hy])]
        simp
  exact hall []

/-- The test that is read from a line. -/
def lineTest (l : Text) : Text :=
  pasted (splitOn isSeparator l)[1]? ++ "_" ++ pasted (splitOn isSeparator l)[3]?

theorem runnerName_eq (harness : Text) :
    runnerName harness = ((Text.lines harness).find? isRunnerLine).map lineTest := rfl

/-- The header of a test, without the line feeds around it. -/
def headerLine (u n : Text) : Text := "TEST(" ++ u ++ ", " ++ n ++ ")\x7b"

theorem testHeader_eq (u n : Text) : testHeader u n = '\n' :: '\n' :: (headerLine u n ++ ['\n']) := by
  simp [testHeader, headerLine, Text.ofString_eq]

theorem splitOn_headerLine (hu : ∀ c ∈ u, isSeparator c = false) (hn : ∀ c ∈ n, isSeparator c = false) :
    splitOn isSeparator (headerLine u n) = [("TEST" : Text), u, [], n, ['\x7b']] := by
  have htext : headerLine u n =
      ("TEST" : Text) ++ '(' :: (u ++ ',' :: ([] ++ ' ' :: (n ++ ')' :: ['\x7b']))) := by
    simp [headerLine, Text.ofString_eq]
  rw [htext, splitOn_append_cons (by with_unfolding_all decide) (by decide), splitOn_append_cons hu (by decide),
    splitOn_append_cons (by simp) (by decide), splitOn_append_cons hn (by decide)]
  rfl

theorem lineTest_headerLine (hu : ∀ c ∈ u, isSeparator c = false) (hn : ∀ c ∈ n, isSeparator c = false) :
    lineTest (headerLine u n) = u ++ "_" ++ n := by
  rw [lineTest, splitOn_headerLine hu hn]
  rfl

theorem oneLine_headerLine (hu : u.OneLine) (hn : n.OneLine) : (headerLine u n).OneLine := by
  simp [headerLine, Text.ofString_eq, hu, hn]

/-- The header of a test is taken for the runner when one of its names has `runner` in it. -/
theorem isRunnerLine_headerLine : isRunnerLine (headerLine u n) = true ↔
    ("runner" : Text) <:+: u ∨ ("runner" : Text) <:+: n := by
  have htext : headerLine u n = ("TEST" : Text) ++ ([] ++ '(' :: (u ++ ',' :: ([] ++ ' ' :: (n ++ ')' :: ['\x7b'])))) := by
    simp [headerLine, Text.ofString_eq]
  have hlen : ("TEST" : Text).length = 4 := by with_unfolding_all decide
  have hnone : ¬ ("runner" : Text) <:+: [] := by with_unfolding_all decide
  have hbrace : ¬ ("runner" : Text) <:+: ['\x7b'] := by with_unfolding_all decide
  rw [isRunnerLine, htext, List.drop_left' hlen, Bool.and_eq_true, decide_eq_true_eq, decide_eq_true_eq,
    and_iff_right (List.prefix_append _ _), Text.infix_append_cons_of_not_mem (by with_unfolding_all decide),
    Text.infix_append_cons_of_not_mem (by with_unfolding_all decide),
    Text.infix_append_cons_of_not_mem (by with_unfolding_all decide),
    Text.infix_append_cons_of_not_mem (by with_unfolding_all decide)]
  simp only [hnone, hbrace, false_or, or_false]

end Name

/-! ## The first line that fits -/

section Harness

variable {args : List Argument} {inputs fn prototype : Text} {packagename : Option Text}

/-- The line that is found in a harness. -/
def foundLine (u prototype : Text) : Text :=
  if isRunnerLine prototype then prototype
  else if ("runner" : Text) <:+: u then headerLine u "generator"
  else headerLine u "runner"

theorem runnerName_harnessText (hargs : ∀ a ∈ args, OnOneLine a) (sep : Sep) (hfn : fn.OneLine)
    (hp : prototype.OneLine) (hu : (unittest packagename).OneLine) (rest : Text) :
    runnerName (harnessText inputs packagename fn sep args prototype ++ rest) =
      some (lineTest (foundLine (unittest packagename) prototype)) := by
  obtain ⟨p, hpre, hpi⟩ := preambleText_eq sep hfn
  obtain ⟨t, ht, hti⟩ := printText_eq hargs
  have htext : harnessText inputs packagename fn sep args prototype ++ rest =
      (p ++ [';', '\n']) ++ '\n' :: (prototype ++ '\n' :: ((['\n'] ++ (generationComment sep args ++
        (inputsText args ++ (t ++ [';', '\n', '\n'])))) ++ '\n' :: (headerLine (unittest packagename) "generator" ++
          '\n' :: ((generatorBody ++ ['\x7d', '\n']) ++ '\n' :: (headerLine (unittest packagename) "runner" ++
            '\n' :: (runnerBody inputs fn sep args ++ '\n' :: '\x7d' :: rest)))))) := by
    have h₁ : ("\n\n" : Text) = ['\n', '\n'] := by with_unfolding_all decide
    have h₂ : ("\x7d" : Text) = ['\x7d'] := by with_unfolding_all decide
    have h₃ : ("\n\x7d" : Text) = ['\n', '\x7d'] := by with_unfolding_all decide
    simp only [harnessText, hpre, ht, h₁, h₂, h₃, testHeader_eq, List.append_assoc, List.cons_append, List.nil_append]
  have hbefore : Inner (p ++ [';', '\n']) := hpi.append (inner_of_check (by decide))
  have hmiddle : Inner (['\n'] ++ (generationComment sep args ++
      (inputsText args ++ (t ++ [';', '\n', '\n'])))) :=
    Inner.append (inner_of_check (by decide)) ((inner_generationComment hargs sep).append
      ((inner_inputsText hargs).append (hti.append (inner_of_check (by decide)))))
  have hgenerator : Inner (generatorBody ++ ['\x7d', '\n']) := inner_of_check (by with_unfolding_all decide)
  have hline : ∀ n : Text, n.OneLine → (headerLine (unittest packagename) n).OneLine :=
    fun n => oneLine_headerLine hu
  have hno : ¬ ("runner" : Text) <:+: ("generator" : Text) := by with_unfolding_all decide
  rw [runnerName_eq, htext, find?_lines_inner hbefore, find?_lines_line hp, find?_lines_inner hmiddle,
    find?_lines_line (hline _ (by with_unfolding_all decide)), find?_lines_inner hgenerator,
    find?_lines_line (hline _ (by with_unfolding_all decide)),
    if_pos (isRunnerLine_headerLine.mpr (Or.inr List.infix_rfl)), foundLine]
  by_cases hproto : isRunnerLine prototype = true
  · rw [if_pos hproto, if_pos hproto, Option.map_some]
  · rw [if_neg hproto, if_neg hproto]
    by_cases hname : ("runner" : Text) <:+: unittest packagename
    · rw [if_pos (isRunnerLine_headerLine.mpr (Or.inl hname)), if_pos hname, Option.map_some]
    · rw [if_neg fun h => (isRunnerLine_headerLine.mp h).elim hname hno, if_neg hname, Option.map_some]

end Harness

/-! ## Whether it is the runner -/

/-- The line that is found names the runner test: it is not the prototype, unless that names the test by
chance, and not the header of the generator. -/
def TellsRunner (u prototype : Text) : Prop :=
  if isRunnerLine prototype then
    (splitOn isSeparator prototype)[1]? = some u ∧ (splitOn isSeparator prototype)[3]? = some ("runner" : Text)
  else ¬ ("runner" : Text) <:+: u

section Found

variable {u prototype : Text}

theorem append_cons_inj_of_not_mem {a b r : Text} {c : Char} (hu : c ∉ u) (hr : c ∉ r) :
    a ++ c :: b = u ++ c :: r ↔ a = u ∧ b = r := by
  constructor
  · intro h
    rcases List.append_eq_append_iff.mp h with ⟨s, hs, hrest⟩ | ⟨s, hs, hrest⟩
    · cases s with
      | nil => simpa [eq_comm] using And.intro hs hrest
      | cons d s =>
          obtain ⟨rfl, -⟩ := List.cons.inj hrest
          rw [hs] at hu
          simp at hu
    · cases s with
      | nil => simpa [eq_comm] using And.intro hs hrest
      | cons d s =>
          obtain ⟨rfl, hrs⟩ := List.cons.inj hrest
          rw [hrs] at hr
          simp at hr
  · rintro ⟨rfl, rfl⟩
    rfl

/-- The name in a line is that of the runner only when its second and fourth pieces say so. -/
theorem lineTest_eq_runner_iff {l : Text} (hu : '_' ∉ u) : lineTest l = u ++ "_runner" ↔
    (splitOn isSeparator l)[1]? = some u ∧ (splitOn isSeparator l)[3]? = some ("runner" : Text) := by
  have hrunner : ("_runner" : Text) = '_' :: ("runner" : Text) := by with_unfolding_all decide
  have hbar : ("_" : Text) = ['_'] := by with_unfolding_all decide
  rw [lineTest, hrunner, hbar, List.append_assoc, List.singleton_append,
    append_cons_inj_of_not_mem hu (by with_unfolding_all decide)]
  generalize hparts : splitOn isSeparator l = parts
  constructor
  · rintro ⟨hone, hthree⟩
    cases h₃ : parts[3]? with
    | none =>
        rw [h₃] at hthree
        exact absurd hthree (by with_unfolding_all decide)
    | some n =>
        have hlen : 1 < parts.length := by
          obtain ⟨hlt, -⟩ := List.getElem?_eq_some_iff.mp h₃
          omega
        rw [List.getElem?_eq_getElem hlen] at hone ⊢
        rw [h₃] at hthree
        exact ⟨congrArg some hone, congrArg some hthree⟩
  · rintro ⟨hone, hthree⟩
    rw [hone, hthree]
    exact ⟨rfl, rfl⟩

theorem not_isSeparator_of_isAlphanum {c : Char} (hc : c.isAlphanum = true) : isSeparator c = false := by
  by_contra hsep
  simp only [isSeparator, Bool.not_eq_false, Bool.or_eq_true, decide_eq_true_eq] at hsep
  rcases hsep with ((((rfl | rfl) | rfl) | rfl) | rfl) | rfl <;> cases hc

theorem foundLine_tells_iff (hu : ∀ c ∈ u, c.isAlphanum = true) :
    lineTest (foundLine u prototype) = u ++ "_runner" ↔ TellsRunner u prototype := by
  have hplain := fun c hc => not_isSeparator_of_isAlphanum (hu c hc)
  have hbar : '_' ∉ u := fun hm => by cases hu _ hm
  rw [foundLine, TellsRunner]
  by_cases hproto : isRunnerLine prototype = true
  · rw [if_pos hproto, if_pos hproto, lineTest_eq_runner_iff hbar]
  · rw [if_neg hproto, if_neg hproto]
    by_cases hname : ("runner" : Text) <:+: u
    · rw [if_pos hname, lineTest_eq_runner_iff hbar, splitOn_headerLine hplain (by with_unfolding_all decide)]
      have hne : ("generator" : Text) ≠ "runner" := by with_unfolding_all decide
      exact iff_of_false (fun h => hne (Option.some.inj h.2)) (fun h => h hname)
    · rw [if_neg hname, lineTest_headerLine hplain (by with_unfolding_all decide)]
      have hend : u ++ "_" ++ "runner" = u ++ ("_runner" : Text) := by simp [Text.ofString_eq]
      exact iff_of_true hend hname

end Found

/-! ## The harness of a function -/

section Created

variable {h : PlainHost} {installed : Installation} {sep : Sep} {w w' : World} {file name : Text} {f : ExportsFile} {e : Export}

/-- The prototypes of an exported function are copies of one. -/
theorem prototypesOf_export (he : e ∈ f.exports) :
    ∃ ps, prototypesOf (f.exports.map (Details.ofExport f.symbol)) e.name = e.prototype :: ps := by
  have hall : ∀ p ∈ ((deepstateGetPrototypeCalls (f.exports.map (Details.ofExport f.symbol))).filter
      (·.funName = e.name)).map (·.prototype), p = e.prototype := by
    intro p hp
    obtain ⟨r, hr, rfl⟩ := List.mem_map.mp hp
    obtain ⟨hr, hname⟩ := List.mem_filter.mp hr
    rw [deepstateGetPrototypeCalls, List.mem_filterMap] at hr
    obtain ⟨i, -, hi⟩ := hr
    obtain ⟨d, hd, rfl⟩ := Option.map_eq_some_iff.mp hi
    obtain ⟨e', he', rfl⟩ := List.mem_map.mp (List.mem_of_getElem? hd)
    have hsame : e' = e := List.inj_on_of_nodup_map f.names_nodup he' he (of_decide_eq_true hname)
    rw [hsame]
    rfl
  have hne : ((deepstateGetPrototypeCalls (f.exports.map (Details.ofExport f.symbol))).filter
      (·.funName = e.name)).map (·.prototype) ≠ [] := by
    obtain ⟨i, hi, hie⟩ := List.mem_iff_getElem.mp he
    have hget : (f.exports.map (Details.ofExport f.symbol))[i % (f.exports.map (Details.ofExport f.symbol)).length]? =
        some (Details.ofExport f.symbol e) := by
      rw [List.length_map, Nat.mod_eq_of_lt hi, List.getElem?_map, List.getElem?_eq_getElem hi, hie, Option.map_some]
    have hrange : ∀ k, i ∈ List.range (max (f.exports.map (Details.ofExport f.symbol)).length k) := fun k =>
      List.mem_range.mpr (Nat.lt_of_lt_of_le (by rw [List.length_map]; exact hi) (Nat.le_max_left _ _))
    have hrow : ∃ calls, (⟨e.name, e.prototype, calls⟩ : PrototypeRow) ∈
        deepstateGetPrototypeCalls (f.exports.map (Details.ofExport f.symbol)) :=
      ⟨_, List.mem_filterMap.mpr ⟨i, hrange _, by rw [hget]; rfl⟩⟩
    obtain ⟨calls, hcalls⟩ := hrow
    exact List.ne_nil_of_mem (List.mem_map.mpr ⟨_, List.mem_filter.mpr ⟨hcalls, by simp⟩, rfl⟩)
  obtain ⟨p, ps, hps⟩ := List.exists_cons_of_ne_nil hne
  rw [hps] at hall
  refine ⟨ps, ?_⟩
  rw [prototypesOf, hps, hall p (by simp)]

/-- The test that is read from the harness is the runner test that the harness registers. -/
def FindsRunner (fs : FileSystem Content) (fn : Text) (sep : Sep) : Prop :=
  ∃ text test, readText fs (harnessPath fn sep) = some text ∧ runnerName text = some test ∧
    test ∈ registeredTests text ∧ ("_runner" : Text) <:+ test

/-- The line that is found in the harness of an exported function. -/
theorem runnerName_created (hread : readText w.fs rcppExportsPath = some f.text) (hname : NamesPackage w.fs name)
    (he : e ∈ f.exports) (hnew : w.fs.fileExists (harnessPath e.name sep) = false)
    (hok : deepstateFunCreate h installed e.name sep w = .ok (some file) w') :
    ∃ text, readText w'.fs (harnessPath e.name sep) = some text ∧
      runnerName text = some (lineTest (foundLine (name.filter (· ≠ '.')) e.prototype)) := by
  have hfn := e.name_ok.oneLine
  obtain ⟨htext, -⟩ := funCreate_text (exportsTable_of_file hread (List.ne_nil_of_mem he)) hnew hok
  obtain ⟨ps, hps⟩ := prototypesOf_export he
  have hline : (unittest (some name)).OneLine := by
    have hlegal : name.OneLine := ⟨hname.not_mem (by decide), hname.not_mem (by decide)⟩
    rw [unittest_eq]
    exact hlegal.of_subset (List.filter_subset_self _)
  refine ⟨_, htext, ?_⟩
  rw [hps, List.map_cons, Text.unlines_cons, packageNameIn_eq hname, ← unittest_eq]
  exact runnerName_harnessText (fun a ha => (onOneLine_argumentsOf ha).1) sep hfn Export.oneLine_prototype
    hline _

theorem NamesPackage.unittest_legal {fs : FileSystem Content} (hname : NamesPackage fs name) :
    ∀ c ∈ name.filter (· ≠ '.'), c.isAlphanum = true := by
  intro c hc
  obtain ⟨hc, hdot⟩ := List.mem_filter.mp hc
  exact (hname.legal c hc).resolve_right (by simpa using hdot)

theorem findsRunner_created_iff (hread : readText w.fs rcppExportsPath = some f.text)
    (hname : NamesPackage w.fs name) (he : e ∈ f.exports)
    (hnew : w.fs.fileExists (harnessPath e.name sep) = false)
    (hok : deepstateFunCreate h installed e.name sep w = .ok (some file) w') :
    FindsRunner w'.fs e.name sep ↔ TellsRunner (name.filter (· ≠ '.')) e.prototype := by
  obtain ⟨text, htext, hmem⟩ := registeredTests_created hread hname hnew hok
  obtain ⟨text', htext', hfound⟩ := runnerName_created hread hname he hnew hok
  cases htext.symm.trans htext'
  rw [← foundLine_tells_iff hname.unittest_legal]
  constructor
  · rintro ⟨text', test, htext'', htest, hreg, hsuffix⟩
    cases htext.symm.trans htext''
    cases hfound.symm.trans htest
    refine ((hmem _).mp hreg).resolve_left fun hgen => ?_
    rw [hgen] at hsuffix
    have hends : ("_runner" : Text) <:+ ("_generator" : Text) :=
      List.suffix_of_suffix_length_le hsuffix (List.suffix_append _ _) (by with_unfolding_all decide)
    exact absurd hends (by with_unfolding_all decide)
  · intro hrunner
    exact ⟨text, _, htext, hfound, (hmem _).mpr (Or.inr hrunner), hrunner ▸ List.suffix_append _ _⟩

/-- In the harness of a function the runner test is found exactly when neither the prototype nor the header of
the generator is taken for its line; in a package with `runner` in its name it is the generator test. -/
theorem findsRunner_iff (hread : readText w.fs rcppExportsPath = some f.text) (hname : NamesPackage w.fs name)
    (he : e ∈ f.exports) (hnew : w.fs.fileExists (harnessPath e.name sep) = false)
    (hok : deepstateFunCreate h installed e.name sep w = .ok (some file) w') :
    (FindsRunner w'.fs e.name sep ↔ TellsRunner (name.filter (· ≠ '.')) e.prototype) ∧
      (isRunnerLine e.prototype = false → ("runner" : Text) <:+: name.filter (· ≠ '.') →
        ∃ text, readText w'.fs (harnessPath e.name sep) = some text ∧
          runnerName text = some (name.filter (· ≠ '.') ++ "_" ++ "generator")) := by
  refine ⟨findsRunner_created_iff hread hname he hnew hok, fun hproto hrunner => ?_⟩
  obtain ⟨text, htext, hfound⟩ := runnerName_created hread hname he hnew hok
  have hplain := fun c hc => not_isSeparator_of_isAlphanum (hname.unittest_legal c hc)
  refine ⟨text, htext, ?_⟩
  rw [hfound, foundLine, if_neg (by rw [hproto]; exact Bool.false_ne_true), if_pos hrunner,
    lineTest_headerLine hplain (by with_unfolding_all decide)]

end Created

theorem findsRunner_sample : ∃ w', deepstateFunCreate sampleHost (sampleInstallation true) "f" .infun (namedPackage "pkg") =
      .ok (some (harnessFile "f" .infun)) w' ∧
    (FindsRunner w'.fs "f" .infun ↔ TellsRunner (("pkg" : Text).filter (· ≠ '.')) sampleExport.prototype) := by
  obtain ⟨hnew, w', hok⟩ := funCreate_namedPackage "pkg"
  have hin : sampleExport ∈ sampleExports.exports := by simp [sampleExports]
  exact ⟨w', hok, (findsRunner_iff (h := plainSampleHost) (readExports_namedPackage _)
    (namesPackage_namedPackage (by with_unfolding_all decide)) hin hnew hok).1⟩

/-- In a package called `testrunner` the generator test is taken for the runner. -/
theorem findsRunner_fails : ¬ ∀ (h : Host) (installed : Installation) (sep : Sep) (w w' : World) (file name : Text)
    (f : ExportsFile) (e : Export), readText w.fs rcppExportsPath = some f.text → NamesPackage w.fs name →
      e ∈ f.exports → w.fs.fileExists (harnessPath e.name sep) = false →
        deepstateFunCreate h installed e.name sep w = .ok (some file) w' → FindsRunner w'.fs e.name sep := by
  intro hall
  have hname : NamesPackage (namedPackage "testrunner").fs "testrunner" :=
    namesPackage_namedPackage (by with_unfolding_all decide)
  have hin : sampleExport ∈ sampleExports.exports := by simp [sampleExports]
  obtain ⟨hnew, w', hok⟩ := funCreate_namedPackage "testrunner"
  have htells := (findsRunner_created_iff (h := plainSampleHost) (readExports_namedPackage _) hname hin hnew hok).mp
    (hall _ _ _ _ _ _ _ _ _ (readExports_namedPackage _) hname hin hnew hok)
  rw [TellsRunner, if_neg (by with_unfolding_all decide)] at htells
  exact htells (by with_unfolding_all decide)

end RcppDeepState
