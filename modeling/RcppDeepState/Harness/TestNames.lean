import RcppDeepState.Analysis.Analyze
import RcppDeepState.Harness.Lemmas.Lines
import RcppDeepState.Package.Accounting

/-!
# Test names

The names under which a harness registers its tests, read from its text, and the names that fuzzing and
analysing pass to it.
-/

namespace RcppDeepState

open Command FileSystem

/-! ## The tests of a text -/

/-- `TEST(c, n)` registers `c_n`; the text begins behind the parenthesis. -/
def testName (t : Text) : Text :=
  t.takeWhile (· ≠ ',') ++ "_" ++ ((t.dropWhile (· ≠ ',')).drop 2).takeWhile (· ≠ ')')

/-- What begins a test at the start of a line. -/
def testStart : Text := "\nTEST("

theorem testStart_eq : testStart = ['\n', 'T', 'E', 'S', 'T', '('] := by with_unfolding_all decide

/-- The names of the tests that begin a line. -/
def registeredTests : Text → List Text
  | [] => []
  | c :: t => if testStart <+: c :: t then testName (t.drop 5) :: registeredTests t else registeredTests t

section Scan

variable {a b t : Text} {c : Char}

theorem registeredTests_cons (h : ¬ testStart <+: c :: t) : registeredTests (c :: t) = registeredTests t := by
  rw [registeredTests, if_neg h]

/-- A text without tests that ends before a character of no test is passed over. -/
theorem registeredTests_skip (hc : c ∉ testStart) (ha : ¬ testStart <:+: a) :
    registeredTests (a ++ c :: b) = registeredTests b := by
  induction a with
  | nil =>
      refine registeredTests_cons fun hp => hc ?_
      rw [testStart_eq] at hp ⊢
      obtain ⟨rfl, _⟩ := List.cons_prefix_cons.mp hp
      simp
  | cons x a ih =>
      rw [List.cons_append, registeredTests_cons, ih (fun hi => ha (List.infix_cons hi))]
      rw [← List.cons_append, Text.prefix_append_cons_of_not_mem hc]
      exact fun hp => ha hp.isInfix

theorem takeWhile_append_cons {p : Char → Bool} (ha : ∀ x ∈ a, p x = true) (hc : p c = false) :
    (a ++ c :: b).takeWhile p = a := by
  rw [List.takeWhile_append_of_pos ha, List.takeWhile_cons_of_neg (by simp [hc]), List.append_nil]

theorem dropWhile_append_cons {p : Char → Bool} (ha : ∀ x ∈ a, p x = true) (hc : p c = false) :
    (a ++ c :: b).dropWhile p = c :: b := by
  rw [List.dropWhile_append_of_pos ha, List.dropWhile_cons_of_neg (by simp [hc])]

theorem testName_header {u n : Text} (hu : ',' ∉ u) (hn : ')' ∉ n) (t : Text) :
    testName (u ++ ',' :: ' ' :: (n ++ ')' :: t)) = u ++ "_" ++ n := by
  have hcomma : ∀ x ∈ u, decide (x ≠ ',') = true := by
    intro x hx
    simpa using fun h : x = ',' => hu (h ▸ hx)
  have hparen : ∀ x ∈ n, decide (x ≠ ')') = true := by
    intro x hx
    simpa using fun h : x = ')' => hn (h ▸ hx)
  rw [testName, takeWhile_append_cons hcomma (by decide), dropWhile_append_cons hcomma (by decide)]
  rw [List.drop_succ_cons, List.drop_succ_cons, List.drop_zero, takeWhile_append_cons hparen (by decide)]

theorem not_testStart_of_newline (ha : '\n' ∉ a) : ¬ testStart <:+: a :=
  fun hi => ha (hi.subset (by with_unfolding_all decide))

/-- A header registers its test. -/
theorem registeredTests_header {u n : Text} (hu : ',' ∉ u) (hul : '\n' ∉ u) (hn : ')' ∉ n)
    (hnl : '\n' ∉ n) (t : Text) :
    registeredTests (testHeader u n ++ t) = (u ++ "_" ++ n) :: registeredTests ('\n' :: t) := by
  have htext : testHeader u n ++ t =
      '\n' :: '\n' :: (("TEST(" : Text) ++ (u ++ ',' :: ' ' :: (n ++ ')' :: '\x7b' :: '\n' :: t))) := by
    simp [testHeader, Text.ofString_eq]
  have hstart : '\n' :: (("TEST(" : Text) ++ (u ++ ',' :: ' ' :: (n ++ ')' :: '\x7b' :: '\n' :: t))) =
      testStart ++ (u ++ ',' :: ' ' :: (n ++ ')' :: '\x7b' :: '\n' :: t)) := by
    simp [testStart, Text.ofString_eq]
  have hline : ("TEST(" : Text) ++ (u ++ ',' :: ' ' :: (n ++ ')' :: '\x7b' :: '\n' :: t)) =
      (("TEST(" : Text) ++ (u ++ ',' :: ' ' :: (n ++ [')']))) ++ '\x7b' :: '\n' :: t := by
    simp
  have hquiet : ¬ testStart <:+: ("TEST(" : Text) ++ (u ++ ',' :: ' ' :: (n ++ [')'])) := by
    refine not_testStart_of_newline ?_
    have hfixed : '\n' ∉ ("TEST(" : Text) := by with_unfolding_all decide
    simp [hfixed, hul, hnl]
  have hdrop : (("TEST(" : Text) ++ (u ++ ',' :: ' ' :: (n ++ ')' :: '\x7b' :: '\n' :: t))).drop 5 =
      u ++ ',' :: ' ' :: (n ++ ')' :: '\x7b' :: '\n' :: t) :=
    List.drop_left' (by with_unfolding_all decide)
  rw [htext, registeredTests_cons (by rw [testStart_eq]; simp), registeredTests,
    if_pos (by rw [hstart]; exact List.prefix_append _ _), hdrop, testName_header hu hn, hline,
    registeredTests_skip (by with_unfolding_all decide) hquiet]

end Scan

/-! ## Texts without tests -/

/-- No line of the text but the first starts with a `T`. -/
def Indented (t : Text) : Prop := ¬ ['\n', 'T'] <:+: t

theorem not_testStart_of_indented {t : Text} (h : Indented t) : ¬ testStart <:+: t := by
  intro hi
  refine h (List.IsInfix.trans ?_ hi)
  rw [testStart_eq]
  exact ⟨[], ['E', 'S', 'T', '('], rfl⟩

section Indented

variable {a b : Text}

theorem Indented.append (ha : Indented a) (hb : Indented b) (h : b.head? ≠ some 'T') : Indented (a ++ b) := by
  induction a with
  | nil => exact hb
  | cons x a ih =>
      intro hi
      rcases List.infix_cons_iff.mp hi with hp | hi
      · obtain ⟨rfl, hrest⟩ := List.cons_prefix_cons.mp hp
        cases a with
        | nil =>
            cases b with
            | nil => cases List.prefix_nil.mp hrest
            | cons y b =>
                obtain ⟨rfl, _⟩ := List.cons_prefix_cons.mp hrest
                exact h rfl
        | cons y a =>
            obtain ⟨rfl, _⟩ := List.cons_prefix_cons.mp hrest
            exact ha ⟨[], a, rfl⟩
      · exact ih (fun hi' => ha (List.infix_cons hi')) hi

theorem indented_of_newline (ha : '\n' ∉ a) : Indented a :=
  fun hi => ha (hi.subset (by simp))

/-- A text that fits behind every other one. -/
structure Inner (t : Text) : Prop where
  indented : Indented t
  head : t.head? ≠ some 'T'
  noReturn : '\r' ∉ t

/-- No two neighbours are a line feed and a `T` and none is a carriage return, when the text stands behind `x`. -/
def innerCheck (x : Char) : Text → Bool
  | [] => true
  | y :: t => (x ≠ '\n' || y ≠ 'T') && y ≠ '\r' && innerCheck y t

theorem not_infix_of_innerCheck {x : Char} (h : innerCheck x a = true) : ¬ ['\n', 'T'] <:+: x :: a := by
  induction a generalizing x with
  | nil =>
      intro hi
      have := hi.length_le
      simp at this
  | cons y t ih =>
      rw [innerCheck, Bool.and_eq_true] at h
      intro hi
      rcases List.infix_cons_iff.mp hi with hp | hi
      · obtain ⟨rfl, hrest⟩ := List.cons_prefix_cons.mp hp
        obtain ⟨rfl, _⟩ := List.cons_prefix_cons.mp hrest
        simp at h
      · exact ih h.2 hi

theorem noReturn_of_innerCheck {x : Char} (h : innerCheck x a = true) : '\r' ∉ a := by
  induction a generalizing x with
  | nil => exact List.not_mem_nil
  | cons y t ih =>
      simp only [innerCheck, Bool.and_eq_true, decide_eq_true_eq] at h
      rw [List.mem_cons, not_or]
      exact ⟨Ne.symm h.1.2, ih h.2⟩

theorem inner_of_check (h : innerCheck '\n' a = true) : Inner a := by
  have hall := not_infix_of_innerCheck h
  refine ⟨fun hi => hall (List.infix_cons hi), ?_, noReturn_of_innerCheck h⟩
  cases a with
  | nil => simp
  | cons y t =>
      intro hy
      cases hy
      exact hall ⟨[], t, rfl⟩

theorem Inner.append (ha : Inner a) (hb : Inner b) : Inner (a ++ b) := by
  refine ⟨ha.indented.append hb.indented hb.head, ?_, by simp [ha.noReturn, hb.noReturn]⟩
  cases a with
  | nil => exact hb.head
  | cons x a => exact ha.head

theorem inner_nil : Inner [] := inner_of_check rfl

theorem inner_flatMap {α : Type} {xs : List α} {f : α → Text} (hf : ∀ x ∈ xs, Inner (f x)) :
    Inner (xs.flatMap f) := by
  induction xs with
  | nil => exact inner_nil
  | cons x xs ih =>
      rw [List.flatMap_cons]
      exact (hf x (by simp)).append (ih fun y hy => hf y (by simp [hy]))

theorem Indented.of_prefix (hb : Indented b) (h : a <+: b) : Indented a := fun hi => hb (hi.trans h.isInfix)

theorem inner_unlines {ls : List Text} (h : ∀ l ∈ ls, l.OneLine ∧ l.head? ≠ some 'T') :
    Inner (Text.unlines ls) := by
  refine inner_flatMap fun l hl => ?_
  obtain ⟨hn, hhead⟩ := h l hl
  refine ⟨(indented_of_newline hn.1).append (inner_of_check (a := ['\n']) (by decide)).indented (by decide), ?_,
    by simp [hn.2]⟩
  cases l with
  | nil => decide
  | cons c l => exact hhead

end Indented

/-! ## The parts of a harness -/

section Parts

variable {a : Argument}

theorem inner_rangeComment (ha : OnOneLine a) : Inner (rangeComment a) := by
  unfold rangeComment
  split
  · rename_i args hargs
    have hlines : ("// RcppDeepState_" : Text) ++ a.key ++ args ++ "\n" =
        Text.unlines [("// RcppDeepState_" : Text) ++ a.key ++ args] := by
      simp [Text.ofString_eq]
    rw [hlines]
    refine inner_unlines fun l hl => ?_
    rw [List.mem_singleton.mp hl]
    exact ⟨by simp [Text.ofString_eq, ha.key, oneLine_args hargs], by simp [Text.ofString_eq]⟩
  · exact inner_nil

theorem inner_variableText (ha : OnOneLine a) : Inner (variableText a) := by
  rw [variableText_eq, continued_eq_unlines]
  refine inner_unlines fun l hl => ?_
  obtain ⟨r, hr, rfl⟩ := List.mem_map.mp hl
  obtain ⟨hn, t, rfl⟩ := mem_declarationLines ha hr
  simpa using hn

theorem inner_saveInputs {inputs : Text} (hi : inputs.OneLine) (ha : OnOneLine a) :
    Inner (("  " : Text) ++ saveInputs inputs a) := by
  have hlines : ∃ ls, ("  " : Text) ++ saveInputs inputs a = Text.unlines ls ∧
      ∀ l ∈ ls, l.OneLine ∧ l.head? ≠ some 'T' := by
    unfold saveInputs
    split
    · refine ⟨["  std::ofstream " ++ a.name ++ "_stream;",
        "  " ++ a.name ++ "_stream.open(\"" ++ inputs ++ "/" ++ a.name ++ "\" );",
        "  " ++ a.name ++ "_stream << " ++ a.name ++ ";", "  " ++ a.name ++ "_stream.close(); "], ?_, ?_⟩
      · simp [Text.ofString_eq]
      · simp [Text.ofString_eq, ha.name, hi]
    · refine ⟨["  qs::c_qsave(" ++ a.name ++ ",\"" ++ inputs ++ "/" ++ a.name ++ ".qs\",",
        "\t\t\"high\", \"zstd\", 1, 15, true, 1);"], ?_, ?_⟩
      · simp [Text.ofString_eq]
      · simp [Text.ofString_eq, ha.name, hi]
  obtain ⟨ls, hls, hall⟩ := hlines
  rw [hls]
  exact inner_unlines hall

theorem inner_printValue (ha : OnOneLine a) : Inner (printValue a) := by
  have hlines : printValue a =
      Text.unlines ["  std::cout << \"" ++ a.name ++ " values: \" << " ++ a.name ++ " << std::endl; \\"] := by
    simp [printValue, Text.ofString_eq]
  rw [hlines]
  exact inner_unlines (by simp [Text.ofString_eq, ha.name])

end Parts

theorem dropSuffix_initial (suffix t : Text) : dropSuffix suffix t <+: t := by
  unfold dropSuffix
  split
  · exact List.take_prefix _ _
  · exact List.prefix_rfl

/-- A line feed before a header begins no test. -/
theorem registeredTests_cons_newline (u n t : Text) :
    registeredTests ('\n' :: (testHeader u n ++ t)) = registeredTests (testHeader u n ++ t) := by
  refine registeredTests_cons ?_
  rw [testStart_eq, testHeader]
  simp [Text.ofString_eq]

section Harness

variable {args : List Argument} (hargs : ∀ a ∈ args, OnOneLine a)

include hargs

theorem inner_generationComment (sep : Sep) : Inner (generationComment sep args) := by
  unfold generationComment
  split
  · refine Inner.append (inner_of_check (by with_unfolding_all decide)) ?_
    exact inner_flatMap fun a ha => inner_rangeComment (hargs a ha)
  · exact inner_nil

theorem inner_inputsText : Inner (inputsText args) := by
  have hall : Inner ("#define INPUTS \\\n" ++ args.flatMap variableText) :=
    Inner.append (inner_of_check (by with_unfolding_all decide))
      (inner_flatMap fun a ha => inner_variableText (hargs a ha))
  refine ⟨hall.indented.of_prefix (dropSuffix_initial _ _), ?_,
    fun hr => hall.noReturn ((dropSuffix_initial _ _).subset hr)⟩
  intro hhead
  refine hall.head ?_
  obtain ⟨t, ht⟩ := dropSuffix_initial "\\\n" ("#define INPUTS \\\n" ++ args.flatMap variableText)
  rw [← ht]
  unfold inputsText at hhead
  rw [List.head?_append, hhead]
  rfl

/-- The values to print, without the last line feed. -/
theorem printText_eq : ∃ t, printText args = t ++ [';', '\n'] ∧ Inner t := by
  refine ⟨"\n\n#define PRINT_INPUTS \\\n  std::cout << \"input starts\" << std::endl;\\\n" ++
    args.flatMap printValue ++ "  std::cout << \"input ends\" << std::endl", ?_, ?_⟩
  · simp [printText, Text.ofString_eq]
  · refine Inner.append (Inner.append (inner_of_check (by with_unfolding_all decide)) ?_)
      (inner_of_check (by with_unfolding_all decide))
    exact inner_flatMap fun a ha => inner_printValue (hargs a ha)

/-- What stands between the prototype and the first test. -/
theorem not_testStart_middle {prototype t : Text} (sep : Sep) (hp : '\n' ∉ prototype)
    (hstart : ¬ ("TEST(" : Text) <+: prototype) (ht : Inner t) :
    ¬ testStart <:+: '\n' :: '\n' ::
      (prototype ++ '\n' :: '\n' :: (generationComment sep args ++ (inputsText args ++ t))) := by
  have hrest : Inner ('\n' :: '\n' :: (generationComment sep args ++ (inputsText args ++ t))) := by
    have hclosed : Inner ['\n', '\n'] := inner_of_check (by decide)
    exact hclosed.append ((inner_generationComment hargs sep).append ((inner_inputsText hargs).append ht))
  have hall := (indented_of_newline hp).append hrest.indented hrest.head
  have hone : testStart = '\n' :: ("TEST(" : Text) := by with_unfolding_all decide
  intro hi
  rcases List.infix_cons_iff.mp hi with hpre | hi
  · rw [testStart_eq] at hpre
    simp at hpre
  · rcases List.infix_cons_iff.mp hi with hpre | hi
    · rw [hone] at hpre
      have hin := (List.cons_prefix_cons.mp hpre).2
      rw [Text.prefix_append_cons_of_not_mem (by with_unfolding_all decide)] at hin
      exact hstart hin
    · exact not_testStart_of_indented hall hi

omit hargs in
theorem oneLine_protoArg {a : Argument} (ha : OnOneLine a) : (protoArg a).OneLine := by
  unfold protoArg
  split
  · simp [Text.ofString_eq, ha.name]
  · split <;> simp [Text.ofString_eq, ha.name]

theorem oneLine_callArguments : Text.OneLine (dropSuffix "," (args.flatMap protoArg)) := by
  have hall := Text.oneLine_flatMap fun a ha => oneLine_protoArg (hargs a ha)
  exact hall.of_subset (dropSuffix_initial _ _).subset

theorem inner_callText {fn : Text} (hfn : fn.OneLine) : Inner (("    " : Text) ++ callText fn args) := by
  have hcall := oneLine_callArguments hargs
  have hlines : ("    " : Text) ++ callText fn args =
      Text.unlines ["    " ++ fn ++ "(" ++ dropSuffix "," (args.flatMap protoArg) ++ ");"] := by
    simp [callText, Text.ofString_eq]
  rw [hlines]
  refine inner_unlines fun l hl => ?_
  rw [List.mem_singleton.mp hl]
  refine ⟨?_, by simp [Text.ofString_eq]⟩
  simp only [Text.oneLine_append]
  exact ⟨⟨⟨⟨by with_unfolding_all decide, hfn⟩, by with_unfolding_all decide⟩, hcall⟩, by with_unfolding_all decide⟩

theorem inner_runnerBody {inputs fn : Text} (sep : Sep) (hinputs : inputs.OneLine) (hfn : fn.OneLine) :
    Inner (runnerBody inputs fn sep args) := by
  have hassert : Inner (assertComment sep) := by
    cases sep <;> exact inner_of_check (by with_unfolding_all decide)
  have htext : runnerBody inputs fn sep args =
      ("  INPUTS\n  PRINT_INPUTS\n" : Text) ++ (inputsDump inputs args ++
        (("  try\x7b\n" : Text) ++ ((("    " : Text) ++ callText fn args) ++ (assertComment sep ++
          "  \x7dcatch(Rcpp::exception& e)\x7b\n    std::cout<<\"Exception Handled\"<<std::endl;\n  \x7d")))) := by
    simp [runnerBody, Text.ofString_eq]
  rw [htext]
  refine Inner.append (inner_of_check (by with_unfolding_all decide)) (Inner.append ?_
    (Inner.append (inner_of_check (by with_unfolding_all decide))
      ((inner_callText hargs hfn).append (hassert.append (inner_of_check (by with_unfolding_all decide))))))
  exact inner_flatMap fun a ha => inner_saveInputs hinputs (hargs a ha)

omit hargs in
theorem preambleText_eq {fn : Text} (sep : Sep) (hfn : fn.OneLine) :
    ∃ t, preambleText fn sep = t ++ [';', '\n', '\n'] ∧ Inner t := by
  have hheaders : Inner (headers ++ "RInside Rinstance") :=
    (inner_of_check (by with_unfolding_all decide))
  have hcomment : Inner (generatedComment fn) := by
    have hlines : generatedComment fn = Text.unlines
        ["// AUTOMATICALLY GENERATED BY RCPPDEEPSTATE PLEASE DONOT EDIT BY HAND, INSTEAD EDIT",
          "// " ++ fn ++ "_DeepState_TestHarness_generation.cpp and " ++ fn ++ "_DeepState_TestHarness_checks.cpp",
          []] := by
      simp [generatedComment, Text.ofString_eq]
    rw [hlines]
    exact inner_unlines (by simp [Text.ofString_eq, hfn])
  have hend : ("RInside Rinstance;\n\n" : Text) = ("RInside Rinstance" : Text) ++ [';', '\n', '\n'] := by
    with_unfolding_all decide
  unfold preambleText
  rw [hend]
  split
  · exact ⟨_, (List.append_assoc _ _ _).symm, hheaders⟩
  · refine ⟨generatedComment fn ++ (headers ++ "RInside Rinstance"), by simp only [List.append_assoc], ?_⟩
    exact hcomment.append hheaders

/-- A harness registers a generator test and a runner test. -/
theorem registeredTests_harnessText {inputs fn prototype : Text} {packagename : Option Text} (sep : Sep)
    (hinputs : inputs.OneLine) (hfn : fn.OneLine) (hp : '\n' ∉ prototype)
    (hstart : ¬ ("TEST(" : Text) <+: prototype) (hcomma : ',' ∉ unittest packagename)
    (hline : '\n' ∉ unittest packagename) (rest : Text) :
    registeredTests (harnessText inputs packagename fn sep args prototype ++ rest) =
      [unittest packagename ++ "_generator", unittest packagename ++ "_runner"] ++ registeredTests rest := by
  obtain ⟨p, hpre, hpi⟩ := preambleText_eq sep hfn
  obtain ⟨t, ht, hti⟩ := printText_eq hargs
  have hbody : Inner generatorBody := inner_of_check (by with_unfolding_all decide)
  have hrunner := inner_runnerBody hargs sep hinputs hfn
  have hnl : Inner ['\n'] := inner_of_check (by decide)
  have htext : harnessText inputs packagename fn sep args prototype ++ rest =
      p ++ ';' :: (('\n' :: '\n' :: (prototype ++ '\n' :: '\n' :: (generationComment sep args ++
        (inputsText args ++ t)))) ++ ';' :: '\n' :: (testHeader (unittest packagename) "generator" ++
          (generatorBody ++ '\x7d' :: (testHeader (unittest packagename) "runner" ++
            ((runnerBody inputs fn sep args ++ ['\n']) ++ '\x7d' :: rest))))) := by
    have h₁ : ("\n\n" : Text) = ['\n', '\n'] := by with_unfolding_all decide
    have h₂ : ("\x7d" : Text) = ['\x7d'] := by with_unfolding_all decide
    have h₃ : ("\n\x7d" : Text) = ['\n', '\x7d'] := by with_unfolding_all decide
    simp only [harnessText, hpre, ht, h₁, h₂, h₃, List.append_assoc, List.cons_append, List.nil_append]
  have hsemi : ';' ∉ testStart := by with_unfolding_all decide
  have hbrace : '\x7d' ∉ testStart := by with_unfolding_all decide
  rw [htext, registeredTests_skip hsemi (not_testStart_of_indented hpi.indented),
    registeredTests_skip hsemi (not_testStart_middle hargs sep hp hstart hti)]
  have hgenerator : ¬ testStart <:+: '\n' :: generatorBody :=
    not_testStart_of_indented (hnl.append hbody).indented
  have hrun : ¬ testStart <:+: '\n' :: (runnerBody inputs fn sep args ++ ['\n']) :=
    not_testStart_of_indented (hnl.append (hrunner.append hnl)).indented
  rw [registeredTests_cons_newline, registeredTests_header hcomma hline (by with_unfolding_all decide) (by with_unfolding_all decide),
    ← List.cons_append, registeredTests_skip hbrace hgenerator,
    registeredTests_header hcomma hline (by with_unfolding_all decide) (by with_unfolding_all decide),
    ← List.cons_append, registeredTests_skip hbrace hrun]
  have hg : ("_" : Text) ++ "generator" = ("_generator" : Text) := by with_unfolding_all decide
  have hr : ("_" : Text) ++ "runner" = ("_runner" : Text) := by with_unfolding_all decide
  rw [List.append_assoc, List.append_assoc, hg, hr]
  rfl

end Harness

/-! ## The package name -/

/-- The DESCRIPTION file has the line `Package: name` for a legal name. -/
structure NamesPackage (fs : FileSystem Content) (name : Text) : Prop where
  line : ∃ description, readText fs descriptionPath = some description ∧
    description.lines.find? (fun l => decide (("Package:" : Text) <+: l)) = some ("Package: " ++ name)
  legal : ∀ c ∈ name, c.isAlphanum = true ∨ c = '.'

section Name

variable {fs : FileSystem Content} {name : Text}

theorem NamesPackage.not_mem {c : Char} (h : NamesPackage fs name)
    (hc : (c.isAlphanum || decide (c = '.')) = false) : c ∉ name := by
  intro hm
  rw [Bool.or_eq_false_iff, decide_eq_false_iff_not] at hc
  rcases h.legal c hm with ha | rfl
  · rw [ha] at hc
    cases hc.1
  · exact hc.2 rfl

theorem packageNameIn_eq (h : NamesPackage fs name) : packageNameIn fs = some name := by
  obtain ⟨description, hread, hfind⟩ := h.line
  have hname : ¬ ("Package: " : Text) <:+: name := by
    intro hi
    exact h.not_mem (c := ' ') (by decide) (hi.subset (by with_unfolding_all decide))
  rw [packageNameIn, hread, Option.bind_some, packageNameOf, hfind, Option.map_some,
    Text.gsub_prefix (by with_unfolding_all decide), Text.gsub_of_not_infix hname, List.nil_append]

theorem unittest_eq (name : Text) : unittest (some name) = name.filter (· ≠ '.') := by
  have hdot : ("." : Text) = ['.'] := by with_unfolding_all decide
  rw [unittest, hdot, Text.gsub_singleton_nil]
  rfl

end Name

/-! ## The file of a harness -/

section Create

variable {h : Host} {installed : Installation} {packagename : Option Text} {fn : Text} {sep : Sep}
  {args : List Argument} {prototypes : List Text} {w w' : World} {file : Text}

/-- What is in the file of a harness that was filled. -/
theorem createHarness_text
    (hok : createHarness h installed packagename fn sep args prototypes w = .ok (some file) w') :
    readText w'.fs (harnessPath fn sep) = some (Text.unlines
      (prototypes.map (harnessText (h.file (inputsPath fn)) packagename fn sep args))) ∧ args ≠ [] := by
  rw [createHarness_apply] at hok
  obtain ⟨_, w₁, hstep, hfill⟩ := bind_eq_ok.mp hok
  have hread : readText w₁.fs (harnessPath fn sep) = some [] := by
    have heff := @effects_makefileStep h installed fn sep { w with fs := withEmptyHarness w.fs fn sep }
    rw [final_of_ok hstep] at heff
    rw [readText, heff.frame.read (p := harnessPath fn sep) (@not_stepTouches _ _ _ _ _ ".cpp")]
    simp [withEmptyHarness]
  rw [fillHarness, onFiles_bind_apply] at hfill
  split at hfill
  · cases hfill
  · rename_i hne
    cases hfill
    refine ⟨?_, hne⟩
    have hmk : readText (w₁.fs.mkdir (inputsPath fn)) (harnessPath fn sep) = some [] := by
      rw [readText, read_mkdir]
      exact hread
    simp only [appendText, hmk, Option.getD_some, List.nil_append]
    simp [readText]

theorem registeredTests_newline {t : Text} (ht : t.head? ≠ some 'T') :
    registeredTests ('\n' :: t) = registeredTests t := by
  refine registeredTests_cons fun hp => ht ?_
  rw [testStart_eq] at hp
  obtain ⟨s, hs⟩ := (List.cons_prefix_cons.mp hp).2
  rw [← hs]
  rfl

theorem head_unlines_harnessText {inputs : Text} (hfn : fn.OneLine) :
    (Text.unlines (prototypes.map (harnessText inputs packagename fn sep args))).head? ≠ some 'T' := by
  cases prototypes with
  | nil => simp
  | cons p ps =>
      obtain ⟨t, ht, hti⟩ := preambleText_eq sep hfn
      have hhead := hti.head
      rw [List.map_cons, Text.unlines_cons, harnessText, ht]
      cases t with
      | nil => simp
      | cons c t => simpa using hhead

theorem registeredTests_unlines (hargs : ∀ a ∈ args, OnOneLine a) {inputs : Text}
    (hinputs : inputs.OneLine) (hfn : fn.OneLine)
    (hp : ∀ p ∈ prototypes, '\n' ∉ p ∧ ¬ ("TEST(" : Text) <+: p)
    (hcomma : ',' ∉ unittest packagename) (hline : '\n' ∉ unittest packagename) :
    registeredTests (Text.unlines (prototypes.map (harnessText inputs packagename fn sep args))) =
      prototypes.flatMap fun _ => [unittest packagename ++ "_generator", unittest packagename ++ "_runner"] := by
  induction prototypes with
  | nil => rfl
  | cons p ps ih =>
      obtain ⟨hpl, hps⟩ := hp p (by simp)
      rw [List.map_cons, Text.unlines_cons, registeredTests_harnessText hargs sep hinputs hfn hpl hps hcomma hline,
        List.flatMap_cons, registeredTests_newline (head_unlines_harnessText hfn), ih fun q hq => hp q (by simp [hq])]

/-- A call that returns a harness that was not there has filled it. -/
theorem funCreate_text {d : List Details} {rows : List ArgRow} (ht : exportsTable w.fs = some (d, rows))
    (hnew : w.fs.fileExists (harnessPath fn sep) = false)
    (hok : deepstateFunCreate h installed fn sep w = .ok (some file) w') :
    readText w'.fs (harnessPath fn sep) = some (Text.unlines ((prototypesOf d fn).map
      (harnessText (h.file (inputsPath fn)) (packageNameIn w.fs) fn sep (argumentsOf rows fn)))) ∧
      argumentsOf rows fn ≠ [] := by
  obtain ⟨log, happly⟩ := @funCreate_apply h installed fn sep _ _ _ ht
  rw [hok, hnew, if_neg (by simp)] at happly
  split at happly
  · cases happly
  · have hfile : file = harnessFile fn sep := by
      have hend := happly.symm
      rw [createHarness_apply] at hend
      obtain ⟨_, w₁, _, hfill⟩ := bind_eq_ok.mp hend
      rw [fillHarness, onFiles_bind_apply] at hfill
      split at hfill
      · cases hfill
      · cases hfill
        rfl
    subst hfile
    exact createHarness_text happly.symm

/-- A function with supported types gets its harness when the makefile step succeeds. -/
theorem funCreate_creates {d : List Details} {rows : List ArgRow} (ht : exportsTable w.fs = some (d, rows))
    (hnew : w.fs.fileExists (harnessPath fn sep) = false) (hs : unsupportedTypes (argumentsOf rows fn) = [])
    (ha : argumentsOf rows fn ≠ []) (hb : ¬ StepFails h installed w.fs fn sep) :
    ∃ w', deepstateFunCreate h installed fn sep w = .ok (some (harnessFile fn sep)) w' := by
  obtain ⟨log, happly⟩ := @funCreate_apply h installed fn sep _ _ _ ht
  rw [happly, hnew, if_neg (by simp), if_neg (by simpa using hs)]
  exact createHarness_ok (w := { w with log := log }) hb ha

end Create

/-! ## The tests of a created harness -/

section Tests

variable {h : PlainHost} {installed : Installation} {fn : Text} {sep : Sep} {w w' : World} {file name : Text}
  {f : ExportsFile}

theorem mem_prototypesOf {p : Text} (hp : p ∈ prototypesOf (f.exports.map (Details.ofExport f.symbol)) fn) :
    p = [] ∨ ∃ e ∈ f.exports, p = e.prototype := by
  unfold prototypesOf at hp
  split at hp
  · exact Or.inl (List.mem_singleton.mp hp)
  · obtain ⟨r, hr, rfl⟩ := List.mem_map.mp hp
    have hr' := (List.mem_filter.mp hr).1
    rw [deepstateGetPrototypeCalls, List.mem_filterMap] at hr'
    obtain ⟨i, _, hi⟩ := hr'
    obtain ⟨d, hd, rfl⟩ := Option.map_eq_some_iff.mp hi
    obtain ⟨e, he, rfl⟩ := List.mem_map.mp (List.mem_of_getElem? hd)
    exact Or.inr ⟨e, he, rfl⟩

theorem prototypesOf_ne_nil (d : List Details) (fn : Text) : prototypesOf d fn ≠ [] := by
  unfold prototypesOf
  split
  · simp
  · rename_i hne
    exact hne

theorem not_test_prototype (e : Export) : ¬ ("TEST(" : Text) <+: e.prototype := by
  intro hp
  have htext : e.prototype = e.returnType ++ ' ' :: (e.name ++ "(" ++ e.arguments ++ ");") := by
    simp [Export.prototype, Text.ofString_eq]
  rw [htext, Text.prefix_append_cons_of_not_mem (by with_unfolding_all decide)] at hp
  exact e.returnType_ok.paren (hp.subset (by with_unfolding_all decide))

theorem onOneLine_argumentsOf {a : Argument}
    (ha : a ∈ argumentsOf (f.exports.flatMap Export.argRows) fn) : OnOneLine a ∧ fn.OneLine := by
  obtain ⟨r, hr, rfl⟩ := List.mem_map.mp ha
  obtain ⟨hr, hfn⟩ := List.mem_filter.mp hr
  obtain ⟨e, _, hre⟩ := List.mem_flatMap.mp hr
  obtain ⟨p, _, rfl⟩ := List.mem_map.mp hre
  have hname : e.name = fn := by simpa using hfn
  refine ⟨⟨?_, ?_⟩, ?_⟩
  · refine oneLine_gsub (oneLine_gsub ?_)
    simp [p.type_ok.line]
  · refine oneLine_gsub ?_
    simp [p.name_ok.oneLine]
  · rw [← hname]
    exact e.name_ok.oneLine

theorem oneLine_inputs (h : PlainHost) (hfn : fn.OneLine) : (h.file (inputsPath fn)).OneLine := by
  simp [Host.file, inputsPath, funPath, testPath, Text.ofString_eq, h.packagePath_ok.2.2, hfn]

/-- The tests of a created harness carry the package name without its dots. -/
theorem registeredTests_created (hread : readText w.fs rcppExportsPath = some f.text)
    (hname : NamesPackage w.fs name) (hnew : w.fs.fileExists (harnessPath fn sep) = false)
    (hok : deepstateFunCreate h installed fn sep w = .ok (some file) w') :
    ∃ text, readText w'.fs (harnessPath fn sep) = some text ∧ ∀ t, t ∈ registeredTests text ↔
      t = name.filter (· ≠ '.') ++ "_generator" ∨ t = name.filter (· ≠ '.') ++ "_runner" := by
  have hne : f.exports ≠ [] := by
    intro hnil
    have ht : exportsTable w.fs = none := by
      simp [exportsTable, hread, packageDetails_text, hnil, deepstateGetFunctionBody]
    obtain ⟨e, w₁, he, _⟩ := @funCreate_of_table_none h installed fn sep _ ht
    rw [hok] at he
    cases he
  obtain ⟨htext, hargs⟩ := funCreate_text (exportsTable_of_file hread hne) hnew hok
  obtain ⟨a, ha⟩ := List.exists_mem_of_ne_nil _ hargs
  have hfn := (onOneLine_argumentsOf ha).2
  refine ⟨_, htext, fun t => ?_⟩
  have hmem : ∀ c ∈ name.filter (· ≠ '.'), c ∈ name := fun c hc => (List.mem_filter.mp hc).1
  rw [packageNameIn_eq hname, registeredTests_unlines (fun b hb => (onOneLine_argumentsOf hb).1)
    (oneLine_inputs h hfn) hfn, unittest_eq]
  · obtain ⟨p, hp⟩ := List.exists_mem_of_ne_nil _
      (prototypesOf_ne_nil (f.exports.map (Details.ofExport f.symbol)) fn)
    simp only [List.mem_flatMap, List.mem_cons, List.not_mem_nil, or_false]
    constructor
    · rintro ⟨q, hq, ht⟩
      exact ht
    · exact fun ht => ⟨p, hp, ht⟩
  · intro p hp
    rcases mem_prototypesOf hp with rfl | ⟨e, _, rfl⟩
    · exact ⟨by simp, by with_unfolding_all decide⟩
    · exact ⟨Export.newline_not_mem_prototype, not_test_prototype e⟩
  · rw [unittest_eq]
    exact fun hc => hname.not_mem (by decide) (hmem _ hc)
  · rw [unittest_eq]
    exact fun hc => hname.not_mem (by decide) (hmem _ hc)

/-- The tests that fuzzing and analysing ask for are the tests of the harness. -/
def TestsAgree (fs : FileSystem Content) (packagename : Option Text) (fn : Text) (sep : Sep) : Prop :=
  ∃ text, readText fs (harnessPath fn sep) = some text ∧ generatorTest packagename ∈ registeredTests text ∧
    runnerTest packagename ∈ registeredTests text

theorem filter_dots_eq_self_iff : name.filter (· ≠ '.') = name ↔ '.' ∉ name := by
  rw [List.filter_eq_self]
  constructor
  · intro hall hdot
    simpa using hall '.' hdot
  · intro hdot c hc
    have hne : c ≠ '.' := fun he => hdot (he ▸ hc)
    simpa using hne

/-- The prefix of a test name is determined by its end. -/
theorem testName_inj {a b : Text} (h : a ++ "_generator" = b ++ "_generator" ∨ a ++ "_generator" = b ++ "_runner") :
    a = b := by
  rcases h with h | h
  · exact List.append_cancel_right h
  · exfalso
    have hlast := congrArg (fun t : Text => t.reverse.take 2) h
    simp [Text.ofString_eq] at hlast

theorem testsAgree_created_iff (hread : readText w.fs rcppExportsPath = some f.text)
    (hname : NamesPackage w.fs name) (hnew : w.fs.fileExists (harnessPath fn sep) = false)
    (hok : deepstateFunCreate h installed fn sep w = .ok (some file) w') :
    TestsAgree w'.fs (some name) fn sep ↔ '.' ∉ name := by
  obtain ⟨text, htext, hmem⟩ := registeredTests_created hread hname hnew hok
  constructor
  · rintro ⟨text', htext', hgen, -⟩
    cases htext.symm.trans htext'
    have hgen' := (hmem _).mp hgen
    rw [generatorTest] at hgen'
    exact filter_dots_eq_self_iff.mp (testName_inj hgen').symm
  · intro hdot
    have hself := filter_dots_eq_self_iff.mpr hdot
    refine ⟨text, htext, (hmem _).mpr (Or.inl ?_), (hmem _).mpr (Or.inr ?_)⟩
    · rw [hself]; rfl
    · rw [hself]; rfl

/-- While DESCRIPTION names the package as it did when the harness was created, what `deepstate_fuzz_fun`
and `deepstate_analyze_fun` ask for is registered exactly when the package name has no dot. -/
theorem testNames_agree_iff {w₂ : World} (hread : readText w.fs rcppExportsPath = some f.text)
    (hname : NamesPackage w.fs name) (hnew : w.fs.fileExists (harnessPath fn sep) = false)
    (hok : deepstateFunCreate h installed fn sep w = .ok (some file) w') (hname₂ : NamesPackage w₂.fs name) :
    TestsAgree w'.fs (packageNameIn w₂.fs) fn sep ↔ '.' ∉ name := by
  rw [packageNameIn_eq hname₂]
  exact testsAgree_created_iff hread hname hnew hok

end Tests

/-- A package of that name that exports `int f(int x)`. -/
def namedPackage (name : Text) : World where
  fs := (FileSystem.empty.write descriptionPath (.text ("Package: " ++ name ++ "\n"))).write rcppExportsPath
    (.text sampleExports.text)
  log := []

theorem readExports_namedPackage (name : Text) :
    readText (namedPackage name).fs rcppExportsPath = some sampleExports.text := by
  simp [readText, namedPackage]

theorem namesPackage_namedPackage {name : Text} (hlegal : ∀ c ∈ name, c.isAlphanum = true ∨ c = '.') :
    NamesPackage (namedPackage name).fs name := by
  have hnl : (("Package: " : Text) ++ name).OneLine := by
    refine Text.oneLine_append.mpr ⟨by with_unfolding_all decide, fun hm => ?_, fun hm => ?_⟩
    · rcases hlegal _ hm with h | h <;> exact absurd h (by decide)
    · rcases hlegal _ hm with h | h <;> exact absurd h (by decide)
  refine ⟨⟨"Package: " ++ name ++ "\n", ?_, ?_⟩, hlegal⟩
  · have hne : descriptionPath ≠ rcppExportsPath := by simp [descriptionPath, rcppExportsPath]
    rw [readText, namedPackage, read_write_ne hne, read_write_self]
  · have hend : ("\n" : Text) = '\n' :: [] := by with_unfolding_all decide
    have hpre : ("Package:" : Text) <+: ("Package: " : Text) ++ name :=
      List.IsPrefix.trans (by with_unfolding_all decide) (List.prefix_append _ _)
    rw [hend, Text.lines_append_newline hnl, List.find?_cons_of_pos (by simpa using hpre)]

theorem funCreate_namedPackage (name : Text) :
    (namedPackage name).fs.fileExists (harnessPath "f" .infun) = false ∧
      ∃ w', deepstateFunCreate sampleHost (sampleInstallation true) "f" .infun (namedPackage name) =
        .ok (some (harnessFile "f" .infun)) w' := by
  have hnew : (namedPackage name).fs.fileExists (harnessPath "f" .infun) = false := by
    simp [namedPackage, fileExists_write, harnessPath, funPath, testPath, rcppExportsPath, descriptionPath]
  have hargs : argumentsOf (sampleExports.exports.flatMap Export.argRows) "f" = sampleExport.args :=
    argumentsOf_exports sampleExports.names_nodup (e := sampleExport) (by simp [sampleExports])
  refine ⟨hnew, funCreate_creates
    (exportsTable_of_file (readExports_namedPackage name) (by simp [sampleExports])) hnew ?_ ?_ ?_⟩
  · rw [hargs]
    with_unfolding_all decide
  · rw [hargs]
    with_unfolding_all decide
  · rintro ⟨-, -, hfalse | hunlisted⟩
    · cases hfalse
    · exact absurd hunlisted (by with_unfolding_all decide)

theorem testNames_agree_pkg : ∃ w', deepstateFunCreate sampleHost (sampleInstallation true) "f" .infun (namedPackage "pkg") =
      .ok (some (harnessFile "f" .infun)) w' ∧
    (TestsAgree w'.fs (packageNameIn (namedPackage "pkg").fs) "f" .infun ↔ '.' ∉ ("pkg" : Text)) := by
  have hname : NamesPackage (namedPackage "pkg").fs "pkg" := namesPackage_namedPackage (by with_unfolding_all decide)
  obtain ⟨hnew, w', hok⟩ := funCreate_namedPackage "pkg"
  exact ⟨w', hok, testNames_agree_iff (h := plainSampleHost) (readExports_namedPackage _) hname hnew hok hname⟩

/-- In a package with a dot in its name no test is found. -/
theorem testNames_disagree : ¬ ∀ (h : Host) (installed : Installation) (fn : Text) (sep : Sep) (w w' w₂ : World)
    (file name : Text) (f : ExportsFile), readText w.fs rcppExportsPath = some f.text →
      NamesPackage w.fs name → w.fs.fileExists (harnessPath fn sep) = false →
        deepstateFunCreate h installed fn sep w = .ok (some file) w' → NamesPackage w₂.fs name →
          TestsAgree w'.fs (packageNameIn w₂.fs) fn sep := by
  intro hall
  have hname : NamesPackage (namedPackage "my.pkg").fs "my.pkg" := namesPackage_namedPackage (by with_unfolding_all decide)
  obtain ⟨hnew, w', hok⟩ := funCreate_namedPackage "my.pkg"
  have hagree := hall _ _ _ _ _ _ _ _ _ _ (readExports_namedPackage "my.pkg") hname hnew hok hname
  have hdot := testsAgree_created_iff (h := plainSampleHost) (readExports_namedPackage "my.pkg") hname hnew hok
  rw [packageNameIn_eq hname, hdot] at hagree
  exact hagree (by with_unfolding_all decide)

end RcppDeepState
