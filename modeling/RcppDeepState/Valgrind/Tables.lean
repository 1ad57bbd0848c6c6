import RcppDeepState.Valgrind.Lemmas.Rows

/-!
# Logs with nothing to report

The early return gives an empty table. Behind it the rows of all errors are bound together, which gives no
table at all when there are none.
-/

namespace RcppDeepState

/-- No line has the directory or a path below `src/`. -/
def Unmentioned (src : Text) (lines : List Text) : Prop :=
  Ere.grep src lines = some [] ∧ ∀ l ∈ lines, ¬ ("<file>src/" : Text) <:+: l

/-- The lines choose the expression. -/
def RecognisedBy (xml2 : Xml2) (src : Text) (lines : List Text) (x : SourceXPath) : Prop :=
  (x = xml2.dirXPath src ∧ ∃ l ls, Ere.grep src lines = some (l :: ls)) ∨
    (x = .file ∧ Ere.grep src lines = some [] ∧ ∃ l ∈ lines, ("<file>src/" : Text) <:+: l)

/-- The first frame found in a stack has a file and a line. -/
def HasPlace (x : SourceXPath) (stack : Xml) : Prop :=
  ∃ frame node, (x.frames stack).head? = some (frame, node) ∧ getString frame "file" ≠ [] ∧ getString frame "line" ≠ []

variable {xml2 : Xml2} {src : Text} {lines : List Text} {x : SourceXPath}

theorem firstTrace_ne_none_iff {stack : Xml} : firstTrace x stack ≠ none ↔ HasPlace x stack := by
  unfold firstTrace HasPlace
  cases (x.frames stack).head? with
  | none => simp
  | some p =>
      have hplace : frameTrace p.1 ≠ none ↔ getString p.1 "file" ≠ [] ∧ getString p.1 "line" ≠ [] := by
        unfold frameTrace
        cases getString p.1 "file" with
        | nil => simp
        | cons file _ =>
            cases getString p.1 "line" with
            | nil => simp
            | cons line _ => simp
      rw [Option.bind_some, hplace]
      constructor
      · exact fun h => ⟨p.1, p.2, rfl, h⟩
      · rintro ⟨frame, node, hp, h⟩
        cases hp
        exact h

theorem sourceXPath_eq_none_iff : sourceXPath xml2 src lines = .ok none ↔ Unmentioned src lines := by
  unfold sourceXPath Unmentioned
  cases Ere.grep src lines with
  | none => simp
  | some found =>
      cases found with
      | nil => simp
      | cons l ls => simp

theorem sourceXPath_eq_some_iff : sourceXPath xml2 src lines = .ok (some x) ↔ RecognisedBy xml2 src lines x := by
  unfold sourceXPath RecognisedBy
  cases Ere.grep src lines with
  | none => simp
  | some found =>
      cases found with
      | nil =>
          by_cases hl : ∃ l ∈ lines, ("<file>src/" : Text) <:+: l
          · simp [hl, @eq_comm _ x]
          · simp [hl]
      | cons l ls => simp [@eq_comm _ x]

/-! ## The rows of all errors -/

/-- Nothing fails in an error: its `auxwhat` is where it is looked for, and the expression can be evaluated on its
stacks. -/
def Reads (x : SourceXPath) (err : Xml) : Prop := AuxIsChild err ∧ ∀ stack ∈ err.findAll "stack", x.Evaluates stack

theorem mapM_errorRows {errs : List Xml} (h : ∀ err ∈ errs, Reads x err) :
    errs.mapM (errorRows x) = .ok (errs.map (rowsOf x)) :=
  Command.mapM_eq_map fun err herr => errorRows_of_evaluates (h err herr).2 (h err herr).1

theorem errorRows_of_not_child {err : Xml} (ha : ¬ AuxIsChild err) : ∃ e, errorRows x err = .error e := by
  obtain ⟨e, he⟩ := @errorAddress_of_not_child x err ha
  exact ⟨e, by rw [errorRows, he]; rfl⟩

/-- Some error has a stack that is searched and that has a place. -/
def Locates (x : SourceXPath) (tree : Xml) : Prop :=
  ∃ err ∈ tree.findAll "error", ∃ stack ∈ searchedStacks err, HasPlace x stack

theorem locates_iff {tree : Xml} :
    Locates x tree ↔ ∃ err ∈ tree.findAll "error", ∃ stack ∈ searchedStacks err, firstTrace x stack ≠ none := by
  simp only [Locates, firstTrace_ne_none_iff]

theorem reads_of_errorRows {err : Xml} {rows : List LogRow} (h : errorRows x err = .ok rows) : Reads x err := by
  refine ⟨?_, evaluates_of_errorRows h⟩
  by_contra ha
  obtain ⟨e, he⟩ := @errorRows_of_not_child x err ha
  rw [he] at h
  cases h

/-- The rows of all errors are found, and there are some. -/
theorem mapM_errorRows_ne_nil_iff {tree : Xml} :
    (∃ rss, (tree.findAll "error").mapM (errorRows x) = .ok rss ∧ rss.flatten ≠ []) ↔
      (∀ err ∈ tree.findAll "error", Reads x err) ∧ Locates x tree := by
  constructor
  · rintro ⟨rss, hrss, hne⟩
    have hall := Command.mapM_eq_ok.mp hrss
    have hreads : ∀ err ∈ tree.findAll "error", Reads x err := by
      intro err herr
      obtain ⟨_, _, hok⟩ := Command.exists_of_mem_left hall herr
      exact reads_of_errorRows hok
    obtain ⟨row, hrow⟩ := List.exists_mem_of_ne_nil _ hne
    obtain ⟨rows, hrows, hrow⟩ := List.mem_flatten.mp hrow
    obtain ⟨err, herr, hok⟩ := Command.exists_of_mem_right hall hrows
    rw [errorRows_of_evaluates (hreads err herr).2 (hreads err herr).1] at hok
    cases hok
    have hsome : ¬ ∀ stack ∈ searchedStacks err, firstTrace x stack = none := by
      rw [← rowsOf_eq_nil_iff]
      exact List.ne_nil_of_mem hrow
    push Not at hsome
    obtain ⟨stack, hstack, htrace⟩ := hsome
    exact ⟨hreads, err, herr, stack, hstack, firstTrace_ne_none_iff.mp htrace⟩
  · rintro ⟨hreads, err, herr, stack, hstack, hplace⟩
    refine ⟨_, mapM_errorRows hreads, fun hnil => ?_⟩
    have hrows : rowsOf x err = [] := List.flatten_eq_nil_iff.mp hnil _ (List.mem_map_of_mem herr)
    exact firstTrace_ne_none_iff.mpr hplace (rowsOf_eq_nil_iff.mp hrows stack hstack)

/-! ## The table -/

/-- The table of the rows of every error. -/
def boundRows (rss : List (List LogRow)) : Option (List LogRow) :=
  if rss.flatten = [] then none else some rss.flatten.eraseDups

variable {log : Text} {tree : Xml}

/-- What is returned for a log that parses. -/
theorem read_of_parsed (h : xml2.read (Text.join "\n" (parsedLines log.lines)) = some tree) :
    deepstateReadValgrindXml xml2 log = do
      match ← sourceXPath xml2 (← sourceDir tree) log.lines with
      | none => return some []
      | some x => return boundRows (← (tree.findAll "error").mapM (errorRows x)) := by
  unfold deepstateReadValgrindXml
  rw [h]
  rfl

/-- A log of one line is parsed as it is. -/
theorem join_parsedLines_line {t : Text} (ht : t.OneLine) (hne : t ≠ []) :
    Text.join "\n" (parsedLines t.lines) = t := by
  have hparsed : parsedLines [t] = [t] := if_neg (Nat.not_lt.mpr (List.length_filter_le _ [t]))
  rw [Text.lines_of_not_mem ht hne, hparsed]
  rfl

/-! ## A library without debug information -/

/-- A leak in a library of the source directory, found without the file and the line of the call. -/
def objectLog : Xml :=
  .elem "valgrindoutput" (sampleLog.children ++ [.elem "error" [.elem "kind" [.text "Leak_DefinitelyLost"],
    .elem "stack" [.elem "frame" [.elem "obj" [.text "/home/user/pkg/src/pkg.so"]]]]])

/-- A parser of that log. -/
def readObjectLog : Xml2 := .ofParser fun t => [(objectLog.serialize, objectLog)].lookup t

theorem readObjectLog_parsed :
    readObjectLog.read (Text.join "\n" (parsedLines objectLog.serialize.lines)) = some objectLog := by
  rw [join_parsedLines_line (by decide +kernel) (by decide +kernel)]
  exact List.lookup_cons_self

end RcppDeepState
