import RcppDeepState.Library.FileSystem
import RcppDeepState.Library.Yaml

/-!
# The workflow of a repository

`ci_setup` writes the workflow file by pasting its lines. Read as YAML, the file runs the action with the parameters
that were given.
-/

namespace RcppDeepState

/-- The arguments of `ci_setup`. -/
structure CiArguments where
  repository : Text := "./"
  workflowFileName : Text := "RcppDeepState.yaml"
  event : Text := "pull_request"
  failCiIfError : Bool := false
  location : Text := "/"
  seed : Text := "-1"
  timeLimit : Text := "2"
  maxInputs : Text := "3"
  comment : Bool := false
  verbose : Bool := true

/-! ## The text -/

def indent (times : ℕ) : Text := (List.replicate times ("  " : Text)).flatten

def getParamYaml (paramName param : Text) : Text := indent 5 ++ paramName ++ ": " ++ param

/-- `tolower` of a logical value. -/
def lowerLogical (b : Bool) : Text := if b then "true" else "false"

def availableEvents : List Text := ["push", "pull_request"]

/-- `gsub("[/]+", "/", ...)` -/
def squeezeSlashes : Text → Text
  | [] => []
  | c :: t => if c = '/' ∧ t.head? = some '/' then squeezeSlashes t else c :: squeezeSlashes t

namespace CiArguments

variable (a : CiArguments)

def workflowPath : Text := squeezeSlashes (a.repository ++ "/" ++ ".github/workflows")

def workflowFile : Text := a.workflowPath ++ "/" ++ a.workflowFileName

def events : Text :=
  if a.event ∈ availableEvents then
    "on:\n" ++ indent 1 ++ a.event ++ ":\n" ++ indent 2 ++ "branches:\n" ++ indent 3 ++ "- '*'" ++ "\n"
  else "on:\n" ++ indent 1 ++ "# Add your events here" ++ "\n"

/-- What the function says of an event it does not know. -/
def eventWarn : Option Text :=
  if a.event ∈ availableEvents then none
  else some ("The specified event falls out of the supported ones." ++ " " ++ "Please manually edit file: " ++ " " ++
    a.workflowFile)

def actionRepo : Text := "FabrizioSandri/RcppDeepState-action@main"

def params : Text :=
  Text.join "\n" [getParamYaml "fail_ci_if_error" (lowerLogical a.failCiIfError), getParamYaml "location" a.location,
    getParamYaml "seed" a.seed, getParamYaml "max_seconds_per_function" a.timeLimit,
    getParamYaml "max_inputs" a.maxInputs, getParamYaml "comment" (lowerLogical a.comment),
    getParamYaml "verbose" (lowerLogical a.verbose)]

def checkoutStep : Text := indent 3 ++ "- uses: " ++ "actions/checkout@v2" ++ "\n\n"

def rcppdeepstateStep : Text :=
  indent 3 ++ "- uses: " ++ actionRepo ++ "\n" ++ indent 4 ++ "with:\n" ++ a.params

def steps : Text := indent 2 ++ "steps: " ++ "\n" ++ checkoutStep ++ a.rcppdeepstateStep

def env : Text :=
  indent 2 ++ "env:" ++ "\n" ++ indent 3 ++ "GITHUB_PAT: $\x7b\x7b secrets.GITHUB_TOKEN \x7d\x7d" ++ "\n"

def jobs : Text :=
  "jobs:" ++ "\n" ++ indent 1 ++ "RcppDeepState:" ++ "\n" ++ indent 2 ++ "runs-on: ubuntu-latest" ++ "\n\n" ++ env ++
    "\n" ++ a.steps

def workflowCode : Text := Text.join "\n" [a.events, "name: 'RcppDeepState analysis'", a.jobs]

/-- The path of the workflow file in the repository. -/
def workflowPathname : Pathname := [".github", "workflows", a.workflowFileName]

end CiArguments

/-- `ci_setup`, with paths relative to the repository: what it writes, and the message it gives. -/
def ciSetup (a : CiArguments) (fs : FileSystem Text) : FileSystem Text × Option Text :=
  let fs := if fs.dirExists [".github", "workflows"] then fs else fs.mkdirs [".github", "workflows"]
  (fs.write a.workflowPathname (a.workflowCode ++ "\n"), a.eventWarn)

/-! ## The lines -/

namespace CiArguments

variable (a : CiArguments)

def eventLines : List Text :=
  if a.event ∈ availableEvents then ["on:", "  " ++ a.event ++ ":", "    branches:", "      - '*'"]
  else ["on:", "  # Add your events here"]

/-- The parameters of the action. -/
def parameters : List (Text × Text) :=
  [("fail_ci_if_error", lowerLogical a.failCiIfError), ("location", a.location), ("seed", a.seed),
    ("max_seconds_per_function", a.timeLimit), ("max_inputs", a.maxInputs), ("comment", lowerLogical a.comment),
    ("verbose", lowerLogical a.verbose)]

def paramLines : List Text := a.parameters.map fun p => getParamYaml p.1 p.2

def jobLines : List Text :=
  ["", "name: 'RcppDeepState analysis'", "jobs:", "  RcppDeepState:", "    runs-on: ubuntu-latest", "", "    env:",
    "      GITHUB_PAT: $\x7b\x7b secrets.GITHUB_TOKEN \x7d\x7d", "", "    steps: ",
    "      - uses: actions/checkout@v2", "", "      - uses: FabrizioSandri/RcppDeepState-action@main", "        with:"]

theorem events_eq : a.events = Text.unlines a.eventLines := by
  unfold events eventLines
  split <;> simp [Text.ofString_eq, indent]

theorem join_newline (t : Text) (ts : List Text) : Text.join "\n" (t :: ts) ++ "\n" = Text.unlines (t :: ts) := by
  induction ts generalizing t with
  | nil => simp [Text.join, Text.ofString_eq]
  | cons t' ts ih =>
      rw [Text.join_cons t (List.cons_ne_nil t' ts), List.append_assoc, ih, Text.unlines_cons]
      simp [Text.ofString_eq]

set_option maxRecDepth 4000 in
theorem jobs_eq : a.jobs = Text.unlines (jobLines.drop 2) ++ a.params := by
  unfold jobs steps rcppdeepstateStep
  simp only [← List.append_assoc]
  refine congrArg (· ++ a.params) ?_
  with_unfolding_all rfl

theorem workflowCode_eq : a.workflowCode ++ "\n" = Text.unlines (a.eventLines ++ (jobLines ++ a.paramLines)) := by
  have hparams : a.params ++ "\n" = Text.unlines a.paramLines := join_newline _ _
  have hname : ("\n" : Text) ++ ("name: 'RcppDeepState analysis'" ++ "\n") = Text.unlines (jobLines.take 2) := by
    with_unfolding_all rfl
  calc a.workflowCode ++ "\n"
      = a.events ++ (("\n" ++ ("name: 'RcppDeepState analysis'" ++ "\n")) ++ (a.jobs ++ "\n")) := by
        simp [workflowCode, Text.join]
    _ = Text.unlines a.eventLines ++ (Text.unlines (jobLines.take 2) ++
          (Text.unlines (jobLines.drop 2) ++ Text.unlines a.paramLines)) := by
        rw [events_eq, hname, jobs_eq, List.append_assoc (Text.unlines (jobLines.drop 2)), hparams]
    _ = Text.unlines (a.eventLines ++ (jobLines ++ a.paramLines)) := by
        rw [← List.append_assoc (Text.unlines (jobLines.take 2)), ← Text.unlines_append, List.take_append_drop,
          ← Text.unlines_append, ← Text.unlines_append]

/-! ## The document -/

open Yaml Outline

/-- The workflow that runs the action on the event, with the parameters. -/
def workflow : List (Outline Heading) :=
  [node (.entry "on" none)
      (if a.event ∈ availableEvents then
        [node (.entry a.event none) [node (.entry "branches" none) [node .item [node (.scalar "*") []]]]]
      else []),
    node (.entry "name" (some "RcppDeepState analysis")) [],
    node (.entry "jobs" none)
      [node (.entry "RcppDeepState" none)
        [node (.entry "runs-on" (some "ubuntu-latest")) [],
          node (.entry "env" none)
            [node (.entry "GITHUB_PAT" (some "$\x7b\x7b secrets.GITHUB_TOKEN \x7d\x7d")) []],
          node (.entry "steps" none)
            [node .item [node (.entry "uses" (some "actions/checkout@v2")) []],
              node .item
                [node (.entry "uses" (some actionRepo)) [],
                  node (.entry "with" none) (a.parameters.map fun p => node (.entry p.1 (some p.2)) [])]]]]]

/-- The arguments that are pasted are written in YAML as they are. -/
def AllPlain : Prop := Plain a.location ∧ Plain a.seed ∧ Plain a.timeLimit ∧ Plain a.maxInputs

instance : Decidable a.AllPlain := inferInstanceAs (Decidable (_ ∧ _))

def eventHeadings : List (List (ℕ × Heading)) :=
  if a.event ∈ availableEvents then
    [[(0, .entry "on" none)], [(2, .entry a.event none)], [(4, .entry "branches" none)], [(6, .item), (8, .scalar "*")]]
  else [[(0, .entry "on" none)], []]

def jobHeadings : List (List (ℕ × Heading)) :=
  [[], [(0, .entry "name" (some "RcppDeepState analysis"))], [(0, .entry "jobs" none)],
    [(2, .entry "RcppDeepState" none)], [(4, .entry "runs-on" (some "ubuntu-latest"))], [], [(4, .entry "env" none)],
    [(6, .entry "GITHUB_PAT" (some "$\x7b\x7b secrets.GITHUB_TOKEN \x7d\x7d"))], [], [(4, .entry "steps" none)],
    [(6, .item), (8, .entry "uses" (some "actions/checkout@v2"))], [],
    [(6, .item), (8, .entry "uses" (some actionRepo))], [(8, .entry "with" none)]]

def paramHeadings : List (List (ℕ × Heading)) := a.parameters.map fun p => [(10, .entry p.1 (some p.2))]

theorem jobLines_read : List.Forall₂ (fun line hs => readLine line = some hs) jobLines jobHeadings := by
  with_unfolding_all decide

theorem eventLines_read : List.Forall₂ (fun line hs => readLine line = some hs) a.eventLines a.eventHeadings := by
  unfold eventLines eventHeadings
  generalize a.event = event
  split
  · rename_i hmem
    simp only [availableEvents, List.mem_cons, List.not_mem_nil, or_false] at hmem
    rcases hmem with rfl | rfl
    · with_unfolding_all decide
    · with_unfolding_all decide
  · with_unfolding_all decide

theorem param_read {paramName param : Text} (hname : ':' ∉ paramName)
    (hstart : paramName.head?.any (· ∉ (" -#" : Text)) = true) (hparam : Plain param) :
    readLine (getParamYaml paramName param) = some [(10, .entry paramName (some param))] := by
  cases paramName with
  | nil => cases hstart
  | cons c key =>
      have hindent : indent 5 = List.replicate 10 ' ' := by with_unfolding_all rfl
      rw [getParamYaml, hindent, List.append_assoc, List.append_assoc]
      exact readLine_entry hname (by simpa using hstart) hparam

theorem plain_lowerLogical (b : Bool) : Plain (lowerLogical b) := by
  cases b with
  | false => with_unfolding_all decide
  | true => with_unfolding_all decide

theorem parameters_plain (hplain : a.AllPlain) : ∀ p ∈ a.parameters, Plain p.2 := by
  obtain ⟨hlocation, hseed, htime, hinputs⟩ := hplain
  simp only [parameters, List.forall_mem_cons]
  exact ⟨plain_lowerLogical _, hlocation, hseed, htime, hinputs, plain_lowerLogical _, plain_lowerLogical _,
    fun p hp => by cases hp⟩

theorem parameters_name :
    ∀ p ∈ a.parameters, ':' ∉ p.1 ∧ p.1.OneLine ∧ p.1.head?.any (· ∉ (" -#" : Text)) = true := by
  simp only [parameters, List.forall_mem_cons]
  with_unfolding_all decide

theorem paramLines_read (hplain : a.AllPlain) :
    List.Forall₂ (fun line hs => readLine line = some hs) a.paramLines a.paramHeadings := by
  rw [paramLines, paramHeadings, List.forall₂_map_left_iff, List.forall₂_map_right_iff, List.forall₂_same]
  intro p hp
  obtain ⟨hcolon, -, hstart⟩ := a.parameters_name p hp
  exact param_read hcolon hstart (a.parameters_plain hplain p hp)

theorem headings_workflow :
    (a.eventHeadings ++ (jobHeadings ++ a.paramHeadings)).flatten = headingsAll 2 0 a.workflow := by
  unfold eventHeadings workflow
  split
  · rfl
  · rfl

theorem eventLines_line : ∀ l ∈ a.eventLines, l.OneLine := by
  unfold eventLines
  generalize a.event = event
  split
  · rename_i hmem
    simp only [availableEvents, List.mem_cons, List.not_mem_nil, or_false] at hmem
    rcases hmem with rfl | rfl
    · with_unfolding_all decide
    · with_unfolding_all decide
  · with_unfolding_all decide

theorem jobLines_line : ∀ l ∈ jobLines, l.OneLine := by with_unfolding_all decide

theorem paramLines_line (hplain : a.AllPlain) : ∀ l ∈ a.paramLines, l.OneLine := by
  intro l hl
  obtain ⟨p, hp, rfl⟩ := List.mem_map.mp hl
  have hindent : (indent 5).OneLine ∧ (": " : Text).OneLine := by with_unfolding_all decide
  have hname := (a.parameters_name p hp).2.1
  simp only [getParamYaml, Text.oneLine_append]
  exact ⟨⟨⟨hindent.1, hname⟩, hindent.2⟩, (a.parameters_plain hplain p hp).oneLine⟩

/-- The lines are read back as the workflow. -/
theorem document_workflowCode (hplain : a.AllPlain) : document (a.workflowCode ++ "\n") = some a.workflow := by
  have hread := List.rel_append a.eventLines_read (List.rel_append jobLines_read (a.paramLines_read hplain))
  have hlines : ∀ l ∈ a.eventLines ++ (jobLines ++ a.paramLines), l.OneLine := by
    intro l hl
    simp only [List.mem_append] at hl
    rcases hl with hl | hl | hl
    · exact a.eventLines_line l hl
    · exact jobLines_line l hl
    · exact a.paramLines_line hplain l hl
  rw [document, a.workflowCode_eq, Text.lines_unlines hlines, readLines_eq hread, headings_workflow,
    read_headingsAll (by decide)]

end CiArguments

/-- The workflow file of any arguments that YAML takes as they are holds the workflow they ask for, whatever was in it.
Besides it only the directories above it can be new, and a message is given when the workflow runs on no event. -/
theorem ciSetup_workflow (a : CiArguments) (fs : FileSystem Text) (hplain : a.AllPlain) :
    ((ciSetup a fs).1.read a.workflowPathname).bind Yaml.document = some a.workflow ∧
      FileSystem.Frame (· <+: a.workflowPathname) fs (ciSetup a fs).1 ∧
      ((ciSetup a fs).2 = none ↔ a.event ∈ availableEvents) := by
  have hdirs : ∀ q : Pathname, q <+: [".github", "workflows"] → q <+: a.workflowPathname :=
    fun q hq => hq.trans ⟨[a.workflowFileName], rfl⟩
  refine ⟨?_, ?_, ?_⟩
  · have hread : (ciSetup a fs).1.read a.workflowPathname = some (a.workflowCode ++ "\n") := by
      simp [ciSetup]
    rw [hread]
    exact a.document_workflowCode hplain
  · have hmkdirs : FileSystem.Frame (· <+: a.workflowPathname) fs
        (if fs.dirExists [".github", "workflows"] then fs else fs.mkdirs [".github", "workflows"]) := by
      split
      · exact FileSystem.Frame.refl fs
      · exact FileSystem.frame_mkdirs fun q hq _ => hdirs q hq
    exact hmkdirs.trans (FileSystem.frame_write (T := (· <+: a.workflowPathname)) List.prefix_rfl _)
  · unfold ciSetup CiArguments.eventWarn
    split <;> simp_all

/-- An event that there is none of, and no argument at its default. -/
def scheduledArguments : CiArguments where
  repository := "./repository"
  workflowFileName := "check.yaml"
  event := "schedule"
  failCiIfError := true
  location := "/package"
  seed := "7"
  timeLimit := "60"
  maxInputs := "10"
  comment := true
  verbose := false

/-- A tree with a workflow of that name. -/
def checkedTree : FileSystem Text :=
  (FileSystem.empty.mkdirs [".github", "workflows"]).write scheduledArguments.workflowPathname "on: push\n"

theorem ciSetup_workflow_scheduled :
    ((ciSetup scheduledArguments checkedTree).1.read scheduledArguments.workflowPathname).bind Yaml.document =
        some scheduledArguments.workflow ∧
      FileSystem.Frame (· <+: scheduledArguments.workflowPathname) checkedTree
        (ciSetup scheduledArguments checkedTree).1 ∧
      ((ciSetup scheduledArguments checkedTree).2 = none ↔ scheduledArguments.event ∈ availableEvents) :=
  ciSetup_workflow scheduledArguments checkedTree (by with_unfolding_all decide)

end RcppDeepState
