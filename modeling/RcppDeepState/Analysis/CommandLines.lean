import RcppDeepState.Analysis.FuzzAnalyze
import RcppDeepState.Library.Shell
import RcppDeepState.Package.Atomicity
import RcppDeepState.Package.Lemmas.Build

/-!
# The command lines

The four functions that run something paste paths into a line for the shell, without quotes. The shell reads
the commands that were meant exactly when no character of the package path, of the function name and of the
file name means anything to it.
-/

namespace RcppDeepState

/-! ## The commands that are meant -/

/-- A command with one word for each text. -/
def command (words : List Text) (redirections : List Shell.Redirection) : Shell.Simple :=
  ⟨words.map Shell.literal, redirections⟩

def changeDir (dir : Text) : Shell.Simple := command ["cd", dir] []

/-- `> log 2>&1` -/
def loggedTo (log : Text) : List Shell.Redirection := [.toFile (Shell.literal log), .duplicate "2" "1"]

/-- `*.o` -/
def anyObject : Shell.Word := .active '*' :: Shell.literal ".o"

def makeWords (h : Host) (sep : Sep) : List Text :=
  (if h.verbose then [] else [("-s" : Text)]) ++ if sep.editable then [("-f" : Text), makefileName sep] else []

def compileCommands (h : Host) (fn : Text) (sep : Sep) : List (Shell.Simple × Option Text) :=
  [(changeDir (h.file (funPath fn)), some "&&"),
    (⟨Shell.literal "rm" :: Shell.literal "-f" :: [anyObject], []⟩, some "&&"),
    (command (("make" : Text) :: makeWords h sep) [], some "\n")]

def runOptionWords (seed timeLimit : Int) : List Text :=
  if seed = -1 ∧ timeLimit = -1 then []
  else if seed = -1 then [("--timeout=" : Text) ++ pastedInt timeLimit]
  else [("--seed=" : Text) ++ pastedInt seed, ("--timeout=" : Text) ++ pastedInt timeLimit]

def fuzzWords (h : Host) (packagename : Option Text) (fn : Text) (seed timeLimit : Int) (sep : Sep) : List Text :=
  ("./" ++ testHarness fn sep) :: runOptionWords seed timeLimit ++
    [("--fuzz" : Text), "--fuzz_save_passing", "--output_test_dir", h.file (outputDir fn sep), "--input_which_test",
      generatorTest packagename]

def fuzzCommands (h : Host) (packagename : Option Text) (fn : Text) (seed timeLimit : Int) (sep : Sep) :
    List (Shell.Simple × Option Text) :=
  [(changeDir (h.file (funPath fn)), some "&&"),
    (command (fuzzWords h packagename fn seed timeLimit sep) (loggedTo (h.file (logFile fn sep))), some ";"),
    (command ["head", h.file (logFile fn sep)] [.toFile (Shell.literal "/dev/null")], none)]

def analyzeWords (h : Host) (packageName : Option Text) (file : Pathname) : List Text :=
  ["valgrind", "--xml=yes", "--xml-file=" ++ h.file (logFolder file ++ [("valgrind_log" : Text)]), "--tool=memcheck",
    "--leak-check=yes", "./" ++ fileName (analyzedExecutable file), "--input_test_file", h.file file,
    "--input_which_test", runnerTest packageName]

def analyzeCommands (h : Host) (packageName : Option Text) (file : Pathname) : List (Shell.Simple × Option Text) :=
  [(changeDir (h.file file.dropLast.dropLast), some ";"),
    (command (analyzeWords h packageName file)
      (loggedTo (h.file (logFolder file ++ [("valgrind_log_text" : Text)]))), none)]

def valgrindWords (h : Host) (fn : Text) (seed timeLimit : Int) : List Text :=
  ["valgrind", "--xml=yes", "--xml-file=" ++ h.file (fuzzFolder fn seed timeLimit ++ [pastedInt seed ++ "_log"]),
    "--tool=memcheck", "--leak-check=full", "--track-origins=yes", "./" ++ fn ++ "_DeepState_TestHarness"]

/-- An option that is left out at `-1`. -/
def optionWord (option : Text) (value : Int) : List Text := if value = -1 then [] else [option ++ pastedInt value]

def fuzzAnalyzeCommands (h : Host) (fn runner : Text) (seed timeLimit : Int) : List (Shell.Simple × Option Text) :=
  [(changeDir (h.file (funPath fn)), some "&&"),
    (command (valgrindWords h fn seed timeLimit ++ optionWord "--seed=" seed ++ optionWord "--timeout=" timeLimit ++
        [("--fuzz" : Text), "--input_which_test", runner])
      (loggedTo (h.file (fuzzFolder fn seed timeLimit ++ [("valgrind_log_text" : Text)]))), none)]

/-! ## Plain words -/

section Plain

variable {h : Host} {t : Text} {fn : Text} {sep : Sep} {seed timeLimit : Int}

theorem plain_file {p : Pathname} : Shell.Plain (h.file p) ↔ Shell.Plain h.packagePath ∧ ∀ c ∈ p, Shell.Plain c := by
  rw [Host.file, Shell.plain_append]
  refine and_congr_right fun _ => ?_
  induction p with
  | nil => simp [Shell.plain_nil]
  | cons c p ih =>
      have hslash : Shell.Plain "/" := by with_unfolding_all decide
      rw [List.flatMap_cons, Shell.plain_append, Shell.plain_append, List.forall_mem_cons, ih, and_iff_right hslash]

theorem plain_funPath : Shell.Plain (h.file (funPath fn)) ↔ Shell.Plain h.packagePath ∧ Shell.Plain fn := by
  have htest : ∀ c ∈ testPath, Shell.Plain c := by with_unfolding_all decide
  rw [plain_file, funPath, List.forall_mem_append, and_iff_right htest]
  simp

theorem plain_file_append {p q : Pathname} :
    Shell.Plain (h.file (p ++ q)) ↔ Shell.Plain (h.file p) ∧ ∀ c ∈ q, Shell.Plain c := by
  rw [plain_file, plain_file, List.forall_mem_append, and_assoc]

theorem plain_pastedInt (i : Int) : Shell.Plain (pastedInt i) := by
  refine Shell.plain_of_safe fun c hc => ?_
  cases mem_pastedInt hc with
  | inl hdigit => simp [Shell.isSafe, Char.isAlphanum, hdigit]
  | inr hminus => rw [hminus]; decide

theorem plain_suffix (sep : Sep) : Shell.Plain sep.suffix := by cases sep <;> with_unfolding_all decide

theorem plain_gsub {pat rep : Text} (hrep : Shell.Plain rep) (ht : Shell.Plain t) : Shell.Plain (Text.gsub pat rep t) := by
  intro c hc
  cases Text.mem_gsub hc with
  | inl hc => exact ht c hc
  | inr hc => exact hrep c hc

end Plain

/-! ## The pieces of the lines -/

/-- The text begins like a word of a command line. -/
def BeginsWord (t : Text) : Prop := (Shell.Piece.word t).WellFormed

section Begins

variable {h : Host} {t u : Text}

theorem beginsWord (ht : (t.head?.any fun c => Shell.begins c && !Shell.isPattern c) = true) : BeginsWord t := by
  cases t with
  | nil => cases ht
  | cons c t =>
      rw [List.head?_cons, Option.any_some, Bool.and_eq_true, Bool.not_eq_true'] at ht
      exact ⟨c, t, rfl, ht.1, ht.2⟩

theorem beginsWord_of_safe (hne : t ≠ []) (ht : ∀ c ∈ t, Shell.isSafe c = true) : BeginsWord t := by
  cases t with
  | nil => exact absurd rfl hne
  | cons c t => exact ⟨c, t, rfl, Shell.isSafe_spec (ht c (by simp))⟩

theorem BeginsWord.append (ht : BeginsWord t) (u : Text) : BeginsWord (t ++ u) := by
  obtain ⟨c, v, rfl, hc⟩ := ht
  exact ⟨c, v ++ u, rfl, hc⟩

/-- An absolute path begins with a slash. -/
theorem beginsWord_file (habs : h.packagePath.head? = some '/') (p : Pathname) : BeginsWord (h.file p) := by
  have hpath : BeginsWord h.packagePath := beginsWord (by rw [habs]; with_unfolding_all rfl)
  exact hpath.append _

end Begins

section Lines

variable {h : Host} {fn : Text} {sep : Sep} {seed timeLimit : Int} {packagename : Option Text}

open Shell (Piece)

def words (ts : List Text) : List Piece := ts.map .word

theorem words_tokens (ts : List Text) : (words ts).flatMap Piece.tokens = (ts.map Shell.literal).map .word := by
  induction ts with
  | nil => rfl
  | cons t ts ih => exact congrArg (_ :: ·) ih

theorem words_wellFormed {ts : List Text} (hts : ∀ t ∈ ts, BeginsWord t) : ∀ p ∈ words ts, p.WellFormed :=
  List.forall_mem_map.mpr hts

theorem words_plain {ts : List Text} : (∀ p ∈ words ts, p.PlainWord) ↔ ∀ t ∈ ts, Shell.Plain t :=
  List.forall_mem_map

/-- A line is read as its commands exactly when its words are plain. -/
theorem denotes_iff {line last : Text} {ps : List Piece} {ts : List Shell.Token} {cs : List (Shell.Simple × Option Text)}
    (hline : line = ps.flatMap Piece.text ++ last) (hlast : Shell.tokens last = some ts)
    (hcs : Shell.script cs = ps.flatMap Piece.tokens ++ ts) (hps : ∀ p ∈ ps, p.WellFormed) :
    Shell.Denotes line cs ↔ ∀ p ∈ ps, p.PlainWord := by
  rw [Shell.Denotes, hline, hcs]
  exact Shell.tokens_pieces_iff hps hlast

theorem mem_signs_and : ("&&" : Text) ∈ [("&&" : Text), ";", ">"] := by with_unfolding_all decide

theorem mem_signs_semicolon : (";" : Text) ∈ [("&&" : Text), ";", ">"] := by with_unfolding_all decide

theorem mem_signs_greater : (">" : Text) ∈ [("&&" : Text), ";", ">"] := by with_unfolding_all decide

/-- `cd dir` and the operator behind it. -/
def changeDirPieces (dir sign : Text) : List Piece := [.word "cd", .word dir, .sign sign]

theorem changeDir_wellFormed {dir sign : Text} (hdir : BeginsWord dir) (hsign : sign ∈ [("&&" : Text), ";", ">"]) :
    ∀ p ∈ changeDirPieces dir sign, p.WellFormed := by
  have hcd : BeginsWord "cd" := beginsWord (by with_unfolding_all rfl)
  simp only [changeDirPieces, List.forall_mem_cons]
  exact ⟨hcd, hdir, hsign, by simp⟩

theorem changeDir_plain {dir sign : Text} : (∀ p ∈ changeDirPieces dir sign, p.PlainWord) ↔ Shell.Plain dir := by
  have hcd : Shell.Plain "cd" := by with_unfolding_all decide
  simp only [changeDirPieces, List.forall_mem_cons]
  exact ⟨fun hp => hp.2.1, fun hdir => ⟨hcd, hdir, trivial, by simp⟩⟩

/-- The words of a tool, and the file behind `>`. -/
def toolPieces (ps : List Piece) (log : Text) : List Piece := ps ++ [.sign ">", .word log]

theorem tool_wellFormed {ps : List Piece} {log : Text} (hps : ∀ p ∈ ps, p.WellFormed) (hlog : BeginsWord log) :
    ∀ p ∈ toolPieces ps log, p.WellFormed := by
  rw [toolPieces, List.forall_mem_append]
  simp only [List.forall_mem_cons]
  exact ⟨hps, mem_signs_greater, hlog, by simp⟩

theorem tool_plain {ps : List Piece} {log : Text} :
    (∀ p ∈ toolPieces ps log, p.PlainWord) ↔ (∀ p ∈ ps, p.PlainWord) ∧ Shell.Plain log := by
  rw [toolPieces, List.forall_mem_append]
  simp only [List.forall_mem_cons]
  exact and_congr_right fun _ => ⟨fun hp => hp.2.1, fun hlog => ⟨trivial, hlog, by simp⟩⟩

/-! ### deepstate_compile_fun -/

def makeLine (h : Host) (sep : Sep) : Text :=
  "rm -f *.o && make " ++ silent h ++ (if sep.editable then " -f " ++ makefileName sep else []) ++ "\n"

theorem tokens_makeLine : Shell.tokens (makeLine h sep) = some (Shell.script (compileCommands h fn sep).tail) := by
  have hall : ∀ verbose, ∀ sep ∈ [Sep.infun, .generation, .checks, .other],
      Shell.tokens (makeLine { sampleHost with verbose := verbose } sep) =
        some (Shell.script (compileCommands { sampleHost with verbose := verbose } [] sep).tail) := by
    decide +kernel
  exact hall h.verbose sep (by cases sep <;> decide)

theorem compileLine_denotes_iff (habs : h.packagePath.head? = some '/') :
    Shell.Denotes (compileLine h fn sep) (compileCommands h fn sep) ↔ Shell.Plain h.packagePath ∧ Shell.Plain fn := by
  have hline : compileLine h fn sep =
      (changeDirPieces (h.file (funPath fn)) "&&").flatMap Piece.text ++ makeLine h sep := by
    simp [compileLine, makeLine, changeDirPieces, Piece.text, Text.ofString_eq]
  have hformed := changeDir_wellFormed (beginsWord_file habs (funPath fn)) mem_signs_and
  rw [denotes_iff hline (@tokens_makeLine h fn sep) rfl hformed, changeDir_plain]
  exact plain_funPath

/-! ### deepstate_fuzz_fun -/

/-- The pieces behind the log of a fuzzing run, up to the last word. -/
def headPieces (log : Text) : List Piece := [.merge, .sign ";", .word "head", .word log, .sign ">"]

theorem headPieces_wellFormed {log : Text} (hlog : BeginsWord log) : ∀ p ∈ headPieces log, p.WellFormed := by
  have hhead : BeginsWord "head" := beginsWord (by with_unfolding_all rfl)
  simp only [headPieces, List.forall_mem_cons]
  exact ⟨trivial, mem_signs_semicolon, hhead, hlog, mem_signs_greater, by simp⟩

theorem headPieces_plain {log : Text} (hlog : Shell.Plain log) : ∀ p ∈ headPieces log, p.PlainWord := by
  have hhead : Shell.Plain "head" := by with_unfolding_all decide
  simp only [headPieces, List.forall_mem_cons]
  exact ⟨trivial, trivial, hhead, hlog, trivial, by simp⟩

/-- The name of a test, from the name of a package. -/
theorem testName_word {suffix : Text} (hsuffix : suffix ∈ [("_generator" : Text), "_runner"])
    (hname : ∀ c ∈ pasted packagename, c.isAlphanum = true ∨ c = '.') :
    BeginsWord (pasted packagename ++ suffix) ∧ Shell.Plain (pasted packagename ++ suffix) := by
  have hsafe : ∀ t ∈ [("_generator" : Text), "_runner"], t ≠ [] ∧ ∀ c ∈ t, Shell.isSafe c = true := by
    with_unfolding_all decide
  have hall : ∀ c ∈ pasted packagename ++ suffix, Shell.isSafe c = true := by
    rw [List.forall_mem_append]
    refine ⟨fun c hc => ?_, (hsafe suffix hsuffix).2⟩
    cases hname c hc with
    | inl halnum => simp [Shell.isSafe, halnum]
    | inr hdot => simp [Shell.isSafe, hdot]
  have hne : pasted packagename ++ suffix ≠ [] := fun h => (hsafe suffix hsuffix).1 (List.append_eq_nil_iff.mp h).2
  exact ⟨beginsWord_of_safe hne hall, Shell.plain_of_safe hall⟩

theorem runOptionWords_eq (seed timeLimit : Int) : ∀ t ∈ runOptionWords seed timeLimit,
    ∃ option ∈ [("--seed=" : Text), "--timeout="], ∃ value, t = option ++ pastedInt value := by
  intro t ht
  rw [runOptionWords] at ht
  split at ht
  · cases ht
  · split at ht
    · exact ⟨_, by simp, _, List.mem_singleton.mp ht⟩
    · rw [List.mem_cons, List.mem_singleton] at ht
      cases ht with
      | inl hseed => exact ⟨_, by simp, _, hseed⟩
      | inr htimeout => exact ⟨_, by simp, _, htimeout⟩

theorem option_word {option : Text} (hoption : option ∈ [("--seed=" : Text), "--timeout="]) (value : Int) :
    BeginsWord (option ++ pastedInt value) ∧ Shell.Plain (option ++ pastedInt value) := by
  have hsafe : ∀ t ∈ [("--seed=" : Text), "--timeout="], t ≠ [] ∧ ∀ c ∈ t, Shell.isSafe c = true := by decide +kernel
  obtain ⟨hne, hall⟩ := hsafe option hoption
  exact ⟨(beginsWord_of_safe hne hall).append _, Shell.plain_append.mpr ⟨Shell.plain_of_safe hall, plain_pastedInt value⟩⟩

/-- A file in the directory of a function. -/
theorem plain_fileIn {p : Pathname} (hpath : Shell.Plain (h.file p)) {n : Text} (hn : Shell.Plain n) :
    Shell.Plain (h.file (p ++ [n])) :=
  plain_file_append.mpr ⟨hpath, by simpa using hn⟩

theorem fuzzWords_begin (habs : h.packagePath.head? = some '/')
    (hname : ∀ c ∈ pasted packagename, c.isAlphanum = true ∨ c = '.') :
    ∀ t ∈ fuzzWords h packagename fn seed timeLimit sep, BeginsWord t := by
  have hdot : BeginsWord ("./" ++ testHarness fn sep) := beginsWord (by with_unfolding_all rfl)
  have htest : BeginsWord (generatorTest packagename) :=
    (testName_word (by with_unfolding_all decide) hname).1
  simp only [fuzzWords, List.forall_mem_cons, List.forall_mem_append]
  refine ⟨⟨hdot, fun t ht => ?_⟩, beginsWord (by with_unfolding_all rfl), beginsWord (by with_unfolding_all rfl),
    beginsWord (by with_unfolding_all rfl), beginsWord_file habs _, beginsWord (by with_unfolding_all rfl), htest, by simp⟩
  obtain ⟨option, hoption, value, rfl⟩ := runOptionWords_eq seed timeLimit t ht
  exact (option_word hoption value).1

theorem fuzzWords_plain (hpath : Shell.Plain (h.file (funPath fn))) (hfn : Shell.Plain fn)
    (hname : ∀ c ∈ pasted packagename, c.isAlphanum = true ∨ c = '.') :
    ∀ t ∈ fuzzWords h packagename fn seed timeLimit sep, Shell.Plain t := by
  have hconst : ∀ t ∈ [("./" : Text), "_DeepState_TestHarness", "_output", "--fuzz", "--fuzz_save_passing",
      "--output_test_dir", "--input_which_test"], Shell.Plain t := Shell.plain_all (by decide +kernel)
  simp only [List.forall_mem_cons] at hconst
  obtain ⟨hdot, hharness, houtput, hfuzz, hsave, hdir, hwhich, -⟩ := hconst
  have htest : Shell.Plain (generatorTest packagename) :=
    (testName_word (by with_unfolding_all decide) hname).2
  have hout : Shell.Plain (h.file (outputDir fn sep)) :=
    plain_fileIn hpath (by simp only [Shell.plain_append]; exact ⟨⟨hfn, houtput⟩, plain_suffix sep⟩)
  simp only [fuzzWords, testHarness, List.forall_mem_cons, List.forall_mem_append, Shell.plain_append]
  refine ⟨⟨⟨hdot, ⟨hfn, hharness⟩, plain_suffix sep⟩, fun t ht => ?_⟩, hfuzz, hsave, hdir, hout, hwhich, htest, by simp⟩
  obtain ⟨option, hoption, value, rfl⟩ := runOptionWords_eq seed timeLimit t ht
  exact (option_word hoption value).2

def fuzzPieces (h : Host) (packagename : Option Text) (fn : Text) (seed timeLimit : Int) (sep : Sep) : List Piece :=
  changeDirPieces (h.file (funPath fn)) "&&" ++
    (toolPieces (words (fuzzWords h packagename fn seed timeLimit sep)) (h.file (logFile fn sep)) ++
      headPieces (h.file (logFile fn sep)))

theorem runExecutable_eq : runExecutable h packagename fn seed timeLimit sep =
    (fuzzPieces h packagename fn seed timeLimit sep).flatMap Piece.text ++ "/dev/null" := by
  simp only [runExecutable, runOptions, fuzzPieces, fuzzWords, runOptionWords]
  split
  · simp [changeDirPieces, toolPieces, words, headPieces, Piece.text, Text.ofString_eq]
  · split <;> simp [changeDirPieces, toolPieces, words, headPieces, Piece.text, Text.ofString_eq]

theorem script_fuzzCommands : Shell.script (fuzzCommands h packagename fn seed timeLimit sep) =
    (fuzzPieces h packagename fn seed timeLimit sep).flatMap Piece.tokens ++ [.word (Shell.literal "/dev/null")] := by
  simp [Shell.script, fuzzCommands, fuzzPieces, changeDir, command, loggedTo, changeDirPieces, toolPieces, headPieces,
    words_tokens, Shell.Simple.tokens, Shell.Redirection.tokens, Piece.tokens]

theorem fuzzPieces_wellFormed (habs : h.packagePath.head? = some '/')
    (hname : ∀ c ∈ pasted packagename, c.isAlphanum = true ∨ c = '.') :
    ∀ p ∈ fuzzPieces h packagename fn seed timeLimit sep, p.WellFormed := by
  have hlog := beginsWord_file habs (logFile fn sep)
  have hdir := changeDir_wellFormed (beginsWord_file habs (funPath fn)) mem_signs_and
  have htool := tool_wellFormed (words_wellFormed (@fuzzWords_begin _ fn sep seed timeLimit _ habs hname)) hlog
  exact List.forall_mem_append.mpr ⟨hdir, List.forall_mem_append.mpr ⟨htool, headPieces_wellFormed hlog⟩⟩

theorem runExecutable_denotes_iff (habs : h.packagePath.head? = some '/')
    (hname : ∀ c ∈ pasted packagename, c.isAlphanum = true ∨ c = '.') :
    Shell.Denotes (runExecutable h packagename fn seed timeLimit sep) (fuzzCommands h packagename fn seed timeLimit sep) ↔
      Shell.Plain h.packagePath ∧ Shell.Plain fn := by
  rw [denotes_iff runExecutable_eq (by with_unfolding_all rfl) script_fuzzCommands (fuzzPieces_wellFormed habs hname)]
  simp only [fuzzPieces, List.forall_mem_append, changeDir_plain, tool_plain, words_plain]
  constructor
  · intro hp
    exact plain_funPath.mp hp.1
  · intro hp
    have hpath := plain_funPath.mpr hp
    have hend : Shell.Plain "_log_text" := by with_unfolding_all decide
    have hlog : Shell.Plain (h.file (logFile fn sep)) :=
      plain_fileIn hpath (by simp only [Shell.plain_append]; exact ⟨⟨hp.2, plain_suffix sep⟩, hend⟩)
    exact ⟨hpath, ⟨fuzzWords_plain hpath hp.2 hname, hlog⟩, headPieces_plain hlog⟩

/-! ### deepstate_analyze_file -/

theorem plain_fileName {p : Pathname} (hp : ∀ c ∈ p, Shell.Plain c) : Shell.Plain (fileName p) := by
  rw [fileName, List.getLastD_eq_getLast?]
  cases hlast : p.getLast? with
  | none => exact Shell.plain_nil
  | some c => exact hp c (List.mem_of_getLast? hlast)

theorem fileName_analyzedExecutable (file : Pathname) : fileName (analyzedExecutable file) =
    Text.gsub "_output" "_DeepState_TestHarness" (fileName file.dropLast) := by
  rw [analyzedExecutable, fileName, List.getLastD_concat]

variable {file : Pathname}

theorem analyzeWords_begin (habs : h.packagePath.head? = some '/')
    (hname : ∀ c ∈ pasted packagename, c.isAlphanum = true ∨ c = '.') :
    ∀ t ∈ analyzeWords h packagename file, BeginsWord t := by
  have htest : BeginsWord (runnerTest packagename) := (testName_word (by with_unfolding_all decide) hname).1
  have hlast : ∀ t ∈ ([] : List Text), BeginsWord t := by simp
  simp only [analyzeWords, List.forall_mem_cons]
  exact ⟨beginsWord (by with_unfolding_all rfl), beginsWord (by with_unfolding_all rfl),
    beginsWord (by with_unfolding_all rfl), beginsWord (by with_unfolding_all rfl),
    beginsWord (by with_unfolding_all rfl), beginsWord (by with_unfolding_all rfl),
    beginsWord (by with_unfolding_all rfl), beginsWord_file habs _, beginsWord (by with_unfolding_all rfl), htest, hlast⟩

theorem plain_logFolder (hpath : Shell.Plain h.packagePath) (hfile : ∀ c ∈ file, Shell.Plain c) {n : Text}
    (hn : Shell.Plain n) : Shell.Plain (h.file (logFolder file ++ [n])) := by
  have hlog : Shell.Plain "log_" := by with_unfolding_all decide
  have hstem : Shell.Plain (stem (fileName file)) := fun c hc =>
    plain_fileName hfile c ((List.takeWhile_prefix _).subset hc)
  refine plain_fileIn (plain_file.mpr ⟨hpath, ?_⟩) hn
  rw [logFolder, List.forall_mem_append]
  exact ⟨fun c hc => hfile c (List.dropLast_subset _ hc), by simpa [Shell.plain_append] using ⟨hlog, hstem⟩⟩

theorem analyzeWords_plain (hpath : Shell.Plain h.packagePath) (hfile : ∀ c ∈ file, Shell.Plain c)
    (hname : ∀ c ∈ pasted packagename, c.isAlphanum = true ∨ c = '.') :
    ∀ t ∈ analyzeWords h packagename file, Shell.Plain t := by
  have hconst : ∀ t ∈ [("valgrind" : Text), "--xml=yes", "--xml-file=", "valgrind_log", "--tool=memcheck",
      "--leak-check=yes", "./", "_DeepState_TestHarness", "--input_test_file", "--input_which_test"],
      Shell.Plain t := Shell.plain_all (by decide +kernel)
  simp only [List.forall_mem_cons] at hconst
  obtain ⟨htool, hxml, hxmlFile, hlog, hmemcheck, hleak, hdot, hharness, hfileOption, hwhich, -⟩ := hconst
  have htest : Shell.Plain (runnerTest packagename) := (testName_word (by with_unfolding_all decide) hname).2
  have hdirs : ∀ c ∈ file.dropLast, Shell.Plain c := fun c hc => hfile c (List.dropLast_subset _ hc)
  have hexec : Shell.Plain (fileName (analyzedExecutable file)) := by
    rw [fileName_analyzedExecutable]
    exact plain_gsub hharness (plain_fileName hdirs)
  have hlogs := plain_logFolder hpath hfile hlog
  simp only [analyzeWords, List.forall_mem_cons, Shell.plain_append]
  exact ⟨htool, hxml, ⟨hxmlFile, hlogs⟩, hmemcheck, hleak, ⟨hdot, hexec⟩, hfileOption, plain_file.mpr ⟨hpath, hfile⟩,
    hwhich, htest, by simp⟩

def analyzePieces (h : Host) (packageName : Option Text) (file : Pathname) : List Piece :=
  changeDirPieces (h.file file.dropLast.dropLast) ";" ++
    toolPieces (words (analyzeWords h packageName file)) (h.file (logFolder file ++ [("valgrind_log_text" : Text)]))

theorem analyzeLine_eq : analyzeLine h packagename file =
    (analyzePieces h packagename file).flatMap Piece.text ++ "2>&1" := by
  simp [analyzeLine, analyzePieces, analyzeWords, changeDirPieces, toolPieces, words, Piece.text, Text.ofString_eq]

/-- The tokens of `2>&1`. -/
def mergeTokens : List Shell.Token := [.number "2", .operator ">&", .word (Shell.literal "1")]

theorem tokens_merge : Shell.tokens "2>&1" = some mergeTokens := by with_unfolding_all decide

theorem script_analyzeCommands : Shell.script (analyzeCommands h packagename file) =
    (analyzePieces h packagename file).flatMap Piece.tokens ++ mergeTokens := by
  simp [Shell.script, analyzeCommands, analyzePieces, changeDir, command, loggedTo, changeDirPieces, toolPieces,
    words_tokens, mergeTokens, Shell.Simple.tokens, Shell.Redirection.tokens, Piece.tokens]

theorem analyzePieces_wellFormed (habs : h.packagePath.head? = some '/')
    (hname : ∀ c ∈ pasted packagename, c.isAlphanum = true ∨ c = '.') :
    ∀ p ∈ analyzePieces h packagename file, p.WellFormed := by
  have hdir := changeDir_wellFormed (beginsWord_file habs file.dropLast.dropLast) mem_signs_semicolon
  have hwords := words_wellFormed (@analyzeWords_begin _ _ file habs hname)
  exact List.forall_mem_append.mpr ⟨hdir, tool_wellFormed hwords (beginsWord_file habs _)⟩

theorem analyzeLine_denotes_iff (habs : h.packagePath.head? = some '/')
    (hname : ∀ c ∈ pasted packagename, c.isAlphanum = true ∨ c = '.') :
    Shell.Denotes (analyzeLine h packagename file) (analyzeCommands h packagename file) ↔ Shell.Plain (h.file file) := by
  rw [denotes_iff analyzeLine_eq tokens_merge script_analyzeCommands (analyzePieces_wellFormed habs hname)]
  simp only [analyzePieces, List.forall_mem_append, changeDir_plain, tool_plain, words_plain]
  constructor
  · intro hp
    exact hp.2.1 _ (by simp [analyzeWords])
  · intro hp
    obtain ⟨hpath, hfile⟩ := plain_file.mp hp
    have htext : Shell.Plain "valgrind_log_text" := by with_unfolding_all decide
    have hdir : ∀ c ∈ file.dropLast.dropLast, Shell.Plain c := fun c hc =>
      hfile c (List.dropLast_subset _ (List.dropLast_subset _ hc))
    exact ⟨plain_file.mpr ⟨hpath, hdir⟩, analyzeWords_plain hpath hfile hname, plain_logFolder hpath hfile htext⟩

/-! ### deepstate_fuzz_fun_analyze -/

/-- The option, or the blank that is pasted without it. -/
def optionPieces (option : Text) (value : Int) : List Piece :=
  if value = -1 then [.gap] else [.word (option ++ pastedInt value)]

def fuzzAnalyzePieces (h : Host) (fn runner : Text) (seed timeLimit : Int) : List Piece :=
  changeDirPieces (h.file (funPath fn)) "&&" ++
    toolPieces (words (valgrindWords h fn seed timeLimit) ++ optionPieces "--seed=" seed ++
        optionPieces "--timeout=" timeLimit ++ words [("--fuzz" : Text), "--input_which_test", runner])
      (h.file (fuzzFolder fn seed timeLimit ++ [("valgrind_log_text" : Text)]))

variable {runner : Text}

theorem optionPieces_spec {option : Text} (hoption : option ∈ [("--seed=" : Text), "--timeout="]) (value : Int) :
    ∀ p ∈ optionPieces option value, p.WellFormed ∧ p.PlainWord := by
  rw [optionPieces]
  split
  · simp [Piece.WellFormed, Piece.PlainWord]
  · intro p hp
    rw [List.mem_singleton.mp hp]
    exact option_word hoption value

theorem optionPieces_tokens (option : Text) (value : Int) :
    (optionPieces option value).flatMap Piece.tokens = ((optionWord option value).map Shell.literal).map .word := by
  rw [optionPieces, optionWord]
  split <;> rfl

theorem optionPieces_text (option : Text) (value : Int) :
    (optionPieces option value).flatMap Piece.text = (if value ≠ -1 then option ++ pastedInt value else []) ++ [' '] := by
  rw [optionPieces]
  split
  · next hv => simp [hv, Piece.text]
  · simp [Piece.text]

theorem fuzzAnalyzeLine_eq : fuzzAnalyzeLine h fn runner seed timeLimit =
    (fuzzAnalyzePieces h fn runner seed timeLimit).flatMap Piece.text ++ "2>&1" := by
  simp only [fuzzAnalyzeLine, fuzzAnalyzePieces, toolPieces, List.flatMap_append, optionPieces_text]
  generalize (if seed ≠ -1 then ("--seed=" : Text) ++ pastedInt seed else []) = seedOption
  generalize (if timeLimit ≠ -1 then ("--timeout=" : Text) ++ pastedInt timeLimit else []) = timeoutOption
  simp [changeDirPieces, valgrindWords, words, Piece.text, Text.ofString_eq]

theorem script_fuzzAnalyzeCommands : Shell.script (fuzzAnalyzeCommands h fn runner seed timeLimit) =
    (fuzzAnalyzePieces h fn runner seed timeLimit).flatMap Piece.tokens ++ mergeTokens := by
  simp [Shell.script, fuzzAnalyzeCommands, fuzzAnalyzePieces, changeDir, command, loggedTo, changeDirPieces, toolPieces,
    words_tokens, optionPieces_tokens, mergeTokens, Shell.Simple.tokens, Shell.Redirection.tokens, Piece.tokens]

theorem fuzzAnalyzePieces_wellFormed (habs : h.packagePath.head? = some '/') (hrunner : BeginsWord runner) :
    ∀ p ∈ fuzzAnalyzePieces h fn runner seed timeLimit, p.WellFormed := by
  have hwords : ∀ t ∈ valgrindWords h fn seed timeLimit, BeginsWord t := by
    have hlast : ∀ t ∈ ([] : List Text), BeginsWord t := by simp
    simp only [valgrindWords, List.forall_mem_cons]
    exact ⟨beginsWord (by with_unfolding_all rfl), beginsWord (by with_unfolding_all rfl),
      beginsWord (by with_unfolding_all rfl), beginsWord (by with_unfolding_all rfl),
      beginsWord (by with_unfolding_all rfl), beginsWord (by with_unfolding_all rfl),
      beginsWord (by with_unfolding_all rfl), hlast⟩
  have htest : ∀ t ∈ [("--fuzz" : Text), "--input_which_test", runner], BeginsWord t := by
    simp only [List.forall_mem_cons]
    exact ⟨beginsWord (by with_unfolding_all rfl), beginsWord (by with_unfolding_all rfl), hrunner, by simp⟩
  have hdir := changeDir_wellFormed (beginsWord_file habs (funPath fn)) mem_signs_and
  refine List.forall_mem_append.mpr ⟨hdir, tool_wellFormed ?_ (beginsWord_file habs _)⟩
  simp only [List.forall_mem_append]
  exact ⟨⟨⟨words_wellFormed hwords, fun p hp => (optionPieces_spec (by simp) seed p hp).1⟩,
    fun p hp => (optionPieces_spec (by simp) timeLimit p hp).1⟩, words_wellFormed htest⟩

theorem fuzzAnalyzeLine_denotes_iff (habs : h.packagePath.head? = some '/') (hrunner : BeginsWord runner)
    (hplain : Shell.Plain runner) :
    Shell.Denotes (fuzzAnalyzeLine h fn runner seed timeLimit) (fuzzAnalyzeCommands h fn runner seed timeLimit) ↔
      Shell.Plain h.packagePath ∧ Shell.Plain fn := by
  rw [denotes_iff fuzzAnalyzeLine_eq tokens_merge script_fuzzAnalyzeCommands (fuzzAnalyzePieces_wellFormed habs hrunner)]
  simp only [fuzzAnalyzePieces, List.forall_mem_append, changeDir_plain, tool_plain, words_plain]
  constructor
  · intro hp
    exact plain_funPath.mp hp.1
  · intro hp
    have hpath := plain_funPath.mpr hp
    have hconst : ∀ t ∈ [("valgrind" : Text), "--xml=yes", "--xml-file=", "_log", "--tool=memcheck",
        "--leak-check=full", "--track-origins=yes", "./", "_DeepState_TestHarness", "--fuzz", "--input_which_test",
        "valgrind_log_text", "_"], Shell.Plain t := Shell.plain_all (by decide +kernel)
    simp only [List.forall_mem_cons] at hconst
    obtain ⟨htool, hxml, hxmlFile, hlog, hmemcheck, hleak, horigins, hdot, hharness, hfuzz, hwhich, htext, hlow, -⟩ := hconst
    have hseed := plain_pastedInt seed
    have hfolder : Shell.Plain (h.file (fuzzFolder fn seed timeLimit)) :=
      plain_fileIn hpath (by simp only [Shell.plain_append]; exact ⟨⟨plain_pastedInt _, hlow⟩, hseed⟩)
    have hxmlLog := plain_fileIn hfolder (Shell.plain_append.mpr ⟨hseed, hlog⟩)
    have hwords : ∀ t ∈ valgrindWords h fn seed timeLimit, Shell.Plain t := by
      simp only [valgrindWords, List.forall_mem_cons, Shell.plain_append]
      exact ⟨htool, hxml, ⟨hxmlFile, hxmlLog⟩, hmemcheck, hleak, horigins, ⟨⟨hdot, hp.2⟩, hharness⟩, by simp⟩
    have htest : ∀ t ∈ [("--fuzz" : Text), "--input_which_test", runner], Shell.Plain t := by
      simp only [List.forall_mem_cons]
      exact ⟨hfuzz, hwhich, hplain, by simp⟩
    exact ⟨hpath, ⟨⟨⟨hwords, fun p hp => (optionPieces_spec (by simp) seed p hp).2⟩,
      fun p hp => (optionPieces_spec (by simp) timeLimit p hp).2⟩, htest⟩, plain_fileIn hfolder htext⟩

/-! ## All lines -/

theorem plain_savedFile {name : Text} : Shell.Plain (h.file (outputDir fn sep ++ [name])) ↔
    Shell.Plain h.packagePath ∧ Shell.Plain fn ∧ Shell.Plain name := by
  have hend : Shell.Plain ("_output" : Text) := by with_unfolding_all decide
  have hout : Shell.Plain (fn ++ "_output" ++ sep.suffix) ↔ Shell.Plain fn := by
    simp [Shell.plain_append, hend, plain_suffix]
  rw [plain_file_append, outputDir, plain_file_append, plain_funPath, List.forall_mem_singleton,
    List.forall_mem_singleton, hout]
  simp only [and_assoc, and_self_left]

/-- The shell reads the commands that were meant exactly when the package path, the function name and, for the
replay of a saved file, the name of that file have no blank, no operator, no quote, no expansion and no
pattern. -/
theorem commandLines_denote_iff (habs : h.packagePath.head? = some '/')
    (hname : ∀ c ∈ pasted packagename, c.isAlphanum = true ∨ c = '.')
    (hne : runner ≠ []) (hrunner : ∀ c ∈ runner, c.isAlphanum = true ∨ c = '_') (name : Text) :
    (Shell.Denotes (compileLine h fn sep) (compileCommands h fn sep) ↔
      Shell.Plain h.packagePath ∧ Shell.Plain fn) ∧
    (Shell.Denotes (runExecutable h packagename fn seed timeLimit sep)
        (fuzzCommands h packagename fn seed timeLimit sep) ↔ Shell.Plain h.packagePath ∧ Shell.Plain fn) ∧
    (Shell.Denotes (analyzeLine h packagename (outputDir fn sep ++ [name]))
        (analyzeCommands h packagename (outputDir fn sep ++ [name])) ↔
      Shell.Plain h.packagePath ∧ Shell.Plain fn ∧ Shell.Plain name) ∧
    (Shell.Denotes (fuzzAnalyzeLine h fn runner seed timeLimit) (fuzzAnalyzeCommands h fn runner seed timeLimit) ↔
      Shell.Plain h.packagePath ∧ Shell.Plain fn) := by
  have hsafe : ∀ c ∈ runner, Shell.isSafe c = true := by
    intro c hc
    cases hrunner c hc with
    | inl halnum => simp [Shell.isSafe, halnum]
    | inr hlow => simp [Shell.isSafe, hlow]
  exact ⟨compileLine_denotes_iff habs, runExecutable_denotes_iff habs hname,
    (analyzeLine_denotes_iff habs hname).trans plain_savedFile,
    fuzzAnalyzeLine_denotes_iff habs (beginsWord_of_safe hne hsafe) (Shell.plain_of_safe hsafe)⟩

end Lines

theorem commandLines_sample :
    (Shell.Denotes (compileLine sampleHost "f" .infun) (compileCommands sampleHost "f" .infun) ↔
      Shell.Plain sampleHost.packagePath ∧ Shell.Plain "f") ∧
    (Shell.Denotes (runExecutable sampleHost (some "pkg") "f" (-1) 2 .infun)
        (fuzzCommands sampleHost (some "pkg") "f" (-1) 2 .infun) ↔
      Shell.Plain sampleHost.packagePath ∧ Shell.Plain "f") ∧
    (Shell.Denotes (analyzeLine sampleHost (some "pkg") (outputDir "f" .infun ++ [("a.crash" : Text)]))
        (analyzeCommands sampleHost (some "pkg") (outputDir "f" .infun ++ [("a.crash" : Text)])) ↔
      Shell.Plain sampleHost.packagePath ∧ Shell.Plain "f" ∧ Shell.Plain "a.crash") ∧
    (Shell.Denotes (fuzzAnalyzeLine sampleHost "f" "pkg_runner" (-1) 2)
        (fuzzAnalyzeCommands sampleHost "f" "pkg_runner" (-1) 2) ↔
      Shell.Plain sampleHost.packagePath ∧ Shell.Plain "f") :=
  commandLines_denote_iff (by with_unfolding_all decide) (by with_unfolding_all decide) (by with_unfolding_all decide)
    (by with_unfolding_all decide) _

/-- A path with a blank, as a user may have it. -/
def spacedHost : Host := { sampleHost with packagePath := "/home/user/my pkg" }

/-- There `cd` has two arguments, the first of them another directory. -/
theorem commandLines_fail : ¬ ∀ (h : Host) (fn name runner : Text) (sep : Sep) (packagename : Option Text)
    (seed timeLimit : Int), h.packagePath.head? = some '/' →
      (∀ c ∈ pasted packagename, c.isAlphanum = true ∨ c = '.') →
      runner ≠ [] → (∀ c ∈ runner, c.isAlphanum = true ∨ c = '_') →
        Shell.Denotes (compileLine h fn sep) (compileCommands h fn sep) ∧
        Shell.Denotes (runExecutable h packagename fn seed timeLimit sep)
          (fuzzCommands h packagename fn seed timeLimit sep) ∧
        Shell.Denotes (analyzeLine h packagename (outputDir fn sep ++ [name]))
          (analyzeCommands h packagename (outputDir fn sep ++ [name])) ∧
        Shell.Denotes (fuzzAnalyzeLine h fn runner seed timeLimit)
          (fuzzAnalyzeCommands h fn runner seed timeLimit) := by
  intro hall
  have habs : spacedHost.packagePath.head? = some '/' := by with_unfolding_all decide
  have hdenotes := (hall spacedHost "f" "a.crash" "pkg_runner" .infun (some "pkg") (-1) 2 habs
    (by with_unfolding_all decide) (by with_unfolding_all decide) (by with_unfolding_all decide)).1
  have hplain := ((compileLine_denotes_iff habs).mp hdenotes).1
  exact absurd hplain (by with_unfolding_all decide)

end RcppDeepState
