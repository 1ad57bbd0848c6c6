import RcppDeepState.Library.Run
import RcppDeepState.Analysis.FuzzAnalyze

/-!
# Runs on a package

A run is a sequence of calls on one package, in any order, with the user's own edits in between. Every
call carries what the rest of the machine does during it.
-/

namespace RcppDeepState

inductive Operation
  | funCreate (installed : Installation) (fn : Text) (sep : Sep)
  | editableFun (installed installed' : Installation) (fn : Text)
  | pkgCreate (o : PkgOutcome)
  | harnessCompileRun (o : CompileRunOutcome) (timeLimit seed : Int)
  | compileFun (b : BuildOutcome) (fn : Text) (sep : Sep)
  | fuzzFun (o : FuzzOutcome) (fn : Text) (seed timeLimit : Int) (sep : Sep)
  | analyzeFile (o : ReplayOutcome) (packageName : Option Text) (fn : Text) (sep : Sep) (name : Text)
  | analyzeFun (replay : Text → ReplayOutcome) (fn : Text) (maxInputs : MaxInputs) (sep : Sep)
  | analyzePkg (replay : Text → Text → ReplayOutcome) (testfiles maxInputs : MaxInputs)
  | fuzzFunAnalyze (o : FuzzAnalyzeOutcome) (fn : Text) (seed timeLimit : Int)
  | user (edit : FileSystem Content → FileSystem Content)

/-- What an operation leaves, whether it returns or stops. -/
def Operation.apply (xml2 : Xml2) (h : Host) : Operation → World → World
  | .funCreate installed fn sep => Command.final (deepstateFunCreate h installed fn sep)
  | .editableFun installed installed' fn => Command.final (deepstateEditableFun h installed installed' fn)
  | .pkgCreate o => Command.final (deepstatePkgCreate h o)
  | .harnessCompileRun o timeLimit seed => Command.final (deepstateHarnessCompileRun h o timeLimit seed)
  | .compileFun b fn sep => Command.final (deepstateCompileFun h b fn sep)
  | .fuzzFun o fn seed timeLimit sep => Command.final (deepstateFuzzFun h o fn seed timeLimit sep)
  | .analyzeFile o packageName fn sep name =>
      Command.final (deepstateAnalyzeFile xml2 h o packageName (outputDir fn sep ++ [name]))
  | .analyzeFun replay fn maxInputs sep =>
      Command.final (deepstateAnalyzeFun xml2 h replay fn maxInputs sep)
  | .analyzePkg replay testfiles maxInputs =>
      Command.final (deepstateHarnessAnalyzePkg xml2 h replay testfiles maxInputs)
  | .fuzzFunAnalyze o fn seed timeLimit =>
      Command.final (deepstateFuzzFunAnalyze xml2 h o fn seed timeLimit)
  | .user edit => fun w => { w with fs := edit w.fs }

/-- The world after a run. -/
def runAll (xml2 : Xml2) (h : Host) (ops : List Operation) (w : World) : World :=
  Run.run (Operation.apply xml2 h) ops w

/-- Every step of a run satisfies `P` of its operation and of the world it starts from. -/
def EachStep (xml2 : Xml2) (h : Host) (P : Operation → World → Prop)
    (ops : List Operation) (w : World) : Prop :=
  Run.Each (Operation.apply xml2 h) P ops w

end RcppDeepState
