import RcppDeepState.Harness.Lemmas.Pieces
import RcppDeepState.Package.Accounting

/-!
# Names in a harness

What the INPUTS macro declares, and what the other parts of a harness use. The declarations lose every
`const`, names included, and the file of a matrix is written through a variable of its own.
-/

namespace RcppDeepState

open Cpp

/-! ## What a harness should look like -/

/-- What the headers of a harness bring along: their macros, and the names that a function at global scope would
clash with (of their namespaces, and of what these have in them that is no function). -/
structure Headers where
  macros : Text → Option Macro
  taken : Text → Bool

/-- The macros in force in a harness: those of its headers and its own two. -/
def macrosInForce (headers : Headers) (n : Text) : Option Macro :=
  if n = "INPUTS" ∨ n = "PRINT_INPUTS" then some .object else headers.macros n

/-- The statements of the runner test; those of the generator test are the first of them. -/
def runnerStatements (inputs fn : Text) (args : List Argument) : List (List Token) :=
  statements (macroTokens (inputsText args)) ++ (statements (macroTokens ((printText args).drop 2)) ++
    (statements (tokens (inputsDump inputs args)) ++ statements (tokens (callText fn args))))

/-- What the call of the runner is wrapped in. -/
def handlerText : Text :=
  "  \x7dcatch(Rcpp::exception& e)\x7b\n    std::cout<<\"Exception Handled\"<<std::endl;\n  \x7d"

/-- Where the parts of a harness stand: both tests expand the macros, and the runner dumps the inputs and then
calls the function. What differs between the harnesses is comments. -/
def Layout (text inputs fn : Text) (args : List Argument) : Prop :=
  ∃ opening prototype offers unit remark,
    CommentLines opening ∧ CommentLines offers ∧ CommentLines remark ∧
      text = opening ++ (headers ++ ("RInside Rinstance;\n\n" ++ (prototype ++ ("\n\n" ++ (offers ++
        (inputsText args ++ (printText args ++
          (testHeader unit "generator" ++ ("  INPUTS\n  PRINT_INPUTS\n" ++ ("\x7d" ++
          (testHeader unit "runner" ++ ("  INPUTS\n  PRINT_INPUTS\n" ++ (inputsDump inputs args ++
            ("  try\x7b\n    " ++ (callText fn args ++ (remark ++ (handlerText ++ "\n\x7d")))))))))))))))))

/-- The text of a harness is well scoped and calls the function as declared, under these headers. -/
structure WellScoped (headers : Headers) (text inputs fn : Text) (args : List Argument) : Prop where
  layout : Layout text inputs fn args
  declares : inputNames args = args.map (·.name)
  initialises : initialisers (macroTokens (inputsText args)) = args.map fun a => (a.name, generatorOf a.key)
  prints : ∀ x ∈ usedNames (macroTokens ((printText args).drop 2)), x ∈ inputNames args
  dumps : ∀ x ∈ usedNames (tokens (inputsDump inputs args)), x ∈ inputNames args ++ dumpNames inputs args
  once : (inputNames args ++ dumpNames inputs args).Nodup
  call : Cpp.call (tokens (callText fn args)) = some (fn, args.map callArgument)
  unhidden : hiddenNames [] (runnerStatements inputs fn args) = []
  untyped : ∀ s ∈ runnerStatements inputs fn args, typeName s ≠ some fn
  apart : fn ∉ declaredNames (tokens "RInside Rinstance;\n\n") ∧ headers.taken fn = false
  intact : ∀ x ∈ fn :: (inputNames args ++ dumpNames inputs args), ∀ s ∈ runnerStatements inputs fn args,
    ¬ Replaced (macrosInForce headers) s x

/-- The type of the variable that holds an argument. -/
def Argument.typeWord (a : Argument) : Text := (rtypeOf a.key).getD a.declaredType

/-- The names of the function and its arguments get on with each other, with the names that the harness makes
of them and with the headers. -/
structure NamesFit (headers : Headers) (fn : Text) (args : List Argument) : Prop where
  complete : ∀ a ∈ args, ¬ ("const" : Text) <:+: a.name
  streams : ∀ a ∈ args, isMat a = true → ∀ b ∈ args, b.name ≠ streamName a
  fn_ne_name : fn ∉ args.map (·.name) ++ streamNames args
  fn_ne_type : fn ∉ args.map Argument.typeWord
  fn_ne_instance : fn ≠ "Rinstance"
  fn_free : headers.taken fn = false
  generator : ∀ a ∈ args, a.name ≠ generatorOf a.key
  later : args.Pairwise fun a b => a.name ≠ b.typeWord ∧ a.name ≠ generatorOf b.key
  fn_macro : macrosInForce headers fn = none
  objects : ∀ x ∈ args.map (·.name) ++ streamNames args, macrosInForce headers x ≠ some .object
  functions : ∀ a ∈ args, macrosInForce headers a.name = some .function →
    rtypeOf a.key = none ∧ ∀ b ∈ args, a.name ≠ generatorOf b.key

/-! ## What the statements look up -/

section Lookups

variable {inputs fn x : Text} {a : Argument} {args as : List Argument}

theorem Identifier.unqualified (hx : Identifier x) : ':' ∉ x := hx.not_mem (by decide)

theorem unqualified_of_mem_names (hn : ∀ a ∈ args, Identifier a.name)
    (hx : x ∈ args.map (·.name) ++ streamNames args) : ':' ∉ x := by
  rcases List.mem_append.mp hx with hx | hx
  · obtain ⟨a, ha, rfl⟩ := List.mem_map.mp hx
    exact (hn a ha).unqualified
  · obtain ⟨a, ha, rfl⟩ := List.mem_map.mp hx
    have hsuffix : ':' ∉ ("_stream" : Text) := by with_unfolding_all decide
    simp [streamName, (hn a (List.mem_filter.mp ha).1).unqualified, hsuffix]

theorem callees_declaration (hn : a.declared ≠ []) : (declarationStatements a).flatMap callees =
    ((rtypeOf a.key).toList.map fun _ => a.declared) ++ [generatorOf a.key] := by
  unfold declarationStatements
  cases rtypeOf a.key <;> simp [optWord, hn, callees, calleesFrom]

theorem hiddenNames_declaration (hn : a.declared ≠ []) (vars : List Text) :
    hiddenNames vars (declarationStatements a) = [] ↔
      a.typeWord ∉ vars ∧ generatorOf a.key ∉ vars ∧ generatorOf a.key ≠ a.declared := by
  unfold declarationStatements Argument.typeWord
  cases rtypeOf a.key <;>
    simp [optWord, hn, hiddenNames, typeName, declaredName, expression, callees, calleesFrom]

/-- The statements that print declare nothing and look nothing up. -/
theorem lookups_print : ∀ s ∈ printStatements args,
    typeName s = none ∧ declaredName s = none ∧ callees s = [] ∧ callees (expression s) = [] := by
  intro s hs
  rw [printStatements, List.mem_cons, List.mem_append, List.mem_map, List.mem_singleton] at hs
  rcases hs with rfl | ⟨a, -, rfl⟩ | rfl <;>
    simp [printFixed, printStatement, typeName, declaredName, expression, callees, calleesFrom]

/-- Those that dump look up qualified names only. -/
theorem lookups_dump : ∀ s ∈ dumpStatements inputs a, (∀ w, typeName s = some w → w = "std::ofstream") ∧
    (∀ w ∈ callees s, w = "qs::c_qsave") ∧ ∀ w ∈ callees (expression s), w = "qs::c_qsave" := by
  intro s hs
  unfold dumpStatements at hs
  split at hs
  · simp only [List.mem_cons, List.not_mem_nil, or_false] at hs
    rcases hs with rfl | rfl | rfl | rfl <;> simp [typeName, expression, callees, calleesFrom]
  · rw [List.mem_singleton.mp hs]
    simp [typeName, expression, callees, calleesFrom]

theorem qualified_ofstream : ':' ∈ ("std::ofstream" : Text) := by with_unfolding_all decide

theorem qualified_qsave : ':' ∈ ("qs::c_qsave" : Text) := by with_unfolding_all decide

/-- Between the declarations and the call only qualified names are looked up. -/
theorem qualified_lookups : ∀ s ∈ printStatements args ++ args.flatMap (dumpStatements inputs), ∀ w,
    (typeName s = some w ∨ w ∈ callees (expression s)) → ':' ∈ w := by
  intro s hs w hw
  rcases List.mem_append.mp hs with hs | hs
  · obtain ⟨htype, -, -, hcallees⟩ := lookups_print s hs
    rw [htype, hcallees] at hw
    simp at hw
  · obtain ⟨a, -, hs⟩ := List.mem_flatMap.mp hs
    obtain ⟨htype, -, hcallees⟩ := lookups_dump s hs
    rcases hw with hw | hw
    · rw [htype w hw]
      exact qualified_ofstream
    · rw [hcallees w hw]
      exact qualified_qsave

theorem declaredName_printDump : (printStatements args ++ args.flatMap (dumpStatements inputs)).filterMap declaredName =
    streamNames args := by
  have hprint : (printStatements args).filterMap declaredName = [] := by
    rw [List.filterMap_eq_nil_iff]
    exact fun s hs => (lookups_print s hs).2.1
  rw [List.filterMap_append, hprint, declaredName_dump, List.nil_append]

theorem callees_call : callees (callStatement fn as a) = [fn] := by
  have harg : ∀ (a : Argument) (c : Char) (ts : List Token), c = ',' ∨ c = ')' →
      calleesFrom false (callArgument a ++ .punct c :: ts) = calleesFrom false ts := by
    intro a c ts hc
    unfold callArgument
    rcases hc with rfl | rfl <;> split <;> (try split) <;> simp [calleesFrom]
  have hargs : ∀ ts, calleesFrom false (as.flatMap (fun a => callArgument a ++ [.punct ',']) ++ ts) =
      calleesFrom false ts := by
    intro ts
    induction as with
    | nil => rfl
    | cons b as ih =>
        rw [List.flatMap_cons, List.append_assoc, List.append_assoc, List.singleton_append,
          harg b ',' _ (Or.inl rfl), ih]
  have hlast := harg a ')' [] (Or.inr rfl)
  simp [callees, callStatement, calleesFrom, hargs, hlast]

end Lookups

/-! ## The statements of the runner -/

/-- The statements of the runner test, in which the last argument of the call stands apart. -/
def runnerParts (inputs fn : Text) (args as : List Argument) (last : Argument) : List (List Token) :=
  args.flatMap declarationStatements ++ (printStatements args ++
    (args.flatMap (dumpStatements inputs) ++ [callStatement fn as last]))

section Runner

variable {inputs fn : Text} {a : Argument} {args : List Argument}

theorem runnerStatements_eq (hi : LiteralText inputs) (hfn : Identifier fn) (hargs : ∀ a ∈ args, Declarable a)
    (hne : args ≠ []) : ∃ as a, runnerStatements inputs fn args = runnerParts inputs fn args as a := by
  have hn : ∀ a ∈ args, Identifier a.name := fun a ha => (hargs a ha).name
  obtain ⟨as, a, has⟩ := (List.eq_nil_or_concat args).resolve_left hne
  rw [List.concat_eq_append] at has
  have hcall : statements (tokens (callText fn args)) = [callStatement fn as a] := by
    rw [has] at hn ⊢
    exact statements_call hfn (fun x hx => hn x (by simp [hx])) (hn a (by simp))
  exact ⟨as, a, by rw [runnerStatements, runnerParts, statements_inputs hargs, statements_print hn,
    statements_dump hi hn, hcall]⟩

variable (hself : ∀ a ∈ args, a.declared = a.name) (hn : ∀ a ∈ args, Identifier a.name)

include hself hn

theorem declaredName_declarations : (args.flatMap declarationStatements).filterMap declaredName =
    args.map (·.name) := by
  induction args with
  | nil => rfl
  | cons a args ih =>
      have ha : a.declared = a.name := hself a (by simp)
      have hne : a.name ≠ [] := (hn a (by simp)).ne_nil
      rw [List.flatMap_cons, List.filterMap_append, declaredName_declaration, ha, if_neg hne,
        ih (fun b hb => hself b (by simp [hb])) fun b hb => hn b (by simp [hb])]
      rfl

/-- A declaration is hidden by the variables before it, or hides its own generator. -/
theorem hiddenNames_declarations (vars : List Text) : hiddenNames vars (args.flatMap declarationStatements) = [] ↔
    (∀ a ∈ args, a.typeWord ∉ vars ∧ generatorOf a.key ∉ vars) ∧ (∀ a ∈ args, a.name ≠ generatorOf a.key) ∧
      args.Pairwise fun a b => a.name ≠ b.typeWord ∧ a.name ≠ generatorOf b.key := by
  induction args generalizing vars with
  | nil => simp [hiddenNames]
  | cons a args ih =>
      have ha : a.declared = a.name := hself a (by simp)
      have hne : a.declared ≠ [] := ha ▸ (hn a (by simp)).ne_nil
      have hname : (declarationStatements a).filterMap declaredName = [a.name] := by
        rw [declaredName_declaration, if_neg hne, ha]
      rw [List.flatMap_cons, hiddenNames_append, List.append_eq_nil_iff, hiddenNames_declaration hne, hname, ha,
        ih (fun b hb => hself b (by simp [hb])) (fun b hb => hn b (by simp [hb])), List.forall_mem_cons,
        List.forall_mem_cons, List.pairwise_cons]
      simp only [List.mem_append, List.mem_singleton, not_or]
      grind

end Runner

/-- Nothing is hidden in the runner exactly when no variable is called like a type, a generator or the function
that the statements behind it look up. -/
theorem unhidden_iff {inputs fn : Text} {args as : List Argument} {a : Argument}
    (hself : ∀ a ∈ args, a.declared = a.name) (hn : ∀ a ∈ args, Identifier a.name) :
    hiddenNames [] (runnerParts inputs fn args as a) = [] ↔
      fn ∉ args.map (·.name) ++ streamNames args ∧ (∀ a ∈ args, a.name ≠ generatorOf a.key) ∧
        args.Pairwise fun a b => a.name ≠ b.typeWord ∧ a.name ≠ generatorOf b.key := by
  have hnames : ∀ x ∈ args.map (·.name), ':' ∉ x :=
    fun x hx => unqualified_of_mem_names hn (List.mem_append.mpr (Or.inl hx))
  have hstreams : ∀ x ∈ streamNames args, ':' ∉ x :=
    fun x hx => unqualified_of_mem_names hn (List.mem_append.mpr (Or.inr hx))
  have hmiddle : hiddenNames (args.map (·.name)) (printStatements args ++ args.flatMap (dumpStatements inputs)) = [] :=
    hiddenNames_qualified hnames qualified_lookups (by rw [declaredName_printDump]; exact hstreams)
  have hcall : ∀ vars, hiddenNames vars [callStatement fn as a] = [] ↔ fn ∉ vars := by
    intro vars
    have hcallees : callees (expression (callStatement fn as a)) = [fn] := callees_call
    rw [hiddenNames_cons_eq_nil, hcallees]
    simp [callStatement, typeName, declaredName, hiddenNames]
  rw [runnerParts, ← List.append_assoc (printStatements args), hiddenNames_append, declaredName_declarations hself hn,
    List.nil_append, List.append_eq_nil_iff, hiddenNames_declarations hself hn, hiddenNames_append, hmiddle,
    declaredName_printDump, List.nil_append, hcall]
  simp only [List.not_mem_nil, not_false_eq_true, and_self, implies_true, true_and]
  exact and_comm

section Runner

variable {inputs fn : Text} {args as : List Argument} {last : Argument}

/-- The types of the runner's variables. -/
theorem untyped_iff (hself : ∀ a ∈ args, a.declared = a.name) (hn : ∀ a ∈ args, Identifier a.name)
    (hfn : Identifier fn) :
    (∀ s ∈ runnerParts inputs fn args as last, typeName s ≠ some fn) ↔
      fn ∉ args.map Argument.typeWord := by
  have hdeclaration : ∀ a ∈ args, (∀ s ∈ declarationStatements a, typeName s ≠ some fn) ↔ fn ≠ a.typeWord := by
    intro a ha
    have hne : a.declared ≠ [] := hself a ha ▸ (hn a ha).ne_nil
    unfold declarationStatements Argument.typeWord
    cases rtypeOf a.key <;> simp [optWord, hne, typeName, eq_comm]
  have hprint : ∀ s ∈ printStatements args, typeName s ≠ some fn := by
    intro s hs
    rw [(lookups_print s hs).1]
    simp
  have hdump : ∀ a, ∀ s ∈ dumpStatements inputs a, typeName s ≠ some fn := by
    intro a s hs htype
    rw [(lookups_dump s hs).1 fn htype] at hfn
    exact hfn.unqualified qualified_ofstream
  have hcall : typeName (callStatement fn as last) ≠ some fn := by simp [callStatement, typeName]
  constructor
  · intro h hmem
    obtain ⟨a, ha, hfna⟩ := List.mem_map.mp hmem
    refine (hdeclaration a ha).mp (fun s hs => h s ?_) hfna.symm
    exact List.mem_append.mpr (Or.inl (List.mem_flatMap.mpr ⟨a, ha, hs⟩))
  · intro h s hs
    simp only [runnerParts, List.mem_append, List.mem_flatMap, List.mem_singleton] at hs
    rcases hs with ⟨a, ha, hs⟩ | hs | ⟨a, -, hs⟩ | rfl
    · exact (hdeclaration a ha).mpr (fun heq => h (List.mem_map.mpr ⟨a, ha, heq.symm⟩)) s hs
    · exact hprint s hs
    · exact hdump a s hs
    · exact hcall

/-- The unqualified words in front of a parenthesis. -/
theorem mem_callees_runner (hself : ∀ a ∈ args, a.declared = a.name) (hn : ∀ a ∈ args, Identifier a.name)
    {x : Text} (hx : ':' ∉ x) :
    (∃ s ∈ runnerParts inputs fn args as last, x ∈ callees s) ↔
      x = fn ∨ ∃ a ∈ args, x = generatorOf a.key ∨ ((rtypeOf a.key).isSome ∧ x = a.name) := by
  have hdeclaration : ∀ a ∈ args, (∃ s ∈ declarationStatements a, x ∈ callees s) ↔
      x = generatorOf a.key ∨ ((rtypeOf a.key).isSome ∧ x = a.name) := by
    intro a ha
    have hne : a.declared ≠ [] := hself a ha ▸ (hn a ha).ne_nil
    rw [← List.mem_flatMap, callees_declaration hne, hself a ha]
    cases rtypeOf a.key <;> simp [or_comm]
  constructor
  · rintro ⟨s, hs, hxs⟩
    simp only [runnerParts, List.mem_append, List.mem_flatMap, List.mem_singleton] at hs
    rcases hs with ⟨a, ha, hs⟩ | hs | ⟨a, -, hs⟩ | rfl
    · exact Or.inr ⟨a, ha, (hdeclaration a ha).mp ⟨s, hs, hxs⟩⟩
    · rw [(lookups_print s hs).2.2.1] at hxs
      cases hxs
    · rw [(lookups_dump s hs).2.1 x hxs] at hx
      exact absurd qualified_qsave hx
    · rw [callees_call, List.mem_singleton] at hxs
      exact Or.inl hxs
  · rintro (rfl | ⟨a, ha, hxa⟩)
    · exact ⟨callStatement x as last, by simp [runnerParts], by rw [callees_call]; simp⟩
    · obtain ⟨s, hs, hxs⟩ := (hdeclaration a ha).mpr hxa
      exact ⟨s, List.mem_append.mpr (Or.inl (List.mem_flatMap.mpr ⟨a, ha, hs⟩)), hxs⟩

/-- Every name stands in some statement. -/
theorem mem_runner_of_mem_names {x : Text} (hx : x ∈ args.map (·.name) ++ streamNames args) :
    ∃ s ∈ runnerParts inputs fn args as last, .word x ∈ s := by
  rcases List.mem_append.mp hx with hx | hx
  · obtain ⟨a, ha, rfl⟩ := List.mem_map.mp hx
    refine ⟨printStatement a, ?_, by simp [printStatement]⟩
    simp only [runnerParts, List.mem_append, printStatements, List.mem_cons, List.mem_map]
    exact Or.inr (Or.inl (Or.inr (Or.inl ⟨a, ha, rfl⟩)))
  · obtain ⟨a, ha, rfl⟩ := List.mem_map.mp hx
    obtain ⟨ha, hmat⟩ := List.mem_filter.mp ha
    have hkey : a.key = ("mat" : Text) := by simpa [isMat] using hmat
    refine ⟨[.word "std::ofstream", .word (streamName a)], ?_, by simp⟩
    simp only [runnerParts, List.mem_append, List.mem_flatMap]
    exact Or.inr (Or.inr (Or.inl ⟨a, ha, by simp [dumpStatements, hkey]⟩))

/-- No generator is called like a stream. -/
theorem generatorOf_ne_streamName {a b : Argument} (hb : ∃ d ∈ typesTable, b.key = d.ctype) :
    generatorOf b.key ≠ streamName a := by
  have hall : ∀ d ∈ typesTable, ¬ ("_stream" : Text) <:+ generatorOf d.ctype := by with_unfolding_all decide
  obtain ⟨d, hd, hkey⟩ := hb
  intro heq
  rw [hkey] at heq
  exact hall d hd (heq ▸ List.suffix_append _ _)

/-- A parameter is called by the declaration of its own vector, or for a generator. -/
theorem callee_name_iff (hself : ∀ a ∈ args, a.declared = a.name) (hn : ∀ a ∈ args, Identifier a.name)
    (hnodup : (args.map (·.name)).Nodup) (ha : a ∈ args) (hne : a.name ≠ fn) :
    (∃ s ∈ runnerParts inputs fn args as last, a.name ∈ callees s) ↔
      (rtypeOf a.key).isSome ∨ ∃ b ∈ args, a.name = generatorOf b.key := by
  rw [mem_callees_runner hself hn (hn a ha).unqualified, or_iff_right hne]
  constructor
  · rintro ⟨b, hb, hgenerator | ⟨hheld, hname⟩⟩
    · exact Or.inr ⟨b, hb, hgenerator⟩
    · obtain rfl := List.inj_on_of_nodup_map hnodup ha hb hname
      exact Or.inl hheld
  · rintro (hheld | ⟨b, hb, hgenerator⟩)
    · exact ⟨a, ha, Or.inr ⟨hheld, rfl⟩⟩
    · exact ⟨b, hb, Or.inl hgenerator⟩

theorem not_callee_stream (hargs : ∀ a ∈ args, Declarable a) (hself : ∀ a ∈ args, a.declared = a.name)
    (hstream : ∀ a ∈ args, isMat a = true → ∀ b ∈ args, b.name ≠ streamName a)
    (ha : a ∈ args) (hmat : isMat a = true) (hne : streamName a ≠ fn) :
    ¬ ∃ s ∈ runnerParts inputs fn args as last, streamName a ∈ callees s := by
  have hn : ∀ a ∈ args, Identifier a.name := fun a ha => (hargs a ha).name
  have hmem : streamName a ∈ args.map (·.name) ++ streamNames args :=
    List.mem_append_right _ (List.mem_map.mpr ⟨a, List.mem_filter.mpr ⟨ha, hmat⟩, rfl⟩)
  rw [mem_callees_runner hself hn (unqualified_of_mem_names hn hmem), or_iff_right hne]
  rintro ⟨b, hb, hgenerator | ⟨-, hname⟩⟩
  · exact generatorOf_ne_streamName (hargs b hb).key hgenerator.symm
  · exact hstream a ha hmat b hb hname.symm

/-- The preprocessor leaves the names alone. -/
theorem intact_iff {macros : Text → Option Macro} (hargs : ∀ a ∈ args, Declarable a)
    (hself : ∀ a ∈ args, a.declared = a.name) (hnodup : (args.map (·.name)).Nodup)
    (hstream : ∀ a ∈ args, isMat a = true → ∀ b ∈ args, b.name ≠ streamName a)
    (hfn : fn ∉ args.map (·.name) ++ streamNames args) :
    (∀ x ∈ fn :: (args.map (·.name) ++ streamNames args), ∀ s ∈ runnerParts inputs fn args as last,
          ¬ Replaced macros s x) ↔
      macros fn = none ∧ (∀ x ∈ args.map (·.name) ++ streamNames args, macros x ≠ some .object) ∧
        ∀ a ∈ args, macros a.name = some .function →
          rtypeOf a.key = none ∧ ∀ b ∈ args, a.name ≠ generatorOf b.key := by
  have hn : ∀ a ∈ args, Identifier a.name := fun a ha => (hargs a ha).name
  have hcall : callStatement fn as last ∈ runnerParts inputs fn args as last := by simp [runnerParts]
  have hcallee : ∃ s ∈ runnerParts inputs fn args as last, fn ∈ callees s :=
    ⟨_, hcall, by rw [callees_call]; simp⟩
  have hfnIntact : (∀ s ∈ runnerParts inputs fn args as last, ¬ Replaced macros s fn) ↔ macros fn = none := by
    rw [not_replaced_iff ⟨_, hcall, by simp [callStatement]⟩]
    cases macros fn with
    | none => simp
    | some m => cases m <;> simp [hcallee]
  have hname : ∀ a ∈ args, a.name ∈ args.map (·.name) ++ streamNames args :=
    fun a ha => List.mem_append_left _ (List.mem_map.mpr ⟨a, ha, rfl⟩)
  have hne : ∀ x ∈ args.map (·.name) ++ streamNames args, x ≠ fn := fun x hx heq => hfn (heq ▸ hx)
  rw [List.forall_mem_cons, hfnIntact]
  refine and_congr_right fun _ => ⟨fun h => ?_, ?_⟩
  · have hintact := fun x hx => (not_replaced_iff (mem_runner_of_mem_names hx)).mp (h x hx)
    refine ⟨fun x hx => (hintact x hx).1, fun a ha hm => ?_⟩
    have hnot := (hintact a.name (hname a ha)).2 hm
    rw [callee_name_iff hself hn hnodup ha (hne _ (hname a ha)), not_or] at hnot
    exact ⟨by simpa using hnot.1, by simpa using hnot.2⟩
  · rintro ⟨hobject, hfunction⟩ x hx
    refine (not_replaced_iff (mem_runner_of_mem_names hx)).mpr ⟨hobject x hx, fun hm => ?_⟩
    rcases List.mem_append.mp hx with hx' | hx'
    · obtain ⟨a, ha, rfl⟩ := List.mem_map.mp hx'
      obtain ⟨hheld, hgenerator⟩ := hfunction a ha hm
      rw [callee_name_iff hself hn hnodup ha (hne _ hx), not_or]
      exact ⟨by simp [hheld], by simpa using hgenerator⟩
    · obtain ⟨a, ha, rfl⟩ := List.mem_map.mp hx'
      obtain ⟨ha, hmat⟩ := List.mem_filter.mp ha
      exact not_callee_stream hargs hself hstream ha hmat (hne _ hx)

end Runner

/-! ## The whole harness -/

section WellScoped

variable {inputs fn : Text} {args : List Argument}

/-- Two names are declared twice only when a parameter is called like the stream of a matrix. -/
theorem nodup_names_iff (hnodup : (args.map (·.name)).Nodup) :
    (args.map (·.name) ++ streamNames args).Nodup ↔
      ∀ a ∈ args, isMat a = true → ∀ b ∈ args, b.name ≠ streamName a := by
  have hstreams : (streamNames args).Nodup := by
    have hsub : ((args.filter isMat).map (·.name)).Nodup := hnodup.sublist (List.filter_sublist.map _)
    rw [streamNames]
    have hmap : (args.filter isMat).map streamName = ((args.filter isMat).map (·.name)).map
        (· ++ ("_stream" : Text)) := by
      rw [List.map_map]
      rfl
    rw [hmap]
    exact hsub.map fun _ _ => List.append_cancel_right
  rw [List.nodup_append]
  constructor
  · rintro ⟨-, -, hdisj⟩ a ha hmat b hb heq
    exact hdisj b.name (List.mem_map.mpr ⟨b, hb, rfl⟩) (streamName a)
      (List.mem_map.mpr ⟨a, List.mem_filter.mpr ⟨ha, hmat⟩, rfl⟩) heq
  · intro hall
    refine ⟨hnodup, hstreams, ?_⟩
    rintro x hx y hy rfl
    obtain ⟨b, hb, rfl⟩ := List.mem_map.mp hx
    obtain ⟨a, ha, hab⟩ := List.mem_map.mp hy
    obtain ⟨ha, hmat⟩ := List.mem_filter.mp ha
    exact hall a ha hmat b hb hab.symm

theorem commentLines_generatedComment (hfn : Identifier fn) : CommentLines (generatedComment fn) := by
  have hline := hfn.not_mem (show isIdentChar '\n' = false by decide)
  have hslash := hfn.not_mem (show isIdentChar '\\' = false by decide)
  refine ⟨["// AUTOMATICALLY GENERATED BY RCPPDEEPSTATE PLEASE DONOT EDIT BY HAND, INSTEAD EDIT",
    "// " ++ (fn ++ ("_DeepState_TestHarness_generation.cpp and " ++ (fn ++ "_DeepState_TestHarness_checks.cpp"))),
    []], ?_, ?_⟩
  · simp [generatedComment, Text.ofString_eq]
  · simp [Text.ofString_eq, hline, hslash]

/-- A range is offered in a comment of its own. -/
theorem commentLines_rangeComment {a : Argument} (ha : ∃ d ∈ typesTable, a.key = d.ctype) :
    CommentLines (rangeComment a) := by
  have hall : ∀ d ∈ typesTable, ∀ r ∈ argsOf d.ctype,
      '\n' ∉ ((" RcppDeepState_" : Text) ++ (d.ctype ++ r)) ∧
        '\\' ∉ ((" RcppDeepState_" : Text) ++ (d.ctype ++ r)) := by with_unfolding_all decide
  obtain ⟨d, hd, hkey⟩ := ha
  unfold rangeComment
  rw [hkey]
  cases hr : argsOf d.ctype with
  | none => exact commentLines_nil
  | some r =>
      obtain ⟨hline, hslash⟩ := hall d hd r hr
      have htext : ("// RcppDeepState_" : Text) ++ d.ctype ++ r ++ "\n" =
          '/' :: '/' :: (((" RcppDeepState_" : Text) ++ (d.ctype ++ r)) ++ ['\n']) := by simp [Text.ofString_eq]
      show CommentLines (("// RcppDeepState_" : Text) ++ d.ctype ++ r ++ "\n")
      rw [htext]
      exact commentLines_line hline hslash

theorem harnessText_layout (hfn : Identifier fn) (hkeys : ∀ a ∈ args, ∃ d ∈ typesTable, a.key = d.ctype)
    (inputs : Text) (packagename : Option Text) (sep : Sep) (prototype : Text) :
    Layout (harnessText inputs packagename fn sep args prototype) inputs fn args := by
  have hopening : CommentLines (if sep.editable then [] else generatedComment fn) := by
    split
    · exact commentLines_nil
    · exact commentLines_generatedComment hfn
  have hoffers : CommentLines (generationComment sep args) := by
    have hheading : CommentLines ("// RANGES CAN BE ADDED HERE\n" : Text) :=
      ⟨["// RANGES CAN BE ADDED HERE"], by with_unfolding_all decide, by with_unfolding_all decide⟩
    unfold generationComment
    split
    · exact hheading.append (commentLines_flatMap fun a ha => commentLines_rangeComment (hkeys a ha))
    · exact commentLines_nil
  have hremark : CommentLines (assertComment sep) := by
    unfold assertComment
    split
    · exact ⟨["    //ASSERT CONDITIONS CAN BE ADDED HERE"], by with_unfolding_all decide,
        by with_unfolding_all decide⟩
    · exact commentLines_nil
  refine ⟨_, prototype, _, unittest packagename, _, hopening, hoffers, hremark, ?_⟩
  unfold harnessText preambleText runnerBody generatorBody handlerText
  split <;> simp only [List.append_assoc, List.nil_append]

theorem declared_of_complete (hconst : ∀ a ∈ args, ¬ ("const" : Text) <:+: a.name) :
    ∀ a ∈ args, a.declared = a.name := fun a ha => Text.gsub_of_not_infix (hconst a ha)

theorem declaredNames_instance : declaredNames (tokens ("RInside Rinstance;\n\n" : Text)) = [("Rinstance" : Text)] := by
  with_unfolding_all decide

theorem namesFit_of_wellScoped {headers : Headers} {text : Text} (hi : LiteralText inputs) (hfn : Identifier fn)
    (hargs : ∀ a ∈ args, Declarable a) (hnodup : (args.map (·.name)).Nodup) (hne : args ≠ [])
    (hws : WellScoped headers text inputs fn args) : NamesFit headers fn args := by
  have hn : ∀ a ∈ args, Identifier a.name := fun a ha => (hargs a ha).name
  obtain ⟨as, last, hparts⟩ := runnerStatements_eq hi hfn hargs hne
  have hdeclares := hws.declares
  have hconst := (declares_iff hargs).mp hdeclares
  have hdeclared := declared_of_complete hconst
  have hstreams := (nodup_names_iff hnodup).mp (by
    have honce := hws.once
    rwa [hdeclares, dumpNames_eq hi hn] at honce)
  have hunhidden := hws.unhidden
  have huntyped := hws.untyped
  have hintact := hws.intact
  rw [hparts, unhidden_iff hdeclared hn] at hunhidden
  rw [hparts, untyped_iff hdeclared hn hfn] at huntyped
  rw [hdeclares, dumpNames_eq hi hn, hparts,
    intact_iff hargs hdeclared hnodup hstreams hunhidden.1] at hintact
  exact {
    complete := hconst
    streams := hstreams
    fn_ne_name := hunhidden.1
    fn_ne_type := huntyped
    fn_ne_instance := fun heq => hws.apart.1 (by rw [declaredNames_instance, heq]; exact List.mem_singleton.mpr rfl)
    fn_free := hws.apart.2
    generator := hunhidden.2.1
    later := hunhidden.2.2
    fn_macro := hintact.1
    objects := hintact.2.1
    functions := hintact.2.2 }

theorem wellScoped_of_namesFit {headers : Headers} {text : Text} (hi : LiteralText inputs) (hfn : Identifier fn)
    (hargs : ∀ a ∈ args, Declarable a) (hnodup : (args.map (·.name)).Nodup) (hne : args ≠ [])
    (hlayout : Layout text inputs fn args) (hfit : NamesFit headers fn args) :
    WellScoped headers text inputs fn args := by
  have hn : ∀ a ∈ args, Identifier a.name := fun a ha => (hargs a ha).name
  obtain ⟨as, last, hparts⟩ := runnerStatements_eq hi hfn hargs hne
  have hdeclares := (declares_iff hargs).mpr hfit.complete
  have hdeclared := declared_of_complete hfit.complete
  exact {
    layout := hlayout
    declares := hdeclares
    initialises := by
      rw [initialisers_inputs hargs fun a ha => by rw [hdeclared a ha]; exact (hn a ha).ne_nil]
      exact List.map_congr_left fun a ha => by rw [hdeclared a ha]
    prints := by
      rw [hdeclares]
      exact usedNames_print hn
    dumps := by
      intro x hx
      rw [hdeclares, dumpNames_eq hi hn]
      exact List.mem_append.mpr (usedNames_dump hi hn x hx)
    once := by
      rw [hdeclares, dumpNames_eq hi hn]
      exact (nodup_names_iff hnodup).mpr hfit.streams
    call := call_callText hfn hn hne
    unhidden := by
      rw [hparts]
      exact (unhidden_iff hdeclared hn).mpr ⟨hfit.fn_ne_name, hfit.generator, hfit.later⟩
    untyped := by
      rw [hparts]
      exact (untyped_iff hdeclared hn hfn).mpr hfit.fn_ne_type
    apart := by
      rw [declaredNames_instance, List.mem_singleton]
      exact ⟨hfit.fn_ne_instance, hfit.fn_free⟩
    intact := by
      rw [hdeclares, dumpNames_eq hi hn, hparts]
      exact (intact_iff hargs hdeclared hnodup hfit.streams hfit.fn_ne_name).mpr
        ⟨hfit.fn_macro, hfit.objects, hfit.functions⟩ }

end WellScoped

/-! ## Signatures -/

def constQualifiers : List Text := [[], "const "]

def namespaceQualifiers : List Text := [[], "Rcpp::", "arma::", "std::"]

/-- A type of the table with an optional `const` and an optional namespace. -/
def QualifiedType (t : Text) : Prop :=
  ∃ c ∈ constQualifiers, ∃ q ∈ namespaceQualifiers, ∃ d ∈ typesTable, t = c ++ (q ++ d.ctype)

section Signature

variable {e : Export}

/-- How a qualified type is read. -/
theorem qualifiedType_read : ∀ c ∈ constQualifiers, ∀ q ∈ namespaceQualifiers, ∀ d ∈ typesTable,
    stripQualifiers (stripBlanks (stripRcpp (c ++ (q ++ d.ctype) ++ [' ']))) = d.ctype ∧
      Text.gsub "const" [] (stripBlanks (stripRcpp (c ++ (q ++ d.ctype) ++ [' ']))) ≠ [] ∧
      ∀ x ∈ Text.gsub "const" [] (stripBlanks (stripRcpp (c ++ (q ++ d.ctype) ++ [' ']))),
        isWordChar x = true := by
  with_unfolding_all decide

/-- The argument that a parameter becomes. -/
def Param.argument (p : Param) : Argument :=
  ⟨stripBlanks (stripRcpp (p.type ++ [' '])), stripBlanks (' ' :: p.name)⟩

theorem args_eq (e : Export) : e.args = e.params.map Param.argument := by
  rw [Export.args, Export.argRows, List.map_map]
  rfl

theorem Param.argument_name (p : Param) : p.argument.name = p.name := by
  have hblank : (" " : Text) = [' '] := by with_unfolding_all decide
  have hself : p.name.filter (· ≠ ' ') = p.name := by
    rw [List.filter_eq_self]
    intro c hc
    have hne : c ≠ ' ' := by
      rintro rfl
      exact p.name_ok.not_mem (by decide) hc
    simpa using hne
  show stripBlanks (' ' :: p.name) = p.name
  rw [stripBlanks, hblank, Text.gsub_singleton_nil, List.filter_cons_of_neg (by simp), hself]

variable {p : Param}

theorem Param.argument_declarable (hp : QualifiedType p.type) : Declarable p.argument := by
  have hline : OnOneLine p.argument := by
    refine ⟨?_, ?_⟩
    · refine oneLine_gsub (oneLine_gsub ?_)
      simp [p.type_ok.line]
    · rw [p.argument_name]
      exact p.name_ok.oneLine
  obtain ⟨c, hc, q, hq, d, hd, ht⟩ := hp
  obtain ⟨hkey, hne, hword⟩ := qualifiedType_read c hc q hq d hd
  refine ⟨⟨d, hd, ?_⟩, ?_, ?_, hline, ?_⟩
  · rw [Argument.key, Param.argument, ht, hkey]
  · rw [Argument.declaredType, Param.argument, ht]
    exact hword
  · rw [Argument.declaredType, Param.argument, ht]
    exact hne
  · rw [p.argument_name]
    exact p.name_ok

theorem literalText_inputs (h : PlainHost) (hn : Identifier e.name) : LiteralText (h.file (inputsPath e.name)) := by
  refine ⟨?_, ?_⟩
  · simp [Host.file, inputsPath, funPath, testPath, Text.ofString_eq, h.packagePath_ok.1,
      hn.not_mem (show isIdentChar '"' = false by decide)]
  · simp [Host.file, inputsPath, funPath, testPath, Text.ofString_eq, h.packagePath_ok.2.1,
      hn.not_mem (show isIdentChar '\\' = false by decide)]

theorem declarable_args (htypes : ∀ p ∈ e.params, QualifiedType p.type) : ∀ a ∈ e.args, Declarable a := by
  intro a ha
  rw [args_eq] at ha
  obtain ⟨p, hp, rfl⟩ := List.mem_map.mp ha
  exact p.argument_declarable (htypes p hp)

/-- The macros of `DeepState.h` and `DeepState.hpp` for tests, logging and assertions. -/
def objectMacros : List Text := ["assert", "assume", "check", "ASSERT_TRUE", "CHECK_TRUE", "ONE_OF"]

/-- Those that take arguments, the comparisons apart. -/
def functionMacros : List Text :=
  ["MAYBE", "OneOf", "TEST", "TEST_F", "LOG", "LOG_IF", "LOG_DEBUG", "LOG_TRACE", "LOG_INFO", "LOG_WARNING",
    "LOG_WARN", "LOG_ERROR", "LOG_FATAL", "LOG_CRITICAl", "ASSERT", "ASSERT_FALSE", "CHECK", "CHECK_FALSE",
    "ASSUME"]

def comparisonMacros (what : Text) : List Text :=
  (["_EQ", "_NE", "_LT", "_LE", "_GT", "_GE"] : List Text).map (what ++ ·)

def deepStateMacro (n : Text) : Option Macro :=
  if n ∈ objectMacros then some .object
  else if n ∈ functionMacros ++ (["ASSERT", "CHECK", "ASSUME"] : List Text).flatMap comparisonMacros then
    some .function
  else none

/-- The macros of the headers in `inst/include`, and the namespaces that a harness has. -/
def sampleHeaders : Headers where
  macros := deepStateMacro
  taken n := n ∈ (["std", "Rcpp", "arma", "deepstate", "qs"] : List Text)

theorem typeText_constInt : TypeText "const int" := typeText_of_decide (by with_unfolding_all decide)

theorem typeText_mat : TypeText "arma::mat" := typeText_of_decide (by with_unfolding_all decide)

theorem typeText_constMat : TypeText "const arma::mat" := typeText_of_decide (by with_unfolding_all decide)

theorem typeText_string : TypeText "std::string" := typeText_of_decide (by with_unfolding_all decide)

theorem identifier_LOG : Identifier "LOG" := identifier_of_decide (by with_unfolding_all decide)

theorem identifier_s : Identifier "s" := identifier_of_decide (by with_unfolding_all decide)

theorem identifier_constant : Identifier "constant" := identifier_of_decide (by with_unfolding_all decide)

/-- `double f(const int n, Rcpp::NumericVector LOG, arma::mat m, std::string s, const arma::mat k)` -/
def variedExport : Export where
  returnType := "double"
  name := "f"
  params := [⟨"const int", "n", typeText_constInt, identifier_n⟩,
    ⟨"Rcpp::NumericVector", "LOG", typeText_numericVector, identifier_LOG⟩,
    ⟨"arma::mat", "m", typeText_mat, identifier_m⟩, ⟨"std::string", "s", typeText_string, identifier_s⟩,
    ⟨"const arma::mat", "k", typeText_constMat, identifier_k⟩]
  rng := false
  returnType_ok := typeText_double
  name_ok := identifier_f

/-- A length-one vector may not. -/
example : ¬ NamesFit sampleHeaders "f" [⟨"int", "LOG"⟩] := by
  intro h
  have hfunction := (h.functions ⟨"int", "LOG"⟩ (by simp) (by with_unfolding_all decide)).1
  exact absurd hfunction (by with_unfolding_all decide)

/-- `void f(int constant)` -/
def constantExport : Export where
  returnType := "void"
  name := "f"
  params := [⟨"int", "constant", typeText_int, identifier_constant⟩]
  rng := false
  returnType_ok := typeText_void
  name_ok := identifier_f

end Signature

end RcppDeepState
