import RcppDeepState.Harness.Lemmas.Lines
import RcppDeepState.Library.Cpp
import RcppDeepState.Exports.Lemmas.Block

/-!
# The statements of a harness

The tokens of the INPUTS and PRINT_INPUTS macros, of the dump statements and of the call, statement by
statement.
-/

namespace RcppDeepState

open Cpp

/-- The generator of a type. -/
def generatorOf (key : Text) : Text := "RcppDeepState_" ++ key

/-- How an argument is passed to the function. -/
def callArgument (a : Argument) : List Token :=
  if a.key = "string" then
    [.word "Rcpp::as", .punct '<', .word "std::string", .punct '>', .punct '(', .word a.name, .punct '[',
      .word "0", .punct ']', .punct ')']
  else if (rtypeOf a.key).isSome then [.word a.name, .punct '[', .word "0", .punct ']']
  else [.word a.name]

/-- The names that INPUTS declares. -/
def inputNames (args : List Argument) : List Text := declaredNames (macroTokens (inputsText args))

/-- The names that the dump statements declare. -/
def dumpNames (inputs : Text) (args : List Argument) : List Text :=
  declaredNames (tokens (inputsDump inputs args))

/-! ## Arguments of the supported types -/

/-- The name as it is declared. -/
def Argument.declared (a : Argument) : Text := Text.gsub "const" [] a.name

def Argument.declaredType (a : Argument) : Text := Text.gsub "const" [] a.type

/-- What the signature promises of an argument. -/
structure Declarable (a : Argument) : Prop where
  key : ∃ d ∈ typesTable, a.key = d.ctype
  type : ∀ c ∈ a.declaredType, isWordChar c = true
  type_ne_nil : a.declaredType ≠ []
  line : OnOneLine a
  name : Identifier a.name

section Declaration

variable {a : Argument}

theorem gsub_const_blanks (t : Text) : Text.gsub "const" [] (("  " : Text) ++ t) = "  " ++ Text.gsub "const" [] t := by
  have h : ("  " : Text) = [' ', ' '] := by with_unfolding_all decide
  have hc : ("const" : Text) = ['c', 'o', 'n', 's', 't'] := by with_unfolding_all decide
  rw [h, List.cons_append, List.cons_append, List.nil_append, Text.gsub_cons_of_no_match (by rw [hc]; simp),
    Text.gsub_cons_of_no_match (by rw [hc]; simp)]
  rfl

/-- A separator that is not in `const` splits the substitution. -/
theorem gsub_const_split {s : Text} {c : Char} {t : Text} (hs : s = c :: t) (hc : c ∉ ("const" : Text))
    (b e : Text) (hfix : Text.gsub "const" [] (t ++ e) = t ++ e) :
    Text.gsub "const" [] (b ++ (s ++ e)) = Text.gsub "const" [] b ++ (s ++ e) := by
  rw [hs, List.cons_append, Text.gsub_append_cons (by with_unfolding_all decide) hc, hfix]

theorem declarationLines_eq (hkey : ∃ d ∈ typesTable, a.key = d.ctype) : declarationLines a =
    match rtypeOf a.key with
    | some rtype =>
        ["  " ++ (rtype ++ (" " ++ (a.declared ++ "(1); "))),
          "  " ++ (a.declared ++ ("[0]= RcppDeepState_" ++ (a.key ++ "(); ")))]
    | none => ["  " ++ (a.declaredType ++ (" " ++ (a.declared ++ ("= RcppDeepState_" ++ (a.key ++ "(); ")))))] := by
  have hrtype : ∀ d ∈ typesTable, ∀ r ∈ d.rtype, Text.gsub "const" [] r = r := by with_unfolding_all decide
  have hindex : ∀ d ∈ typesTable, Text.gsub "const" [] (("0]= RcppDeepState_" : Text) ++ (d.ctype ++ "(); ")) =
      "0]= RcppDeepState_" ++ (d.ctype ++ "(); ") := by with_unfolding_all decide
  have hcall : ∀ d ∈ typesTable, Text.gsub "const" [] ((" RcppDeepState_" : Text) ++ (d.ctype ++ "(); ")) =
      " RcppDeepState_" ++ (d.ctype ++ "(); ") := by with_unfolding_all decide
  obtain ⟨d, hd, hkey⟩ := hkey
  have hsplit : ∀ s t : Text, Text.gsub "const" [] (s ++ (" " ++ t)) =
      Text.gsub "const" [] s ++ (" " ++ Text.gsub "const" [] t) := by
    intro s t
    have h : (" " : Text) = [' '] := by with_unfolding_all decide
    rw [h]
    exact Text.gsub_append_cons (by with_unfolding_all decide) (by with_unfolding_all decide)
  unfold declarationLines variableLines
  cases hrt : rtypeOf a.key with
  | none =>
      have hend := gsub_const_split (s := "= RcppDeepState_") (c := '=') (t := " RcppDeepState_")
        (by with_unfolding_all decide) (by with_unfolding_all decide) a.name (a.key ++ "(); ") (by rw [hkey]; exact hcall d hd)
      simp only [List.map_cons, List.map_nil, List.append_assoc, gsub_const_blanks, hsplit, hend]
      rfl
  | some rtype =>
      have hr : Text.gsub "const" [] rtype = rtype := by
        obtain ⟨d', hd', hr'⟩ := Option.bind_eq_some_iff.mp hrt
        exact hrtype d' (List.mem_of_find?_eq_some hd') rtype hr'
      have hone := gsub_const_split (s := "(1); ") (c := '(') (t := "1); ") (by with_unfolding_all decide)
        (by with_unfolding_all decide) a.name [] (by with_unfolding_all decide)
      rw [List.append_nil] at hone
      have hend := gsub_const_split (s := "[0]= RcppDeepState_") (c := '[') (t := "0]= RcppDeepState_")
        (by with_unfolding_all decide) (by with_unfolding_all decide) a.name (a.key ++ "(); ") (by rw [hkey]; exact hindex d hd)
      simp only [List.map_cons, List.map_nil, List.append_assoc, gsub_const_blanks, hsplit, hr, hone, hend]
      rfl

end Declaration

/-! ## The tokens of the declarations -/

/-- A name that the substitution has emptied is no token. -/
def optWord (n : Text) : List Token := if n = [] then [] else [.word n]

def declarationStatements (a : Argument) : List (List Token) :=
  match rtypeOf a.key with
  | some rtype =>
      [.word rtype :: (optWord a.declared ++ [.punct '(', .word "1", .punct ')']),
        optWord a.declared ++ [.punct '[', .word "0", .punct ']', .punct '=', .word (generatorOf a.key),
          .punct '(', .punct ')']]
  | none =>
      [.word a.declaredType :: (optWord a.declared ++ [.punct '=', .word (generatorOf a.key), .punct '(',
        .punct ')'])]

section Tokens

variable {a : Argument}

/-- A closed text behind a word. -/
theorem rest_word_append {w t b : Text} {ts : List Token} {m : Mode}
    (hhead : t.head?.map isWordChar = some false) (h : scan .plain t = (ts, m)) :
    rest (.word w) (t ++ b) = .word w :: (ts ++ rest m b) := by
  cases t with
  | nil => cases hhead
  | cons c t =>
      rw [List.cons_append, rest_word_of_head (by simpa using hhead), ← List.cons_append, rest_append h]

/-- A name, which may be empty, and a closed text behind it. -/
theorem rest_optWord {n t b : Text} {ts : List Token} {m : Mode} (hn : ∀ c ∈ n, isWordChar c = true)
    (hhead : t.head?.map isWordChar = some false) (h : scan .plain t = (ts, m)) :
    rest .plain (n ++ (t ++ b)) = optWord n ++ (ts ++ rest m b) := by
  by_cases hne : n = []
  · subst hne
    rw [List.nil_append, rest_append h]
    rfl
  · rw [rest_plain_word hne hn, rest_word_append hhead h, optWord, if_neg hne]
    rfl

theorem isWordChar_of_isIdentChar {c : Char} (hc : isIdentChar c = true) : isWordChar c = true := by
  rw [isWordChar, isIdentChar] at *
  simp [hc]

theorem Identifier.wordChars {n : Text} (hn : Identifier n) : ∀ c ∈ n, isWordChar c = true :=
  fun c hc => isWordChar_of_isIdentChar (hn.chars c hc)

theorem declared_wordChars (ha : Declarable a) : ∀ c ∈ a.declared, isWordChar c = true := by
  intro c hc
  rcases Text.mem_gsub hc with hc | hc
  · exact ha.name.wordChars c hc
  · cases hc

theorem key_wordChars (ha : Declarable a) : ∀ c ∈ a.key, isWordChar c = true := by
  have hall : ∀ d ∈ typesTable, ∀ c ∈ d.ctype, isWordChar c = true := by with_unfolding_all decide
  obtain ⟨d, hd, hkey⟩ := ha.key
  rw [hkey]
  exact hall d hd

theorem rtype_wordChars {t rtype : Text} (h : rtypeOf t = some rtype) :
    rtype ≠ [] ∧ ∀ c ∈ rtype, isWordChar c = true := by
  have hall : ∀ d ∈ typesTable, ∀ r ∈ d.rtype, r ≠ [] ∧ ∀ c ∈ r, isWordChar c = true := by with_unfolding_all decide
  obtain ⟨d, hd, hr⟩ := Option.bind_eq_some_iff.mp h
  exact hall d (List.mem_of_find?_eq_some hd) rtype hr

theorem rest_declaration (ha : Declarable a) (b : Text) :
    rest .plain ((declarationLines a).flatten ++ b) = unstatements (declarationStatements a) ++ rest .plain b := by
  have hblank : scan .plain ("  " : Text) = ([], .plain) := by with_unfolding_all decide
  have hgap : scan .plain (" " : Text) = ([], .plain) := by with_unfolding_all decide
  have hone : scan .plain ("(1); " : Text) = ([.punct '(', .word "1", .punct ')', .punct ';'], .plain) := by
    with_unfolding_all decide
  have hindex : scan .plain ("[0]= RcppDeepState_" : Text) =
      ([.punct '[', .word "0", .punct ']', .punct '='], .word "RcppDeepState_") := by with_unfolding_all decide
  have hinit : scan .plain ("= RcppDeepState_" : Text) = ([.punct '='], .word "RcppDeepState_") := by
    with_unfolding_all decide
  have hend : scan .plain ("(); " : Text) = ([.punct '(', .punct ')', .punct ';'], .plain) := by with_unfolding_all decide
  have hn := declared_wordChars ha
  rw [declarationLines_eq ha.key]
  unfold declarationStatements unstatements
  cases hrt : rtypeOf a.key with
  | none =>
      simp only [List.flatten_cons, List.flatten_nil, List.append_nil, List.append_assoc]
      rw [rest_append hblank, rest_plain_word ha.type_ne_nil ha.type, rest_word_append (by with_unfolding_all decide) hgap,
        rest_optWord hn (by with_unfolding_all decide) hinit, rest_word (key_wordChars ha),
        rest_word_append (by with_unfolding_all decide) hend]
      simp [generatorOf]
  | some rtype =>
      obtain ⟨hr, hrw⟩ := rtype_wordChars hrt
      simp only [List.flatten_cons, List.flatten_nil, List.append_nil, List.append_assoc]
      rw [rest_append hblank, rest_plain_word hr hrw, rest_word_append (by with_unfolding_all decide) hgap,
        rest_optWord hn (by with_unfolding_all decide) hone, rest_append hblank,
        rest_optWord hn (by with_unfolding_all decide) hindex, rest_word (key_wordChars ha), rest_word_append (by with_unfolding_all decide) hend]
      simp [generatorOf]

end Tokens

/-! ## The INPUTS macro -/

section Inputs

theorem dropSuffix_append (suffix t : Text) : dropSuffix suffix (t ++ suffix) = t := by
  rw [dropSuffix, if_pos (List.suffix_append _ _), List.length_append, Nat.add_sub_cancel, List.take_left]

theorem continued_append (ls ls' : List Text) : continued (ls ++ ls') = continued ls ++ continued ls' := by
  simp [continued]

theorem continued_flatMap (args : List Argument) :
    args.flatMap variableText = continued (args.flatMap declarationLines) := by
  induction args with
  | nil => rfl
  | cons a args ih => rw [List.flatMap_cons, List.flatMap_cons, continued_append, ih, variableText_eq]

/-- The lines of a macro run together. -/
theorem logicalLine_lines {ls : List Text} (hls : ∀ l ∈ ls, '\n' ∉ l) (b : Text) :
    logicalLine (continued ls ++ b) = ls.flatten ++ logicalLine b := by
  induction ls with
  | nil => rfl
  | cons l ls ih =>
      have htext : continued (l :: ls) ++ b = l ++ '\\' :: '\n' :: (continued ls ++ b) := by
        simp [continued]
      rw [htext, logicalLine_continued (hls l (by simp)), ih fun x hx => hls x (by simp [hx]),
        List.flatten_cons, List.append_assoc]

variable {args : List Argument} (hargs : ∀ a ∈ args, Declarable a)

include hargs

theorem rest_declarations (b : Text) :
    rest .plain ((args.flatMap declarationLines).flatten ++ b) =
      unstatements (args.flatMap declarationStatements) ++ rest .plain b := by
  induction args with
  | nil => rfl
  | cons a args ih =>
      rw [List.flatMap_cons, List.flatten_append, List.append_assoc, rest_declaration (hargs a (by simp)),
        ih fun x hx => hargs x (by simp [hx]), List.flatMap_cons, unstatements, unstatements, unstatements,
        List.flatMap_append, List.append_assoc]

theorem macroTokens_inputsText : macroTokens (inputsText args) = unstatements (args.flatMap declarationStatements) := by
  have hdefine : scan .plain ("#define INPUTS " : Text) =
      ([.punct '#', .word "define", .word "INPUTS"], .plain) := by with_unfolding_all decide
  have hlines : ∀ l ∈ ("#define INPUTS " : Text) :: args.flatMap declarationLines, '\n' ∉ l := by
    intro l hl
    rcases List.mem_cons.mp hl with rfl | hl
    · with_unfolding_all decide
    · obtain ⟨a, ha, hla⟩ := List.mem_flatMap.mp hl
      exact (mem_declarationLines (hargs a ha).line hla).1.1
  have htext : ("#define INPUTS \\\n" : Text) ++ args.flatMap variableText =
      continued (("#define INPUTS " : Text) :: args.flatMap declarationLines) := by
    have hfirst : ("#define INPUTS \\\n" : Text) = ("#define INPUTS " : Text) ++ ['\\', '\n'] := by with_unfolding_all decide
    rw [continued_flatMap, hfirst]
    simp [continued]
  -- The last line loses its continuation.
  obtain ⟨ls, l, hls⟩ := List.eq_nil_or_concat (("#define INPUTS " : Text) :: args.flatMap declarationLines)
    |>.resolve_left (by simp)
  rw [List.concat_eq_append] at hls
  have hdrop : inputsText args = continued ls ++ l := by
    have hslash : ("\\\n" : Text) = ['\\', '\n'] := by with_unfolding_all decide
    have hlast : continued [l] = l ++ ['\\', '\n'] := by simp [continued]
    rw [inputsText, htext, hls, continued_append, hlast, ← List.append_assoc, hslash, dropSuffix_append]
  have hall : logicalLine (inputsText args) = ("#define INPUTS " : Text) ++ (args.flatMap declarationLines).flatten := by
    rw [hls] at hlines
    have hl : '\n' ∉ l := hlines l (by simp)
    rw [hdrop, logicalLine_lines (fun x hx => hlines x (by simp [hx])), logicalLine_of_newline hl,
      ← List.flatten_cons, hls]
    simp
  have hrest := rest_declarations hargs []
  rw [List.append_nil, rest_plain_nil, List.append_nil] at hrest
  rw [macroTokens, hall, tokens_eq_rest, rest_append hdefine, hrest]
  rfl

end Inputs

section Declared

variable {a : Argument} {args : List Argument}

theorem not_semicolon_declaration (a : Argument) : ∀ s ∈ declarationStatements a, Token.punct ';' ∉ s := by
  intro s hs
  have hword : Token.punct ';' ∉ optWord a.declared := by
    unfold optWord
    split <;> simp
  unfold declarationStatements at hs
  cases hrt : rtypeOf a.key with
  | none =>
      simp only [hrt, List.mem_singleton] at hs
      subst hs
      simp [hword]
  | some rtype =>
      simp only [hrt, List.mem_cons, List.not_mem_nil, or_false] at hs
      rcases hs with rfl | rfl <;> simp [hword]

theorem statements_inputs (hargs : ∀ a ∈ args, Declarable a) :
    statements (macroTokens (inputsText args)) = args.flatMap declarationStatements := by
  rw [macroTokens_inputsText hargs, statements_unstatements]
  intro s hs
  obtain ⟨a, _, hsa⟩ := List.mem_flatMap.mp hs
  exact not_semicolon_declaration a s hsa

/-- One declaration declares its name, unless there is none left. -/
theorem declaredName_declaration (a : Argument) : (declarationStatements a).filterMap declaredName =
    if a.declared = [] then [] else [a.declared] := by
  unfold declarationStatements
  cases rtypeOf a.key <;> by_cases hn : a.declared = [] <;> simp [optWord, hn, declaredName]

theorem inputNames_eq (hargs : ∀ a ∈ args, Declarable a) :
    inputNames args = (args.map Argument.declared).filter (· ≠ []) := by
  rw [inputNames, declaredNames, statements_inputs hargs]
  clear hargs
  induction args with
  | nil => rfl
  | cons a args ih =>
      rw [List.flatMap_cons, List.filterMap_append, declaredName_declaration, ih, List.map_cons]
      by_cases hn : a.declared = [] <;> simp [hn]

theorem initialiser_declaration (hn : a.declared ≠ []) :
    (declarationStatements a).filterMap initialiser = [(a.declared, generatorOf a.key)] := by
  unfold declarationStatements
  cases rtypeOf a.key <;> simp [optWord, hn, initialiser]

theorem initialisers_inputs (hargs : ∀ a ∈ args, Declarable a) (hn : ∀ a ∈ args, a.declared ≠ []) :
    initialisers (macroTokens (inputsText args)) = args.map fun a => (a.declared, generatorOf a.key) := by
  rw [initialisers, statements_inputs hargs]
  clear hargs
  induction args with
  | nil => rfl
  | cons a args ih =>
      rw [List.flatMap_cons, List.filterMap_append, initialiser_declaration (hn a (by simp)),
        ih fun x hx => hn x (by simp [hx])]
      rfl

/-- INPUTS declares the parameters exactly when no name contains `const`. -/
theorem declares_iff (hargs : ∀ a ∈ args, Declarable a) :
    inputNames args = args.map (·.name) ↔ ∀ a ∈ args, ¬ ("const" : Text) <:+: a.name := by
  rw [inputNames_eq hargs]
  constructor
  · intro heq a ha
    have hlen := congrArg List.length heq
    rw [List.length_map, ← List.length_map (f := Argument.declared)] at hlen
    rw [List.filter_sublist.eq_of_length hlen] at heq
    have hpoint := List.map_inj_left.mp heq a ha
    exact (Text.gsub_eq_self_iff (by with_unfolding_all decide) (by with_unfolding_all decide)).mp hpoint
  · intro hall
    have hself : args.map Argument.declared = args.map (·.name) :=
      List.map_congr_left fun a ha => Text.gsub_of_not_infix (hall a ha)
    rw [hself, List.filter_eq_self]
    intro n hn
    obtain ⟨a, ha, rfl⟩ := List.mem_map.mp hn
    simpa using (hargs a ha).name.ne_nil

end Declared

/-! ## The PRINT_INPUTS macro -/

def printStatement (a : Argument) : List Token :=
  [.word "std::cout", .punct '<', .punct '<', .literal (a.name ++ " values: "), .punct '<', .punct '<',
    .word a.name, .punct '<', .punct '<', .word "std::endl"]

def printLine (a : Argument) : Text :=
  "  std::cout << \"" ++ (a.name ++ (" values: " ++ '"' :: (" << " ++ (a.name ++ " << std::endl; "))))

section Print

variable {a : Argument} {args : List Argument}

theorem Identifier.literalText {n : Text} (hn : Identifier n) : LiteralText n :=
  ⟨hn.not_mem (by decide), hn.not_mem (by decide)⟩

theorem printValue_eq (a : Argument) : printValue a = continued [printLine a] := by
  simp [printValue, continued, printLine, Text.ofString_eq]

theorem rest_printLine (hn : Identifier a.name) (b : Text) :
    rest .plain (printLine a ++ b) = unstatements [printStatement a] ++ rest .plain b := by
  have hcout : scan .plain ("  std::cout << \"" : Text) =
      ([.word "std::cout", .punct '<', .punct '<'], .literal []) := by with_unfolding_all decide
  have hshift : scan .plain (" << " : Text) = ([.punct '<', .punct '<'], .plain) := by with_unfolding_all decide
  have hendl : scan .plain (" << std::endl; " : Text) =
      ([.punct '<', .punct '<', .word "std::endl", .punct ';'], .plain) := by with_unfolding_all decide
  have hvalues : LiteralText (" values: " : Text) := ⟨by with_unfolding_all decide, by with_unfolding_all decide⟩
  simp only [printLine, List.append_assoc, List.cons_append]
  rw [rest_append hcout, rest_literal hn.literalText, rest_literal hvalues, rest_literal_end, rest_append hshift,
    rest_plain_word hn.ne_nil hn.wordChars, rest_word_append (by with_unfolding_all decide) hendl]
  rfl

theorem rest_printLines (hn : ∀ a ∈ args, Identifier a.name) (b : Text) :
    rest .plain ((args.map printLine).flatten ++ b) =
      unstatements (args.map printStatement) ++ rest .plain b := by
  induction args with
  | nil => rfl
  | cons a args ih =>
      rw [List.map_cons, List.flatten_cons, List.append_assoc, rest_printLine (hn a (by simp)),
        ih fun x hx => hn x (by simp [hx])]
      simp [unstatements]

/-- A line that is the same in every harness. -/
def printFixed (what : Text) : List Token :=
  [.word "std::cout", .punct '<', .punct '<', .literal what, .punct '<', .punct '<', .word "std::endl"]

def printStatements (args : List Argument) : List (List Token) :=
  printFixed "input starts" :: (args.map printStatement ++ [printFixed "input ends"])

theorem macroTokens_printText (hn : ∀ a ∈ args, Identifier a.name) :
    macroTokens ((printText args).drop 2) = unstatements (printStatements args) := by
  have hdefine : scan .plain ("#define PRINT_INPUTS " : Text) =
      ([.punct '#', .word "define", .word "PRINT_INPUTS"], .plain) := by with_unfolding_all decide
  have hstarts : scan .plain ("  std::cout << \"input starts\" << std::endl;" : Text) =
      (unstatements [printFixed "input starts"], .plain) := by with_unfolding_all decide
  have hends : scan .plain ("  std::cout << \"input ends\" << std::endl;" : Text) =
      (unstatements [printFixed "input ends"], .plain) := by with_unfolding_all decide
  have hvalues : args.flatMap printValue = continued (args.map printLine) := by
    clear hn
    induction args with
    | nil => rfl
    | cons a args ih => rw [List.flatMap_cons, ih, printValue_eq, List.map_cons, ← continued_append]; rfl
  have htext : (printText args).drop 2 =
      continued (("#define PRINT_INPUTS " : Text) :: "  std::cout << \"input starts\" << std::endl;" ::
        args.map printLine) ++ (("  std::cout << \"input ends\" << std::endl;" : Text) ++ '\n' :: []) := by
    have hfirst : ("\n\n#define PRINT_INPUTS \\\n  std::cout << \"input starts\" << std::endl;\\\n" : Text) =
        '\n' :: '\n' :: continued [("#define PRINT_INPUTS " : Text),
          "  std::cout << \"input starts\" << std::endl;"] := by with_unfolding_all decide
    have hlast : ("  std::cout << \"input ends\" << std::endl;\n" : Text) =
        ("  std::cout << \"input ends\" << std::endl;" : Text) ++ '\n' :: [] := by with_unfolding_all decide
    rw [printText, hvalues, hfirst, hlast, List.cons_append, List.cons_append, List.cons_append,
      List.cons_append, List.drop_succ_cons, List.drop_succ_cons, List.drop_zero, ← continued_append]
    rfl
  have hlines : ∀ l ∈ ("#define PRINT_INPUTS " : Text) :: "  std::cout << \"input starts\" << std::endl;" ::
      args.map printLine, '\n' ∉ l := by
    intro l hl
    rcases List.mem_cons.mp hl with rfl | hl
    · with_unfolding_all decide
    rcases List.mem_cons.mp hl with rfl | hl
    · with_unfolding_all decide
    · obtain ⟨a, ha, rfl⟩ := List.mem_map.mp hl
      have hname := (hn a ha).not_mem (show isIdentChar '\n' = false by decide)
      simp [printLine, Text.ofString_eq, hname]
  have hrest := rest_printLines hn ("  std::cout << \"input ends\" << std::endl;" : Text)
  have hend := rest_append hends []
  rw [List.append_nil, rest_plain_nil, List.append_nil] at hend
  rw [macroTokens, htext, logicalLine_lines hlines,
    logicalLine_end (by with_unfolding_all decide) (by with_unfolding_all decide), tokens_eq_rest, List.flatten_cons, List.flatten_cons, List.append_assoc, List.append_assoc,
    rest_append hdefine, rest_append hstarts, hrest, hend]
  simp [printStatements, unstatements]

/-- PRINT_INPUTS uses the parameters only. -/
theorem usedNames_print (hn : ∀ a ∈ args, Identifier a.name) :
    ∀ x ∈ usedNames (macroTokens ((printText args).drop 2)), x ∈ args.map (·.name) := by
  have hcout : isVariable ("std::cout" : Text) = false := by with_unfolding_all decide
  have hendl : isVariable ("std::endl" : Text) = false := by with_unfolding_all decide
  rw [macroTokens_printText hn, usedNames, printStatements, unstatements_cons]
  have hstart : ∀ ts, usedFrom false (printFixed "input starts" ++ .punct ';' :: ts) = usedFrom false ts := by
    intro ts
    simp [printFixed, usedFrom, hcout, hendl]
  have hprint : ∀ a ts, ∀ x ∈ usedFrom false (printStatement a ++ .punct ';' :: ts),
      x = a.name ∨ x ∈ usedFrom false ts := by
    intro a ts x hx
    cases hv : isVariable a.name with
    | false => exact Or.inr (by simpa [printStatement, usedFrom, hcout, hendl, hv] using hx)
    | true => simpa [printStatement, usedFrom, hcout, hendl, hv] using hx
  rw [hstart]
  clear hn hstart
  induction args with
  | nil => simp [unstatements, printFixed, usedFrom, hcout, hendl]
  | cons a args ih =>
      intro x hx
      rw [List.map_cons, List.cons_append, unstatements_cons] at hx
      rcases hprint a _ x hx with rfl | hx
      · simp
      · exact List.mem_cons_of_mem _ (ih x hx)

theorem statements_print (hn : ∀ a ∈ args, Identifier a.name) :
    statements (macroTokens ((printText args).drop 2)) = printStatements args := by
  rw [macroTokens_printText hn, statements_unstatements]
  intro s hs
  rw [printStatements, List.mem_cons, List.mem_append, List.mem_map, List.mem_singleton] at hs
  rcases hs with rfl | ⟨a, -, rfl⟩ | rfl <;> simp [printFixed, printStatement]

end Print

/-! ## The dump statements -/

def streamName (a : Argument) : Text := a.name ++ "_stream"

def isMat (a : Argument) : Bool := decide (a.key = ("mat" : Text))

/-- The variables the matrices are written through. -/
def streamNames (args : List Argument) : List Text := (args.filter isMat).map streamName

def dumpStatements (inputs : Text) (a : Argument) : List (List Token) :=
  if a.key = "mat" then
    [[.word "std::ofstream", .word (streamName a)],
      [.word (streamName a), .punct '.', .word "open", .punct '(', .literal (inputs ++ "/" ++ a.name), .punct ')'],
      [.word (streamName a), .punct '<', .punct '<', .word a.name],
      [.word (streamName a), .punct '.', .word "close", .punct '(', .punct ')']]
  else
    [[.word "qs::c_qsave", .punct '(', .word a.name, .punct ',', .literal (inputs ++ "/" ++ a.name ++ ".qs"),
      .punct ',', .literal "high", .punct ',', .literal "zstd", .punct ',', .word "1", .punct ',', .word "15",
      .punct ',', .word "true", .punct ',', .word "1", .punct ')']]

section Dump

variable {inputs : Text} {a : Argument} {args : List Argument}

theorem rest_saveInputs (hi : LiteralText inputs) (hn : Identifier a.name) (b : Text) :
    rest .plain (("  " : Text) ++ saveInputs inputs a ++ b) =
      unstatements (dumpStatements inputs a) ++ rest .plain b := by
  have hslash : LiteralText ("/" : Text) := ⟨by with_unfolding_all decide, by with_unfolding_all decide⟩
  unfold saveInputs dumpStatements
  by_cases hkey : a.key = "mat"
  · have hstream : ∀ c ∈ ("_stream" : Text), isWordChar c = true := by with_unfolding_all decide
    have h₁ : scan .plain ("  std::ofstream " : Text) = ([.word "std::ofstream"], .plain) := by with_unfolding_all decide
    have h₂ : scan .plain (";\n  " : Text) = ([.punct ';'], .plain) := by with_unfolding_all decide
    have h₃ : scan .plain (".open(\"" : Text) = ([.punct '.', .word "open", .punct '('], .literal []) := by
      with_unfolding_all decide
    have h₄ : scan .plain (" );\n  " : Text) = ([.punct ')', .punct ';'], .plain) := by with_unfolding_all decide
    have h₅ : scan .plain (" << " : Text) = ([.punct '<', .punct '<'], .plain) := by with_unfolding_all decide
    have h₆ : scan .plain (".close(); \n" : Text) =
        ([.punct '.', .word "close", .punct '(', .punct ')', .punct ';'], .plain) := by with_unfolding_all decide
    have htext : ("  " : Text) ++ ("std::ofstream " ++ a.name ++ "_stream;\n  " ++ a.name ++ "_stream.open(\"" ++
          inputs ++ "/" ++ a.name ++ "\" );\n  " ++ a.name ++ "_stream << " ++ a.name ++ ";\n  " ++ a.name ++
          "_stream.close(); \n") ++ b =
        "  std::ofstream " ++ (a.name ++ ("_stream" ++ (";\n  " ++ (a.name ++ ("_stream" ++ (".open(\"" ++
          (inputs ++ ("/" ++ (a.name ++ '"' :: (" );\n  " ++ (a.name ++ ("_stream" ++ (" << " ++ (a.name ++
          (";\n  " ++ (a.name ++ ("_stream" ++ (".close(); \n" ++ b)))))))))))))))))) := by
      simp [Text.ofString_eq]
    have hword : ∀ t, rest .plain (a.name ++ (("_stream" : Text) ++ t)) = rest (.word (streamName a)) t := by
      intro t
      rw [rest_plain_word hn.ne_nil hn.wordChars, rest_word hstream]
      rfl
    rw [if_pos hkey, if_pos hkey, htext, rest_append h₁, hword, rest_word_append (by with_unfolding_all decide) h₂, hword,
      rest_word_append (by with_unfolding_all decide) h₃, rest_literal hi, rest_literal hslash, rest_literal hn.literalText,
      rest_literal_end, rest_append h₄, hword, rest_word_append (by with_unfolding_all decide) h₅,
      rest_plain_word hn.ne_nil hn.wordChars, rest_word_append (by with_unfolding_all decide) h₂, hword,
      rest_word_append (by with_unfolding_all decide) h₆]
    simp [unstatements]
  · have hqs : LiteralText (".qs" : Text) := ⟨by with_unfolding_all decide, by with_unfolding_all decide⟩
    have h₁ : scan .plain ("  qs::c_qsave(" : Text) = ([.word "qs::c_qsave", .punct '('], .plain) := by
      with_unfolding_all decide
    have h₂ : scan .plain (",\"" : Text) = ([.punct ','], .literal []) := by with_unfolding_all decide
    have h₃ : scan .plain (",\n\t\t\"high\", \"zstd\", 1, 15, true, 1);\n" : Text) =
        ([.punct ',', .literal "high", .punct ',', .literal "zstd", .punct ',', .word "1", .punct ',', .word "15",
          .punct ',', .word "true", .punct ',', .word "1", .punct ')', .punct ';'], .plain) := by with_unfolding_all decide
    have htext : ("  " : Text) ++ ("qs::c_qsave(" ++ a.name ++ ",\"" ++ inputs ++ "/" ++ a.name ++
          ".qs\",\n\t\t\"high\", \"zstd\", 1, 15, true, 1);\n") ++ b =
        "  qs::c_qsave(" ++ (a.name ++ (",\"" ++ (inputs ++ ("/" ++ (a.name ++ (".qs" ++
          '"' :: (",\n\t\t\"high\", \"zstd\", 1, 15, true, 1);\n" ++ b))))))) := by
      simp [Text.ofString_eq]
    rw [if_neg hkey, if_neg hkey, htext, rest_append h₁, rest_plain_word hn.ne_nil hn.wordChars,
      rest_word_append (by with_unfolding_all decide) h₂, rest_literal hi, rest_literal hslash, rest_literal hn.literalText,
      rest_literal hqs, rest_literal_end, rest_append h₃]
    simp [unstatements]

theorem tokens_inputsDump (hi : LiteralText inputs) (hn : ∀ a ∈ args, Identifier a.name) :
    tokens (inputsDump inputs args) = unstatements (args.flatMap (dumpStatements inputs)) := by
  have hall : rest .plain (inputsDump inputs args ++ []) =
      unstatements (args.flatMap (dumpStatements inputs)) ++ rest .plain [] := by
    unfold inputsDump
    induction args with
    | nil => rfl
    | cons a args ih =>
        rw [List.flatMap_cons, List.append_assoc, rest_saveInputs hi (hn a (by simp)),
          ih fun x hx => hn x (by simp [hx]), List.flatMap_cons, unstatements, unstatements, unstatements,
          List.flatMap_append, List.append_assoc]
  simpa [tokens_eq_rest] using hall

theorem not_semicolon_dump (inputs : Text) (a : Argument) :
    ∀ s ∈ dumpStatements inputs a, Token.punct ';' ∉ s := by
  intro s hs
  unfold dumpStatements at hs
  split at hs
  · simp only [List.mem_cons, List.not_mem_nil, or_false] at hs
    rcases hs with rfl | rfl | rfl | rfl <;> simp
  · rw [List.mem_singleton.mp hs]
    simp

theorem statements_dump (hi : LiteralText inputs) (hn : ∀ a ∈ args, Identifier a.name) :
    statements (tokens (inputsDump inputs args)) = args.flatMap (dumpStatements inputs) := by
  rw [tokens_inputsDump hi hn, statements_unstatements]
  intro s hs
  obtain ⟨a, _, hsa⟩ := List.mem_flatMap.mp hs
  exact not_semicolon_dump inputs a s hsa

theorem declaredName_dump (inputs : Text) (args : List Argument) :
    (args.flatMap (dumpStatements inputs)).filterMap declaredName = streamNames args := by
  induction args with
  | nil => rfl
  | cons a args ih =>
      rw [List.flatMap_cons, List.filterMap_append, ih]
      unfold dumpStatements streamNames
      by_cases hkey : a.key = ("mat" : Text) <;> simp [isMat, hkey, declaredName]

/-- The names that the dump statements declare are those of the streams. -/
theorem dumpNames_eq (hi : LiteralText inputs) (hn : ∀ a ∈ args, Identifier a.name) :
    dumpNames inputs args = streamNames args := by
  rw [dumpNames, declaredNames, statements_dump hi hn, declaredName_dump]

/-- The variables of the dump statements of one argument. -/
theorem usedFrom_dump (inputs : Text) (a : Argument) (ts : List Token) :
    ∀ x ∈ usedFrom false (unstatements (dumpStatements inputs a) ++ ts),
      x = a.name ∨ (isMat a = true ∧ x = streamName a) ∨ x ∈ usedFrom false ts := by
  intro x hx
  have h₁ : isVariable ("std::ofstream" : Text) = false := by with_unfolding_all decide
  have h₂ : isVariable ("qs::c_qsave" : Text) = false := by with_unfolding_all decide
  have h₃ : isVariable ("1" : Text) = false := by with_unfolding_all decide
  have h₄ : isVariable ("15" : Text) = false := by with_unfolding_all decide
  have h₅ : isVariable ("true" : Text) = false := by with_unfolding_all decide
  by_cases hkey : a.key = ("mat" : Text)
  · have hmat : isMat a = true := by simpa [isMat] using hkey
    rw [dumpStatements, if_pos hkey] at hx
    cases hv : isVariable a.name <;> cases hs : isVariable (streamName a) <;>
      simp [unstatements, usedFrom, h₁, hv, hs] at hx <;> grind
  · rw [dumpStatements, if_neg hkey] at hx
    cases hv : isVariable a.name <;> simp [unstatements, usedFrom, h₂, h₃, h₄, h₅, hv] at hx <;> grind

/-- The dump statements use the parameters and their own streams. -/
theorem usedNames_dump (hi : LiteralText inputs) (hn : ∀ a ∈ args, Identifier a.name) :
    ∀ x ∈ usedNames (tokens (inputsDump inputs args)), x ∈ args.map (·.name) ∨ x ∈ streamNames args := by
  rw [tokens_inputsDump hi hn, usedNames]
  clear hn
  induction args with
  | nil => simp [unstatements, usedFrom]
  | cons a args ih =>
      intro x hx
      have htokens : unstatements ((a :: args).flatMap (dumpStatements inputs)) =
          unstatements (dumpStatements inputs a) ++ unstatements (args.flatMap (dumpStatements inputs)) := by
        simp [unstatements, List.flatMap_cons]
      rw [htokens] at hx
      rcases usedFrom_dump inputs a _ x hx with rfl | ⟨hmat, rfl⟩ | hx
      · exact Or.inl (by simp)
      · exact Or.inr (by simp [streamNames, hmat])
      · rcases ih x hx with hx | hx
        · exact Or.inl (List.mem_cons_of_mem _ hx)
        · refine Or.inr ?_
          obtain ⟨b, hb, rfl⟩ := List.mem_map.mp hx
          obtain ⟨hb, hmat⟩ := List.mem_filter.mp hb
          exact List.mem_map.mpr ⟨b, List.mem_filter.mpr ⟨List.mem_cons_of_mem _ hb, hmat⟩, rfl⟩

end Dump

/-! ## The call -/

/-- An argument of the call, without the comma behind it. -/
def argText (a : Argument) : Text :=
  if a.key = "string" then "Rcpp::as<std::string>(" ++ (a.name ++ "[0])")
  else if (rtypeOf a.key).isSome then a.name ++ "[0]"
  else a.name

section Call

variable {a : Argument} {args : List Argument}

theorem protoArg_eq (a : Argument) : protoArg a = argText a ++ [','] := by
  unfold protoArg argText
  split
  · simp [Text.ofString_eq]
  · split <;> simp [Text.ofString_eq]

theorem rest_argText (hn : Identifier a.name) {t b : Text} {ts : List Token}
    (hhead : t.head?.map isWordChar = some false) (h : scan .plain t = (ts, .plain)) :
    rest .plain (argText a ++ (t ++ b)) = callArgument a ++ (ts ++ rest .plain b) := by
  have h₁ : scan .plain ("Rcpp::as<std::string>(" : Text) =
      ([.word "Rcpp::as", .punct '<', .word "std::string", .punct '>', .punct '('], .plain) := by with_unfolding_all decide
  have h₂ : scan .plain ("[0])" : Text) = ([.punct '[', .word "0", .punct ']', .punct ')'], .plain) := by
    with_unfolding_all decide
  have h₃ : scan .plain ("[0]" : Text) = ([.punct '[', .word "0", .punct ']'], .plain) := by with_unfolding_all decide
  unfold argText callArgument
  split
  · simp only [List.append_assoc]
    rw [rest_append h₁, rest_plain_word hn.ne_nil hn.wordChars, rest_word_append (by with_unfolding_all decide) h₂,
      rest_append h]
    rfl
  · split
    · simp only [List.append_assoc]
      rw [rest_plain_word hn.ne_nil hn.wordChars, rest_word_append (by with_unfolding_all decide) h₃, rest_append h]
      rfl
    · rw [rest_plain_word hn.ne_nil hn.wordChars, rest_word_append hhead h]
      rfl

/-- An argument is read up to the comma or the parenthesis behind it. -/
theorem argumentsFrom_comma (a : Argument) (ts : List Token) :
    argumentsFrom 0 (callArgument a ++ .punct ',' :: ts) = callArgument a :: argumentsFrom 0 ts := by
  unfold callArgument
  split
  · simp [argumentsFrom]
  · split <;> simp [argumentsFrom]

theorem argumentsFrom_paren (a : Argument) (ts : List Token) :
    argumentsFrom 0 (callArgument a ++ .punct ')' :: ts) = [callArgument a] := by
  unfold callArgument
  split
  · simp [argumentsFrom]
  · split <;> simp [argumentsFrom]

theorem rest_protoArgs (hn : ∀ a ∈ args, Identifier a.name) (b : Text) :
    rest .plain (args.flatMap protoArg ++ b) =
      args.flatMap (fun a => callArgument a ++ [.punct ',']) ++ rest .plain b := by
  have hcomma : scan .plain [','] = ([.punct ','], .plain) := by with_unfolding_all decide
  induction args with
  | nil => rfl
  | cons a args ih =>
      rw [List.flatMap_cons, List.append_assoc, protoArg_eq, List.append_assoc,
        rest_argText (hn a (by simp)) (by with_unfolding_all decide) hcomma, ih fun x hx => hn x (by simp [hx]),
        List.flatMap_cons]
      simp

theorem argumentsFrom_call (args : List Argument) (a : Argument) (ts : List Token) :
    argumentsFrom 0 (args.flatMap (fun a => callArgument a ++ [.punct ',']) ++
      (callArgument a ++ .punct ')' :: ts)) = (args ++ [a]).map callArgument := by
  induction args with
  | nil => exact argumentsFrom_paren a ts
  | cons b args ih =>
      rw [List.flatMap_cons, List.append_assoc, List.append_assoc, List.singleton_append, argumentsFrom_comma, ih]
      rfl

/-- The call as a statement; `as` are the arguments before the last. -/
def callStatement (fn : Text) (as : List Argument) (a : Argument) : List Token :=
  .word fn :: .punct '(' :: (as.flatMap (fun a => callArgument a ++ [.punct ',']) ++
    (callArgument a ++ [.punct ')']))

theorem tokens_callText {fn : Text} {as : List Argument} (hfn : Identifier fn)
    (has : ∀ b ∈ as, Identifier b.name) (ha : Identifier a.name) :
    tokens (callText fn (as ++ [a])) = unstatements [callStatement fn as a] := by
  have hopen : scan .plain ("(" : Text) = ([.punct '('], .plain) := by with_unfolding_all decide
  have hclose : scan .plain (");\n" : Text) = ([.punct ')', .punct ';'], .plain) := by with_unfolding_all decide
  have htext : callText fn (as ++ [a]) = fn ++ (("(" : Text) ++ (as.flatMap protoArg ++ (argText a ++
      ((");\n" : Text) ++ [])))) := by
    have hcomma : ("," : Text) = [','] := by with_unfolding_all decide
    rw [callText, List.flatMap_append, List.flatMap_singleton, protoArg_eq, ← List.append_assoc, hcomma,
      dropSuffix_append]
    simp only [List.append_assoc, List.append_nil]
  rw [htext, tokens_eq_rest, rest_plain_word hfn.ne_nil hfn.wordChars, rest_word_append (by with_unfolding_all decide) hopen,
    rest_protoArgs has, rest_argText ha (by with_unfolding_all decide) hclose]
  simp [unstatements, callStatement]

theorem not_semicolon_call (fn : Text) (as : List Argument) (a : Argument) :
    Token.punct ';' ∉ callStatement fn as a := by
  have harg : ∀ a, Token.punct ';' ∉ callArgument a := by
    intro a
    unfold callArgument
    split
    · simp
    · split <;> simp
  simp [callStatement, harg]

theorem statements_call {fn : Text} {as : List Argument} (hfn : Identifier fn)
    (has : ∀ b ∈ as, Identifier b.name) (ha : Identifier a.name) :
    statements (tokens (callText fn (as ++ [a]))) = [callStatement fn as a] := by
  rw [tokens_callText hfn has ha, statements_unstatements]
  intro s hs
  rw [List.mem_singleton.mp hs]
  exact not_semicolon_call fn as a

/-- The call passes the parameters in order. -/
theorem call_callText {fn : Text} (hfn : Identifier fn) (hn : ∀ a ∈ args, Identifier a.name)
    (hne : args ≠ []) : Cpp.call (tokens (callText fn args)) = some (fn, args.map callArgument) := by
  obtain ⟨as, a, rfl⟩ := (List.eq_nil_or_concat args).resolve_left hne
  rw [List.concat_eq_append] at hn ⊢
  rw [tokens_callText hfn (fun x hx => hn x (by simp [hx])) (hn a (by simp)), unstatements, List.flatMap_singleton,
    callStatement]
  have hargs := argumentsFrom_call as a [.punct ';']
  simp only [List.cons_append, List.append_assoc, List.nil_append, Cpp.call]
  exact congrArg (fun as => some (fn, as)) hargs

end Call

end RcppDeepState
