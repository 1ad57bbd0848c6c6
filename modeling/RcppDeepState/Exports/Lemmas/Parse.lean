import RcppDeepState.Exports.Lemmas.Block

/-!
# Reading back the file compileAttributes writes

Every function of the file gives one row of the details table, in the order of the file.
-/

namespace RcppDeepState

open Regex

/-! ## Lines that are no comments -/

/-- A line the pattern cannot start at. -/
def PlainLine (l : Text) : Prop := '\n' ∉ l ∧ ¬ ("// " : Text) <+: l.dropWhile isSpace

theorem plainLine_of_not_infix {l : Text} (hl : '\n' ∉ l) (hc : ¬ ("// " : Text) <:+: l) :
    PlainLine l :=
  ⟨hl, fun hp => hc (hp.isInfix.trans (List.dropWhile_suffix _).isInfix)⟩

theorem search_of_newline_not_mem {l : Text} (hl : '\n' ∉ l) (s : Text) :
    packageDetailsPattern.search (l ++ s) = packageDetailsPattern.search s := by
  refine search_append ?_
  intro a b hab hb
  obtain ⟨c, b, rfl⟩ := List.exists_cons_of_ne_nil hb
  refine matchAt_of_ne_newline ?_
  rintro rfl
  exact hl (by simp [hab])

theorem search_nil : packageDetailsPattern.search [] = none := by
  rw [search, packageDetailsPattern_eq]
  exact matchAt_lit_none (by with_unfolding_all decide)

theorem search_plain_cons {l : Text} (hl : PlainLine l) (ls : List Text) :
    packageDetailsPattern.search (Text.newLines (l :: ls)) =
      packageDetailsPattern.search (Text.newLines ls) := by
  cases ls with
  | nil =>
      have hnone : packageDetailsPattern.matchAt ('\n' :: (l ++ [])) = none := by
        rw [matchAt_newline, List.append_nil]
        exact run_commentParts_none hl.2
      rw [Text.newLines_cons, Text.newLines_nil, search_cons hnone]
      exact search_of_newline_not_mem hl.1 []
  | cons l' ls => simpa using search_skip_line hl.1 hl.2

theorem search_plain_append {ls : List Text} (hls : ∀ l ∈ ls, PlainLine l) (ls' : List Text) :
    packageDetailsPattern.search (Text.newLines (ls ++ ls')) =
      packageDetailsPattern.search (Text.newLines ls') := by
  induction ls with
  | nil => rfl
  | cons l ls ih =>
      rw [List.cons_append, search_plain_cons (hls l (by simp))]
      exact ih (fun x hx => hls x (by simp [hx]))

/-! ## The lines of a body -/

/-- An indented line of code. -/
def CodeLine (l : Text) : Prop := ∃ c x, l = ("    " : Text) ++ c :: x ∧ isIdentChar c = true ∧ '\n' ∉ c :: x

theorem CodeLine.dropWhile {c : Char} {x : Text} (hc : isIdentChar c = true) :
    (("    " : Text) ++ c :: x).dropWhile isSpace = c :: x := by
  have h : ("    " : Text) = [' ', ' ', ' ', ' '] := by with_unfolding_all decide
  rw [h]
  simp [isSpace_of_isIdentChar hc, show isSpace ' ' = true by decide]

theorem CodeLine.plain {l : Text} (h : CodeLine l) :
    PlainLine l ∧ l.dropWhile isSpace ≠ [] := by
  obtain ⟨c, x, rfl, hc, hnl⟩ := h
  refine ⟨⟨?_, ?_⟩, ?_⟩
  · have h4 : '\n' ∉ ("    " : Text) := by with_unfolding_all decide
    simpa [h4] using hnl
  · rw [CodeLine.dropWhile hc, show ("// " : Text) = ['/', '/', ' '] by with_unfolding_all decide]
    intro hp
    obtain ⟨rfl, _⟩ := List.cons_prefix_cons.mp hp
    exact absurd hc (by decide)
  · rw [CodeLine.dropWhile hc]
    simp

/-- A line that starts with a fixed word. -/
theorem codeLine_of_word {w l : Text} {c : Char} {x rest : Text} (hw : w = ("    " : Text) ++ c :: x)
    (hl : l = w ++ rest) (hc : isIdentChar c = true) (hx : '\n' ∉ c :: x) (hrest : '\n' ∉ rest) :
    CodeLine l := by
  refine ⟨c, x ++ rest, ?_, hc, ?_⟩
  · rw [hl, hw]
    simp
  · simp only [List.mem_cons, List.mem_append, not_or] at hx ⊢
    exact ⟨hx.1, hx.2, hrest⟩

theorem endLine_plain : PlainLine "END_RCPP" ∧ endsBody "END_RCPP" = true := by
  refine ⟨⟨by with_unfolding_all decide, by with_unfolding_all decide⟩, by with_unfolding_all decide⟩

theorem closeLine_plain : PlainLine "\x7d" := ⟨by with_unfolding_all decide, by with_unfolding_all decide⟩

namespace Export

variable {e : Export}

theorem newline_not_mem_call : '\n' ∉ e.call := by
  have hn : '\n' ∉ Text.join ", " (e.params.map (·.name)) := by
    refine not_mem_join (by with_unfolding_all decide) ?_
    intro t ht
    obtain ⟨p, _, rfl⟩ := List.mem_map.mp ht
    exact p.name_ok.not_mem (by decide)
  simp only [call, List.mem_append, not_or]
  exact ⟨⟨⟨e.name_ok.not_mem (by decide), by with_unfolding_all decide⟩, hn⟩, by with_unfolding_all decide⟩

theorem codeLine_of_mem {l : Text} (h : l ∈ e.codeLines) : CodeLine l := by
  rcases List.mem_append.mp h with h | h
  · rcases List.mem_append.mp h with h | h
    · unfold openingLines at h
      rcases List.mem_append.mp h with h | h
      · split at h
        · cases h
        · obtain rfl := List.mem_singleton.mp h
          exact ⟨'R', "cpp::RObject rcpp_result_gen;".toList, by with_unfolding_all decide, by decide,
            by with_unfolding_all decide⟩
      · split at h
        · obtain rfl := List.mem_singleton.mp h
          exact ⟨'R', "cpp::RNGScope rcpp_rngScope_gen;".toList, by with_unfolding_all decide, by decide,
            by with_unfolding_all decide⟩
        · cases h
    · obtain ⟨p, _, rfl⟩ := List.mem_map.mp h
      refine @codeLine_of_word "    Rcpp::traits::input_parameter< " _ 'R'
          ("cpp::traits::input_parameter< ".toList)
          (p.type ++ (" >::type " ++ (p.name ++ ("(" ++ (p.name ++ "SEXP);"))))) (by with_unfolding_all decide) ?_ (by decide)
          (by with_unfolding_all decide) ?_
      · simp only [Param.line, List.append_assoc]
      · simp [Text.ofString_eq, p.type_ok.newline,
          p.name_ok.not_mem (show isIdentChar '\n' = false by decide)]
  · unfold callLines at h
    split at h
    · simp only [List.mem_cons, List.not_mem_nil, or_false] at h
      rcases h with rfl | rfl
      · obtain ⟨c, x, hx, hc⟩ := e.name_ok.exists_cons
        refine ⟨c, x ++ ("(" ++ Text.join ", " (e.params.map (·.name)) ++ ")") ++ ";", ?_, hc, ?_⟩
        · simp [call, hx]
        · have hn := e.newline_not_mem_call
          have hsemi : '\n' ∉ (";" : Text) := by with_unfolding_all decide
          rw [call, hx] at hn
          simpa [hsemi] using hn
      · exact ⟨'r', "eturn R_NilValue;".toList, by with_unfolding_all decide, by decide, by with_unfolding_all decide⟩
    · simp only [List.mem_cons, List.not_mem_nil, or_false] at h
      rcases h with rfl | rfl
      · refine @codeLine_of_word "    rcpp_result_gen = Rcpp::wrap(" _ 'r'
            ("cpp_result_gen = Rcpp::wrap(".toList) (e.call ++ ");") (by with_unfolding_all decide) ?_ (by decide)
            (by with_unfolding_all decide) ?_
        · simp only [List.append_assoc]
        · simp [Text.ofString_eq, e.newline_not_mem_call]
      · exact ⟨'r', "eturn rcpp_result_gen;".toList, by with_unfolding_all decide, by decide, by with_unfolding_all decide⟩

theorem codeLines_ne_nil : e.codeLines ≠ [] := by
  unfold codeLines callLines
  split <;> simp

end Export

/-! ## One function -/

theorem commentParts_eq :
    commentParts = lit "// " :: group "commentName" anyText :: lit "\n" ::
      group "prototype" prototypePattern :: lit "\n" :: sexpParts := rfl

/-- What the pattern captures of a function before its body. -/
def blockCaptures (symbol : Text) (e : Export) : Captures :=
  [("commentName", e.name), ("prototype", e.prototype), ("returnType", e.returnType),
    ("funName", e.name), ("arguments", e.arguments), ("SEXP", e.sexp symbol ++ ['\n'])]

theorem run_commentParts {β : Type} {k : Captures → Text → Option β} {e : Export} {symbol l s : Text}
    {v : β} (hs : '\n' ∉ symbol) (hl : '\n' ∉ l) (hblank : l.dropWhile isSpace ≠ [])
    (hk : (cat codeParts).run (l ++ s) (fun d s'' => k (blockCaptures symbol e ++ d) s'') = some v) :
    (cat commentParts).run ("// " ++ (e.name ++ '\n' :: (e.prototype ++ '\n' ::
      (e.sexp symbol ++ '\n' :: ("BEGIN_RCPP" ++ '\n' :: (l ++ s)))))) k = some v := by
  have hn : '\n' ∉ e.name := e.name_ok.not_mem (by decide)
  rw [commentParts_eq, run_cat_cons, run_lit_append, run_cat_cons, run_group, anyText,
    run_dots_line hn]
  · rw [run_cat_cons, run_lit_newline, run_cat_cons, run_group]
    refine run_prototypePattern ?_
    rw [run_cat_cons, run_lit_newline]
    refine run_sexpParts (Export.newline_not_mem_sexp hs) hl hblank ?_
    simpa [blockCaptures] using hk
  · intro c s' hc
    rw [run_cat_cons, run_lit_of_not_prefix]
    simp [Text.ofString_eq, Ne.symm hc]

/-- The row of the details table for a function. -/
def Details.ofExport (symbol : Text) (e : Export) : Details where
  commentName := e.name
  prototype := e.prototype
  returnType := e.returnType
  funName := e.name
  arguments := e.arguments
  SEXP := e.sexp symbol ++ ['\n']
  code := Text.unlines (bodyLines e.codeLines)

theorem Details.ofCaptures_ofExport (symbol : Text) (e : Export) :
    Details.ofCaptures (blockCaptures symbol e ++ [(("code" : Text), Text.unlines (bodyLines e.codeLines))]) =
      Details.ofExport symbol e := by
  simp [Details.ofCaptures, Details.ofExport, blockCaptures, captured, List.lookup_cons, Text.ofString_eq]

/-- The body as the pattern reads it ends at `END_RCPP`, or before at a call that starts with it. -/
theorem exists_endsBody (e : Export) : ∃ l ls, e.codeLines ++ [("END_RCPP" : Text)] =
    bodyLines e.codeLines ++ l :: ls ∧ endsBody l = true ∧ ∀ x ∈ l :: ls, PlainLine x := by
  have hsplit : bodyLines e.codeLines ++ e.codeLines.dropWhile (!endsBody ·) = e.codeLines :=
    List.takeWhile_append_dropWhile
  cases hdrop : e.codeLines.dropWhile (!endsBody ·) with
  | nil =>
      rw [hdrop, List.append_nil] at hsplit
      refine ⟨"END_RCPP", [], by rw [hsplit], endLine_plain.2, ?_⟩
      intro x hx
      rw [List.mem_singleton.mp hx]
      exact endLine_plain.1
  | cons l ls =>
      have hend := List.head_dropWhile_not (p := (!endsBody ·)) (l := e.codeLines) (by rw [hdrop]; simp)
      rw [hdrop] at hsplit
      refine ⟨l, ls ++ [("END_RCPP" : Text)], ?_, ?_, ?_⟩
      · rw [← List.cons_append, ← List.append_assoc, hsplit]
      · simpa [hdrop] using hend
      · intro x hx
        rw [← List.cons_append] at hx
        rcases List.mem_append.mp hx with hx | hx
        · exact (Export.codeLine_of_mem (by rw [← hsplit]; simp [hx])).plain.1
        · rw [List.mem_singleton.mp hx]
          exact endLine_plain.1

theorem search_block {symbol : Text} (hs : '\n' ∉ symbol) (e : Export) (more : List Text) :
    ∃ c rest, packageDetailsPattern.search (Text.newLines (e.blockLines symbol ++ more)) = some (c, rest) ∧
      Details.ofCaptures c = Details.ofExport symbol e ∧
      packageDetailsPattern.search rest = packageDetailsPattern.search (Text.newLines more) := by
  obtain ⟨l, ls, hcode, hend, hplain⟩ := exists_endsBody e
  obtain ⟨l₀, ls₀, hl₀⟩ := List.exists_cons_of_ne_nil e.codeLines_ne_nil
  obtain ⟨rest, hrest⟩ : ("END_RCPP" : Text) <+: l.dropWhile isSpace := by
    simpa [endsBody] using hend
  have hl₀' := (Export.codeLine_of_mem (e := e) (by rw [hl₀]; simp : l₀ ∈ e.codeLines)).plain
  have hne : l.dropWhile isSpace ≠ [] := by rw [← hrest]; simp [Text.ofString_eq]
  -- The text behind BEGIN_RCPP, once from its first line and once from the line that ends the body.
  have hbody : l₀ ++ Text.newLines (ls₀ ++ ("END_RCPP" : Text) :: ("\x7d" : Text) :: more) =
      Text.unlines (bodyLines e.codeLines) ++ (l ++ Text.newLines (ls ++ ("\x7d" : Text) :: more)) := by
    have h := congrArg (fun x => Text.newLines (x ++ ("\x7d" : Text) :: more)) hcode
    simp only [hl₀, List.cons_append, Text.newLines_cons, List.append_assoc,
      Text.newLines_append_cons (bodyLines _)] at h
    simpa [hl₀] using (List.cons.inj h).2
  have htext : Text.newLines (e.blockLines symbol ++ more) = '\n' :: ("// " ++ (e.name ++ '\n' ::
      (e.prototype ++ '\n' :: (e.sexp symbol ++ '\n' :: ("BEGIN_RCPP" ++ '\n' ::
        (l₀ ++ Text.newLines (ls₀ ++ ("END_RCPP" : Text) :: ("\x7d" : Text) :: more))))))) := by
    simp [Export.blockLines, hl₀]
  have hmatch : packageDetailsPattern.matchAt (Text.newLines (e.blockLines symbol ++ more)) =
      some (blockCaptures symbol e ++ [(("code" : Text), Text.unlines (bodyLines e.codeLines))],
        rest ++ Text.newLines (ls ++ ("\x7d" : Text) :: more)) := by
    have hslash : ∀ s : Text, (("// " : Text) ++ s).dropWhile isSpace = "// " ++ s := by
      intro s
      rw [show ("// " : Text) = ['/', '/', ' '] by with_unfolding_all decide]
      simp [show isSpace '/' = false by decide]
    rw [htext, matchAt_newline, hslash, matchAt, commentPattern]
    refine run_commentParts hs hl₀'.1.1 hl₀'.2 ?_
    rw [hbody]
    refine run_codeParts ?_ (by rw [dropWhile_line hne, ← hrest, List.append_assoc]) rfl
    intro x hx
    have hx' : CodeLine x := Export.codeLine_of_mem ((List.takeWhile_prefix _).subset hx)
    refine ⟨hx'.plain.1.1, hx'.plain.2, ?_⟩
    simpa using List.mem_takeWhile_imp hx
  refine ⟨_, _, search_of_matchAt hmatch, Details.ofCaptures_ofExport symbol e, ?_⟩
  have hnl : '\n' ∉ rest := by
    intro hm
    refine (hplain l (by simp)).1 ((List.dropWhile_suffix isSpace).subset ?_)
    rw [← hrest]
    simp [hm]
  have hrest' : ∀ x ∈ ls ++ [("\x7d" : Text)], PlainLine x := by
    intro x hx
    rcases List.mem_append.mp hx with hx | hx
    · exact hplain x (by simp [hx])
    · rw [List.mem_singleton.mp hx]
      exact closeLine_plain
  have hmore := search_plain_append hrest' more
  rw [List.append_assoc, List.singleton_append] at hmore
  rw [search_of_newline_not_mem hnl, hmore]

/-! ## The whole file -/

theorem findAll_blocks {symbol : Text} (hs : '\n' ∉ symbol) {trailer : List Text}
    (ht : ∀ l ∈ trailer, PlainLine l) (es : List Export) (n : Nat) (hn : es.length ≤ n) (s : Text)
    (hsearch : packageDetailsPattern.search s =
      packageDetailsPattern.search (Text.newLines (es.flatMap (·.blockLines symbol) ++ trailer))) :
    (packageDetailsPattern.findAllFrom n s).map Details.ofCaptures = es.map (Details.ofExport symbol) := by
  induction es generalizing n s with
  | nil =>
      have hnone := search_plain_append ht []
      rw [List.append_nil] at hnone
      rw [List.flatMap_nil, List.nil_append, hnone] at hsearch
      rw [findAllFrom_of_search_none (hsearch.trans search_nil)]
      rfl
  | cons e es ih =>
      obtain ⟨n, rfl⟩ : ∃ m, n = m + 1 := ⟨n - 1, by simp at hn; omega⟩
      obtain ⟨c, rest, hc, hrow, hrest⟩ :=
        search_block hs e (es.flatMap (·.blockLines symbol) ++ trailer)
      rw [List.flatMap_cons, List.append_assoc, hc] at hsearch
      rw [findAllFrom_of_search hsearch, List.map_cons, hrow, List.map_cons,
        ih n (by simpa using hn) rest hrest]

namespace Export

variable {e : Export} {symbol : Text}

theorem return_not_mem_name : '\r' ∉ e.name := e.name_ok.not_mem (by decide)

theorem return_not_mem_call : '\r' ∉ e.call := by
  have hparams : '\r' ∉ Text.join ", " (e.params.map (·.name)) := by
    refine not_mem_join (by with_unfolding_all decide) fun t ht => ?_
    obtain ⟨p, _, rfl⟩ := List.mem_map.mp ht
    exact p.name_ok.not_mem (by decide)
  simp only [call, List.mem_append, not_or]
  exact ⟨⟨⟨return_not_mem_name, by with_unfolding_all decide⟩, hparams⟩, by with_unfolding_all decide⟩

theorem return_not_mem_codeLines {l : Text} (h : l ∈ e.codeLines) : '\r' ∉ l := by
  rcases List.mem_append.mp h with h | h
  · rcases List.mem_append.mp h with h | h
    · have hopening : ∀ l ∈ e.openingLines, '\r' ∉ l := by
        unfold openingLines
        cases e.isVoid <;> cases e.rng <;> simp [Text.ofString_eq]
      exact hopening l h
    · obtain ⟨p, _, rfl⟩ := List.mem_map.mp h
      simp [Param.line, Text.ofString_eq, p.type_ok.line.2, p.name_ok.not_mem (show isIdentChar '\r' = false by decide)]
  · have hcall : ∀ l ∈ e.callLines, '\r' ∉ l := by
      unfold callLines
      cases e.isVoid <;> simp [Text.ofString_eq, return_not_mem_call]
    exact hcall l h

theorem return_not_mem_prototype : '\r' ∉ e.prototype := by
  have harguments : '\r' ∉ e.arguments :=
    not_mem_arguments (by with_unfolding_all decide) (by decide) fun p => p.type_ok.line.2
  simp [prototype, Text.ofString_eq, e.returnType_ok.line.2, harguments, return_not_mem_name]

theorem oneLine_prototype : e.prototype.OneLine := ⟨newline_not_mem_prototype, return_not_mem_prototype⟩

theorem return_not_mem_sexp (hs : '\r' ∉ symbol) : '\r' ∉ e.sexp symbol := by
  have hparams : '\r' ∉ e.sexpParams := by
    refine not_mem_join (by with_unfolding_all decide) fun t ht => ?_
    obtain ⟨p, _, rfl⟩ := List.mem_map.mp ht
    simp [Text.ofString_eq, p.name_ok.not_mem (show isIdentChar '\r' = false by decide)]
  simp [sexp, Text.ofString_eq, hs, hparams, return_not_mem_name]

theorem return_not_mem_blockLines (hs : '\r' ∉ symbol) {l : Text} (h : l ∈ e.blockLines symbol) : '\r' ∉ l := by
  simp only [blockLines, List.mem_append, List.mem_cons, List.not_mem_nil, or_false] at h
  rcases h with ((rfl | rfl | rfl | rfl) | h) | rfl | rfl
  · simp [Text.ofString_eq, return_not_mem_name]
  · exact return_not_mem_prototype
  · exact return_not_mem_sexp hs
  · with_unfolding_all decide
  · exact return_not_mem_codeLines h
  · with_unfolding_all decide
  · with_unfolding_all decide

end Export

/-- A written file has no carriage return. -/
theorem return_not_mem_text (f : ExportsFile) : '\r' ∉ f.text := by
  have hs : '\r' ∉ f.symbol := fun hm => absurd (f.symbol_ok _ hm) (by decide)
  refine Text.not_mem_unlines (by decide) fun l hl => ?_
  rcases List.mem_append.mp hl with hl | hl
  · rcases List.mem_append.mp hl with hl | hl
    · simp only [ExportsFile.headerLines, List.cons_append, List.nil_append, List.mem_cons, List.mem_append,
        List.not_mem_nil, or_false] at hl
      rcases hl with rfl | rfl | rfl | hl | rfl
      · with_unfolding_all decide
      · with_unfolding_all decide
      · with_unfolding_all decide
      · exact (f.preamble_ok l hl).1.2
      · exact List.not_mem_nil
    · obtain ⟨e, _, hl⟩ := List.mem_flatMap.mp hl
      exact Export.return_not_mem_blockLines hs hl
  · exact (f.trailer_ok l hl).1.2

/-- A comment line the empty line follows has no prototype. -/
theorem search_comment_blank {c : Text} (hc : '\n' ∉ c) (l : Text) (ls : List Text) :
    packageDetailsPattern.search (Text.newLines (("// " ++ c) :: [] :: l :: ls)) =
      packageDetailsPattern.search (Text.newLines ([] :: l :: ls)) := by
  have hnl : '\n' ∉ ("// " ++ c : Text) := by
    have h : '\n' ∉ ("// " : Text) := by with_unfolding_all decide
    simp [h, hc]
  have hdrop : ("// " ++ (c ++ '\n' :: '\n' :: (l ++ Text.newLines ls)) : Text).dropWhile isSpace =
      "// " ++ (c ++ '\n' :: '\n' :: (l ++ Text.newLines ls)) := by
    rw [show ("// " : Text) = ['/', '/', ' '] by with_unfolding_all decide]
    simp [show isSpace '/' = false by decide]
  have hnone : packageDetailsPattern.matchAt
      ('\n' :: ("// " ++ (c ++ '\n' :: '\n' :: (l ++ Text.newLines ls)))) = none := by
    rw [matchAt_newline, hdrop, matchAt, commentPattern, commentParts_eq, run_cat_cons, run_lit_append,
      run_cat_cons, run_group, anyText, run_dots_line hc]
    · rw [run_cat_cons, run_lit_newline, run_cat_cons, run_group, prototypePattern_eq, run_cat_cons,
        run_group, anyText, dot, run_greedy_of_not (by decide), run_cat_cons, run_lit_of_not_prefix]
      simp [Text.ofString_eq]
    · intro x s' hx
      rw [run_cat_cons, run_lit_of_not_prefix]
      simp [Text.ofString_eq, Ne.symm hx]
  have htext : Text.newLines (("// " ++ c) :: [] :: l :: ls) =
      '\n' :: ("// " ++ (c ++ '\n' :: '\n' :: (l ++ Text.newLines ls))) := by
    simp
  rw [htext, search_cons hnone, ← List.append_assoc, search_of_newline_not_mem hnl]
  simp

theorem length_le_newLines (ls : List Text) : ls.length ≤ (Text.newLines ls).length := by
  induction ls with
  | nil => simp
  | cons l ls ih => simp only [Text.newLines_cons, List.length_cons, List.length_append]; omega

theorem length_le_blocks (symbol : Text) (es : List Export) :
    es.length ≤ (es.flatMap (·.blockLines symbol)).length := by
  induction es with
  | nil => simp
  | cons e es ih =>
      have hpos : 0 < (e.blockLines symbol).length := by simp [Export.blockLines]
      simp only [List.flatMap_cons, List.length_append, List.length_cons]
      omega

/-- The details table of a written file has one row for each function, in the order of the file. -/
theorem packageDetails_text (f : ExportsFile) :
    deepstateGetPackageDetails (some f.text) = .ok (f.exports.map (Details.ofExport f.symbol)) := by
  have hsym : '\n' ∉ f.symbol := fun hm => absurd (f.symbol_ok _ hm) (by decide)
  have hplain : ∀ l ∈ f.preamble ++ [[]], PlainLine l := by
    intro l hl
    rcases List.mem_append.mp hl with hl | hl
    · exact plainLine_of_not_infix (f.preamble_ok l hl).1.1 (f.preamble_ok l hl).2
    · rw [List.mem_singleton.mp hl]
      exact ⟨by simp, by with_unfolding_all decide⟩
  have hreturn : '\r' ∉ f.text := return_not_mem_text f
  have hjoin : Text.join "\n" f.text.lines =
      "// Generated by using Rcpp::compileAttributes() -> do not edit by hand" ++
        Text.newLines (("// " ++ "Generator token: 10BE3573-1514-4C36-9D1C-5A225CD40393") :: [] ::
          ((f.preamble ++ [[]]) ++ (f.exports.flatMap (·.blockLines f.symbol) ++ f.trailer))) := by
    have htoken : ("// Generator token: 10BE3573-1514-4C36-9D1C-5A225CD40393" : Text) =
        "// " ++ "Generator token: 10BE3573-1514-4C36-9D1C-5A225CD40393" := by with_unfolding_all decide
    have hempty : ("" : Text) = [] := by with_unfolding_all decide
    rw [ExportsFile.text, ExportsFile.fileLines, ExportsFile.headerLines] at hreturn
    rw [show ("\n" : Text) = ['\n'] by with_unfolding_all decide, ExportsFile.text, ExportsFile.fileLines,
      ExportsFile.headerLines]
    simp only [htoken, hempty, List.cons_append, List.nil_append, Text.unlines_eq_newLines, List.append_assoc]
      at hreturn ⊢
    rw [← List.append_assoc] at hreturn ⊢
    rw [Text.join_lines_newline fun hr => hreturn (List.mem_append_left _ hr)]
  have hsearch : packageDetailsPattern.search (Text.join "\n" f.text.lines) =
      packageDetailsPattern.search
        (Text.newLines (f.exports.flatMap (·.blockLines f.symbol) ++ f.trailer)) := by
    obtain ⟨l, ls, hls⟩ := List.exists_cons_of_ne_nil (show (f.preamble ++ [[]]) ++
      (f.exports.flatMap (·.blockLines f.symbol) ++ f.trailer) ≠ [] by simp)
    rw [hjoin, search_of_newline_not_mem (by with_unfolding_all decide), hls,
      search_comment_blank (by with_unfolding_all decide), search_plain_cons ⟨by simp, by with_unfolding_all decide⟩, ← hls,
      search_plain_append hplain]
  have hlen : f.exports.length ≤ (Text.join "\n" f.text.lines).length + 1 := by
    have h1 := length_le_blocks f.symbol f.exports
    have h2 := length_le_newLines (f.exports.flatMap (·.blockLines f.symbol) ++ f.trailer)
    rw [hjoin]
    simp only [List.length_append, Text.newLines_cons, Text.newLines_append, List.length_cons] at h2 ⊢
    omega
  rw [deepstateGetPackageDetails, findAll,
    findAll_blocks hsym (fun l hl => plainLine_of_not_infix (f.trailer_ok l hl).1.1 (f.trailer_ok l hl).2)
      f.exports _ hlen _ hsearch]

end RcppDeepState
