import RcppDeepState.Exports.Lemmas.Parse

/-!
# The argument table of a written file

The argument pattern matches once in every line that declares a parameter and nowhere else.
-/

namespace RcppDeepState

open Regex

/-! ## Where the pattern can start -/

theorem search_argument_skip {a : Text} (ha : '<' ∉ a) (s : Text) :
    argumentPattern.search (a ++ '\n' :: s) = argumentPattern.search s := by
  have hnone : ∀ b : Text, '<' ∉ b → argumentPattern.matchAt (b ++ '\n' :: s) = none := by
    intro b hb
    refine matchAt_lit_none ?_
    rw [Text.prefix_append_cons_of_not_mem (by with_unfolding_all decide)]
    intro hp
    exact hb (hp.subset (by with_unfolding_all decide))
  rw [search_append, search_cons]
  · simpa using hnone [] (by simp)
  · intro a₁ a₂ h _
    exact hnone a₂ (fun hm => ha (by simp [h, hm]))

theorem search_argument_lines {ls : List Text} (hls : ∀ l ∈ ls, '<' ∉ l) (s : Text) :
    argumentPattern.search (Text.unlines ls ++ s) = argumentPattern.search s := by
  induction ls with
  | nil => rfl
  | cons l ls ih =>
      rw [Text.unlines_cons, List.append_assoc, List.cons_append, search_argument_skip (hls l (by simp))]
      exact ih (fun x hx => hls x (by simp [hx]))

/-! ## The line of a parameter -/

/-- What the pattern captures in the line of a parameter. -/
def argumentCaptures (p : Param) : Captures :=
  [("argument.type", p.type ++ [' ']), ("argument.name", ' ' :: p.name)]

theorem run_argumentName {β : Type} {k : Captures → Text → Option β} {n s : Text} {v : β}
    (hn : Identifier n) (hk : k [("argument.name", ' ' :: n)] ('(' :: s) = some v) :
    (group "argument.name" (cat [set (· != '('), star true (set (· != '('))])).run
      (' ' :: (n ++ '(' :: s)) k = some v := by
  rw [run_group, run_cat_cons, run_set_cons, if_pos (by decide), run_cat_cons]
  refine run_greedy_eq_some ?_ ?_ ?_
  · intro c hc
    have hne : c ≠ '(' := by
      rintro rfl
      exact hn.not_mem (show isIdentChar '(' = false by decide) hc
    simpa using hne
  · intro b s' hs hne hb
    obtain ⟨c, b, rfl⟩ := List.exists_cons_of_ne_nil hne
    rw [List.cons_append] at hs
    obtain ⟨rfl, _⟩ := List.cons.inj hs
    exact absurd (hb '(' (by simp)) (by decide)
  · have htake : (' ' :: (n ++ '(' :: s)).take ((' ' :: (n ++ '(' :: s)).length - ('(' :: s).length) =
        ' ' :: n := take_matched (' ' :: n) ('(' :: s)
    rw [run_cat_nil, htake]
    exact hk

theorem matchAt_param (p : Param) (s : Text) :
    argumentPattern.matchAt ("input_parameter< " ++ ((p.type ++ [' ']) ++ (">::type" ++
      (' ' :: (p.name ++ '(' :: s))))) = some (argumentCaptures p, '(' :: s) := by
  have hnl : '\n' ∉ p.type ++ [' '] := by simp [p.type_ok.newline]
  rw [matchAt, argumentPattern, run_cat_cons, run_lit_append, run_cat_cons, run_group]
  refine run_lazy_eq_some (mem_dot hnl) ?_ ?_
  · intro b b' hb hne
    -- A marker that starts earlier would lie inside the type.
    obtain ⟨z, x, rfl⟩ := (List.eq_nil_or_concat b').resolve_left hne
    have hsplit : p.type = b ++ z ∧ x = ' ' := by
      rw [List.concat_eq_append, ← List.append_assoc] at hb
      exact ⟨List.append_inj_left' hb rfl, (List.cons.inj (List.append_inj_right' hb rfl)).1.symm⟩
    obtain ⟨htype, rfl⟩ := hsplit
    rw [run_cat_cons, run_lit_of_not_prefix]
    rw [List.concat_eq_append, List.append_assoc, List.singleton_append,
      Text.prefix_append_cons_of_not_mem (by with_unfolding_all decide)]
    intro hp
    refine p.type_ok.marker ?_
    rw [htype]
    exact hp.isInfix.trans (List.suffix_append _ _).isInfix
  · rw [run_cat_cons, run_lit_append, run_cat_cons]
    refine run_argumentName p.name_ok ?_
    rw [take_matched]
    rfl

theorem search_param (p : Param) (s : Text) :
    argumentPattern.search (p.line ++ '\n' :: s) =
      some (argumentCaptures p, '(' :: (p.name ++ "SEXP);") ++ '\n' :: s) := by
  have htext : p.line ++ '\n' :: s = "    Rcpp::traits::" ++ ("input_parameter< " ++
      ((p.type ++ [' ']) ++ (">::type" ++ (' ' :: (p.name ++ '(' :: ((p.name ++ "SEXP);") ++ '\n' :: s)))))) := by
    have h1 : ("    Rcpp::traits::input_parameter< " : Text) = "    Rcpp::traits::" ++ "input_parameter< " := by
      with_unfolding_all decide
    have h2 : (" >::type " : Text) = [' '] ++ (">::type" ++ [' ']) := by with_unfolding_all decide
    simp [Param.line, h1, h2, openParen_eq]
  rw [htext, search_append, search_of_matchAt (matchAt_param p _)]
  · rfl
  · intro a₁ a₂ ha hne
    -- The pattern is not longer than what is left of the fixed words.
    refine matchAt_lit_none ?_
    rw [← List.append_assoc]
    intro hp
    have hpre : ("input_parameter< " : Text) <+: a₂ ++ "input_parameter< " :=
      List.prefix_of_prefix_length_le hp (List.prefix_append _ _) (by simp)
    have hall : ∀ b ∈ ("    Rcpp::traits::" : Text).tails, b ≠ [] →
        ¬ ("input_parameter< " : Text) <+: b ++ "input_parameter< " := by with_unfolding_all decide
    exact hall a₂ ((List.mem_tails _ _).mpr ⟨a₁, ha.symm⟩) hne hpre

theorem findAll_params {tail : List Text} (ht : ∀ l ∈ tail, '<' ∉ l) (ps : List Param) (n : Nat)
    (hn : ps.length ≤ n) (s : Text)
    (hs : argumentPattern.search s =
      argumentPattern.search (Text.unlines (ps.map Param.line ++ tail))) :
    argumentPattern.findAllFrom n s = ps.map argumentCaptures := by
  induction ps generalizing n s with
  | nil =>
      have htail := search_argument_lines ht []
      have hnil : argumentPattern.search [] = none := matchAt_lit_none (by with_unfolding_all decide)
      rw [List.append_nil, hnil] at htail
      rw [List.map_nil, List.nil_append, htail] at hs
      rw [findAllFrom_of_search_none hs, List.map_nil]
  | cons p ps ih =>
      obtain ⟨n, rfl⟩ : ∃ m, n = m + 1 := ⟨n - 1, by simp at hn; omega⟩
      rw [List.map_cons, List.cons_append, Text.unlines_cons, search_param] at hs
      rw [findAllFrom_of_search hs, List.map_cons]
      refine congrArg _ (ih n (by simpa using hn) _ ?_)
      refine search_argument_skip ?_ _
      have h : '<' ∉ ("SEXP);" : Text) := by with_unfolding_all decide
      simp [h, p.name_ok.not_mem (show isIdentChar '<' = false by decide)]

/-! ## The body of a function -/

namespace Export

variable {e : Export}

theorem not_mem_callLines {l : Text} (h : l ∈ e.callLines) : '<' ∉ l := by
  have hjoin : '<' ∉ Text.join ", " (e.params.map (·.name)) := by
    refine not_mem_join (by with_unfolding_all decide) ?_
    intro t ht
    obtain ⟨p, _, rfl⟩ := List.mem_map.mp ht
    exact p.name_ok.not_mem (by decide)
  have hcall : '<' ∉ e.call := by
    simp only [call, List.mem_append, not_or]
    exact ⟨⟨⟨e.name_ok.not_mem (by decide), by with_unfolding_all decide⟩, hjoin⟩, by with_unfolding_all decide⟩
  unfold callLines at h
  split at h
  all_goals
    simp only [List.mem_cons, List.not_mem_nil, or_false] at h
    rcases h with rfl | rfl
    · simp only [List.mem_append, not_or]
      exact ⟨⟨by with_unfolding_all decide, hcall⟩, by with_unfolding_all decide⟩
    · with_unfolding_all decide

theorem openingLines_plain {l : Text} (h : l ∈ e.openingLines) : '<' ∉ l ∧ endsBody l = false := by
  unfold openingLines at h
  rcases List.mem_append.mp h with h | h
  all_goals
    split at h
    all_goals
      simp only [List.mem_cons, List.not_mem_nil, or_false] at h
      try subst h
      try exact ⟨by with_unfolding_all decide, by with_unfolding_all decide⟩

end Export

theorem endsBody_param (p : Param) : endsBody p.line = false := by
  have hword : p.line = "    " ++ 'R' :: ("cpp::traits::input_parameter< " ++ (p.type ++
      (" >::type " ++ (p.name ++ ("(" ++ (p.name ++ "SEXP);")))))) := by
    rw [Param.line, show ("    Rcpp::traits::input_parameter< " : Text) =
      "    " ++ 'R' :: "cpp::traits::input_parameter< " by with_unfolding_all decide]
    simp
  rw [endsBody, hword, CodeLine.dropWhile (by decide), decide_eq_false_iff_not,
    show ("END_RCPP" : Text) = 'E' :: "ND_RCPP" by with_unfolding_all decide]
  intro hp
  exact absurd (List.cons_prefix_cons.mp hp).1 (by decide)

theorem bodyLines_codeLines (e : Export) :
    bodyLines e.codeLines = e.openingLines ++ (e.params.map Param.line ++ bodyLines e.callLines) := by
  rw [Export.codeLines, List.append_assoc, bodyLines, List.takeWhile_append_of_pos, bodyLines,
    List.takeWhile_append_of_pos]
  · intro l hl
    obtain ⟨p, _, rfl⟩ := List.mem_map.mp hl
    simp [endsBody_param p]
  · intro l hl
    simp [(Export.openingLines_plain hl).2]

theorem findAll_code (e : Export) :
    argumentPattern.findAll (Text.unlines (bodyLines e.codeLines)) = e.params.map argumentCaptures := by
  have hopen : ∀ l ∈ e.openingLines, '<' ∉ l := fun l hl => (Export.openingLines_plain hl).1
  have htail : ∀ l ∈ bodyLines e.callLines, '<' ∉ l :=
    fun l hl => Export.not_mem_callLines ((List.takeWhile_prefix _).subset hl)
  refine findAll_params htail e.params _ ?_ _ ?_
  · rw [bodyLines_codeLines]
    have h := Text.length_le_unlines (e.openingLines ++ (e.params.map Param.line ++ bodyLines e.callLines))
    simp only [List.length_append, List.length_map] at h
    omega
  · rw [bodyLines_codeLines, Text.unlines_append, search_argument_lines hopen]

/-! ## The table -/

/-- The rows of a function in the argument table. -/
def Export.argRows (e : Export) : List ArgRow :=
  e.params.map fun p => ⟨e.name, p.type ++ [' '], ' ' :: p.name⟩

theorem eraseDups_of_nodup {ts : List Text} (h : ts.Nodup) : ts.eraseDups = ts := by
  induction ts with
  | nil => rfl
  | cons t ts ih =>
      obtain ⟨ht, hts⟩ := List.nodup_cons.mp h
      have hfilter : ts.filter (fun x => !(x == t)) = ts := by
        rw [List.filter_eq_self]
        intro x hx
        have hne : x ≠ t := by rintro rfl; exact ht hx
        simpa using hne
      rw [List.eraseDups_cons, hfilter, ih hts]

theorem funNames_ofExport {symbol : Text} {es : List Export} (h : (es.map (·.name)).Nodup) :
    funNames (es.map (Details.ofExport symbol)) = es.map (·.name) := by
  have hmap : (es.map (Details.ofExport symbol)).map (·.funName) = es.map (·.name) := by
    simp [Details.ofExport]
  rw [funNames, hmap]
  exact eraseDups_of_nodup h

theorem groupCode_ofExport {symbol : Text} {es : List Export} (h : (es.map (·.name)).Nodup)
    {e : Export} (he : e ∈ es) :
    groupCode (es.map (Details.ofExport symbol)) e.name = Text.unlines (bodyLines e.codeLines) := by
  have hfilter : (es.map (Details.ofExport symbol)).filter (·.funName = e.name) =
      [Details.ofExport symbol e] := by
    induction es with
    | nil => cases he
    | cons a es ih =>
        rw [List.map_cons, List.nodup_cons] at h
        rcases List.mem_cons.mp he with rfl | he
        · have hnone : (es.map (Details.ofExport symbol)).filter (·.funName = e.name) = [] := by
            rw [List.filter_eq_nil_iff]
            intro d hd
            obtain ⟨b, hb, rfl⟩ := List.mem_map.mp hd
            have hne : b.name ≠ e.name := fun hbe => h.1 (List.mem_map.mpr ⟨b, hb, hbe⟩)
            simp [Details.ofExport, hne]
          rw [List.map_cons, List.filter_cons_of_pos (by simp [Details.ofExport]), hnone]
        · have hne : a.name ≠ e.name := fun hae => h.1 (List.mem_map.mpr ⟨e, he, hae.symm⟩)
          rw [List.map_cons, List.filter_cons_of_neg (by simp [Details.ofExport, hne])]
          exact ih h.2 he
  rw [groupCode, hfilter]
  rfl

theorem argRow_captures (name : Text) (p : Param) :
    (⟨name, captured "argument.type" (argumentCaptures p), captured "argument.name" (argumentCaptures p)⟩ :
      ArgRow) = ⟨name, p.type ++ [' '], ' ' :: p.name⟩ := by
  simp [captured, argumentCaptures, List.lookup_cons, Text.ofString_eq]

/-- The argument table of a written file lists the parameters of its functions. -/
theorem functionBody_details {symbol : Text} {es : List Export} (h : (es.map (·.name)).Nodup) :
    deepstateGetFunctionBody (es.map (Details.ofExport symbol)) =
      if es = [] then none else some (es.flatMap Export.argRows) := by
  unfold deepstateGetFunctionBody
  by_cases hnil : es = []
  · simp [hnil]
  · rw [if_neg (by simpa using hnil), if_neg hnil, funNames_ofExport h, List.flatMap_map]
    refine congrArg some (List.flatMap_congr ?_)
    intro e he
    rw [groupCode_ofExport h he, findAll_code, List.map_map]
    refine List.map_congr_left ?_
    intro p _
    exact argRow_captures e.name p

end RcppDeepState
