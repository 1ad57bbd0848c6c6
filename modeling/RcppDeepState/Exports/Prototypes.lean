import RcppDeepState.Package.Accounting

/-!
# The prototype table of a written file

The calls are collected function by function, without an entry for a function that returns nothing, and are
then put beside all functions by position.
-/

namespace RcppDeepState

open Regex

/-! ## The calls of a body -/

/-- The text behind the first `::wrap` of a line. -/
def afterWrap : Text → Option Text
  | [] => none
  | c :: l => if ("::wrap" : Text) <+: c :: l then some ((c :: l).drop ("::wrap" : Text).length) else afterWrap l

theorem afterWrap_eq_none {l : Text} : afterWrap l = none ↔ ¬ ("::wrap" : Text) <:+: l := by
  induction l with
  | nil =>
    have h : ¬ ("::wrap" : Text) <:+: [] := by with_unfolding_all decide
    simp [afterWrap, h]
  | cons c l ih =>
    by_cases h : ("::wrap" : Text) <+: c :: l
    · simp [afterWrap, h, List.infix_cons_iff]
    · simp [afterWrap, h, List.infix_cons_iff, ih]

theorem matchAt_call {t : Text} (ht : '\n' ∉ t) (s : Text) :
    callsPattern.matchAt ("::wrap" ++ (t ++ '\n' :: s)) = some ([(("calls" : Text), t)], '\n' :: s) := by
  rw [matchAt, callsPattern, run_cat_cons, run_lit_append, run_cat_cons, run_group]
  refine run_greedy_eq_some (mem_dot ht) ?_ ?_
  · intro b s' hs hne hb
    obtain ⟨c, b, rfl⟩ := List.exists_cons_of_ne_nil hne
    rw [List.cons_append] at hs
    obtain ⟨rfl, _⟩ := List.cons.inj hs
    exact absurd (hb '\n' (by simp)) (by decide)
  · rw [take_matched, run_cat_nil]
    rfl

/-- A line has the match behind its first `::wrap`, which takes the rest of it. -/
theorem search_call {l : Text} (hl : '\n' ∉ l) (s : Text) :
    callsPattern.search (l ++ '\n' :: s) = (match afterWrap l with
      | some t => some ([(("calls" : Text), t)], '\n' :: s)
      | none => callsPattern.search s) := by
  have hmark : '\n' ∉ ("::wrap" : Text) := by with_unfolding_all decide
  have hnone (m : Text) (h : ¬ ("::wrap" : Text) <+: m) : callsPattern.matchAt (m ++ '\n' :: s) = none := by
    refine matchAt_lit_none ?_
    rwa [Text.prefix_append_cons_of_not_mem hmark]
  induction l with
  | nil => exact search_cons (hnone [] (by with_unfolding_all decide))
  | cons c l ih =>
    by_cases h : ("::wrap" : Text) <+: c :: l
    · obtain ⟨t, ht⟩ := h
      have ht' : '\n' ∉ t := fun hm => hl (by simp [← ht, hm])
      rw [afterWrap, if_pos ⟨t, ht⟩, ← ht, List.drop_left, List.append_assoc]
      exact search_of_matchAt (matchAt_call ht' s)
    · have hhead : callsPattern.matchAt (c :: (l ++ '\n' :: s)) = none := hnone (c :: l) h
      rw [List.cons_append, search_cons hhead, ih (fun hm => hl (by simp [hm])), afterWrap, if_neg h]

theorem findAllFrom_calls {ls : List Text} (hls : ∀ l ∈ ls, '\n' ∉ l) {n : ℕ} (hn : ls.length ≤ n) {s : Text}
    (hs : callsPattern.search s = callsPattern.search (Text.unlines ls)) :
    callsPattern.findAllFrom n s = (ls.filterMap afterWrap).map fun t => [(("calls" : Text), t)] := by
  induction ls generalizing n s with
  | nil =>
    have hnil : callsPattern.search [] = none := matchAt_lit_none (by with_unfolding_all decide)
    rw [Text.unlines_nil, hnil] at hs
    rw [findAllFrom_of_search_none hs]
    rfl
  | cons l ls ih =>
    rw [Text.unlines_cons, search_call (hls l (by simp))] at hs
    have hrest := fun x hx => hls x (List.mem_cons_of_mem l hx)
    cases hwrap : afterWrap l with
    | none =>
      rw [hwrap] at hs
      rw [List.filterMap_cons_none hwrap]
      exact ih hrest (by simp at hn; omega) hs
    | some t =>
      obtain ⟨n, rfl⟩ : ∃ m, n = m + 1 := ⟨n - 1, by simp at hn; omega⟩
      rw [hwrap] at hs
      rw [findAllFrom_of_search hs, List.filterMap_cons_some hwrap, List.map_cons]
      refine congrArg _ (ih hrest (by simpa using hn) ?_)
      exact search_call (l := []) (by simp) (Text.unlines ls)

theorem findAll_calls {ls : List Text} (hls : ∀ l ∈ ls, '\n' ∉ l) :
    (callsPattern.findAll (Text.unlines ls)).map (captured "calls") = ls.filterMap afterWrap := by
  have hlen := Text.length_le_unlines ls
  rw [findAll, findAllFrom_calls hls (by omega) rfl, List.map_map]
  have hcaptured : captured "calls" ∘ (fun t : Text => ([(("calls" : Text), t)] : Captures)) = id := by
    funext t
    simp [captured]
  rw [hcaptured, List.map_id]

/-! ## The calls of a function -/

/-- What a row of the table says of a function: the text behind `::wrap` in its own body. -/
def Export.wrapped (e : Export) : Option Text :=
  if e.isVoid then none else some ("(" ++ e.call ++ ");")

def Export.prototypeRow (e : Export) : PrototypeRow := ⟨e.name, e.prototype, e.wrapped⟩

/-- No parameter type of the function has a name that starts with `::wrap`. -/
def Export.TypesUnwrapped (e : Export) : Prop := ∀ p ∈ e.params, ¬ ("::wrap" : Text) <:+: p.type

/-- The word in a text whose pieces are set apart by a character that is not in it. -/
theorem wrap_infix_append_cons {a b : Text} {c : Char} (hc : c = ' ' ∨ c = '(') :
    ("::wrap" : Text) <:+: a ++ c :: b ↔ ("::wrap" : Text) <:+: a ∨ ("::wrap" : Text) <:+: b := by
  refine Text.infix_append_cons_of_not_mem ?_
  rcases hc with rfl | rfl
  · with_unfolding_all decide
  · with_unfolding_all decide

theorem not_wrap_infix {t : Text} (h : ':' ∉ t) : ¬ ("::wrap" : Text) <:+: t :=
  fun hi => h (hi.subset (by with_unfolding_all decide))

theorem wrap_infix_line (p : Param) : ("::wrap" : Text) <:+: p.line ↔ ("::wrap" : Text) <:+: p.type := by
  have hline : p.line = "    Rcpp::traits::input_parameter<" ++ ' ' :: (p.type ++ ' ' :: (">::type" ++
      ' ' :: (p.name ++ '(' :: (p.name ++ "SEXP);")))) := by
    have h1 : ("    Rcpp::traits::input_parameter< " : Text) = "    Rcpp::traits::input_parameter<" ++ [' '] := by
      with_unfolding_all decide
    have h2 : (" >::type " : Text) = ' ' :: (">::type" ++ [' ']) := by with_unfolding_all decide
    simp [Param.line, h1, h2, openParen_eq]
  have hname : ¬ ("::wrap" : Text) <:+: p.name := not_wrap_infix (p.name_ok.not_mem (by decide))
  have hsexp : ¬ ("::wrap" : Text) <:+: p.name ++ "SEXP);" := by
    refine not_wrap_infix ?_
    rw [List.mem_append, not_or]
    exact ⟨p.name_ok.not_mem (by decide), by with_unfolding_all decide⟩
  have hfront : ¬ ("::wrap" : Text) <:+: "    Rcpp::traits::input_parameter<" := by with_unfolding_all decide
  have hback : ¬ ("::wrap" : Text) <:+: ">::type" := by with_unfolding_all decide
  rw [hline, wrap_infix_append_cons (.inl rfl), wrap_infix_append_cons (.inl rfl),
    wrap_infix_append_cons (.inl rfl), wrap_infix_append_cons (.inr rfl)]
  simp only [hfront, hback, hname, hsexp, false_or, or_false]

theorem filterMap_params_eq_nil {e : Export} :
    (e.params.map Param.line).filterMap afterWrap = [] ↔ e.TypesUnwrapped := by
  rw [List.filterMap_eq_nil_iff, List.forall_mem_map]
  exact forall₂_congr fun p _ => afterWrap_eq_none.trans (not_congr (wrap_infix_line p))

theorem afterWrap_append_of_not_mem {a : Text} (ha : ':' ∉ a) (s : Text) : afterWrap (a ++ s) = afterWrap s := by
  induction a with
  | nil => rfl
  | cons c a ih =>
    rw [List.mem_cons, not_or] at ha
    have hword : ("::wrap" : Text) = ':' :: ":wrap" := by with_unfolding_all decide
    have hc : ¬ ("::wrap" : Text) <+: c :: (a ++ s) := by
      rw [hword]
      exact fun h => ha.1 (List.cons_prefix_cons.mp h).1
    rw [List.cons_append, afterWrap, if_neg hc, ih ha.2]

theorem afterWrap_word (t : Text) : afterWrap ("::wrap" ++ t) = some t := by
  have hword : ("::wrap" : Text) = ':' :: ":wrap" := by with_unfolding_all decide
  rw [hword, List.cons_append, afterWrap, if_pos, hword]
  · have hdrop : ((':' :: (":wrap" : Text)) ++ t).drop (':' :: (":wrap" : Text)).length = t := List.drop_left
    exact congrArg some hdrop
  · rw [hword]
    exact List.prefix_append (':' :: (":wrap" : Text)) t

theorem colon_not_mem_call (e : Export) : ':' ∉ e.call := by
  have hjoin : ':' ∉ Text.join ", " (e.params.map (·.name)) := by
    refine not_mem_join (by with_unfolding_all decide) fun t ht => ?_
    obtain ⟨p, _, rfl⟩ := List.mem_map.mp ht
    exact p.name_ok.not_mem (by decide)
  simp only [Export.call, List.mem_append, not_or]
  exact ⟨⟨⟨e.name_ok.not_mem (by decide), by with_unfolding_all decide⟩, hjoin⟩, by with_unfolding_all decide⟩

/-- The call of a body is the text the row should have. -/
theorem filterMap_callLines (e : Export) :
    (bodyLines e.callLines).filterMap afterWrap = e.wrapped.toList := by
  have hcolon := colon_not_mem_call e
  cases hvoid : e.isVoid with
  | true =>
    rw [Export.wrapped, if_pos hvoid, Option.toList_none, List.filterMap_eq_nil_iff]
    intro l hl
    have hmem := (List.takeWhile_prefix _).subset hl
    rw [Export.callLines, if_pos hvoid] at hmem
    rw [afterWrap_eq_none]
    rcases List.mem_pair.mp hmem with rfl | rfl
    · refine not_wrap_infix ?_
      simp only [List.mem_append, not_or]
      exact ⟨⟨by with_unfolding_all decide, hcolon⟩, by with_unfolding_all decide⟩
    · exact not_wrap_infix (by with_unfolding_all decide)
  | false =>
    have hline : ("    rcpp_result_gen = Rcpp::wrap(" : Text) ++ e.call ++ ");" =
        "    rcpp_result_gen = Rcpp" ++ ("::wrap" ++ ("(" ++ e.call ++ ");")) := by
      have h : ("    rcpp_result_gen = Rcpp::wrap(" : Text) =
          "    rcpp_result_gen = Rcpp" ++ ("::wrap" ++ "(") := by with_unfolding_all decide
      simp [h]
    have hends : endsBody (("    rcpp_result_gen = Rcpp::wrap(" : Text) ++ e.call ++ ");") = false := by
      have h : ("    rcpp_result_gen = Rcpp::wrap(" : Text) ++ e.call ++ ");" =
          "    " ++ 'r' :: ("cpp_result_gen = Rcpp::wrap(" ++ (e.call ++ ");")) := by
        rw [show ("    rcpp_result_gen = Rcpp::wrap(" : Text) = "    " ++ 'r' :: "cpp_result_gen = Rcpp::wrap(" by
          with_unfolding_all decide]
        simp
      rw [endsBody, h, CodeLine.dropWhile (by decide), decide_eq_false_iff_not,
        show ("END_RCPP" : Text) = 'E' :: "ND_RCPP" by with_unfolding_all decide]
      exact fun hp => absurd (List.cons_prefix_cons.mp hp).1 (by decide)
    have hreturn : endsBody "    return rcpp_result_gen;" = false := by with_unfolding_all decide
    have hlast : afterWrap "    return rcpp_result_gen;" = none := by with_unfolding_all decide
    have hbody : bodyLines e.callLines = e.callLines := by
      rw [Export.callLines, hvoid, bodyLines]
      simp only [Bool.false_eq_true, if_false, List.takeWhile_cons, List.takeWhile_nil, hends, hreturn, Bool.not_false,
        if_true]
    rw [hbody, Export.wrapped, Export.callLines, hvoid]
    simp only [Bool.false_eq_true, if_false, hline, List.filterMap_cons, hlast, List.filterMap_nil,
      afterWrap_append_of_not_mem (show ':' ∉ ("    rcpp_result_gen = Rcpp" : Text) by with_unfolding_all decide),
      afterWrap_word, Option.toList]

/-- The calls that the table finds in the body of a function. -/
def Export.calls (e : Export) : List Text := (e.params.map Param.line).filterMap afterWrap ++ e.wrapped.toList

theorem findAll_callCode (e : Export) :
    (callsPattern.findAll (Text.unlines (bodyLines e.codeLines))).map (captured "calls") = e.calls := by
  have hlines : ∀ l ∈ bodyLines e.codeLines, '\n' ∉ l := fun l hl =>
    (Export.codeLine_of_mem ((List.takeWhile_prefix _).subset hl)).plain.1.1
  have hopen : e.openingLines.filterMap afterWrap = [] := by
    rw [List.filterMap_eq_nil_iff]
    intro l hl
    unfold Export.openingLines at hl
    rcases List.mem_append.mp hl with hl | hl
    all_goals
      split at hl
      all_goals
        simp only [List.mem_cons, List.not_mem_nil, or_false] at hl
        try subst hl
        try with_unfolding_all decide
  rw [findAll_calls hlines, bodyLines_codeLines, List.filterMap_append, List.filterMap_append, hopen,
    filterMap_callLines]
  rfl

/-! ## The table -/

/-- The table of a written file, in terms of the calls of each function. -/
theorem prototypeCalls_details {symbol : Text} {es : List Export} (h : (es.map (·.name)).Nodup) :
    deepstateGetPrototypeCalls (es.map (Details.ofExport symbol)) =
      (List.range (max es.length (es.flatMap Export.calls).length)).filterMap fun i =>
        es[i % es.length]?.map fun e =>
          ⟨e.name, e.prototype, (es.flatMap Export.calls)[i % (es.flatMap Export.calls).length]?⟩ := by
  have hcodes : ((funNames (es.map (Details.ofExport symbol))).flatMap fun name =>
      (callsPattern.findAll (groupCode (es.map (Details.ofExport symbol)) name)).map (captured "calls")) =
      es.flatMap Export.calls := by
    rw [funNames_ofExport h, List.flatMap_map]
    refine List.flatMap_congr fun e he => ?_
    rw [groupCode_ofExport h he, findAll_callCode]
  simp only [deepstateGetPrototypeCalls, hcodes, List.length_map, List.getElem?_map, Option.map_map]
  rfl

/-- The rows for those functions and that column of calls. -/
def prototypeRows (es : List Export) (codes : List Text) : List PrototypeRow :=
  (List.range (max es.length codes.length)).filterMap fun i =>
    es[i % es.length]?.map fun e => ⟨e.name, e.prototype, codes[i % codes.length]?⟩

theorem prototypeRows_eq_map {es : List Export} (hpos : 0 < es.length) (codes : List Text) :
    prototypeRows es codes = (List.range (max es.length codes.length)).map fun i =>
      ⟨(es.get ⟨i % es.length, Nat.mod_lt i hpos⟩).name, (es.get ⟨i % es.length, Nat.mod_lt i hpos⟩).prototype,
        codes[i % codes.length]?⟩ := by
  rw [← List.filterMap_eq_map, prototypeRows]
  congr 1
  funext i
  rw [List.getElem?_eq_getElem (Nat.mod_lt i hpos)]
  rfl

/-- The rows are right when the columns have the same length and the functions and their calls go together. -/
theorem prototypeRows_eq_iff {es : List Export} (hpos : 0 < es.length) (codes : List Text) :
    prototypeRows es codes = es.map Export.prototypeRow ↔
      codes.length ≤ es.length ∧ ∀ i (h : i < es.length), codes[i % codes.length]? = (es.get ⟨i, h⟩).wrapped := by
  rw [prototypeRows_eq_map hpos]
  constructor
  · intro heq
    have hlength := congrArg List.length heq
    rw [List.length_map, List.length_map, List.length_range] at hlength
    refine ⟨by omega, fun i h => ?_⟩
    have hrow := congrArg (fun rows => rows[i]?) heq
    simp only [List.getElem?_map, List.getElem?_range (show i < max es.length codes.length by omega),
      List.getElem?_eq_getElem h, Option.map_some, Option.some.injEq, Nat.mod_eq_of_lt h] at hrow
    exact congrArg PrototypeRow.calls hrow
  · rintro ⟨hle, hcalls⟩
    rw [max_eq_left hle]
    refine List.ext_getElem (by simp) fun i h₁ h₂ => ?_
    have hi : i < es.length := by simpa using h₂
    simp only [List.getElem_map, List.getElem_range, Nat.mod_eq_of_lt hi, hcalls i hi]
    rfl

theorem length_calls (e : Export) :
    e.calls.length = ((e.params.map Param.line).filterMap afterWrap).length + if e.isVoid then 0 else 1 := by
  rw [Export.calls, Export.wrapped, List.length_append]
  split
  · rfl
  · rfl

/-- As many calls as functions, and one at least for each, are one for each. -/
theorem length_calls_eq_one {es : List Export} (hone : ∀ e ∈ es, 1 ≤ e.calls.length)
    (hle : (es.flatMap Export.calls).length ≤ es.length) : ∀ e ∈ es, e.calls.length = 1 := by
  have hmany : ∀ fs : List Export, (∀ e ∈ fs, 1 ≤ e.calls.length) → fs.length ≤ (fs.flatMap Export.calls).length := by
    intro fs h
    induction fs with
    | nil => exact Nat.zero_le _
    | cons e fs ih =>
      have hhead := h e (by simp)
      have htail := ih fun x hx => h x (by simp [hx])
      rw [List.flatMap_cons, List.length_append, List.length_cons]
      omega
  induction es with
  | nil => simp
  | cons e es ih =>
    have hhead := hone e (by simp)
    have htail := hmany es fun x hx => hone x (by simp [hx])
    rw [List.flatMap_cons, List.length_append, List.length_cons] at hle
    intro x hx
    rcases List.mem_cons.mp hx with rfl | hx
    · omega
    · exact ih (fun y hy => hone y (by simp [hy])) (by omega) x hx

theorem calls_eq_of_unwrapped {e : Export} (h : e.TypesUnwrapped) : e.calls = e.wrapped.toList := by
  rw [Export.calls, filterMap_params_eq_nil.mpr h]
  rfl

theorem wrapped_eq_none {e : Export} : e.wrapped = none ↔ e.isVoid = true := by
  unfold Export.wrapped
  split
  · simp [*]
  · simp [*]

/-- Either no function or every function returns something, and no parameter type looks like a call. -/
def Uniform (es : List Export) : Prop :=
  (∀ e ∈ es, e.TypesUnwrapped) ∧ ((∀ e ∈ es, e.isVoid = true) ∨ ∀ e ∈ es, e.isVoid = false)

theorem prototypeRows_of_uniform {es : List Export} (hpos : 0 < es.length) (h : Uniform es) :
    prototypeRows es (es.flatMap Export.calls) = es.map Export.prototypeRow := by
  have hcalls : es.flatMap Export.calls = es.flatMap fun e => e.wrapped.toList :=
    List.flatMap_congr fun e he => calls_eq_of_unwrapped (h.1 e he)
  rw [prototypeRows_eq_iff hpos, hcalls]
  rcases h.2 with hvoid | hvalue
  · have hnil : (es.flatMap fun e => e.wrapped.toList) = [] := by
      rw [List.flatMap_eq_nil_iff]
      intro e he
      rw [wrapped_eq_none.mpr (hvoid e he), Option.toList_none]
    rw [hnil]
    exact ⟨Nat.zero_le _, fun i hi => (wrapped_eq_none.mpr (hvoid _ (List.get_mem es ⟨i, hi⟩))).symm⟩
  · have hall : (es.flatMap fun e => e.wrapped.toList) = es.map fun e => ("(" : Text) ++ e.call ++ ");" := by
      rw [List.map_eq_flatMap]
      refine List.flatMap_congr fun e he => ?_
      rw [Export.wrapped, hvalue e he]
      rfl
    rw [hall, List.length_map]
    refine ⟨Nat.le_refl _, fun i hi => ?_⟩
    rw [Nat.mod_eq_of_lt hi, List.getElem?_map, List.getElem?_eq_getElem hi, Export.wrapped,
      hvalue _ (List.get_mem es ⟨i, hi⟩)]
    rfl

theorem uniform_of_prototypeRows {es : List Export} (hpos : 0 < es.length)
    (h : prototypeRows es (es.flatMap Export.calls) = es.map Export.prototypeRow) : Uniform es := by
  obtain ⟨hle, hcalls⟩ := (prototypeRows_eq_iff hpos _).mp h
  have hget : ∀ e ∈ es, ∃ i h, es.get ⟨i, h⟩ = e := fun e he => by
    obtain ⟨i, hi⟩ := List.get_of_mem he
    exact ⟨i, i.isLt, hi⟩
  rcases Nat.eq_zero_or_pos (es.flatMap Export.calls).length with hzero | hsome
  · -- No call at all: every entry is missing.
    have hnil := List.length_eq_zero_iff.mp hzero
    rw [List.flatMap_eq_nil_iff] at hnil
    have hempty (e : Export) (he : e ∈ es) : e.TypesUnwrapped ∧ e.isVoid = true := by
      have hparts := List.append_eq_nil_iff.mp (hnil e he)
      exact ⟨filterMap_params_eq_nil.mp hparts.1, wrapped_eq_none.mp (Option.toList_eq_nil_iff.mp hparts.2)⟩
    exact ⟨fun e he => (hempty e he).1, .inl fun e he => (hempty e he).2⟩
  · -- The recycled column has an entry in every row.
    have hvalue : ∀ e ∈ es, e.isVoid = false := by
      intro e he
      obtain ⟨i, hi, rfl⟩ := hget e he
      cases hvoid : (es.get ⟨i, hi⟩).isVoid with
      | false => rfl
      | true =>
        have hnone := hcalls i hi
        rw [wrapped_eq_none.mpr hvoid, List.getElem?_eq_none_iff] at hnone
        exact absurd (Nat.mod_lt i hsome) (Nat.not_lt.mpr hnone)
    have hone : ∀ e ∈ es, e.calls.length = 1 := by
      refine length_calls_eq_one (fun e he => ?_) hle
      rw [length_calls, hvalue e he]
      exact Nat.le_add_left _ _
    refine ⟨fun e he => filterMap_params_eq_nil.mp (List.length_eq_zero_iff.mp ?_), .inr hvalue⟩
    have hlength := hone e he
    rw [length_calls, hvalue e he] at hlength
    simpa using hlength

/-- Reading the file gives one row for each function, with the function's own name, prototype and call. -/
def PrototypesAligned (f : ExportsFile) : Prop :=
  ∃ details, deepstateGetPackageDetails (some f.text) = .ok details ∧
    deepstateGetPrototypeCalls details = f.exports.map Export.prototypeRow

theorem prototypesAligned_iff {f : ExportsFile} :
    PrototypesAligned f ↔
      prototypeRows f.exports (f.exports.flatMap Export.calls) = f.exports.map Export.prototypeRow := by
  rw [PrototypesAligned, packageDetails_text, prototypeRows, ← @prototypeCalls_details f.symbol _ f.names_nodup]
  simp

/-- The columns go together exactly when either no function or every function returns something, and no
parameter type looks like a call. -/
theorem prototypeCalls_aligned_iff (f : ExportsFile) : PrototypesAligned f ↔ Uniform f.exports := by
  rw [prototypesAligned_iff]
  rcases Nat.eq_zero_or_pos f.exports.length with hzero | hpos
  · rw [List.length_eq_zero_iff] at hzero
    simp [hzero, prototypeRows, Uniform]
  · exact ⟨uniform_of_prototypeRows hpos, prototypeRows_of_uniform hpos⟩

/-- The row of `void g()` carries the call of `int f(int x)`. -/
theorem prototypeCalls_not_aligned : ¬ ∀ f : ExportsFile, PrototypesAligned f := by
  intro h
  have hpos : 0 < mixedExports.exports.length := by simp [mixedExports]
  have huniform := uniform_of_prototypeRows hpos (prototypesAligned_iff.mp (h mixedExports))
  rcases huniform.2 with hvoid | hvalue
  · exact absurd (hvoid sampleExport (by simp [mixedExports])) (by with_unfolding_all decide)
  · exact absurd (hvalue niladicExport (by simp [mixedExports])) (by with_unfolding_all decide)

end RcppDeepState
