import RcppDeepState.Analysis.Lemmas.RangeLines
import RcppDeepState.Harness.TestNames

/-!
# What a generation harness says of its ranges

The calls that its lines offer, and the lines that contain the call of a type.
-/

namespace RcppDeepState

open Cpp

/-- What is reported of a line that contains the call. -/
def reportOf (c l : Text) : Option (Text × Text) :=
  if c ++ ("();" : Text) <:+: l then some (rangeVariable l) else none

/-! ## Macros -/

section Macro

variable {β : Type} {g : Text → Option β} {ls : List Text}

theorem macroLines_cons (l : Text) (h : ls ≠ []) : macroLines (l :: ls) = (l ++ ['\\']) :: macroLines ls := by
  cases ls with
  | nil => exact absurd rfl h
  | cons x ls => rfl

/-- A search that does not mind the continuations. -/
theorem filterMap_macroLines (h : ∀ l ∈ ls, g (l ++ ['\\']) = g l) : (macroLines ls).filterMap g = ls.filterMap g := by
  induction ls with
  | nil => rfl
  | cons l ls ih =>
    by_cases hls : ls = []
    · rw [hls]
      rfl
    · rw [macroLines_cons l hls, List.filterMap_cons, List.filterMap_cons, h l (by simp),
        ih fun x hx => h x (by simp [hx])]

theorem mem_macroLines {l : Text} (h : l ∈ macroLines ls) : ∃ x ∈ ls, l = x ∨ l = x ++ ['\\'] := by
  induction ls with
  | nil => cases h
  | cons x ls ih =>
    by_cases hls : ls = []
    · rw [hls] at h
      exact ⟨x, by simp, .inl (List.mem_singleton.mp h)⟩
    · rw [macroLines_cons x hls] at h
      rcases List.mem_cons.mp h with rfl | h
      · exact ⟨x, by simp, .inr rfl⟩
      · obtain ⟨y, hy, hl⟩ := ih h
        exact ⟨y, List.mem_cons_of_mem _ hy, hl⟩

end Macro

/-! ## Declarations -/

section Declarations

variable {ranges : Ranges} {a : Argument} {d : Datatype} {t : Text}

theorem generatorCall_eq (key : Text) : " RcppDeepState_" ++ key ++ ("();" : Text) = generatorCall key := by
  rw [generatorCall, List.append_assoc]

theorem reportOf_of_quiet {l : Text} (hl : Quiet l) (hd : d ∈ typesTable) :
    reportOf (" RcppDeepState_" ++ d.ctype) l = none := by
  rw [reportOf, generatorCall_eq, if_neg (hl.generatorCall d hd)]

theorem rangeText_spec (ranges : Ranges) (a : Argument) :
    (rangeText ranges a).OneLine ∧ ¬ ("//" : Text) <:+: rangeText ranges a ∧
      (rangeText ranges a ≠ [] → ¬ ("();" : Text) <:+: '(' :: (rangeText ranges a ++ ");")) := by
  unfold rangeText
  split
  · cases ranges a with
    | none => exact ⟨by simp, by with_unfolding_all decide, fun h => absurd rfl h⟩
    | some r => exact ⟨r.line, r.slashes, fun _ => r.call⟩
  · exact ⟨by simp, by with_unfolding_all decide, fun h => absurd rfl h⟩

/-- The range of a generator that takes one is missing when there is none. -/
theorem rangeText_eq_nil (h : a.ranged = true) : rangeText ranges a = [] ↔ ranges a = none := by
  rw [rangeText, if_pos h]
  cases ranges a with
  | none => simp
  | some r =>
    simp only [Option.map_some, Option.getD_some, reduceCtorEq, iff_false]
    intro hnil
    refine r.call ?_
    rw [hnil]
    with_unfolding_all decide

theorem key_char (ha : Declarable a) {c : Char} (hc : isWordChar c = false) : c ∉ a.key := by
  intro hm
  rw [key_wordChars ha c hm] at hc
  cases hc

theorem assigned_char (ha : Declarable a) {c : Char} (hword : isWordChar c = false) (hsep : c ∉ (" []" : Text)) :
    c ∉ assigned a := by
  have hdeclared : c ∉ a.declared := by
    intro hm
    rw [declared_wordChars ha c hm] at hword
    cases hword
  have htype : c ∉ a.declaredType := by
    intro hm
    rw [ha.type c hm] at hword
    cases hword
  have hzero : c ≠ '0' := by
    rintro rfl
    exact absurd hword (by decide)
  have hseps : c ≠ ' ' ∧ c ≠ '[' ∧ c ≠ ']' := by simpa [Text.ofString_eq] using hsep
  unfold assigned
  split
  · simp [Text.ofString_eq, hdeclared, hzero, hseps]
  · simp [Text.ofString_eq, hdeclared, htype, hseps]

/-- What may stand behind a line of a macro. -/
def Continues (t : Text) : Prop := t = [] ∨ t = ['\\']

theorem generatorLine_append (ranges : Ranges) (a : Argument) (t : Text) : generatorLine ranges a ++ t =
    assigned a ++ '=' :: (" RcppDeepState_" ++ (a.key ++ '(' :: (rangeText ranges a ++ (("); " : Text) ++ t)))) := by
  simp [generatorLine]

theorem lineCall_generatorLine (ha : Declarable a) (ht : Continues t) : lineCall (generatorLine ranges a ++ t) = none := by
  have hclose : ("); " : Text) = ')' :: "; " := by with_unfolding_all decide
  have hline : generatorLine ranges a ++ t = (assigned a ++ '=' :: (" RcppDeepState_" ++ (a.key ++ ['(']))) ++
      (rangeText ranges a ++ ')' :: (("; " : Text) ++ t)) := by
    rw [generatorLine_append, hclose]
    simp
  have hfront : '/' ∉ assigned a ++ '=' :: ((" RcppDeepState_" : Text) ++ (a.key ++ ['('])) := by
    simp only [List.mem_append, List.mem_cons, not_or]
    exact ⟨assigned_char ha (by decide) (by with_unfolding_all decide), by decide, by with_unfolding_all decide,
      key_char ha (by decide), by decide, by simp⟩
  have hend : '/' ∉ ("; " : Text) ++ t := by
    rcases ht with rfl | rfl
    · with_unfolding_all decide
    · with_unfolding_all decide
  rw [hline, lineCall, afterSlashes_append hfront, ← lineCall]
  refine lineCall_of_no_slashes fun h => ?_
  rw [Text.infix_append_cons_of_not_mem (by with_unfolding_all decide)] at h
  rcases h with h | h
  · exact (rangeText_spec ranges a).2.1 h
  · exact hend (h.subset (by with_unfolding_all decide))

/-- A declaration contains the call of its own generator, unless it has a range. -/
theorem generatorCall_infix_iff (ha : Declarable a) (ht : Continues t) (hd : d ∈ typesTable) :
    generatorCall d.ctype <:+: generatorLine ranges a ++ t ↔ a.key = d.ctype ∧ rangeText ranges a = [] := by
  have hequals : ∀ d ∈ typesTable, '=' ∉ generatorCall d.ctype ∧ '(' ∈ generatorCall d.ctype := by
    with_unfolding_all decide
  have hassigned : ¬ generatorCall d.ctype <:+: assigned a := fun h =>
    assigned_char ha (by decide) (by with_unfolding_all decide) (h.subset (hequals d hd).2)
  rw [generatorLine_append, Text.infix_append_cons_of_not_mem (hequals d hd).1, or_iff_right hassigned]
  obtain ⟨d', hd', hkey⟩ := ha.key
  by_cases hnil : rangeText ranges a = []
  · have hpairs : ∀ d ∈ typesTable, ∀ d' ∈ typesTable, ∀ t ∈ ([[], ['\\']] : List Text),
        (generatorCall d.ctype <:+: " RcppDeepState_" ++ (d'.ctype ++ '(' :: ("); " ++ t)) ↔ d'.ctype = d.ctype) := by
      with_unfolding_all decide
    rw [hnil, List.nil_append, hkey]
    simpa using hpairs d hd d' hd' t (by simpa [Continues] using ht)
  · refine iff_of_false (fun h => ?_) fun h => hnil h.2
    have hparen : '(' ∉ (" RcppDeepState_" : Text) ++ a.key := by
      rw [List.mem_append, not_or]
      exact ⟨by with_unfolding_all decide, key_char ha (by decide)⟩
    have hblank : ("); " : Text) ++ t = ");" ++ ' ' :: t := by
      rw [show ("); " : Text) = ");" ++ [' '] by with_unfolding_all decide, List.append_assoc]
      rfl
    have hempty := (emptyCall_infix_generatorCall d.ctype).trans h
    rw [← List.append_assoc, parens_append hparen, hblank, ← List.append_assoc, ← List.cons_append,
      Text.infix_append_cons_of_not_mem (by with_unfolding_all decide)] at hempty
    rcases hempty with hempty | hempty
    · exact (rangeText_spec ranges a).2.2 hnil hempty
    · rcases ht with rfl | rfl
      · exact absurd hempty (by with_unfolding_all decide)
      · exact absurd hempty (by with_unfolding_all decide)

theorem rangeVariable_generatorLine (ha : Declarable a) (ht : Continues t) (hnil : rangeText ranges a = []) :
    rangeVariable (generatorLine ranges a ++ t) = (assigned a, a.key) := by
  rw [generatorLine_append, hnil, List.nil_append]
  have hrest : '=' ∉ ("); " : Text) ++ t ∧ '(' ∉ ("); " : Text) ++ t := by
    rcases ht with rfl | rfl
    · with_unfolding_all decide
    · with_unfolding_all decide
  exact rangeVariable_eq (assigned_char ha (by decide) (by with_unfolding_all decide)) (key_char ha (by decide))
    (key_char ha (by decide)) hrest.1 hrest.2

/-- What is reported of a declaration in a search for a type. -/
def declaredReport (ranges : Ranges) (key : Text) (a : Argument) : Option (Text × Text) :=
  if a.key = key ∧ rangeText ranges a = [] then some (assigned a, a.key) else none

theorem reportOf_generatorLine (ha : Declarable a) (ht : Continues t) (hd : d ∈ typesTable) :
    reportOf (" RcppDeepState_" ++ d.ctype) (generatorLine ranges a ++ t) = declaredReport ranges d.ctype a := by
  unfold reportOf declaredReport
  rw [generatorCall_eq]
  by_cases h : a.key = d.ctype ∧ rangeText ranges a = []
  · rw [if_pos h, if_pos ((generatorCall_infix_iff ha ht hd).mpr h), rangeVariable_generatorLine ha ht h.2]
  · rw [if_neg h, if_neg (mt (generatorCall_infix_iff ha ht hd).mp h)]

/-- The line that makes the vector of a scalar. -/
theorem quiet_vectorLine (ha : Declarable a) {rtype : Text} (hr : rtypeOf a.key = some rtype) (ht : Continues t) :
    Quiet ("  " ++ (rtype ++ (" " ++ (a.declared ++ "(1); "))) ++ t) := by
  have hchar (c : Char) (hc : isWordChar c = false) : c ∉ rtype ∧ c ∉ a.declared := by
    constructor
    · intro hm
      rw [(rtype_wordChars hr).2 c hm] at hc
      cases hc
    · intro hm
      rw [declared_wordChars ha c hm] at hc
      cases hc
  have hone : ("(1); " : Text) = '(' :: '1' :: "); " := by with_unfolding_all decide
  have hline : ("  " : Text) ++ (rtype ++ (" " ++ (a.declared ++ "(1); "))) ++ t =
      ("  " ++ (rtype ++ (" " ++ a.declared))) ++ '(' :: ('1' :: ("); " ++ t)) := by
    simp [hone]
  obtain ⟨hs₁, hs₂⟩ := hchar '/' (by decide)
  obtain ⟨hp₁, hp₂⟩ := hchar '(' (by decide)
  have hend : '/' ∉ ("); " : Text) ++ t ∧ ¬ ("();" : Text) <:+: '1' :: ("); " ++ t) := by
    rcases ht with rfl | rfl
    · with_unfolding_all decide
    · with_unfolding_all decide
  rw [hline]
  refine quiet_of_no_emptyCall ?_ ?_
  · simp only [List.mem_append, List.mem_cons, not_or]
    simp only [List.mem_append, not_or] at hend
    exact ⟨⟨by with_unfolding_all decide, hs₁, by with_unfolding_all decide, hs₂⟩, by decide, by decide, hend.1⟩
  · have hfront : '(' ∉ ("  " : Text) ++ (rtype ++ (" " ++ a.declared)) := by
      simp only [List.mem_append, not_or]
      exact ⟨by with_unfolding_all decide, hp₁, by with_unfolding_all decide, hp₂⟩
    rw [parens_append hfront, parens_cons (by decide)]
    exact hend.2

/-- A line of a declaration, continued or not. -/
theorem editedLines_spec (ha : Declarable a) {l : Text} (hl : l ∈ editedLines ranges a) (ht : Continues t) :
    (l = generatorLine ranges a) ∨ Quiet (l ++ t) := by
  unfold editedLines at hl
  cases hr : rtypeOf a.key with
  | none =>
    rw [hr] at hl
    exact .inl (List.mem_singleton.mp hl)
  | some rtype =>
    rw [hr] at hl
    rcases List.mem_pair.mp hl with rfl | rfl
    · exact .inr (quiet_vectorLine ha hr ht)
    · exact .inl rfl

theorem lineCall_editedLines (ha : Declarable a) {l : Text} (hl : l ∈ editedLines ranges a) (ht : Continues t) :
    lineCall (l ++ t) = none := by
  rcases editedLines_spec ha hl ht with rfl | hquiet
  · exact lineCall_generatorLine ha ht
  · exact hquiet.lineCall

theorem reportOf_editedLines (ha : Declarable a) (hd : d ∈ typesTable) {l : Text} (hl : l ∈ editedLines ranges a) :
    reportOf (" RcppDeepState_" ++ d.ctype) (l ++ ['\\']) = reportOf (" RcppDeepState_" ++ d.ctype) l := by
  have hnil (l : Text) : l = l ++ [] := (List.append_nil l).symm
  rcases editedLines_spec ha hl (.inr rfl) with rfl | hquiet
  · rw [reportOf_generatorLine ha (.inr rfl) hd, hnil (generatorLine ranges a), reportOf_generatorLine ha (.inl rfl) hd]
  · rcases editedLines_spec ha hl (.inl rfl) with rfl | hquiet'
    · rw [reportOf_generatorLine ha (.inr rfl) hd, hnil (generatorLine ranges a), reportOf_generatorLine ha (.inl rfl) hd]
    · rw [List.append_nil] at hquiet'
      rw [reportOf_of_quiet hquiet hd, reportOf_of_quiet hquiet' hd]

theorem filterMap_editedLines (ha : Declarable a) (hd : d ∈ typesTable) :
    (editedLines ranges a).filterMap (reportOf (" RcppDeepState_" ++ d.ctype)) =
      (declaredReport ranges d.ctype a).toList := by
  have hline : reportOf (" RcppDeepState_" ++ d.ctype) (generatorLine ranges a) = declaredReport ranges d.ctype a := by
    have hend : reportOf (" RcppDeepState_" ++ d.ctype) (generatorLine ranges a ++ []) =
        declaredReport ranges d.ctype a := reportOf_generatorLine ha (.inl rfl) hd
    rwa [List.append_nil] at hend
  have hone : [generatorLine ranges a].filterMap (reportOf (" RcppDeepState_" ++ d.ctype)) =
      (declaredReport ranges d.ctype a).toList := by
    cases hreport : declaredReport ranges d.ctype a with
    | none =>
      rw [List.filterMap_cons_none (hline.trans hreport)]
      rfl
    | some r =>
      rw [List.filterMap_cons_some (hline.trans hreport)]
      rfl
  unfold editedLines
  cases hr : rtypeOf a.key with
  | none => exact hone
  | some rtype =>
    have hquiet := quiet_vectorLine ha hr (.inl rfl)
    rw [List.append_nil] at hquiet
    rw [List.filterMap_cons_none (reportOf_of_quiet hquiet hd), hone]

end Declarations

/-! ## The whole file -/

section File

variable {ranges : Ranges} {args : List Argument} {inputs unittest fn prototype : Text} {d : Datatype}

/-- What the lines around the arguments need to say nothing. -/
structure PlainHarness (unittest fn : Text) (args : List Argument) (prototype : Text) : Prop where
  quiet : Quiet prototype
  line : prototype.OneLine
  legal : ∀ c ∈ unittest, c.isAlphanum = true
  name : Identifier fn
  declarable : ∀ a ∈ args, Declarable a
  ne_nil : args ≠ []

theorem PlainHarness.names (h : PlainHarness unittest fn args prototype) : ∀ a ∈ args, Identifier a.name :=
  fun a ha => (h.declarable a ha).name

theorem filterMap_quiet {ls : List Text} (h : ∀ l ∈ ls, Quiet l) :
    ls.filterMap lineCall = [] ∧ ∀ d ∈ typesTable, ls.filterMap (reportOf (" RcppDeepState_" ++ d.ctype)) = [] := by
  refine ⟨List.filterMap_eq_nil_iff.mpr fun l hl => (h l hl).lineCall, fun d hd => ?_⟩
  exact List.filterMap_eq_nil_iff.mpr fun l hl => reportOf_of_quiet (h l hl) hd

theorem filterMap_inputsLines (h : ∀ a ∈ args, Declarable a) :
    (inputsLines ranges args).filterMap lineCall = [] ∧
      ∀ d ∈ typesTable, (inputsLines ranges args).filterMap (reportOf (" RcppDeepState_" ++ d.ctype)) =
        args.filterMap (declaredReport ranges d.ctype) := by
  have hdefine : Quiet ("#define INPUTS " : Text) := quiet_of_no_paren (by with_unfolding_all decide)
  have hdefine' : Quiet (("#define INPUTS " : Text) ++ ['\\']) := quiet_of_no_paren (by with_unfolding_all decide)
  constructor
  · rw [inputsLines, filterMap_macroLines, List.filterMap_eq_nil_iff]
    · intro l hl
      rcases List.mem_cons.mp hl with rfl | hl
      · exact hdefine.lineCall
      · obtain ⟨a, ha, hla⟩ := List.mem_flatMap.mp hl
        have hnone := lineCall_editedLines (h a ha) hla (.inl rfl)
        rwa [List.append_nil] at hnone
    · exact fun l _ => lineCall_append (by decide)
  · intro d hd
    rw [inputsLines, filterMap_macroLines, List.filterMap_cons_none (reportOf_of_quiet hdefine hd),
      List.filterMap_flatMap, List.filterMap_eq_flatMap_toList]
    · exact List.flatMap_congr fun a ha => filterMap_editedLines (h a ha) hd
    · intro l hl
      rcases List.mem_cons.mp hl with rfl | hl
      · rw [reportOf_of_quiet hdefine hd, reportOf_of_quiet hdefine' hd]
      · obtain ⟨a, ha, hla⟩ := List.mem_flatMap.mp hl
        exact reportOf_editedLines (h a ha) hd hla

theorem filterMap_comments :
    (args.filterMap commentLine).filterMap lineCall =
        args.filterMap (fun a => if a.ranged then some (" RcppDeepState_" ++ a.key) else none) ∧
      ∀ d ∈ typesTable, (args.filterMap commentLine).filterMap (reportOf (" RcppDeepState_" ++ d.ctype)) = [] := by
  constructor
  · rw [List.filterMap_filterMap]
    refine List.filterMap_congr fun a _ => ?_
    cases hl : commentLine a with
    | none =>
      have hnot : a.ranged = false := by
        rw [Argument.ranged, Option.map_eq_none_iff.mp hl]
        rfl
      rw [hnot]
      rfl
    | some l =>
      obtain ⟨hranged, hcall, -⟩ := commentLine_spec hl
      rw [hranged]
      exact hcall
  · intro d hd
    rw [List.filterMap_eq_nil_iff]
    intro l hl
    obtain ⟨a, _, hla⟩ := List.mem_filterMap.mp hl
    rw [reportOf, generatorCall_eq, if_neg ((commentLine_spec hla).2.2.2 d hd)]

theorem filterMap_dumpLines (hnames : ∀ a ∈ args, Identifier a.name) :
    (args.flatMap (dumpLines inputs)).filterMap lineCall = args.flatMap fun _ => (lineCall inputs).toList := by
  rw [List.filterMap_flatMap]
  refine List.flatMap_congr fun a ha => ?_
  obtain ⟨before, after, l, hlines, hpath, hbefore, hafter⟩ := dumpLines_spec (hnames a ha) inputs
  rw [hlines, List.filterMap_append, (filterMap_quiet hbefore).1, List.nil_append]
  cases hcall : lineCall inputs with
  | none => rw [List.filterMap_cons_none (hpath.lineCall.trans hcall), (filterMap_quiet hafter).1]; rfl
  | some c => rw [List.filterMap_cons_some (hpath.lineCall.trans hcall), (filterMap_quiet hafter).1]; rfl

/-- The lines with a path contain a call when the path does. -/
theorem filterMap_dumpLines_eq_nil_iff (hnames : ∀ a ∈ args, Identifier a.name) (hne : args ≠ []) (hd : d ∈ typesTable) :
    (args.flatMap (dumpLines inputs)).filterMap (reportOf (" RcppDeepState_" ++ d.ctype)) = [] ↔
      ¬ generatorCall d.ctype <:+: inputs := by
  rw [List.filterMap_eq_nil_iff]
  constructor
  · intro hnone hinfix
    obtain ⟨a, as, rfl⟩ := List.exists_cons_of_ne_nil hne
    obtain ⟨before, after, l, hlines, hpath, -, -⟩ := dumpLines_spec (hnames a (by simp)) inputs
    have hl := hnone l (by simp [hlines])
    rw [reportOf, generatorCall_eq, if_pos ((hpath.generatorCall d hd).mpr hinfix)] at hl
    cases hl
  · intro hnot l hl
    obtain ⟨a, ha, hla⟩ := List.mem_flatMap.mp hl
    obtain ⟨before, after, x, hlines, hpath, hbefore, hafter⟩ := dumpLines_spec (hnames a ha) inputs
    rw [hlines, List.mem_append, List.mem_cons] at hla
    rcases hla with hla | rfl | hla
    · exact reportOf_of_quiet (hbefore l hla) hd
    · rw [reportOf, generatorCall_eq, if_neg (mt (hpath.generatorCall d hd).mp hnot)]
    · exact reportOf_of_quiet (hafter l hla) hd

theorem quiet_closingLine : Quiet closingLine := quiet_of_no_paren (by with_unfolding_all decide)

/-- The calls that are offered: one for each argument with a range, and what a path may hold. -/
theorem rangeElements_generationLines (h : PlainHarness unittest fn args prototype)
    (hlines : ∀ l ∈ generationLines ranges inputs unittest fn args prototype, '\n' ∉ l) :
    rangeElements (generationLines ranges inputs unittest fn args prototype ++ [closingLine]) =
      (args.filterMap fun a => if a.ranged then some (" RcppDeepState_" ++ a.key) else none) ++
        args.flatMap fun _ => (lineCall inputs).toList := by
  rw [rangeElements_eq hlines (by with_unfolding_all decide)]
  simp only [generationLines, List.filterMap_append, (filterMap_quiet (quiet_headerLines h.quiet)).1,
    filterMap_comments.1, (filterMap_inputsLines h.declarable).1, (filterMap_quiet (quiet_printLines h.names)).1,
    (filterMap_quiet (quiet_testLines h.legal)).1, filterMap_dumpLines h.names,
    (filterMap_quiet (quiet_tryLines h.name h.names h.ne_nil)).1, List.nil_append, List.append_nil]

/-- The lines that contain a call: declarations, and lines with a path. -/
theorem filterMap_generationLines (h : PlainHarness unittest fn args prototype) (hd : d ∈ typesTable) :
    (generationLines ranges inputs unittest fn args prototype ++ [closingLine]).filterMap
        (reportOf (" RcppDeepState_" ++ d.ctype)) =
      args.filterMap (declaredReport ranges d.ctype) ++
        (args.flatMap (dumpLines inputs)).filterMap (reportOf (" RcppDeepState_" ++ d.ctype)) := by
  have hclosing : [closingLine].filterMap (reportOf (" RcppDeepState_" ++ d.ctype)) = [] :=
    (filterMap_quiet (by simpa using quiet_closingLine)).2 d hd
  simp only [generationLines, List.filterMap_append, (filterMap_quiet (quiet_headerLines h.quiet)).2 d hd,
    filterMap_comments.2 d hd, (filterMap_inputsLines h.declarable).2 d hd,
    (filterMap_quiet (quiet_printLines h.names)).2 d hd, (filterMap_quiet (quiet_testLines h.legal)).2 d hd,
    (filterMap_quiet (quiet_tryLines h.name h.names h.ne_nil)).2 d hd, hclosing, List.nil_append, List.append_nil]

theorem oneLine_assigned {a : Argument} (ha : Declarable a) : (assigned a).OneLine :=
  ⟨assigned_char ha (show isWordChar '\n' = false by decide) (by with_unfolding_all decide),
    assigned_char ha (show isWordChar '\r' = false by decide) (by with_unfolding_all decide)⟩

theorem oneLine_editedLines {a : Argument} (ha : Declarable a) {l : Text} (hl : l ∈ editedLines ranges a) :
    l.OneLine := by
  have hdeclared : a.declared.OneLine := oneLine_gsub ha.line.name
  have hline : (generatorLine ranges a).OneLine := by
    simp [generatorLine, Text.ofString_eq, oneLine_assigned ha, ha.line.key, (rangeText_spec ranges a).1]
  unfold editedLines at hl
  cases hr : rtypeOf a.key with
  | none =>
    rw [hr] at hl
    rw [List.mem_singleton.mp hl]
    exact hline
  | some rtype =>
    rw [hr] at hl
    rcases List.mem_pair.mp hl with rfl | rfl
    · simp [Text.ofString_eq, hdeclared, oneLine_rtype hr]
    · exact hline

theorem oneLine_generationLines (h : PlainHarness unittest fn args prototype) (hinputs : inputs.OneLine) :
    ∀ l ∈ generationLines ranges inputs unittest fn args prototype, l.OneLine := by
  have hunit : unittest.OneLine :=
    ⟨fun hm => absurd (h.legal _ hm) (by decide), fun hm => absurd (h.legal _ hm) (by decide)⟩
  have hname (a : Argument) (ha : a ∈ args) : a.name.OneLine := (h.declarable a ha).line.name
  intro l hl
  simp only [generationLines, List.mem_append] at hl
  rcases hl with (((((hl | hl) | hl) | hl) | hl) | hl) | hl
  · simp only [headerLines, List.mem_cons, List.not_mem_nil, or_false] at hl
    rcases hl with rfl | rfl | rfl | rfl | rfl | rfl | rfl | rfl | rfl | rfl | rfl | rfl
    any_goals with_unfolding_all decide
    exact h.line
  · obtain ⟨a, _, hla⟩ := List.mem_filterMap.mp hl
    exact (commentLine_spec hla).2.2.1
  · obtain ⟨x, hx, hlx⟩ := mem_macroLines hl
    have honeLine : x.OneLine := by
      rcases List.mem_cons.mp hx with rfl | hx
      · with_unfolding_all decide
      · obtain ⟨a, ha, hxa⟩ := List.mem_flatMap.mp hx
        exact oneLine_editedLines (h.declarable a ha) hxa
    rcases hlx with rfl | rfl
    · exact honeLine
    · simp [honeLine]
  · simp only [printLines, List.mem_append, List.mem_map, List.mem_cons, List.not_mem_nil, or_false] at hl
    rcases hl with ((rfl | rfl | rfl) | ⟨a, ha, rfl⟩) | rfl
    · with_unfolding_all decide
    · with_unfolding_all decide
    · with_unfolding_all decide
    · simp [printLine, Text.ofString_eq, hname a ha]
    · with_unfolding_all decide
  · simp only [testLines, List.mem_cons, List.not_mem_nil, or_false] at hl
    rcases hl with rfl | rfl | rfl | rfl | rfl | rfl | rfl | rfl | rfl | rfl
    all_goals simp [Text.ofString_eq, hunit]
  · obtain ⟨a, ha, hla⟩ := List.mem_flatMap.mp hl
    unfold dumpLines at hla
    split at hla
    · simp only [List.mem_cons, List.not_mem_nil, or_false] at hla
      rcases hla with rfl | rfl | rfl | rfl
      all_goals simp [Text.ofString_eq, hname a ha, hinputs]
    · rcases List.mem_pair.mp hla with rfl | rfl
      all_goals simp [Text.ofString_eq, hname a ha, hinputs]
  · simp only [tryLines, List.mem_cons, List.not_mem_nil, or_false] at hl
    rcases hl with rfl | rfl | rfl | rfl | rfl
    any_goals with_unfolding_all decide
    have hdrop := oneLine_callArguments fun a ha => (h.declarable a ha).line
    rw [callLine]
    simp only [Text.oneLine_append, Text.oneLine_cons]
    exact ⟨by with_unfolding_all decide, h.name.oneLine, by decide, by decide, hdrop, by with_unfolding_all decide⟩

end File

end RcppDeepState
