import RcppDeepState.Harness.EditedLines
import RcppDeepState.Analysis.Lemmas.RangeCalls

/-!
# What the lines of a generation harness say of its ranges

Only the comment lines and the lines with a path offer a call, and only the declarations and the lines with a
path can contain one.
-/

namespace RcppDeepState

/-! ## Lines that say nothing -/

/-- The call of a generator without a range, as it stands in a declaration. -/
def generatorCall (key : Text) : Text := " RcppDeepState_" ++ (key ++ "();")

/-- The line offers no call and contains none. -/
structure Quiet (l : Text) : Prop where
  lineCall : lineCall l = none
  generatorCall : ∀ d ∈ typesTable, ¬ generatorCall d.ctype <:+: l

section Quiet

variable {l : Text}

theorem lineCall_of_no_slashes (h : ¬ ("//" : Text) <:+: l) : lineCall l = none := by
  rw [lineCall, afterSlashes_eq_none h]
  rfl

theorem emptyCall_eq : ("();" : Text) = ['(', ')', ';'] := by with_unfolding_all decide

theorem emptyCall_infix_generatorCall (key : Text) : ("();" : Text) <:+: generatorCall key :=
  ((List.suffix_append key _).trans (List.suffix_append _ _)).isInfix

theorem quiet_of_no_emptyCall (hslash : '/' ∉ l) (hempty : ¬ ("();" : Text) <:+: l) : Quiet l := by
  refine ⟨lineCall_of_no_slashes fun h => hslash (h.subset (by with_unfolding_all decide)), fun d _ h => hempty ?_⟩
  exact (emptyCall_infix_generatorCall d.ctype).trans h

theorem not_emptyCall_of_no_paren (hparen : '(' ∉ l) : ¬ ("();" : Text) <:+: l :=
  fun h => hparen (h.subset (by with_unfolding_all decide))

theorem quiet_of_no_paren (hparen : '(' ∉ l) : Quiet l :=
  ⟨lineCall_of_no_paren hparen, fun d _ h =>
    not_emptyCall_of_no_paren hparen ((emptyCall_infix_generatorCall d.ctype).trans h)⟩

/-- What follows a line without a parenthesis does not change its call. -/
theorem lineCall_append {t : Text} (ht : '(' ∉ t) : lineCall (l ++ t) = lineCall l := by
  induction l with
  | nil => exact lineCall_of_no_paren ht
  | cons c l ih =>
    by_cases h : ("//" : Text) <+: c :: l
    · obtain ⟨r, hr, hcall⟩ := lineCall_of_prefix h
      rw [hcall, hr, List.append_assoc, lineCall_of_slashes]
      cases hb : beforeLast '(' r with
      | some a =>
        obtain ⟨b, rfl, hparen⟩ := beforeLast_eq_some hb
        rw [List.append_assoc, List.cons_append]
        exact beforeLast_append (by simp [hparen, ht])
      | none =>
        cases hb' : beforeLast '(' (r ++ t) with
        | none => rfl
        | some a =>
          obtain ⟨b, hab, -⟩ := beforeLast_eq_some hb'
          have hmem : '(' ∈ r ++ t := by rw [hab]; simp
          rcases List.mem_append.mp hmem with hm | hm
          · exact absurd hm (beforeLast_eq_none hb)
          · exact absurd hm ht
    · by_cases h' : ("//" : Text) <+: c :: (l ++ t)
      · -- The slashes reach over the end of the line.
        cases l with
        | nil =>
          rw [lineCall_cons h]
          obtain ⟨r, hr, hcall⟩ := lineCall_of_prefix h'
          rw [List.nil_append, slashes_eq, List.cons_append, List.cons_append, List.nil_append, List.cons.injEq] at hr
          obtain ⟨rfl, rfl⟩ := hr
          rw [List.cons_append, hcall]
          cases hb : beforeLast '(' r with
          | none => rfl
          | some a =>
            obtain ⟨b, rfl, -⟩ := beforeLast_eq_some hb
            exact absurd (by simp) ht
        | cons x l =>
          refine absurd ?_ h
          rw [slashes_eq, List.cons_append, List.cons_prefix_cons, List.cons_prefix_cons] at h'
          obtain ⟨rfl, rfl, -⟩ := h'
          rw [slashes_eq]
          exact ⟨l, rfl⟩
      · rw [List.cons_append, lineCall_cons h', lineCall_cons h, ih]

end Quiet

/-! ## The fixed lines -/

section Fixed

variable {args : List Argument} {prototype unittest : Text}

theorem quiet_headerLines (hp : Quiet prototype) : ∀ l ∈ headerLines prototype, Quiet l := by
  intro l hl
  have hfixed : ∀ l ∈ (["#include <fstream>", "#include <RInside.h>", "#include <iostream>",
      "#include <RcppDeepState.h>", "#include <qs.h>", "#include <DeepState.hpp>", "", "RInside Rinstance;",
      "// RANGES CAN BE ADDED HERE"] : List Text), '(' ∉ l := by with_unfolding_all decide
  by_cases hproto : l = prototype
  · rw [hproto]
    exact hp
  · refine quiet_of_no_paren (hfixed l ?_)
    simp only [headerLines, List.mem_cons, List.not_mem_nil, or_false, hproto, false_or] at hl ⊢
    tauto

theorem lookupType_eq_some {t : Text} {d : Datatype} (h : lookupType t = some d) : d ∈ typesTable ∧ d.ctype = t :=
  ⟨List.mem_of_find?_eq_some h, by simpa using List.find?_some h⟩

/-- A comment line offers the call of its generator. -/
theorem commentLine_spec {a : Argument} {l : Text} (hl : commentLine a = some l) :
    a.ranged = true ∧ lineCall l = some (" RcppDeepState_" ++ a.key) ∧ l.OneLine ∧
      ∀ d ∈ typesTable, ¬ generatorCall d.ctype <:+: l := by
  have htable : ∀ d ∈ typesTable, ∀ r ∈ d.args,
      lineCall ("// RcppDeepState_" ++ (d.ctype ++ r)) = some (" RcppDeepState_" ++ d.ctype) ∧
        (("// RcppDeepState_" : Text) ++ (d.ctype ++ r)).OneLine ∧
        ¬ ("();" : Text) <:+: "// RcppDeepState_" ++ (d.ctype ++ r) := by with_unfolding_all decide
  obtain ⟨r, hr, rfl⟩ := Option.map_eq_some_iff.mp hl
  obtain ⟨d, hd, hargs⟩ := Option.bind_eq_some_iff.mp hr
  obtain ⟨hmem, hkey⟩ := lookupType_eq_some hd
  obtain ⟨hcall, hnewline, hempty⟩ := htable d hmem r hargs
  rw [← hkey]
  refine ⟨?_, hcall, hnewline, fun d' _ h => hempty ((emptyCall_infix_generatorCall d'.ctype).trans h)⟩
  rw [Argument.ranged, hr]
  rfl

theorem quiet_printLines (hnames : ∀ a ∈ args, Identifier a.name) : ∀ l ∈ printLines args, Quiet l := by
  intro l hl
  refine quiet_of_no_paren ?_
  unfold printLines at hl
  simp only [List.mem_append, List.mem_map, List.mem_cons, List.not_mem_nil, or_false] at hl
  rcases hl with ((rfl | rfl | rfl) | ⟨a, ha, rfl⟩) | rfl
  · with_unfolding_all decide
  · with_unfolding_all decide
  · with_unfolding_all decide
  · have hname := (hnames a ha).not_mem (show isIdentChar '(' = false by decide)
    simp [printLine, Text.ofString_eq, hname]
  · with_unfolding_all decide

theorem quiet_testLines (hu : ∀ c ∈ unittest, c.isAlphanum = true) : ∀ l ∈ testLines unittest, Quiet l := by
  have hchar (c : Char) (hc : c.isAlphanum = false) : c ∉ unittest := by
    intro hm
    rw [hu c hm] at hc
    cases hc
  have htest (t : Text) (ht : '/' ∉ t) (hempty : ¬ ("();" : Text) <:+: t) :
      Quiet ("TEST(" ++ (unittest ++ ',' :: t)) := by
    refine quiet_of_no_emptyCall ?_ ?_
    · simp only [List.mem_append, List.mem_cons, not_or]
      exact ⟨by with_unfolding_all decide, hchar '/' (by decide), by decide, ht⟩
    · rw [← List.append_assoc, Text.infix_append_cons_of_not_mem (by with_unfolding_all decide)]
      rintro (h | h)
      · have hclose : ')' ∈ ("TEST(" : Text) ++ unittest := h.subset (by with_unfolding_all decide)
        rw [List.mem_append] at hclose
        exact hclose.elim (by with_unfolding_all decide) (hchar ')' (by decide))
      · exact hempty h
  intro l hl
  have hgen : (", generator)\x7b" : Text) = ',' :: " generator)\x7b" := by with_unfolding_all decide
  have hrun : (", runner)\x7b" : Text) = ',' :: " runner)\x7b" := by with_unfolding_all decide
  simp only [testLines, hgen, hrun, List.mem_cons, List.not_mem_nil, or_false] at hl
  rcases hl with rfl | rfl | rfl | rfl | rfl | rfl | rfl | rfl | rfl | rfl
  · exact quiet_of_no_paren (by with_unfolding_all decide)
  · exact quiet_of_no_paren (by with_unfolding_all decide)
  · exact htest _ (by with_unfolding_all decide) (by with_unfolding_all decide)
  · exact quiet_of_no_paren (by with_unfolding_all decide)
  · exact quiet_of_no_paren (by with_unfolding_all decide)
  · exact quiet_of_no_paren (by with_unfolding_all decide)
  · exact quiet_of_no_paren (by with_unfolding_all decide)
  · exact htest _ (by with_unfolding_all decide) (by with_unfolding_all decide)
  · exact quiet_of_no_paren (by with_unfolding_all decide)
  · exact quiet_of_no_paren (by with_unfolding_all decide)

/-! ## The call of the function -/

/-- A text without a parenthesis in front changes nothing. -/
theorem parens_append {a t : Text} (ha : '(' ∉ a) : ("();" : Text) <:+: a ++ t ↔ ("();" : Text) <:+: t := by
  rw [emptyCall_eq]
  exact Text.infix_append_of_head_not_mem ha

theorem parens_cons {c : Char} {t : Text} (hc : c ≠ ')') :
    ("();" : Text) <:+: '(' :: (c :: t) ↔ ("();" : Text) <:+: c :: t := by
  rw [List.infix_cons_iff, emptyCall_eq]
  have hno : ¬ ['(', ')', ';'] <+: '(' :: c :: t := by
    simp [List.cons_prefix_cons, Ne.symm hc]
  simp [hno]

theorem argText_spec {a : Argument} (hn : Identifier a.name) :
    (∃ c t, argText a = c :: t ∧ c ≠ ')') ∧ ∀ t, ("();" : Text) <:+: argText a ++ t ↔ ("();" : Text) <:+: t := by
  have hparen := hn.not_mem (show isIdentChar '(' = false by decide)
  obtain ⟨c, n, hname, hident⟩ := hn.exists_cons
  have hc : c ≠ ')' := by
    rintro rfl
    exact absurd hident (by decide)
  unfold argText
  split
  · have has : ("Rcpp::as<std::string>(" : Text) = 'R' :: ("cpp::as<std::string>" ++ ['(']) := by
      with_unfolding_all decide
    refine ⟨⟨'R', _, by rw [has]; rfl, by decide⟩, fun t => ?_⟩
    have hsplit : ("Rcpp::as<std::string>(" : Text) ++ (a.name ++ "[0])") ++ t =
        "Rcpp::as<std::string>" ++ '(' :: (c :: (n ++ ("[0])" ++ t))) := by
      have h : ("Rcpp::as<std::string>(" : Text) = "Rcpp::as<std::string>" ++ ['('] := by with_unfolding_all decide
      simp [h, hname]
    rw [hsplit, parens_append (by with_unfolding_all decide), parens_cons hc, ← List.cons_append, ← hname,
      parens_append hparen, parens_append (by with_unfolding_all decide)]
  · split
    · refine ⟨⟨c, n ++ "[0]", by rw [hname]; rfl, hc⟩, fun t => ?_⟩
      rw [List.append_assoc, parens_append hparen, parens_append (by with_unfolding_all decide)]
    · exact ⟨⟨c, n, hname, hc⟩, fun t => parens_append hparen⟩

theorem parens_protoArgs (hnames : ∀ a ∈ args, Identifier a.name) (t : Text) :
    ("();" : Text) <:+: args.flatMap protoArg ++ t ↔ ("();" : Text) <:+: t := by
  induction args with
  | nil => rfl
  | cons a args ih =>
    rw [List.flatMap_cons, protoArg_eq, List.append_assoc, List.append_assoc,
      (argText_spec (hnames a (by simp))).2, parens_append (by decide), ih fun b hb => hnames b (by simp [hb])]

theorem quiet_callLine {fn : Text} (hfn : Identifier fn) (hnames : ∀ a ∈ args, Identifier a.name) (hne : args ≠ []) :
    Quiet (callLine fn args) := by
  obtain ⟨as, a, rfl⟩ := (List.eq_nil_or_concat args).resolve_left hne
  rw [List.concat_eq_append] at hnames ⊢
  have hcomma : ("," : Text) = [','] := by with_unfolding_all decide
  have hcall : callLine fn (as ++ [a]) = "    " ++ (fn ++ '(' :: (as.flatMap protoArg ++ (argText a ++ ");"))) := by
    rw [callLine, List.flatMap_append, List.flatMap_singleton, protoArg_eq, ← List.append_assoc (as.flatMap _), hcomma,
      dropSuffix_append, List.append_assoc (as.flatMap _)]
  have ha := argText_spec (hnames a (by simp))
  have has : ∀ b ∈ as, Identifier b.name := fun b hb => hnames b (by simp [hb])
  -- The first argument does not close the call.
  have hhead : ∃ c t, as.flatMap protoArg ++ (argText a ++ (");" : Text)) = c :: t ∧ c ≠ ')' := by
    cases as with
    | nil =>
      obtain ⟨c, t, ht, hc⟩ := ha.1
      exact ⟨c, t ++ ");", by rw [List.flatMap_nil, List.nil_append, ht]; rfl, hc⟩
    | cons b bs =>
      obtain ⟨c, t, ht, hc⟩ := (argText_spec (has b (by simp))).1
      exact ⟨c, _, by rw [List.flatMap_cons, protoArg_eq, ht]; rfl, hc⟩
  have hslash (b : Argument) (hb : Identifier b.name) : '/' ∉ argText b := by
    have hname := hb.not_mem (show isIdentChar '/' = false by decide)
    unfold argText
    split
    · simp [Text.ofString_eq, hname]
    · split
      · simp [Text.ofString_eq, hname]
      · exact hname
  rw [hcall]
  refine quiet_of_no_emptyCall ?_ ?_
  · simp only [List.mem_append, List.mem_cons, List.mem_flatMap, not_or, not_exists, not_and]
    refine ⟨by with_unfolding_all decide, hfn.not_mem (by decide), by decide, fun b hb => ?_, hslash a (hnames a (by simp)),
      by with_unfolding_all decide⟩
    rw [protoArg_eq, List.mem_append, not_or]
    exact ⟨hslash b (has b hb), by decide⟩
  · obtain ⟨c, t, ht, hc⟩ := hhead
    rw [parens_append (by with_unfolding_all decide), parens_append (hfn.not_mem (by decide)), ht, parens_cons hc, ← ht,
      parens_protoArgs has, ha.2]
    with_unfolding_all decide

theorem quiet_tryLines {fn : Text} (hfn : Identifier fn) (hnames : ∀ a ∈ args, Identifier a.name) (hne : args ≠ []) :
    ∀ l ∈ tryLines fn args, Quiet l := by
  intro l hl
  simp only [tryLines, List.mem_cons, List.not_mem_nil, or_false] at hl
  rcases hl with rfl | rfl | rfl | rfl | rfl
  · exact quiet_of_no_paren (by with_unfolding_all decide)
  · exact quiet_callLine hfn hnames hne
  · exact quiet_of_no_emptyCall (by with_unfolding_all decide) (by with_unfolding_all decide)
  · exact quiet_of_no_paren (by with_unfolding_all decide)
  · exact quiet_of_no_paren (by with_unfolding_all decide)

end Fixed

/-! ## The prototype -/

theorem quiet_prototype {e : Export} (hreturn : '/' ∉ e.returnType) (hne : e.params ≠ [])
    (htypes : ∀ p ∈ e.params, QualifiedType p.type) : Quiet e.prototype := by
  have hall : ∀ c ∈ constQualifiers, ∀ q ∈ namespaceQualifiers, ∀ d ∈ typesTable,
      '/' ∉ c ++ (q ++ d.ctype) ∧ ')' ∉ c ++ (q ++ d.ctype) := by with_unfolding_all decide
  have hchar (x : Char) (hsep : x ∉ (", " : Text)) (hblank : x ≠ ' ') (hident : isIdentChar x = false)
      (htype : ∀ p ∈ e.params, x ∉ p.type) : x ∉ e.arguments := by
    refine not_mem_join hsep fun t ht => ?_
    obtain ⟨p, hp, rfl⟩ := List.mem_map.mp ht
    have hgap : x ∉ (" " : Text) := by
      rw [show (" " : Text) = [' '] by with_unfolding_all decide]
      simpa using hblank
    simp only [List.mem_append, not_or]
    exact ⟨⟨htype p hp, hgap⟩, p.name_ok.not_mem hident⟩
  have hslash : '/' ∉ e.arguments := by
    refine hchar '/' (by with_unfolding_all decide) (by decide) (by decide) fun p hp => ?_
    obtain ⟨c, hc, q, hq, d, hd, ht⟩ := htypes p hp
    rw [ht]
    exact (hall c hc q hq d hd).1
  have hclose : ')' ∉ e.arguments := by
    refine hchar ')' (by with_unfolding_all decide) (by decide) (by decide) fun p hp => ?_
    obtain ⟨c, hc, q, hq, d, hd, ht⟩ := htypes p hp
    rw [ht]
    exact (hall c hc q hq d hd).2
  have hopen : '(' ∉ e.arguments :=
    hchar '(' (by with_unfolding_all decide) (by decide) (by decide) fun p _ => p.type_ok.paren
  obtain ⟨c, t, ht⟩ : ∃ c t, e.arguments = c :: t := by
    refine List.exists_cons_of_ne_nil ?_
    obtain ⟨p, ps, hps⟩ := List.exists_cons_of_ne_nil hne
    rw [Export.arguments, hps, List.map_cons]
    cases ps with
    | nil => simp [Text.join, p.type_ok.ne_nil]
    | cons q ps => simp [Text.join, p.type_ok.ne_nil]
  have hproto : e.prototype = (e.returnType ++ (" " ++ e.name)) ++ '(' :: (e.arguments ++ ");") := by
    simp [Export.prototype, openParen_eq]
  have hfront : '(' ∉ e.returnType ++ ((" " : Text) ++ e.name) := by
    simp only [List.mem_append, not_or]
    exact ⟨e.returnType_ok.paren, by with_unfolding_all decide, e.name_ok.not_mem (by decide)⟩
  rw [hproto]
  refine quiet_of_no_emptyCall ?_ ?_
  · simp only [List.mem_append, List.mem_cons, not_or]
    exact ⟨⟨hreturn, by with_unfolding_all decide, e.name_ok.not_mem (by decide)⟩, by decide, hslash,
      by with_unfolding_all decide⟩
  · have hc : c ≠ ')' := by
      rintro rfl
      exact hclose (by rw [ht]; simp)
    rw [parens_append hfront, ht, List.cons_append, parens_cons hc, ← List.cons_append, ← ht, parens_append hopen]
    with_unfolding_all decide

/-! ## Lines with a path -/

/-- The line says what the path says. -/
structure PathLine (inputs l : Text) : Prop where
  lineCall : lineCall l = RcppDeepState.lineCall inputs
  generatorCall : ∀ d ∈ typesTable, RcppDeepState.generatorCall d.ctype <:+: l ↔
    RcppDeepState.generatorCall d.ctype <:+: inputs

theorem pathLine_of_split {inputs a b : Text} (hslash : '/' ∉ a) (hclose : ')' ∉ a) (hopen : '(' ∉ b) :
    PathLine inputs (a ++ '"' :: (inputs ++ '/' :: b)) := by
  refine ⟨?_, fun d hd => ?_⟩
  · have hcall : lineCall (inputs ++ '/' :: b) = lineCall inputs := lineCall_append (by simp [hopen])
    rw [← hcall, List.append_cons, lineCall, afterSlashes_append (by simp [hslash])]
    rfl
  · have hplain : ∀ d ∈ typesTable, '"' ∉ generatorCall d.ctype ∧ '/' ∉ generatorCall d.ctype ∧
        ')' ∈ generatorCall d.ctype ∧ '(' ∈ generatorCall d.ctype := by with_unfolding_all decide
    obtain ⟨h₁, h₂, h₃, h₄⟩ := hplain d hd
    rw [Text.infix_append_cons_of_not_mem h₁, Text.infix_append_cons_of_not_mem h₂]
    constructor
    · rintro (h | h | h)
      · exact absurd (h.subset h₃) hclose
      · exact h
      · exact absurd (h.subset h₄) hopen
    · exact fun h => .inr (.inl h)

/-- The dump statements of an argument have one line with the path. -/
theorem dumpLines_spec {a : Argument} (hn : Identifier a.name) (inputs : Text) :
    ∃ before after l, dumpLines inputs a = before ++ l :: after ∧ PathLine inputs l ∧
      (∀ x ∈ before, Quiet x) ∧ ∀ x ∈ after, Quiet x := by
  have hopen := hn.not_mem (show isIdentChar '(' = false by decide)
  have hclose := hn.not_mem (show isIdentChar ')' = false by decide)
  have hslash := hn.not_mem (show isIdentChar '/' = false by decide)
  unfold dumpLines
  split
  · refine ⟨[_], [_, _], _, rfl, ?_, ?_, ?_⟩
    · have hline : "  " ++ (a.name ++ ("_stream.open(" ++ '"' :: (inputs ++ '/' :: (a.name ++ "\" );")))) =
          ("  " ++ (a.name ++ "_stream.open(")) ++ '"' :: (inputs ++ '/' :: (a.name ++ ("\" );" : Text))) := by simp
      rw [hline]
      refine pathLine_of_split ?_ ?_ ?_
      · simp [Text.ofString_eq, hslash]
      · simp [Text.ofString_eq, hclose]
      · simp [Text.ofString_eq, hopen]
    · intro x hx
      rw [List.mem_singleton.mp hx]
      exact quiet_of_no_paren (by simp [Text.ofString_eq, hopen])
    · intro x hx
      rcases List.mem_pair.mp hx with rfl | rfl
      · exact quiet_of_no_paren (by simp [Text.ofString_eq, hopen])
      · -- The stream is closed by a call without arguments, which is no generator.
        have hfront : '(' ∉ "  " ++ (a.name ++ ("_stream" : Text)) := by simp [Text.ofString_eq, hopen]
        have hline : "  " ++ (a.name ++ ("_stream" ++ '.' :: ("close(); " : Text))) =
            ("  " ++ (a.name ++ "_stream")) ++ '.' :: "close(); " := by simp
        refine ⟨lineCall_of_no_slashes fun h => ?_, fun d hd h => ?_⟩
        · have hmem : '/' ∈ "  " ++ (a.name ++ ("_stream" ++ '.' :: ("close(); " : Text))) :=
            h.subset (by with_unfolding_all decide)
          simp only [List.mem_append, List.mem_cons] at hmem
          rcases hmem with hm | hm | hm | hm | hm
          · exact absurd hm (by with_unfolding_all decide)
          · exact hslash hm
          · exact absurd hm (by with_unfolding_all decide)
          · exact absurd hm (by decide)
          · exact absurd hm (by with_unfolding_all decide)
        · have hclosed : ∀ d ∈ typesTable, '.' ∉ generatorCall d.ctype ∧ '(' ∈ generatorCall d.ctype ∧
              ¬ generatorCall d.ctype <:+: "close(); " := by with_unfolding_all decide
          obtain ⟨h₁, h₂, h₃⟩ := hclosed d hd
          rw [hline, Text.infix_append_cons_of_not_mem h₁] at h
          rcases h with h | h
          · exact hfront (h.subset h₂)
          · exact h₃ h
  · refine ⟨[], [_], _, rfl, ?_, by simp, ?_⟩
    · have hline : "  qs::c_qsave(" ++ (a.name ++ ("," ++ '"' :: (inputs ++ '/' :: (a.name ++ ".qs\",")))) =
          ("  qs::c_qsave(" ++ (a.name ++ ",")) ++ '"' :: (inputs ++ '/' :: (a.name ++ (".qs\"," : Text))) := by simp
      rw [hline]
      refine pathLine_of_split ?_ ?_ ?_
      · simp [Text.ofString_eq, hslash]
      · simp [Text.ofString_eq, hclose]
      · simp [Text.ofString_eq, hopen]
    · intro x hx
      rw [List.mem_singleton.mp hx]
      exact quiet_of_no_paren (by with_unfolding_all decide)

end RcppDeepState
