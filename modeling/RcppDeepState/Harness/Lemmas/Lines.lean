import RcppDeepState.Harness.Text

/-!
# The lines of a harness

The texts of an argument stay on their lines, and the declarations are the lines of a macro.
-/

namespace RcppDeepState

/-! ## Texts of one line -/

/-- What the texts of an argument need to stay on their lines. -/
structure OnOneLine (a : Argument) : Prop where
  type : a.type.OneLine
  name : a.name.OneLine

section Parts

variable {a : Argument} {args : List Argument}

theorem oneLine_gsub {pat t : Text} (ht : t.OneLine) : (Text.gsub pat [] t).OneLine := by
  refine ht.of_subset fun c hc => ?_
  rcases Text.mem_gsub hc with hc | hc
  · exact hc
  · cases hc

theorem OnOneLine.key (ha : OnOneLine a) : a.key.OneLine :=
  oneLine_gsub (oneLine_gsub (oneLine_gsub (oneLine_gsub ha.type)))

theorem oneLine_args {t args : Text} (h : argsOf t = some args) : args.OneLine := by
  have htable : ∀ d ∈ typesTable, ∀ x ∈ d.args, x.OneLine := by with_unfolding_all decide
  obtain ⟨d, hd, hargs⟩ := Option.bind_eq_some_iff.mp h
  exact htable d (List.mem_of_find?_eq_some hd) args hargs

theorem oneLine_rtype {t rtype : Text} (h : rtypeOf t = some rtype) : rtype.OneLine := by
  have htable : ∀ d ∈ typesTable, ∀ x ∈ d.rtype, x.OneLine := by with_unfolding_all decide
  obtain ⟨d, hd, hrtype⟩ := Option.bind_eq_some_iff.mp h
  exact htable d (List.mem_of_find?_eq_some hd) rtype hrtype

/-! ## Declarations -/

/-- The lines of a declaration, without what continues them. -/
def variableLines (a : Argument) : List Text :=
  match rtypeOf a.key with
  | some rtype => ["  " ++ rtype ++ " " ++ a.name ++ "(1); ", "  " ++ a.name ++ "[0]= RcppDeepState_" ++ a.key ++ "(); "]
  | none => ["  " ++ a.type ++ " " ++ a.name ++ "= RcppDeepState_" ++ a.key ++ "(); "]

def declarationLines (a : Argument) : List Text := (variableLines a).map (Text.gsub "const" [])

/-- The lines of a macro, all of them continued. -/
def continued (ls : List Text) : Text := ls.flatMap (· ++ ['\\', '\n'])

theorem continued_eq_unlines (ls : List Text) : continued ls = Text.unlines (ls.map (· ++ ['\\'])) := by
  simp [continued, Text.unlines, List.flatMap_map]

theorem rawVariable_eq (a : Argument) : rawVariable a = continued (variableLines a) := by
  unfold rawVariable variableLines continued
  cases rtypeOf a.key <;> simp [Text.ofString_eq]

theorem variableText_eq (a : Argument) : variableText a = continued (declarationLines a) := by
  have hgsub : ∀ ls : List Text, Text.gsub "const" [] (continued ls) =
      continued (ls.map (Text.gsub "const" [])) := by
    intro ls
    have hslash : '\\' ∉ ("const" : Text) := by with_unfolding_all decide
    rw [continued_eq_unlines, Text.gsub_unlines (by with_unfolding_all decide) (by with_unfolding_all decide), continued_eq_unlines,
      List.map_map, List.map_map]
    congr 1
    refine List.map_congr_left fun l _ => ?_
    exact Text.gsub_append_cons (b := []) (by with_unfolding_all decide) hslash
  rw [variableText, rawVariable_eq, hgsub, declarationLines]

theorem mem_variableLines {l : Text} (ha : OnOneLine a) (hl : l ∈ variableLines a) :
    l.OneLine ∧ ∃ t, l = ' ' :: t := by
  unfold variableLines at hl
  cases hrt : rtypeOf a.key with
  | none =>
      simp only [hrt, List.mem_singleton] at hl
      subst hl
      simp [Text.ofString_eq, ha.type, ha.name, ha.key]
  | some rtype =>
      simp only [hrt, List.mem_cons, List.not_mem_nil, or_false] at hl
      rcases hl with rfl | rfl <;>
        simp [Text.ofString_eq, ha.name, ha.key, oneLine_rtype hrt]

theorem mem_declarationLines {l : Text} (ha : OnOneLine a) (hl : l ∈ declarationLines a) :
    l.OneLine ∧ ∃ t, l = ' ' :: t := by
  obtain ⟨r, hr, rfl⟩ := List.mem_map.mp hl
  obtain ⟨hn, t, rfl⟩ := mem_variableLines ha hr
  refine ⟨oneLine_gsub hn, Text.gsub "const" [] t, ?_⟩
  exact Text.gsub_cons_of_no_match (by simp [Text.ofString_eq])

end Parts

end RcppDeepState
