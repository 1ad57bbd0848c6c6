import RcppDeepState.Analysis.Editable

/-!
# What the range patterns find

A line offers the call between its first `//` and its last parenthesis, and a declaration is taken apart at the
generator it calls.
-/

namespace RcppDeepState

open Regex

/-! ## The call of a line -/

/-- The text behind the first `//`. -/
def afterSlashes : Text → Option Text
  | [] => none
  | c :: l => if ("//" : Text) <+: c :: l then some (l.drop 1) else afterSlashes l

/-- The text before the last `c`. -/
def beforeLast (c : Char) : Text → Option Text
  | [] => none
  | x :: t =>
      match beforeLast c t with
      | some a => some (x :: a)
      | none => if x = c then some [] else none

/-- What a line offers to the search for ranges. -/
def lineCall (l : Text) : Option Text := (afterSlashes l).bind (beforeLast '(')

theorem beforeLast_eq_none {c : Char} {t : Text} (h : beforeLast c t = none) : c ∉ t := by
  induction t with
  | nil => simp
  | cons x t ih =>
    unfold beforeLast at h
    split at h
    · cases h
    · rename_i hrest
      split at h
      · cases h
      · rename_i hx
        simp [Ne.symm hx, ih hrest]

theorem beforeLast_append {c : Char} {a b : Text} (hb : c ∉ b) : beforeLast c (a ++ c :: b) = some a := by
  have hnone (t : Text) (ht : c ∉ t) : beforeLast c t = none := by
    induction t with
    | nil => rfl
    | cons x t ih =>
      rw [List.mem_cons, not_or] at ht
      rw [beforeLast, ih ht.2]
      exact if_neg (Ne.symm ht.1)
  induction a with
  | nil =>
    rw [List.nil_append, beforeLast, hnone b hb]
    exact if_pos rfl
  | cons x a ih => rw [List.cons_append, beforeLast, ih]

theorem beforeLast_eq_some {c : Char} {t a : Text} (h : beforeLast c t = some a) : ∃ b, t = a ++ c :: b ∧ c ∉ b := by
  induction t generalizing a with
  | nil => cases h
  | cons x t ih =>
    unfold beforeLast at h
    split at h
    · rename_i a' hrest
      cases h
      obtain ⟨b, rfl, hb⟩ := ih hrest
      exact ⟨b, rfl, hb⟩
    · rename_i hrest
      split at h
      · rename_i hx
        cases h
        exact ⟨t, by rw [hx]; rfl, beforeLast_eq_none hrest⟩
      · cases h

theorem afterSlashes_eq_none {l : Text} (h : ¬ ("//" : Text) <:+: l) : afterSlashes l = none := by
  induction l with
  | nil => rfl
  | cons c l ih =>
    rw [List.infix_cons_iff, not_or] at h
    rw [afterSlashes, if_neg h.1, ih h.2]

theorem slashes_eq : ("//" : Text) = ['/', '/'] := by with_unfolding_all decide

/-- Text without a slash in front of a line goes unnoticed. -/
theorem afterSlashes_append {a : Text} (ha : '/' ∉ a) (l : Text) : afterSlashes (a ++ l) = afterSlashes l := by
  induction a with
  | nil => rfl
  | cons c a ih =>
    rw [List.mem_cons, not_or] at ha
    have hno : ¬ ("//" : Text) <+: c :: (a ++ l) := by
      rw [slashes_eq]
      exact fun h => ha.1 (List.cons_prefix_cons.mp h).1
    rw [List.cons_append, afterSlashes, if_neg hno, ih ha.2]

theorem lineCall_of_slashes (t : Text) : lineCall ("//" ++ t) = beforeLast '(' t := by
  have hpre : ("//" : Text) <+: '/' :: '/' :: t := by
    rw [slashes_eq]
    exact ⟨t, rfl⟩
  rw [lineCall, slashes_eq]
  show (afterSlashes ('/' :: '/' :: t)).bind _ = _
  rw [afterSlashes, if_pos hpre]
  rfl

/-! ## Searching -/

section Search

variable {l s : Text}

theorem openParen_lit : ("(" : Text) = ['('] := by with_unfolding_all decide

/-- No match starts in a line without a parenthesis. -/
theorem matchAt_of_no_paren (hl : '\n' ∉ l) (hp : '(' ∉ l) : rangePattern.matchAt (l ++ '\n' :: s) = none := by
  have hslash : '\n' ∉ ("//" : Text) := by with_unfolding_all decide
  by_cases h : ("//" : Text) <+: l
  · obtain ⟨t, rfl⟩ := h
    rw [List.mem_append, not_or] at hl hp
    rw [matchAt, rangePattern, run_cat_cons, List.append_assoc, run_lit_append, run_cat_cons, run_group]
    refine run_greedy_eq_none fun b s' hs hb => ?_
    -- What is left starts inside the line, where there is no parenthesis.
    obtain ⟨t', rfl, rfl⟩ := Text.append_eq_append_cons hs.symm fun hm => absurd (hb '\n' hm) (by decide)
    rw [run_cat_cons, run_lit_of_not_prefix]
    rw [openParen_lit]
    intro hparen
    cases t' with
    | nil => exact absurd (List.cons_prefix_cons.mp hparen).1 (by decide)
    | cons c t' =>
      obtain ⟨rfl, -⟩ := List.cons_prefix_cons.mp hparen
      exact hp.2 (by simp)
  · exact matchAt_lit_none fun hpre => h ((Text.prefix_append_cons_of_not_mem hslash).mp hpre)

theorem search_of_no_paren (hl : '\n' ∉ l) (hp : '(' ∉ l) :
    rangePattern.search (l ++ '\n' :: s) = rangePattern.search s := by
  have hend : rangePattern.matchAt ('\n' :: s) = none := @matchAt_of_no_paren [] s (by simp) (by simp)
  induction l with
  | nil => exact search_cons hend
  | cons c l ih =>
    have hhead : rangePattern.matchAt (c :: (l ++ '\n' :: s)) = none := matchAt_of_no_paren hl hp
    rw [List.mem_cons, not_or] at hl hp
    rw [List.cons_append, search_cons hhead, ih hl.2 hp.2]

theorem matchAt_range {a b : Text} (ha : '\n' ∉ a) (hb : '\n' ∉ b) (hparen : '(' ∉ b) :
    rangePattern.matchAt ("//" ++ (a ++ '(' :: (b ++ '\n' :: s))) = some ([(("fun_call" : Text), a)], b ++ '\n' :: s) := by
  rw [matchAt, rangePattern, run_cat_cons, run_lit_append, run_cat_cons, run_group]
  refine run_greedy_eq_some (mem_dot ha) ?_ ?_
  · intro c s' hs hne hc
    obtain ⟨x, c, rfl⟩ := List.exists_cons_of_ne_nil hne
    rw [List.cons_append] at hs
    obtain ⟨rfl, hrest⟩ := List.cons.inj hs
    obtain ⟨b', rfl, rfl⟩ := Text.append_eq_append_cons hrest.symm fun hm =>
      absurd (hc '\n' (List.mem_cons_of_mem _ hm)) (by decide)
    rw [run_cat_cons, run_lit_of_not_prefix]
    rw [openParen_lit]
    intro hpre
    cases b' with
    | nil => exact absurd (List.cons_prefix_cons.mp hpre).1 (by decide)
    | cons y b' =>
      obtain ⟨rfl, -⟩ := List.cons_prefix_cons.mp hpre
      exact hparen (by simp)
  · rw [take_matched, run_cat_cons, openParen_lit]
    have hlit := @run_lit_append _ (fun (c' : Captures) (s' : Text) => (cat []).run s' fun d s'' =>
      some ((("fun_call" : Text), a) :: (([] : Captures) ++ (c' ++ d)), s'')) ['('] (b ++ '\n' :: s)
    exact hlit

theorem lineCall_of_prefix {c : Char} {t : Text} (h : ("//" : Text) <+: c :: t) :
    ∃ t', c :: t = "//" ++ t' ∧ lineCall (c :: t) = beforeLast '(' t' := by
  obtain ⟨t', ht⟩ := h
  exact ⟨t', ht.symm, by rw [← ht, lineCall_of_slashes]⟩

theorem lineCall_cons {c : Char} {t : Text} (h : ¬ ("//" : Text) <+: c :: t) : lineCall (c :: t) = lineCall t := by
  rw [lineCall, afterSlashes, if_neg h]
  rfl

theorem lineCall_of_no_paren (hp : '(' ∉ l) : lineCall l = none := by
  induction l with
  | nil => rfl
  | cons c l ih =>
    by_cases h : ("//" : Text) <+: c :: l
    · obtain ⟨t, ht, hcall⟩ := lineCall_of_prefix h
      rw [hcall]
      cases hb : beforeLast '(' t with
      | none => rfl
      | some a =>
        obtain ⟨b, rfl, -⟩ := beforeLast_eq_some hb
        exact absurd (by rw [ht]; simp) hp
    · rw [lineCall_cons h]
      exact ih fun hm => hp (List.mem_cons_of_mem _ hm)

/-- A line without a call has no match. -/
theorem search_of_lineCall_none (hl : '\n' ∉ l) (hcall : lineCall l = none) :
    rangePattern.search (l ++ '\n' :: s) = rangePattern.search s := by
  induction l with
  | nil => exact search_of_no_paren hl (by simp)
  | cons c l ih =>
    by_cases h : ("//" : Text) <+: c :: l
    · obtain ⟨t, ht, hbefore⟩ := lineCall_of_prefix h
      rw [hcall] at hbefore
      refine search_of_no_paren hl ?_
      rw [ht, List.mem_append, not_or]
      exact ⟨by with_unfolding_all decide, beforeLast_eq_none hbefore.symm⟩
    · have hslash : '\n' ∉ ("//" : Text) := by with_unfolding_all decide
      have hhead : rangePattern.matchAt (c :: (l ++ '\n' :: s)) = none :=
        matchAt_lit_none fun hpre => h ((Text.prefix_append_cons_of_not_mem (a := c :: l) hslash).mp hpre)
      rw [List.cons_append, search_cons hhead]
      exact ih (fun hm => hl (List.mem_cons_of_mem _ hm)) (by rw [← lineCall_cons h, hcall])

/-- A line with a call has one match, which ends behind the last parenthesis. -/
theorem search_of_lineCall_some {a : Text} (hl : '\n' ∉ l) (hcall : lineCall l = some a) :
    ∃ b, '\n' ∉ b ∧ '(' ∉ b ∧
      rangePattern.search (l ++ '\n' :: s) = some ([(("fun_call" : Text), a)], b ++ '\n' :: s) := by
  induction l with
  | nil => cases hcall
  | cons c l ih =>
    by_cases h : ("//" : Text) <+: c :: l
    · obtain ⟨t, ht, hbefore⟩ := lineCall_of_prefix h
      rw [hcall] at hbefore
      obtain ⟨b, rfl, hb⟩ := beforeLast_eq_some hbefore.symm
      rw [ht] at hl
      simp only [List.mem_append, List.mem_cons, not_or] at hl
      refine ⟨b, hl.2.2.2, hb, ?_⟩
      rw [ht, List.append_assoc, List.append_assoc, List.cons_append]
      exact search_of_matchAt (matchAt_range hl.2.1 hl.2.2.2 hb)
    · have hslash : '\n' ∉ ("//" : Text) := by with_unfolding_all decide
      have hhead : rangePattern.matchAt (c :: (l ++ '\n' :: s)) = none :=
        matchAt_lit_none fun hpre => h ((Text.prefix_append_cons_of_not_mem (a := c :: l) hslash).mp hpre)
      rw [List.cons_append, search_cons hhead]
      exact ih (fun hm => hl (List.mem_cons_of_mem _ hm)) (by rw [← lineCall_cons h, hcall])

end Search

/-! ## The calls of a file -/

theorem findAllFrom_ranges {ls : List Text} {last : Text} (hls : ∀ l ∈ ls, '\n' ∉ l)
    (hlast : rangePattern.search last = none) {n : ℕ} (hn : ls.length ≤ n) {s : Text}
    (hs : rangePattern.search s = rangePattern.search (Text.unlines ls ++ last)) :
    rangePattern.findAllFrom n s = (ls.filterMap lineCall).map fun a => [(("fun_call" : Text), a)] := by
  induction ls generalizing n s with
  | nil =>
    rw [Text.unlines_nil, List.nil_append, hlast] at hs
    rw [findAllFrom_of_search_none hs]
    rfl
  | cons l ls ih =>
    have hl := hls l (by simp)
    have hrest := fun x hx => hls x (List.mem_cons_of_mem l hx)
    rw [Text.unlines_cons, List.append_assoc, List.cons_append] at hs
    cases hcall : lineCall l with
    | none =>
      rw [search_of_lineCall_none hl hcall] at hs
      rw [List.filterMap_cons_none hcall]
      exact ih hrest (by simp at hn; omega) hs
    | some a =>
      obtain ⟨n, rfl⟩ : ∃ m, n = m + 1 := ⟨n - 1, by simp at hn; omega⟩
      obtain ⟨b, hb, hparen, hsearch⟩ := @search_of_lineCall_some l (Text.unlines ls ++ last) a hl hcall
      rw [hsearch] at hs
      rw [findAllFrom_of_search hs, List.filterMap_cons_some hcall, List.map_cons]
      exact congrArg _ (ih hrest (by simpa using hn) (search_of_no_paren hb hparen))

theorem join_append_last (ls : List Text) (last : Text) : Text.join "\n" (ls ++ [last]) = Text.unlines ls ++ last := by
  have hnewline : ("\n" : Text) = ['\n'] := by with_unfolding_all decide
  induction ls with
  | nil => rfl
  | cons l ls ih =>
    rw [List.cons_append, Text.join_cons l (by simp), ih, hnewline, Text.unlines_cons]
    simp

theorem search_last {last : Text} (h : '/' ∉ last) : rangePattern.search last = none := by
  have hnone (t : Text) (ht : '/' ∉ t) : rangePattern.matchAt t = none := by
    refine matchAt_lit_none fun hpre => ht (hpre.subset ?_)
    with_unfolding_all decide
  induction last with
  | nil => exact hnone [] h
  | cons c l ih =>
    rw [search_cons (hnone _ h)]
    exact ih fun hm => h (List.mem_cons_of_mem _ hm)

/-- The calls of a file are those of its lines, where the last line has none. -/
theorem rangeElements_eq {ls : List Text} {last : Text} (hls : ∀ l ∈ ls, '\n' ∉ l) (hlast : '/' ∉ last) :
    rangeElements (ls ++ [last]) = ls.filterMap lineCall := by
  have hlen := Text.length_le_unlines ls
  have hcaptured : captured "fun_call" ∘ (fun t : Text => ([(("fun_call" : Text), t)] : Captures)) = id := by
    funext t
    simp [captured]
  rw [rangeElements, join_append_last, findAll, findAllFrom_ranges hls (search_last hlast) (by simp; omega) rfl,
    List.map_map, hcaptured, List.map_id]

/-! ## The variable of a declaration -/

section Variable

variable {β : Type} {a t : Text} {c : Char}

/-- A greedy loop that a character has to follow stops before the last one. -/
theorem run_any_until {rs : List Regex} {k : Captures → Text → Captures → Text → Option β} {v : β} (ha : '\n' ∉ a)
    (ht : c ∉ t) (hv : (cat rs).run t (fun d s => k [] (c :: t) ([] ++ d) s) = some v) :
    anyText.run (a ++ c :: t) (fun d s => (cat (lit [c] :: rs)).run s (k d s)) = some v := by
  refine run_greedy_eq_some (mem_dot ha) ?_ ?_
  · intro b s' hs hne hb
    obtain ⟨x, b, rfl⟩ := List.exists_cons_of_ne_nil hne
    rw [List.cons_append] at hs
    obtain ⟨rfl, rfl⟩ := List.cons.inj hs
    rw [run_cat_cons, run_lit_of_not_prefix]
    intro hpre
    exact ht (List.mem_append_right _ (hpre.subset (by simp)))
  · have hlit := @run_lit_append _ (fun d s => (cat rs).run s fun e s' => k [] (c :: t) (d ++ e) s') [c] t
    exact hlit.trans hv

/-- A declaration is taken apart at its last `=`. -/
theorem rangeVariable_eq {val type rest : Text} (hval : '\n' ∉ val) (htype : '\n' ∉ type) (heq : '=' ∉ type)
    (heq' : '=' ∉ rest) (hparen : '(' ∉ rest) :
    rangeVariable (val ++ '=' :: (" RcppDeepState_" ++ (type ++ '(' :: rest))) = (val, type) := by
  have hequals : ("=" : Text) = ['='] := by with_unfolding_all decide
  have hmatch : variablePattern.matchAt (val ++ '=' :: (" RcppDeepState_" ++ (type ++ '(' :: rest))) =
      some ([(("val" : Text), val), (("type" : Text), type)], rest) := by
    rw [matchAt, variablePattern, run_cat_cons, run_group, hequals]
    refine run_any_until hval ?_ ?_
    · simp only [List.mem_append, List.mem_cons, not_or]
      exact ⟨by with_unfolding_all decide, heq, by decide, heq'⟩
    · rw [take_matched, run_cat_cons, run_lit_append, run_cat_cons, run_group, openParen_lit]
      refine run_any_until htype hparen ?_
      rw [take_matched, run_cat_nil]
      rfl
  have hsearch := findAllFrom_of_search
    (n := (val ++ '=' :: (" RcppDeepState_" ++ (type ++ '(' :: rest))).length) (search_of_matchAt hmatch)
  have hval' : captured "val" [(("val" : Text), val), (("type" : Text), type)] = val := by simp [captured]
  have htype' : captured "type" [(("val" : Text), val), (("type" : Text), type)] = type := by
    have hne : (("type" : Text) == "val") = false := by with_unfolding_all decide
    simp [captured, List.lookup_cons, hne]
  rw [rangeVariable, findAll, hsearch]
  exact congrArg₂ Prod.mk hval' htype'

end Variable

end RcppDeepState
