import Mathlib.Data.List.TakeWhile
import RcppDeepState.Exports.Writer

/-!
# The match of the details pattern on one function

Where the pattern starts to match, and what it captures on the block of an exported function.
-/

namespace RcppDeepState

open Regex

/-! ## Characters -/

theorem Identifier.not_mem {n : Text} (h : Identifier n) {c : Char} (hc : isIdentChar c = false) :
    c ∉ n := by
  intro hm
  rw [h.chars c hm] at hc
  cases hc

theorem Identifier.oneLine {n : Text} (h : Identifier n) : n.OneLine :=
  ⟨h.not_mem (by decide), h.not_mem (by decide)⟩

theorem Identifier.exists_cons {n : Text} (h : Identifier n) :
    ∃ c s, n = c :: s ∧ isIdentChar c = true := by
  obtain ⟨c, s, rfl⟩ := List.exists_cons_of_ne_nil h.ne_nil
  exact ⟨c, s, rfl, h.chars c (by simp)⟩

theorem isSpace_of_isIdentChar {c : Char} (h : isIdentChar c = true) : isSpace c = false := by
  by_contra hs
  have hs' : isSpace c = true := by simpa using hs
  simp only [isSpace, Bool.or_eq_true, decide_eq_true_eq] at hs'
  rcases hs' with ((((rfl | rfl) | rfl) | rfl) | rfl) | rfl <;> exact absurd h (by decide)

theorem not_mem_join {c : Char} {sep : Text} {ts : List Text} (hsep : c ∉ sep)
    (hts : ∀ t ∈ ts, c ∉ t) : c ∉ Text.join sep ts := by
  induction ts with
  | nil => simp [Text.join]
  | cons t ts ih =>
      cases ts with
      | nil => simpa [Text.join] using hts t (by simp)
      | cons t' ts =>
          have ih' := ih (fun x hx => hts x (by simp [hx]))
          simp only [Text.join, List.mem_append, not_or]
          exact ⟨⟨hts t (by simp), hsep⟩, ih'⟩

namespace Export

variable {e : Export}

theorem not_mem_arguments {c : Char} (hsep : c ∉ (", " : Text)) (hid : isIdentChar c = false)
    (ht : ∀ p : Param, c ∉ p.type) : c ∉ e.arguments := by
  refine not_mem_join hsep ?_
  intro t ht'
  obtain ⟨p, _, rfl⟩ := List.mem_map.mp ht'
  have hsp : c ≠ ' ' := by rintro rfl; exact hsep (by with_unfolding_all decide)
  simp [Text.ofString_eq, ht p, hsp, p.name_ok.not_mem hid]

theorem newline_not_mem_arguments : '\n' ∉ e.arguments :=
  not_mem_arguments (by with_unfolding_all decide) (by decide) (fun p => p.type_ok.newline)

theorem paren_not_mem_arguments : '(' ∉ e.arguments :=
  not_mem_arguments (by with_unfolding_all decide) (by decide) (fun p => p.type_ok.paren)

theorem newline_not_mem_prototype : '\n' ∉ e.prototype := by
  simp [Text.ofString_eq, prototype, e.returnType_ok.newline, newline_not_mem_arguments,
    e.name_ok.not_mem (show isIdentChar '\n' = false by decide)]

theorem newline_not_mem_sexp {symbol : Text} (hs : '\n' ∉ symbol) : '\n' ∉ e.sexp symbol := by
  have hp : '\n' ∉ e.sexpParams := by
    unfold sexpParams
    refine not_mem_join (by with_unfolding_all decide) ?_
    intro t ht
    obtain ⟨p, _, rfl⟩ := List.mem_map.mp ht
    simp [Text.ofString_eq, p.name_ok.not_mem (show isIdentChar '\n' = false by decide)]
  simp [Text.ofString_eq, sexp, hs, hp, e.name_ok.not_mem (show isIdentChar '\n' = false by decide)]

end Export

/-! ## Where the pattern can start -/

theorem matchAt_of_ne_newline {c : Char} {s : Text} (h : c ≠ '\n') :
    packageDetailsPattern.matchAt (c :: s) = none := by
  refine matchAt_lit_none ?_
  simp [Text.ofString_eq, Ne.symm h]

/-- The pattern behind the line feed and the blanks it starts with. -/
def commentParts : List Regex :=
  [lit "// ", group "commentName" anyText, lit "\n",
    group "prototype" prototypePattern, lit "\n",
    group "SEXP" (cat [anyText, lit "\n"]), spaces, lit "BEGIN_RCPP", spaces, lit "\n",
    group "code" (star false (cat [anyText, lit "\n"])), spaces, lit "END_RCPP"]

def commentPattern : Regex := cat commentParts

theorem packageDetailsPattern_eq :
    packageDetailsPattern = cat (lit "\n" :: spaces :: commentParts) := rfl

theorem run_commentParts_none {β : Type} {k : Captures → Text → Option β} {s : Text}
    (h : ¬ ("// " : Text) <+: s) : (cat commentParts).run s k = none := by
  unfold commentParts
  rw [run_cat_cons, run_lit_of_not_prefix h]

theorem matchAt_newline (s : Text) :
    packageDetailsPattern.matchAt ('\n' :: s) = commentPattern.matchAt (s.dropWhile isSpace) := by
  rw [matchAt, packageDetailsPattern_eq, run_cat_cons, run_lit_newline, run_cat_cons, spaces,
    run_loop_dropWhile]
  · simp only [List.nil_append, matchAt, commentPattern]
  · intro c s' hc
    refine run_commentParts_none ?_
    rw [Text.ofString_eq]
    intro hp
    obtain ⟨rfl, _⟩ := List.cons_prefix_cons.mp hp
    exact absurd hc (by decide)

/-- A line that is no comment holds no start of a match. -/
theorem search_skip_line {l s : Text} (hl : '\n' ∉ l) (hc : ¬ ("// " : Text) <+: l.dropWhile isSpace) :
    packageDetailsPattern.search ('\n' :: (l ++ '\n' :: s)) =
      packageDetailsPattern.search ('\n' :: s) := by
  have hskip : packageDetailsPattern.search (l ++ '\n' :: s) =
      packageDetailsPattern.search ('\n' :: s) := by
    refine search_append ?_
    intro a b hab hb
    obtain ⟨c, b, rfl⟩ := List.exists_cons_of_ne_nil hb
    refine matchAt_of_ne_newline ?_
    rintro rfl
    exact hl (by simp [hab])
  by_cases hblank : l.dropWhile isSpace = []
  · -- A blank line is skipped by the blanks of the pattern, so both sides try the same text first.
    have hdrop : (l ++ '\n' :: s).dropWhile isSpace = s.dropWhile isSpace := by
      rw [List.dropWhile_append, hblank]
      simp [isSpace]
    have h1 : packageDetailsPattern.matchAt ('\n' :: (l ++ '\n' :: s)) =
        packageDetailsPattern.matchAt ('\n' :: s) := by
      rw [matchAt_newline, matchAt_newline, hdrop]
    cases hm : packageDetailsPattern.matchAt ('\n' :: s) with
    | some v => rw [search_of_matchAt hm, search_of_matchAt (h1.trans hm)]
    | none => rw [search_cons (h1.trans hm), hskip]
  · have hdrop : (l ++ '\n' :: s).dropWhile isSpace = l.dropWhile isSpace ++ '\n' :: s := by
      rw [List.dropWhile_append]
      simp [hblank]
    have hnone : packageDetailsPattern.matchAt ('\n' :: (l ++ '\n' :: s)) = none := by
      rw [matchAt_newline, hdrop]
      refine run_commentParts_none ?_
      rwa [Text.prefix_append_cons_of_not_mem (by with_unfolding_all decide)]
    rw [search_cons hnone, hskip]

/-! ## The prototype -/

theorem openParen_eq : ("(" : Text) = ['('] := by with_unfolding_all decide

theorem closeParen_eq : (");" : Text) = [')', ';'] := by with_unfolding_all decide

theorem blank_eq : (" " : Text) = [' '] := by with_unfolding_all decide

/-- The part of the prototype pattern behind the return type. -/
def namePattern : Regex :=
  cat [lit " ", group "funName" (star false dot), lit "(", group "arguments" anyText, lit ");"]

theorem run_namePattern_none {β : Type} {k : Captures → Text → Option β} {x y : Text}
    (hx : '(' ∉ x) : namePattern.run (x ++ '\n' :: y) k = none := by
  by_cases hsp : (" " : Text) <+: x
  · obtain ⟨x, rfl⟩ := hsp
    rw [namePattern, run_cat_cons, List.append_assoc, run_lit_append, run_cat_cons, run_group]
    refine run_lazy_eq_none ?_
    intro b s' hs hb
    have hnl : '\n' ∉ b := fun hm => by simpa using hb _ hm
    obtain ⟨z, rfl, rfl⟩ := Text.append_eq_append_cons hs.symm hnl
    rw [run_cat_cons, run_lit_of_not_prefix]
    rw [Text.prefix_append_cons_of_not_mem (by with_unfolding_all decide), openParen_eq]
    intro hp
    exact hx (by simp [hp.subset (List.mem_singleton_self _)])
  · rw [namePattern, run_cat_cons, run_lit_of_not_prefix]
    rwa [Text.prefix_append_cons_of_not_mem (by with_unfolding_all decide)]

theorem run_namePattern {β : Type} {k : Captures → Text → Option β} {f args s : Text} {v : β}
    (hf : Identifier f) (hargs : '\n' ∉ args)
    (hk : k [("funName", f), ("arguments", args)] ('\n' :: s) = some v) :
    namePattern.run (" " ++ (f ++ ("(" ++ (args ++ (");" ++ '\n' :: s))))) k = some v := by
  rw [namePattern, run_cat_cons, run_lit_append, run_cat_cons, run_group]
  refine run_lazy_eq_some (mem_dot (hf.not_mem (by decide))) ?_ ?_
  · intro b b' hb hne
    rw [run_cat_cons, run_lit_of_not_prefix]
    obtain ⟨c, b', rfl⟩ := List.exists_cons_of_ne_nil hne
    rw [openParen_eq, List.cons_append]
    intro hp
    obtain ⟨rfl, _⟩ := List.cons_prefix_cons.mp hp
    exact hf.not_mem (show isIdentChar '(' = false by decide) (by simp [hb])
  · rw [run_cat_cons, run_lit_append, run_cat_cons, run_group, anyText]
    refine run_greedy_eq_some (mem_dot hargs) ?_ ?_
    · intro b s' hs hne hb
      -- What is left of `);` behind a longer run does not start with `)`.
      have hnl : '\n' ∉ b := fun hm => by simpa using hb _ hm
      obtain ⟨z, hz, rfl⟩ := Text.append_eq_append_cons hs.symm hnl
      obtain ⟨c, b, rfl⟩ := List.exists_cons_of_ne_nil hne
      rw [run_cat_cons, run_lit_of_not_prefix]
      rw [Text.prefix_append_cons_of_not_mem (by with_unfolding_all decide), closeParen_eq]
      rintro ⟨t, rfl⟩
      have hlen := congrArg List.length (closeParen_eq.symm.trans hz)
      simp only [List.length_append, List.length_cons, List.length_nil] at hlen
      omega
    · simpa [run_lit_append] using hk

theorem prototypePattern_eq :
    prototypePattern = cat (group "returnType" anyText ::
      [lit " ", group "funName" (star false dot), lit "(", group "arguments" anyText, lit ");"]) := rfl

theorem run_prototypePattern {β : Type} {k : Captures → Text → Option β} {e : Export} {s : Text} {v : β}
    (hk : k [("returnType", e.returnType), ("funName", e.name), ("arguments", e.arguments)]
      ('\n' :: s) = some v) :
    prototypePattern.run (e.prototype ++ '\n' :: s) k = some v := by
  have htext : e.prototype ++ '\n' :: s = e.returnType ++
      (" " ++ (e.name ++ ("(" ++ (e.arguments ++ (");" ++ '\n' :: s))))) := by
    simp only [Export.prototype, List.append_assoc]
  rw [prototypePattern_eq, htext, run_cat_cons, run_group, anyText]
  refine run_greedy_eq_some (mem_dot e.returnType_ok.newline) ?_ ?_
  · intro b s' hs hne hb
    -- Behind a longer return type no parenthesis is left on the line.
    have hnl : '\n' ∉ b := fun hm => by simpa using hb _ hm
    obtain ⟨c, b, rfl⟩ := List.exists_cons_of_ne_nil hne
    rw [blank_eq, List.singleton_append, List.cons_append] at hs
    obtain ⟨rfl, htail⟩ := List.cons.inj hs
    by_cases hp : '(' ∈ b
    · have hline : e.name ++ ("(" ++ (e.arguments ++ (");" ++ '\n' :: s))) =
          (e.name ++ ("(" ++ (e.arguments ++ ");"))) ++ '\n' :: s := by
        simp only [List.append_assoc]
      obtain ⟨z, hz, rfl⟩ :=
        Text.append_eq_append_cons (htail.symm.trans hline) (fun h => hnl (List.mem_cons_of_mem _ h))
      refine run_namePattern_none ?_
      have hcount : (e.name ++ ("(" ++ (e.arguments ++ ");")) : Text).count '(' = 1 := by
        simp [openParen_eq, closeParen_eq, List.count_append,
          List.count_eq_zero_of_not_mem (e.name_ok.not_mem (show isIdentChar '(' = false by decide)),
          List.count_eq_zero_of_not_mem e.paren_not_mem_arguments]
      intro hz'
      rw [hz, List.count_append] at hcount
      have h1 := List.count_pos_iff.mpr hp
      have h2 := List.count_pos_iff.mpr hz'
      omega
    · rw [openParen_eq] at htail
      obtain ⟨z, hz, rfl⟩ := Text.append_eq_append_cons htail.symm hp
      rw [run_cat_cons, run_lit_of_not_prefix]
      rw [blank_eq]
      intro hpre
      have hz' : [' '] <+: z :=
        (Text.prefix_append_cons_of_not_mem (by decide)).mp hpre
      exact e.name_ok.not_mem (show isIdentChar ' ' = false by decide)
        (by simp [hz, hz'.subset (List.mem_singleton_self _)])
  · refine run_namePattern e.name_ok e.newline_not_mem_arguments ?_
    simpa using hk

/-! ## The body -/

/-- The line ends the body as the pattern reads it. -/
def endsBody (l : Text) : Bool := decide (("END_RCPP" : Text) <+: l.dropWhile isSpace)

/-- The lines of a body the pattern keeps. -/
def bodyLines (ls : List Text) : List Text := ls.takeWhile (!endsBody ·)

def codeParts : List Regex :=
  [group "code" (star false (cat [anyText, lit "\n"])), spaces, lit "END_RCPP"]

theorem dropWhile_line {l s : Text} (hl : l.dropWhile isSpace ≠ []) :
    (l ++ s).dropWhile isSpace = l.dropWhile isSpace ++ s := by
  rw [List.dropWhile_append]
  simp [hl]

theorem run_blanks {β : Type} {k : Captures → Text → Option β} {t s : Text}
    (ht : ∀ c s', isSpace c = true → ¬ t <+: c :: s') :
    (cat [spaces, lit t]).run s k = (cat [lit t]).run (s.dropWhile isSpace) k := by
  rw [run_cat_cons, spaces, run_loop_dropWhile]
  · simp only [List.nil_append]
  · intro c s' hc
    rw [run_cat_cons, run_lit_of_not_prefix (ht c s' hc)]

theorem not_prefix_of_isSpace {x : Char} {t : Text} (hx : isSpace x = false) (c : Char) (s : Text)
    (hc : isSpace c = true) : ¬ x :: t <+: c :: s := by
  intro hp
  obtain ⟨rfl, _⟩ := List.cons_prefix_cons.mp hp
  rw [hc] at hx
  cases hx

theorem run_codeParts {β : Type} {k : Captures → Text → Option β} {ls : List Text} {t rest : Text}
    {v : β} (hls : ∀ l ∈ ls, '\n' ∉ l ∧ l.dropWhile isSpace ≠ [] ∧ endsBody l = false)
    (ht : t.dropWhile isSpace = "END_RCPP" ++ rest)
    (hk : k [("code", Text.unlines ls)] rest = some v) :
    (cat codeParts).run (Text.unlines ls ++ t) k = some v := by
  have hE : ∀ c s', isSpace c = true → ¬ ("END_RCPP" : Text) <+: c :: s' := by
    rw [show ("END_RCPP" : Text) = 'E' :: "ND_RCPP".toList by with_unfolding_all decide]
    exact not_prefix_of_isSpace (by decide)
  rw [codeParts, run_cat_cons, run_group, anyText]
  refine run_lazy_lines (fun l hl => (hls l hl).1) ?_ ?_
  · intro ls₁ ls₂ hsplit hne
    obtain ⟨l, ls₂, rfl⟩ := List.exists_cons_of_ne_nil hne
    obtain ⟨hnl, hblank, hend⟩ := hls l (by simp [hsplit])
    rw [run_blanks hE, Text.unlines_cons, List.append_assoc, List.cons_append, dropWhile_line hblank,
      run_cat_cons, run_lit_of_not_prefix]
    rw [Text.prefix_append_cons_of_not_mem (by with_unfolding_all decide)]
    simpa [endsBody] using hend
  · rw [run_blanks hE, ht, run_cat_cons, run_lit_append]
    simpa using hk

def sexpParts : List Regex :=
  [group "SEXP" (cat [anyText, lit "\n"]), spaces, lit "BEGIN_RCPP", spaces, lit "\n"] ++ codeParts

/-- A run of blanks at the start of a line that is not blank ends inside the line. -/
theorem eq_append_of_blanks {l b s s' : Text} (hl : l.dropWhile isSpace ≠ [])
    (hb : ∀ c ∈ b, isSpace c = true) (h : l ++ s = b ++ s') : ∃ z, z ≠ [] ∧ l = b ++ z ∧ s' = z ++ s := by
  have hnot : ¬ ∀ c ∈ l, isSpace c = true := fun hall => hl (List.dropWhile_eq_nil_iff.mpr hall)
  rcases List.append_eq_append_iff.mp h with ⟨z, rfl, rfl⟩ | ⟨z, rfl, rfl⟩
  · exact absurd (fun c hc => hb c (by simp [hc])) hnot
  · refine ⟨z, ?_, rfl, rfl⟩
    rintro rfl
    exact hnot (by simpa using hb)

theorem run_sexpParts {β : Type} {k : Captures → Text → Option β} {sexp l s : Text} {v : β}
    (hsexp : '\n' ∉ sexp) (hl : '\n' ∉ l) (hblank : l.dropWhile isSpace ≠ [])
    (hk : (cat codeParts).run (l ++ s) (fun d s'' => k (("SEXP", sexp ++ ['\n']) :: d) s'') = some v) :
    (cat sexpParts).run (sexp ++ '\n' :: ("BEGIN_RCPP" ++ '\n' :: (l ++ s))) k = some v := by
  have hB : ("BEGIN_RCPP" : Text) = 'B' :: "EGIN_RCPP".toList := by with_unfolding_all decide
  have hlen : ∀ t : Text, (sexp ++ '\n' :: t).take ((sexp ++ '\n' :: t).length - t.length) =
      sexp ++ ['\n'] := by
    intro t
    have := take_matched (sexp ++ ['\n']) t
    simpa only [List.append_assoc, List.singleton_append] using this
  rw [sexpParts, List.cons_append, run_cat_cons, run_group, anyText, run_line hsexp, hlen,
    List.cons_append, run_cat_cons, spaces, run_loop_dropWhile]
  · have hdrop : ("BEGIN_RCPP" ++ '\n' :: (l ++ s)).dropWhile isSpace =
        "BEGIN_RCPP" ++ '\n' :: (l ++ s) := by
      rw [hB]; simp [isSpace]
    rw [hdrop, List.cons_append, run_cat_cons, run_lit_append, List.cons_append, run_cat_cons,
      ← List.nil_append ('\n' :: (l ++ s))]
    refine run_greedy_eq_some (by simp) ?_ ?_
    · intro b s' hs hne hb
      -- Behind a longer run of blanks the first line of the body has not ended.
      obtain ⟨c, b, rfl⟩ := List.exists_cons_of_ne_nil hne
      rw [List.cons_append] at hs
      obtain ⟨rfl, htail⟩ := List.cons.inj hs
      obtain ⟨z, hz, rfl, rfl⟩ :=
        eq_append_of_blanks hblank (fun x hx => hb x (List.mem_cons_of_mem _ hx)) htail
      obtain ⟨d, z, rfl⟩ := List.exists_cons_of_ne_nil hz
      have hd : '\n' ≠ d := by rintro rfl; exact hl (by simp)
      rw [List.cons_append, run_cat_cons, run_lit_of_not_prefix]
      simp [Text.ofString_eq, hd]
    · rw [List.cons_append, run_cat_cons, run_lit_newline, List.nil_append]
      simpa using hk
  · intro c s' hc
    rw [List.cons_append, run_cat_cons, run_lit_of_not_prefix]
    rw [hB]
    exact not_prefix_of_isSpace (by decide) c s' hc

end RcppDeepState
