import RcppDeepState.Library.Matches
import RcppDeepState.Exports.Details

/-!
# The blocks of an exports file

A block has the shape that Rcpp writes for a function. The details pattern matches the blocks, and of the ways to read
one at a start it takes the tightest.
-/

namespace RcppDeepState

open Regex

def Blank (l : Text) : Prop := ∀ c ∈ l, isSpace c = true

/-- A block of the exports file: the texts of a row, and the blanks and lines that are in no row. -/
structure Block where
  details : Details
  indent : Text
  sexpLine : Text
  beforeBegin : Text
  afterBegin : Text
  lines : List Text
  beforeEnd : Text
  indent_blank : Blank indent
  beforeBegin_blank : Blank beforeBegin
  afterBegin_blank : Blank afterBegin
  beforeEnd_blank : Blank beforeEnd
  commentName_line : '\n' ∉ details.commentName
  returnType_line : '\n' ∉ details.returnType
  funName_line : '\n' ∉ details.funName
  arguments_line : '\n' ∉ details.arguments
  sexpLine_line : '\n' ∉ sexpLine
  lines_line : ∀ l ∈ lines, '\n' ∉ l
  prototype_eq : details.prototype =
    details.returnType ++ (" " ++ (details.funName ++ ("(" ++ (details.arguments ++ ");"))))
  SEXP_eq : details.SEXP = sexpLine ++ "\n"
  code_eq : details.code = Text.unlines lines

namespace Block

def head (b : Block) : Text := "\n" ++ (b.indent ++ ("// " ++ (b.details.commentName ++ "\n")))

def middle (b : Block) : Text := "\n" ++ (b.details.SEXP ++ (b.beforeBegin ++ "BEGIN_RCPP"))

def body (b : Block) : Text := b.afterBegin ++ ("\n" ++ (b.details.code ++ (b.beforeEnd ++ "END_RCPP")))

def text (b : Block) : Text := b.head ++ (b.details.prototype ++ (b.middle ++ b.body))

def captures (b : Block) : Captures :=
  [("commentName", b.details.commentName), ("prototype", b.details.prototype), ("returnType", b.details.returnType),
    ("funName", b.details.funName), ("arguments", b.details.arguments), ("SEXP", b.details.SEXP),
    ("code", b.details.code)]

theorem ofCaptures_captures (b : Block) : Details.ofCaptures b.captures = b.details := by
  with_unfolding_all rfl

end Block

/-- A line that could close a block. -/
def ClosingLine (l : Text) : Prop := ∃ w rest, Blank w ∧ l = w ++ ("END_RCPP" ++ rest)

/-- The name of a prototype is the last word that a bracket follows, up to the bracket. -/
structure TightCall (funName arguments : Text) : Prop where
  funName_blank : ' ' ∉ funName
  funName_paren : '(' ∉ funName
  arguments_paren : ∀ u v, arguments = u ++ ' ' :: v → '(' ∉ v

/-- The code goes from the first line with text to the last one before a line that closes the block. -/
structure TightCode (lines : List Text) (beforeEnd : Text) : Prop where
  open_line : ∀ l ∈ lines, ¬ ClosingLine l
  first_line : ∀ l ls, lines = l :: ls → ¬ Blank l
  last_line : ∀ ls l, lines = ls ++ [l] → ¬ Blank l
  no_line : lines = [] → '\n' ∉ beforeEnd

/-- The parts of the block are as the pattern prefers them. -/
structure Block.Tight (b : Block) : Prop where
  call : TightCall b.details.funName b.details.arguments
  code : TightCode b.lines b.beforeEnd

/-! ## The parts of the pattern -/

def blockHead : List Regex := [lit "\n", spaces, lit "// ", group "commentName" anyText, lit "\n"]

def argumentParts : List Regex := [lit "(", group "arguments" anyText, lit ");"]

def callParts : List Regex := lit " " :: group "funName" (star false dot) :: argumentParts

def blockMiddle : List Regex := [lit "\n", group "SEXP" (cat [anyText, lit "\n"]), spaces, lit "BEGIN_RCPP"]

def blockEnd : List Regex := [spaces, lit "END_RCPP"]

def blockCode : List Regex := lit "\n" :: group "code" (star false (cat [anyText, lit "\n"])) :: blockEnd

theorem packageDetailsPattern_parts : packageDetailsPattern =
    cat (blockHead ++ group "prototype" prototypePattern :: (blockMiddle ++ spaces :: blockCode)) := rfl

theorem prototypePattern_parts : prototypePattern = cat (group "returnType" anyText :: callParts) := rfl

section Parts

variable {a : Text} {c : Captures}

theorem matches_blockHead_iff : Matches (cat blockHead) a c ↔
    ∃ indent commentName, Blank indent ∧ '\n' ∉ commentName ∧
      a = "\n" ++ (indent ++ ("// " ++ (commentName ++ "\n"))) ∧ c = [(("commentName" : Text), commentName)] := by
  unfold blockHead anyText spaces
  simp only [matches_cat_lit, matches_cat_star_set, matches_cat_group (fun _ _ => matches_dots_iff), matches_cat_nil]
  constructor
  · rintro ⟨_, rfl, indent, _, hindent, rfl, _, rfl, name, _, _, hname, rfl, rfl, _, rfl, rfl, rfl⟩
    exact ⟨indent, name, hindent, hname, by rw [List.append_nil], rfl⟩
  · rintro ⟨indent, name, hindent, hname, rfl, rfl⟩
    exact ⟨_, rfl, indent, _, hindent, rfl, _, rfl, name, _, _, hname, rfl, rfl, [], by rw [List.append_nil], rfl, rfl⟩

theorem matches_argumentParts_iff : Matches (cat argumentParts) a c ↔
    ∃ arguments, '\n' ∉ arguments ∧ a = "(" ++ (arguments ++ ");") ∧ c = [(("arguments" : Text), arguments)] := by
  unfold argumentParts anyText
  simp only [matches_cat_lit, matches_cat_group (fun _ _ => matches_dots_iff), matches_cat_nil]
  constructor
  · rintro ⟨_, rfl, arguments, _, _, hargs, rfl, rfl, _, rfl, rfl, rfl⟩
    exact ⟨arguments, hargs, by rw [List.append_nil], rfl⟩
  · rintro ⟨arguments, hargs, rfl, rfl⟩
    exact ⟨_, rfl, arguments, _, _, hargs, rfl, rfl, [], by rw [List.append_nil], rfl, rfl⟩

theorem matches_callParts_iff : Matches (cat callParts) a c ↔
    ∃ funName arguments, '\n' ∉ funName ∧ '\n' ∉ arguments ∧
      a = " " ++ (funName ++ ("(" ++ (arguments ++ ");"))) ∧
      c = [(("funName" : Text), funName), ("arguments", arguments)] := by
  unfold callParts
  simp only [matches_cat_lit, matches_cat_group (fun _ _ => matches_dots_iff), matches_argumentParts_iff]
  constructor
  · rintro ⟨_, rfl, funName, _, _, hfun, rfl, rfl, arguments, hargs, rfl, rfl⟩
    exact ⟨funName, arguments, hfun, hargs, rfl, rfl⟩
  · rintro ⟨funName, arguments, hfun, hargs, rfl, rfl⟩
    exact ⟨_, rfl, funName, _, _, hfun, rfl, rfl, arguments, hargs, rfl, rfl⟩

theorem matches_blockMiddle_iff : Matches (cat blockMiddle) a c ↔
    ∃ sexpLine beforeBegin, '\n' ∉ sexpLine ∧ Blank beforeBegin ∧
      a = "\n" ++ ((sexpLine ++ "\n") ++ (beforeBegin ++ "BEGIN_RCPP")) ∧
      c = [(("SEXP" : Text), sexpLine ++ "\n")] := by
  unfold blockMiddle anyText spaces
  simp only [matches_cat_lit, matches_cat_star_set, matches_cat_group (fun _ _ => matches_line_iff), matches_cat_nil]
  constructor
  · rintro ⟨_, rfl, _, _, _, ⟨l, hl, rfl⟩, rfl, rfl, before, _, hbefore, rfl, _, rfl, rfl, rfl⟩
    exact ⟨l, before, hl, hbefore, by rw [List.append_nil], rfl⟩
  · rintro ⟨l, before, hl, hbefore, rfl, rfl⟩
    exact ⟨_, rfl, _, _, _, ⟨l, hl, rfl⟩, rfl, rfl, before, _, hbefore, rfl, [], by rw [List.append_nil], rfl, rfl⟩

theorem matches_blockEnd_iff : Matches (cat blockEnd) a c ↔
    ∃ beforeEnd, Blank beforeEnd ∧ a = beforeEnd ++ "END_RCPP" ∧ c = [] := by
  unfold blockEnd spaces
  simp only [matches_cat_lit, matches_cat_star_set, matches_cat_nil]
  constructor
  · rintro ⟨before, _, hbefore, rfl, _, rfl, rfl, rfl⟩
    exact ⟨before, hbefore, by rw [List.append_nil], rfl⟩
  · rintro ⟨before, hbefore, rfl, rfl⟩
    exact ⟨before, _, hbefore, rfl, [], by rw [List.append_nil], rfl, rfl⟩

theorem matches_blockCode_iff : Matches (cat blockCode) a c ↔
    ∃ lines beforeEnd, (∀ l ∈ lines, '\n' ∉ l) ∧ Blank beforeEnd ∧
      a = "\n" ++ (Text.unlines lines ++ (beforeEnd ++ "END_RCPP")) ∧ c = [(("code" : Text), Text.unlines lines)] := by
  unfold blockCode anyText
  simp only [matches_cat_lit, matches_cat_group (fun _ _ => matches_lines_iff), matches_blockEnd_iff]
  constructor
  · rintro ⟨_, rfl, _, _, _, ⟨lines, hlines, rfl⟩, rfl, rfl, beforeEnd, hblank, rfl, rfl⟩
    exact ⟨lines, beforeEnd, hlines, hblank, rfl, rfl⟩
  · rintro ⟨lines, beforeEnd, hlines, hblank, rfl, rfl⟩
    exact ⟨_, rfl, _, _, _, ⟨lines, hlines, rfl⟩, rfl, rfl, beforeEnd, hblank, rfl, rfl⟩

end Parts

theorem matches_block (b : Block) : Matches packageDetailsPattern b.text b.captures := by
  have hhead := matches_blockHead_iff.mpr
    ⟨b.indent, b.details.commentName, b.indent_blank, b.commentName_line, rfl, rfl⟩
  have hcall := matches_callParts_iff.mpr
    ⟨b.details.funName, b.details.arguments, b.funName_line, b.arguments_line, rfl, rfl⟩
  have hmiddle := matches_blockMiddle_iff.mpr
    ⟨b.sexpLine, b.beforeBegin, b.sexpLine_line, b.beforeBegin_blank, rfl, rfl⟩
  have hcode := matches_blockCode_iff.mpr ⟨b.lines, b.beforeEnd, b.lines_line, b.beforeEnd_blank, rfl, rfl⟩
  have hreturn := matches_dots_iff (g := true).mpr ⟨b.returnType_line, rfl⟩
  have hprototype : Matches prototypePattern b.details.prototype
      [("returnType", b.details.returnType), ("funName", b.details.funName), ("arguments", b.details.arguments)] := by
    rw [b.prototype_eq, prototypePattern_parts]
    exact .seq (.group hreturn) hcall
  have hbody : Matches (cat (spaces :: blockCode)) (b.afterBegin ++ _) ([] ++ _) :=
    .seq (matches_star_set_iff.mpr ⟨b.afterBegin_blank, rfl⟩) hcode
  have hrest : Matches (cat (group "prototype" prototypePattern :: (blockMiddle ++ spaces :: blockCode))) _ _ :=
    .seq (.group hprototype) (matches_cat_append hmiddle hbody)
  rw [packageDetailsPattern_parts, Block.text, Block.head, Block.middle, Block.body, Block.captures, b.SEXP_eq,
    b.code_eq]
  exact matches_cat_append hhead hrest

/-! ## The first match at a start -/

section First

variable {β : Type} {k : Captures → Text → Option β} {v : β} {s : Text}

theorem run_argumentParts_isSome {arguments rest : Text} (hargs : '\n' ∉ arguments)
    (hk : (k [("arguments", arguments)] rest).isSome) :
    ((cat argumentParts).run ("(" ++ (arguments ++ (");" ++ rest))) k).isSome := by
  have h := run_complete (matches_argumentParts_iff.mpr ⟨arguments, hargs, rfl, rfl⟩) hk
  simpa only [List.append_assoc] using h

theorem run_callParts_isSome {funName arguments rest : Text} (hfun : '\n' ∉ funName) (hargs : '\n' ∉ arguments)
    (hk : (k [("funName", funName), ("arguments", arguments)] rest).isSome) :
    ((cat callParts).run (" " ++ (funName ++ ("(" ++ (arguments ++ (");" ++ rest))))) k).isSome := by
  have h := run_complete (matches_callParts_iff.mpr ⟨funName, arguments, hfun, hargs, rfl, rfl⟩) hk
  simpa only [List.append_assoc] using h

/-- The name of a prototype is the last word before the first bracket behind it. -/
theorem prototypePattern_first (hk : ∀ c c' s', (k c s').isSome → (k c' s').isSome)
    (h : prototypePattern.run s k = some v) :
    ∃ returnType funName arguments s',
      s = (returnType ++ (" " ++ (funName ++ ("(" ++ (arguments ++ ");"))))) ++ s' ∧ '\n' ∉ returnType ∧
      '\n' ∉ funName ∧ '\n' ∉ arguments ∧ TightCall funName arguments ∧
      k [("returnType", returnType), ("funName", funName), ("arguments", arguments)] s' = some v := by
  rw [prototypePattern_parts, run_cat_cons, run_group] at h
  obtain ⟨returnType, s₁, c, rfl, hdots, h₁, hlong⟩ := run_greedy_longest h
  obtain ⟨hreturn, rfl⟩ := matches_dots_iff.mp hdots
  rw [take_matched, callParts, run_cat_cons] at h₁
  obtain ⟨_, s₂, _, rfl, hblank, h₂⟩ := run_sound h₁
  obtain ⟨rfl, rfl⟩ := matches_lit_iff.mp hblank
  rw [run_cat_cons, run_group] at h₂
  obtain ⟨funName, s₃, rfl, hfun, h₃, hshort⟩ := run_lazy_set_shortest h₂
  rw [take_matched] at h₃
  obtain ⟨_, s', _, rfl, hparts, h₄⟩ := run_sound h₃
  obtain ⟨arguments, hargs, rfl, rfl⟩ := matches_argumentParts_iff.mp hparts
  replace hfun : '\n' ∉ funName := fun hmem => by simpa using hfun _ hmem
  have hsome : ∀ c, (k c s').isSome := fun c => hk _ c s' (by rw [h₄]; rfl)
  -- A blank that a bracket follows would have been taken as the one before the name.
  have hlast : ∀ u f args, funName ++ '(' :: arguments = u ++ ' ' :: (f ++ '(' :: args) → False := by
    intro u f args heq
    have hline : '\n' ∉ u ++ ' ' :: (f ++ '(' :: args) := by
      rw [← heq]
      simp [hfun, hargs]
    simp only [List.mem_append, List.mem_cons, not_or] at hline
    obtain ⟨hu, -, hf, -, hargs'⟩ := hline
    have htext : (" " : Text) ++ (funName ++ (("(" ++ (arguments ++ ");")) ++ s')) =
        (' ' :: u) ++ (" " ++ (f ++ ("(" ++ (args ++ (");" ++ s'))))) := by
      have := congrArg (fun t => ' ' :: (t ++ (");" ++ s'))) heq
      simpa [Text.ofString_eq] using this
    have hnone := hlong (' ' :: u) [] _ htext (List.cons_ne_nil _ _)
      (matches_dots_iff.mpr ⟨by simpa using hu, rfl⟩)
    exact absurd hnone (Option.isSome_iff_ne_none.mp (run_callParts_isSome hf hargs' (hsome _)))
  refine ⟨returnType, funName, arguments, s', by simp, hreturn, hfun, hargs, ⟨?_, ?_, ?_⟩, by simpa using h₄⟩
  · intro hmem
    obtain ⟨u, w, rfl⟩ := List.append_of_mem hmem
    exact hlast u w arguments (by simp)
  · -- The first bracket ends the name.
    intro hmem
    obtain ⟨u, w, rfl⟩ := List.append_of_mem hmem
    have hnone := hshort u ('(' :: w) rfl (List.cons_ne_nil _ _)
    have hline : '\n' ∉ w ++ ("(" ++ arguments) := by
      simp only [List.mem_append, List.mem_cons, not_or] at hfun
      simp [Text.ofString_eq, hfun.2.2, hargs]
    have htext : '(' :: w ++ (("(" ++ (arguments ++ ");")) ++ s') =
        "(" ++ ((w ++ ("(" ++ arguments)) ++ (");" ++ s')) := by simp [Text.ofString_eq]
    rw [htext] at hnone
    exact absurd hnone (Option.isSome_iff_ne_none.mp (run_argumentParts_isSome hline (hsome _)))
  · intro u w hargs' hmem
    obtain ⟨f, args, rfl⟩ := List.append_of_mem hmem
    exact hlast (funName ++ '(' :: u) f args (by simp [hargs'])

theorem run_blockCode_isSome {lines : List Text} {beforeEnd rest : Text} (hlines : ∀ l ∈ lines, '\n' ∉ l)
    (hblank : Blank beforeEnd) (hk : ∀ c s', (k c s').isSome) :
    ((cat blockCode).run ('\n' :: (Text.unlines lines ++ ((beforeEnd ++ "END_RCPP") ++ rest))) k).isSome := by
  have h := run_complete (matches_blockCode_iff.mpr ⟨lines, beforeEnd, hlines, hblank, rfl, rfl⟩) (hk _ rest)
  simpa [Text.ofString_eq] using h

/-- The blanks behind `BEGIN_RCPP` reach to the code, which ends at the first line that closes a block. -/
theorem blockCode_first (hk : ∀ c s', (k c s').isSome) (h : (cat (spaces :: blockCode)).run s k = some v) :
    ∃ afterBegin lines beforeEnd s',
      s = afterBegin ++ ("\n" ++ (Text.unlines lines ++ (beforeEnd ++ "END_RCPP"))) ++ s' ∧ Blank afterBegin ∧
      (∀ l ∈ lines, '\n' ∉ l) ∧ Blank beforeEnd ∧ TightCode lines beforeEnd ∧
      k [("code", Text.unlines lines)] s' = some v := by
  rw [run_cat_cons] at h
  obtain ⟨afterBegin, s₁, _, rfl, hspaces, h₁, hlong⟩ := run_greedy_longest h
  obtain ⟨hafter, rfl⟩ := matches_star_set_iff.mp hspaces
  rw [blockCode, run_cat_cons] at h₁
  obtain ⟨_, s₂, _, rfl, hnewline, h₂⟩ := run_sound h₁
  obtain ⟨rfl, rfl⟩ := matches_lit_iff.mp hnewline
  rw [run_cat_cons, run_group] at h₂
  obtain ⟨lines, s₃, rfl, hlines, h₃, hshort⟩ := run_lazy_lines_shortest h₂
  rw [take_matched] at h₃
  obtain ⟨_, s', _, rfl, hparts, h₄⟩ := run_sound h₃
  obtain ⟨beforeEnd, hblank, rfl, rfl⟩ := matches_blockEnd_iff.mp hparts
  -- More blanks behind `BEGIN_RCPP` would leave a line and a code behind it.
  have hmore : ∀ w lines' beforeEnd', Blank w → (∀ l ∈ lines', '\n' ∉ l) → Blank beforeEnd' →
      Text.unlines lines ++ (beforeEnd ++ "END_RCPP") ≠
        w ++ '\n' :: (Text.unlines lines' ++ (beforeEnd' ++ "END_RCPP")) := by
    intro w lines' beforeEnd' hw hlines' hblank' heq
    have hnone := hlong ('\n' :: w) [] ('\n' :: (Text.unlines lines' ++ ((beforeEnd' ++ "END_RCPP") ++ s')))
      (by simpa [Text.ofString_eq] using congrArg (· ++ s') heq) (List.cons_ne_nil _ _)
      (matches_star_set_iff.mpr ⟨by simpa using ⟨by decide, hw⟩, rfl⟩)
    exact absurd hnone (Option.isSome_iff_ne_none.mp (run_blockCode_isSome hlines' hblank' fun _ _ => hk _ _))
  -- Fewer lines of code would do when a later one is blank or closes the block.
  have hfewer : ∀ ls₁ ls₂ w rest, lines = ls₁ ++ ls₂ → ls₂ ≠ [] → Blank w →
      Text.unlines ls₂ ++ ((beforeEnd ++ "END_RCPP") ++ s') ≠ (w ++ "END_RCPP") ++ rest := by
    intro ls₁ ls₂ w rest hls hne hw heq
    have hnone := hshort ls₁ ls₂ hls hne
    rw [heq] at hnone
    exact absurd hnone (Option.isSome_iff_ne_none.mp
      (run_complete (matches_blockEnd_iff.mpr ⟨w, hw, rfl, rfl⟩) (hk _ _)))
  refine ⟨afterBegin, lines, beforeEnd, s', by simp, hafter, hlines, hblank, ⟨?_, ?_, ?_, ?_⟩, by simpa using h₄⟩
  · rintro l hl ⟨w, rest, hw, rfl⟩
    obtain ⟨ls₁, ls₂, rfl⟩ := List.append_of_mem hl
    exact hfewer ls₁ _ w (rest ++ '\n' :: (Text.unlines ls₂ ++ ((beforeEnd ++ "END_RCPP") ++ s'))) rfl
      (List.cons_ne_nil _ _) hw (by simp)
  · rintro l ls rfl hl
    exact hmore l ls beforeEnd hl (fun x hx => hlines x (List.mem_cons_of_mem l hx)) hblank (by simp)
  · rintro ls l rfl hl
    have hall : Blank (l ++ '\n' :: beforeEnd) := by
      intro c hc
      simp only [List.mem_append, List.mem_cons] at hc
      rcases hc with hc | rfl | hc
      · exact hl c hc
      · decide
      · exact hblank c hc
    exact hfewer ls [l] (l ++ '\n' :: beforeEnd) s' rfl (List.cons_ne_nil l []) hall (by simp)
  · rintro rfl hmem
    obtain ⟨w, w', rfl⟩ := List.append_of_mem hmem
    have hw : Blank w ∧ Blank w' :=
      ⟨fun c hc => hblank c (by simp [hc]), fun c hc => hblank c (by simp [hc])⟩
    exact hmore w [] w' hw.1 (by simp) hw.2 (by simp)

/-- What the details pattern matches at a start is a block, read tightly. -/
theorem block_of_matchAt {c : Captures} {s' : Text} (h : packageDetailsPattern.matchAt s = some (c, s')) :
    ∃ b : Block, s = b.text ++ s' ∧ c = b.captures ∧ b.Tight := by
  rw [matchAt, packageDetailsPattern_parts, run_cat_append] at h
  obtain ⟨_, s₁, _, rfl, hhead, h₁⟩ := run_sound h
  obtain ⟨indent, commentName, hindent, hcomment, rfl, rfl⟩ := matches_blockHead_iff.mp hhead
  rw [run_cat_cons, run_group] at h₁
  have hfirst := fun hk => prototypePattern_first hk h₁
  obtain ⟨returnType, funName, arguments, s₂, rfl, hreturn, hfun, hargs, hcall, h₂⟩ :=
    hfirst fun _ _ _ => run_isSome_mono fun _ _ _ => rfl
  rw [take_matched, run_cat_append] at h₂
  obtain ⟨_, s₃, _, rfl, hmiddle, h₃⟩ := run_sound h₂
  obtain ⟨sexpLine, beforeBegin, hsexp, hbefore, rfl, rfl⟩ := matches_blockMiddle_iff.mp hmiddle
  obtain ⟨afterBegin, lines, beforeEnd, s₄, rfl, hafter, hlines, hend, hcode, h₄⟩ := blockCode_first (fun _ _ => rfl) h₃
  cases h₄
  let prototype : Text := returnType ++ (" " ++ (funName ++ ("(" ++ (arguments ++ ");"))))
  refine ⟨{ details := ⟨commentName, prototype, returnType, funName, arguments, sexpLine ++ "\n", Text.unlines lines⟩,
            indent, sexpLine, beforeBegin, afterBegin, lines, beforeEnd,
            indent_blank := hindent, beforeBegin_blank := hbefore, afterBegin_blank := hafter, beforeEnd_blank := hend,
            commentName_line := hcomment, returnType_line := hreturn, funName_line := hfun, arguments_line := hargs,
            sexpLine_line := hsexp, lines_line := hlines, prototype_eq := rfl, SEXP_eq := rfl, code_eq := rfl },
    ?_, ?_, ⟨hcall, hcode⟩⟩
  · simp [Block.text, Block.head, Block.middle, Block.body, prototype]
  · rfl

end First

theorem Block.text_ne_nil (b : Block) : b.text ≠ [] := by
  simp [text, head, Text.ofString_eq]

end RcppDeepState
