import RcppDeepState.Exports.Blocks

/-!
# The tables of any exports file

Whatever the file contains, the details table has one row for each block, and the argument table one for each parameter
that the code of a function declares. A text can be split into these pieces in one way only.
-/

namespace RcppDeepState

open Regex

/-! ## Splits -/

theorem span_unique {P : Char → Prop} {w w' t t' : Text} {x x' : Char} (hw : ∀ c ∈ w, P c) (hw' : ∀ c ∈ w', P c)
    (hx : ¬ P x) (hx' : ¬ P x') (h : w ++ x :: t = w' ++ x' :: t') : w = w' ∧ t = t' := by
  induction w generalizing w' with
  | nil =>
      cases w' with
      | nil => exact ⟨rfl, (List.cons.inj h).2⟩
      | cons c w' =>
          obtain ⟨rfl, -⟩ := List.cons.inj h
          exact absurd (hw' _ List.mem_cons_self) hx
  | cons c w ih =>
      cases w' with
      | nil =>
          obtain ⟨rfl, -⟩ := List.cons.inj h
          exact absurd (hw _ List.mem_cons_self) hx'
      | cons c' w' =>
          obtain ⟨rfl, hrest⟩ := List.cons.inj h
          obtain ⟨rfl, ht⟩ := ih (fun y hy => hw y (List.mem_cons_of_mem _ hy))
            (fun y hy => hw' y (List.mem_cons_of_mem _ hy)) hrest
          exact ⟨rfl, ht⟩

theorem line_unique {l l' t t' : Text} (hl : '\n' ∉ l) (hl' : '\n' ∉ l') (h : l ++ '\n' :: t = l' ++ '\n' :: t') :
    l = l' ∧ t = t' := by
  have hline : ∀ {l : Text}, '\n' ∉ l → ∀ c ∈ l, c ≠ '\n' := fun hl c hc heq => hl (heq ▸ hc)
  exact span_unique (hline hl) (hline hl') (fun h => h rfl) (fun h => h rfl) h

/-! ## Prototypes -/

section Call

variable {f f' a a' r r' : Text}

theorem TightCall.not_longer {v : Text} (h : TightCall f a) (hv : v ≠ []) :
    ' ' :: (f ++ '(' :: a) ≠ v ++ ' ' :: (f' ++ '(' :: a') := by
  intro heq
  obtain ⟨c, v, rfl⟩ := List.exists_cons_of_ne_nil hv
  obtain ⟨-, heq⟩ := List.cons.inj heq
  obtain ⟨z, rfl, hz⟩ := Text.append_eq_append_cons heq h.funName_blank
  cases z with
  | nil => cases hz
  | cons d z =>
      obtain ⟨-, rfl⟩ := List.cons.inj hz
      exact h.arguments_paren z _ rfl (by simp)

/-- A prototype is read in one way. -/
theorem TightCall.unique (h : TightCall f a) (h' : TightCall f' a')
    (heq : r ++ ' ' :: (f ++ '(' :: a) = r' ++ ' ' :: (f' ++ '(' :: a')) : r = r' ∧ f = f' ∧ a = a' := by
  have hr : r = r' := by
    cases List.append_eq_append_iff.mp heq with
    | inl hv =>
        obtain ⟨v, rfl, hv⟩ := hv
        by_contra hne
        exact h.not_longer (fun hnil => hne (by rw [hnil, List.append_nil])) hv
    | inr hv =>
        obtain ⟨v, rfl, hv⟩ := hv
        by_contra hne
        exact h'.not_longer (fun hnil => hne (by rw [hnil, List.append_nil])) hv
  subst hr
  obtain ⟨-, heq⟩ := List.cons.inj (List.append_cancel_left heq)
  have hparen : ∀ {f : Text}, '(' ∉ f → ∀ c ∈ f, c ≠ '(' := fun hf c hc heq => hf (heq ▸ hc)
  exact ⟨rfl, span_unique (hparen h.funName_paren) (hparen h'.funName_paren) (fun h => h rfl) (fun h => h rfl) heq⟩

end Call

/-! ## Code -/

section Code

variable {A A' E E' r r' : Text} {l : Text} {ls ls' : List Text}

/-- The lines of a code and what closes it. -/
def codeText (ls : List Text) (E r : Text) : Text := Text.unlines ls ++ (E ++ ("END_RCPP" ++ r))

theorem end_eq (r : Text) : ("END_RCPP" : Text) ++ r = 'E' :: (("ND_RCPP" : Text) ++ r) := by
  simp [Text.ofString_eq]

theorem not_isSpace_E : ¬ isSpace 'E' = true := by decide

/-- No line of the code closes it, and the last one has text. -/
def EndsWith (ls : List Text) : Prop :=
  (∀ l ∈ ls, '\n' ∉ l ∧ ¬ ClosingLine l) ∧ ∀ ls₀ l, ls = ls₀ ++ [l] → ¬ Blank l

theorem EndsWith.tail (h : EndsWith (l :: ls)) : EndsWith ls :=
  ⟨fun x hx => h.1 x (List.mem_cons_of_mem l hx), fun ls₀ x hls => h.2 (l :: ls₀) x (by rw [hls, List.cons_append])⟩

/-- Where blanks and the closing word begin with a line, the line closes a block or is one of the blank lines. -/
theorem closing_or_blank {t : Text} (hE : Blank E) (heq : E ++ ("END_RCPP" ++ r) = l ++ '\n' :: t) :
    ClosingLine l ∨ ∃ z, E = l ++ '\n' :: z ∧ t = z ++ ("END_RCPP" ++ r) := by
  cases List.append_eq_append_iff.mp heq with
  | inl h =>
      obtain ⟨z, rfl, hz⟩ := h
      have hnewline : '\n' ∉ ("END_RCPP" : Text) := by with_unfolding_all decide
      obtain ⟨y, rfl, -⟩ := Text.append_eq_append_cons hz hnewline
      exact .inl ⟨E, y, hE, rfl⟩
  | inr h =>
      obtain ⟨z, rfl, hz⟩ := h
      cases z with
      | nil =>
          rw [List.nil_append, end_eq] at hz
          cases hz
      | cons c z =>
          obtain ⟨rfl, rfl⟩ := List.cons.inj hz
          exact .inr ⟨z, rfl, rfl⟩

/-- What closes a code stands behind all of its lines. -/
theorem EndsWith.not_closed {s : Text} (h : EndsWith (l :: ls)) (hE : Blank E) :
    E ++ ("END_RCPP" ++ r) ≠ l ++ '\n' :: (Text.unlines ls ++ s) := by
  intro heq
  induction ls generalizing l E with
  | nil =>
      cases closing_or_blank hE heq with
      | inl hclosing => exact (h.1 l List.mem_cons_self).2 hclosing
      | inr hblank =>
          obtain ⟨z, rfl, -⟩ := hblank
          exact h.2 [] l rfl fun c hc => hE c (List.mem_append_left _ hc)
  | cons l' ls ih =>
      cases closing_or_blank hE heq with
      | inl hclosing => exact (h.1 l List.mem_cons_self).2 hclosing
      | inr hblank =>
          obtain ⟨z, rfl, hz⟩ := hblank
          have hz' : z ++ ("END_RCPP" ++ r) = l' ++ '\n' :: (Text.unlines ls ++ s) := by
            rw [← hz, Text.unlines_cons, List.append_assoc]
            rfl
          exact ih h.tail (fun c hc => hE c (by simp [hc])) hz'

theorem EndsWith.unique (h : EndsWith ls) (h' : EndsWith ls') (hE : Blank E) (hE' : Blank E')
    (heq : codeText ls E r = codeText ls' E' r') : ls = ls' ∧ r = r' := by
  unfold codeText at heq
  induction ls generalizing ls' with
  | nil =>
      cases ls' with
      | nil =>
          rw [Text.unlines_nil, List.nil_append, List.nil_append, end_eq, end_eq] at heq
          obtain ⟨-, hend⟩ := span_unique hE hE' not_isSpace_E not_isSpace_E heq
          exact ⟨rfl, List.append_cancel_left hend⟩
      | cons l' ls' =>
          rw [Text.unlines_nil, List.nil_append, Text.unlines_cons, List.append_assoc] at heq
          exact absurd heq (h'.not_closed hE)
  | cons l ls ih =>
      cases ls' with
      | nil =>
          rw [Text.unlines_nil, List.nil_append, Text.unlines_cons, List.append_assoc] at heq
          exact absurd heq.symm (h.not_closed hE')
      | cons l' ls' =>
          rw [Text.unlines_cons, Text.unlines_cons, List.append_assoc, List.append_assoc] at heq
          obtain ⟨rfl, hrest⟩ := line_unique (h.1 l List.mem_cons_self).1 (h'.1 l' List.mem_cons_self).1 heq
          obtain ⟨rfl, hr⟩ := ih h.tail h'.tail hrest
          exact ⟨rfl, hr⟩

/-- The blanks before a code end with the line before its first one. -/
theorem TightCode.not_longer {v s : Text} (h : TightCode ls E) (hls : ∀ l ∈ ls, '\n' ∉ l) (hv : Blank v)
    (hne : v ≠ []) : '\n' :: codeText ls E r ≠ v ++ '\n' :: s := by
  intro heq
  obtain ⟨c, v, rfl⟩ := List.exists_cons_of_ne_nil hne
  obtain ⟨-, heq⟩ := List.cons.inj heq
  unfold codeText at heq
  cases ls with
  | nil =>
      rw [Text.unlines_nil, List.nil_append] at heq
      obtain ⟨z, rfl, hz⟩ := Text.append_eq_append_cons heq (h.no_line rfl)
      rw [end_eq] at hz
      cases z with
      | nil => cases hz
      | cons d z =>
          obtain ⟨rfl, -⟩ := List.cons.inj hz
          exact not_isSpace_E (hv 'E' (by simp))
  | cons l ls =>
      rw [Text.unlines_cons, List.append_assoc] at heq
      obtain ⟨z, rfl, -⟩ := Text.append_eq_append_cons heq (hls l List.mem_cons_self)
      exact h.first_line l ls rfl fun d hd => hv d (by simp [hd])

/-- A code is read in one way. -/
theorem TightCode.unique (h : TightCode ls E) (h' : TightCode ls' E') (hls : ∀ l ∈ ls, '\n' ∉ l)
    (hls' : ∀ l ∈ ls', '\n' ∉ l) (hE : Blank E) (hE' : Blank E') (hA : Blank A) (hA' : Blank A')
    (heq : A ++ '\n' :: codeText ls E r = A' ++ '\n' :: codeText ls' E' r') : ls = ls' ∧ r = r' := by
  have hcode : codeText ls E r = codeText ls' E' r' := by
    cases List.append_eq_append_iff.mp heq with
    | inl hv =>
        obtain ⟨v, rfl, hv⟩ := hv
        have hblank : Blank v := fun c hc => hA' c (List.mem_append_right A hc)
        cases v with
        | nil => exact (List.cons.inj hv).2
        | cons c v => exact absurd hv (h.not_longer hls hblank (List.cons_ne_nil c v))
    | inr hv =>
        obtain ⟨v, rfl, hv⟩ := hv
        have hblank : Blank v := fun c hc => hA c (List.mem_append_right A' hc)
        cases v with
        | nil => exact (List.cons.inj hv).2.symm
        | cons c v => exact absurd hv (h'.not_longer hls' hblank (List.cons_ne_nil c v))
  exact EndsWith.unique ⟨fun l hl => ⟨hls l hl, h.open_line l hl⟩, h.last_line⟩
    ⟨fun l hl => ⟨hls' l hl, h'.open_line l hl⟩, h'.last_line⟩ hE hE' hcode

end Code

/-! ## The details table -/

theorem Block.text_append (b : Block) (r : Text) : b.text ++ r =
    '\n' :: (b.indent ++ '/' :: ('/' :: ' ' :: (b.details.commentName ++ '\n' :: (b.details.prototype ++
      '\n' :: (b.sexpLine ++ '\n' :: (b.beforeBegin ++ 'B' :: ("EGIN_RCPP" ++
        (b.afterBegin ++ '\n' :: codeText b.lines b.beforeEnd r)))))))) := by
  simp [text, head, middle, body, codeText, b.SEXP_eq, b.code_eq, Text.ofString_eq]

theorem Block.prototype_append (b : Block) : b.details.prototype =
    (b.details.returnType ++ ' ' :: (b.details.funName ++ '(' :: b.details.arguments)) ++ ");" := by
  rw [b.prototype_eq]
  simp [Text.ofString_eq]

theorem Block.prototype_line (b : Block) : '\n' ∉ b.details.prototype := by
  rw [prototype_append]
  simp [b.returnType_line, b.funName_line, b.arguments_line, Text.ofString_eq]

/-- A block is read in one way. -/
theorem Block.unique {b b' : Block} {r r' : Text} (heq : b.text ++ r = b'.text ++ r') (h : b.Tight) (h' : b'.Tight) :
    b.details = b'.details ∧ r = r' := by
  have hspace : ¬ isSpace '/' = true ∧ ¬ isSpace 'B' = true := by decide
  rw [text_append, text_append] at heq
  obtain ⟨-, heq⟩ := span_unique b.indent_blank b'.indent_blank hspace.1 hspace.1 (List.cons.inj heq).2
  obtain ⟨hcomment, heq⟩ := line_unique b.commentName_line b'.commentName_line (List.cons.inj (List.cons.inj heq).2).2
  obtain ⟨hprototype, heq⟩ := line_unique b.prototype_line b'.prototype_line heq
  obtain ⟨hsexp, heq⟩ := line_unique b.sexpLine_line b'.sexpLine_line heq
  obtain ⟨-, heq⟩ := span_unique b.beforeBegin_blank b'.beforeBegin_blank hspace.2 hspace.2 heq
  obtain ⟨hlines, hr⟩ := h.code.unique h'.code b.lines_line b'.lines_line b.beforeEnd_blank b'.beforeEnd_blank
    b.afterBegin_blank b'.afterBegin_blank (List.append_cancel_left heq)
  have hcall := hprototype
  rw [b.prototype_append, b'.prototype_append] at hcall
  obtain ⟨hreturn, hfun, hargs⟩ := h.call.unique h'.call (List.append_cancel_right hcall)
  have hSEXP : b.details.SEXP = b'.details.SEXP := by rw [b.SEXP_eq, b'.SEXP_eq, hsexp]
  have hcode : b.details.code = b'.details.code := by rw [b.code_eq, b'.code_eq, hlines]
  have hdetails : ∀ d d' : Details, d.commentName = d'.commentName → d.prototype = d'.prototype →
      d.returnType = d'.returnType → d.funName = d'.funName → d.arguments = d'.arguments → d.SEXP = d'.SEXP →
      d.code = d'.code → d = d' := by
    rintro ⟨⟩ ⟨⟩ rfl rfl rfl rfl rfl rfl rfl
    rfl
  exact ⟨hdetails _ _ hcomment hprototype hreturn hfun hargs hSEXP hcode, hr⟩

/-- Whatever the file contains, its table is the list of the blocks that follow each other in it, each read tightly,
where none begins before, between or behind them. -/
theorem packageDetails_blocks (t : Text) (rows : List Details) : deepstateGetPackageDetails (some t) = .ok rows ↔
    ∃ bs, Pieces Block.text (fun b _ => b.Tight) (Text.join "\n" t.lines) bs ∧ rows = bs.map Block.details := by
  obtain ⟨bs, hbs, hfind⟩ := findAll_pieces Block.text_ne_nil matches_block block_of_matchAt (Text.join "\n" t.lines)
  have hdetails : (bs.map Block.captures).map Details.ofCaptures = bs.map Block.details := by
    rw [List.map_map]
    exact List.map_congr_left fun b _ => b.ofCaptures_captures
  have htable : deepstateGetPackageDetails (some t) = .ok (bs.map Block.details) := by
    rw [deepstateGetPackageDetails, hfind, hdetails]
  rw [htable]
  constructor
  · intro hrows
    exact ⟨bs, hbs, (Except.ok.inj hrows).symm⟩
  · rintro ⟨bs', hbs', rfl⟩
    rw [hbs.unique Block.unique hbs']

/-! ## The argument table -/

/-- The declaration of a parameter in the code of a function. -/
structure ParameterCall where
  argumentType : Text
  argumentName : Text
  argumentType_line : '\n' ∉ argumentType
  argumentName_ne : argumentName ≠ []
  argumentName_paren : '(' ∉ argumentName

namespace ParameterCall

def text (p : ParameterCall) : Text := "input_parameter< " ++ (p.argumentType ++ (">::type" ++ p.argumentName))

def captures (p : ParameterCall) : Captures := [("argument.type", p.argumentType), ("argument.name", p.argumentName)]

def row (funName : Text) (p : ParameterCall) : ArgRow := ⟨funName, p.argumentType, p.argumentName⟩

/-- The type ends where a name could begin, and the name ends at a bracket or with the text. -/
structure Tight (p : ParameterCall) (rest : Text) : Prop where
  argumentType_end : ∀ u w, p.argumentType = u ++ (">::type" ++ w) → w.head? = some '('
  argumentName_end : ∀ c ∈ rest.head?, c = '('

theorem text_ne_nil (p : ParameterCall) : p.text ≠ [] := by
  simp [text, Text.ofString_eq]

end ParameterCall

def nameParts : List Regex :=
  [lit ">::type", group "argument.name" (cat [set (· != '('), star true (set (· != '('))])]

theorem argumentPattern_parts : argumentPattern =
    cat (lit "input_parameter< " :: group "argument.type" (star false dot) :: nameParts) := rfl

theorem matches_nameParts {name : Text} (hne : name ≠ []) (hparen : '(' ∉ name) :
    Matches (cat nameParts) (">::type" ++ name) [("argument.name", name)] := by
  have hname : ∀ x ∈ name, (x != '(') = true := by
    intro x hx
    simp only [bne_iff_ne, ne_eq]
    rintro rfl
    exact hparen hx
  exact matches_cat_lit.mpr ⟨name, rfl, (matches_cat_group fun _ _ => matches_plus_set_iff).mpr
    ⟨name, [], [], ⟨hne, hname⟩, by rw [List.append_nil], rfl, .eps⟩⟩

theorem matches_parameterCall (p : ParameterCall) : Matches argumentPattern p.text p.captures := by
  rw [argumentPattern_parts, ParameterCall.text, ParameterCall.captures]
  exact matches_cat_lit.mpr ⟨_, rfl, (matches_cat_group fun _ _ => matches_dots_iff).mpr
    ⟨_, _, _, p.argumentType_line, rfl, rfl, matches_nameParts p.argumentName_ne p.argumentName_paren⟩⟩

theorem parameterCall_of_matchAt {s s' : Text} {c : Captures} (h : argumentPattern.matchAt s = some (c, s')) :
    ∃ p : ParameterCall, s = p.text ++ s' ∧ c = p.captures ∧ p.Tight s' := by
  rw [matchAt, argumentPattern_parts, run_cat_cons] at h
  obtain ⟨_, s₁, _, rfl, hlit, h₁⟩ := run_sound h
  obtain ⟨rfl, rfl⟩ := matches_lit_iff.mp hlit
  rw [run_cat_cons, run_group] at h₁
  obtain ⟨type, s₂, rfl, htype, h₂, hshort⟩ := run_lazy_set_shortest h₁
  rw [take_matched, nameParts, run_cat_cons] at h₂
  obtain ⟨_, s₃, _, rfl, hclose, h₃⟩ := run_sound h₂
  obtain ⟨rfl, rfl⟩ := matches_lit_iff.mp hclose
  rw [run_cat_cons, run_group, run_cat_cons] at h₃
  obtain ⟨_, s₄, _, rfl, hset, h₄⟩ := run_sound h₃
  cases hset with
  | set hx =>
      rename_i x
      rw [run_cat_cons] at h₄
      obtain ⟨w, s₅, _, rfl, hstar, h₅, hlong⟩ := run_greedy_longest h₄
      obtain ⟨hw, rfl⟩ := matches_star_set_iff.mp hstar
      have hname : ∀ y ∈ x :: w, y ≠ '(' := by
        intro y hy
        cases List.mem_cons.mp hy with
        | inl heq => exact heq ▸ bne_iff_ne.mp hx
        | inr hmem => exact bne_iff_ne.mp (hw y hmem)
      have htake := take_matched (x :: w) s₅
      rw [List.cons_append] at htake
      simp only [run_cat_nil, List.cons_append, List.nil_append, htake] at h₅
      cases h₅
      refine ⟨⟨type, x :: w, fun hmem => by simpa using htype _ hmem, List.cons_ne_nil x w,
        fun hmem => hname _ hmem rfl⟩, by simp [ParameterCall.text], rfl, ?_, ?_⟩
      · intro u v htext
        by_contra hhead
        have hnone := hshort u (">::type" ++ v) htext (by simp [Text.ofString_eq])
        -- The text behind the earlier `>::type` begins with a character that a name can begin with.
        have hstart : ∃ y t, v ++ ((">::type" : Text) ++ ([x] ++ (w ++ s'))) = y :: t ∧ y ≠ '(' := by
          cases v with
          | nil => exact ⟨'>', _, by rw [Text.ofString_eq]; rfl, by decide⟩
          | cons y t => exact ⟨y, _, rfl, fun heq => hhead (by rw [heq]; rfl)⟩
        obtain ⟨y, t, hyt, hy⟩ := hstart
        have hmatch := matches_nameParts (List.cons_ne_nil y []) (by simpa using hy.symm)
        have htext' : (">::type" ++ v : Text) ++ (">::type" ++ ([x] ++ (w ++ s'))) = (">::type" ++ [y]) ++ t := by
          rw [List.append_assoc, hyt, List.append_assoc]
          rfl
        rw [htext'] at hnone
        exact absurd hnone (Option.isSome_iff_ne_none.mp (run_complete hmatch rfl))
      · intro y hy
        by_contra hne
        obtain ⟨t, rfl⟩ := List.head?_eq_some_iff.mp hy
        cases hlong [y] [] t rfl (List.cons_ne_nil y []) (matches_star_set_iff.mpr ⟨by simpa using hne, rfl⟩)

theorem ParameterCall.row_captures (name : Text) (p : ParameterCall) :
    (⟨name, captured "argument.type" p.captures, captured "argument.name" p.captures⟩ : ArgRow) = p.row name := by
  with_unfolding_all rfl

section Parameter

variable {p p' : ParameterCall} {r r' : Text}

theorem ParameterCall.Tight.not_longer {v t : Text} (htype : p'.argumentType = p.argumentType ++ v) (hv : v ≠ [])
    (h' : p'.Tight r') : (">::type" : Text) ++ (p.argumentName ++ r) ≠ v ++ (">::type" ++ t) := by
  intro heq
  have hsplit : ∀ t : Text, (">::type" : Text) ++ t = '>' :: (("::type" : Text) ++ t) := by simp [Text.ofString_eq]
  have hfirst : '>' ∉ ("::type" : Text) := by with_unfolding_all decide
  obtain ⟨c, v, rfl⟩ := List.exists_cons_of_ne_nil hv
  rw [hsplit, hsplit] at heq
  obtain ⟨rfl, hrest⟩ := List.cons.inj heq
  obtain ⟨z, rfl, hz⟩ := Text.append_eq_append_cons hrest hfirst
  -- The longer type goes on after `>::type` with a bracket, but a name stands there.
  have hhead := h'.argumentType_end p.argumentType z (by rw [htype, hsplit])
  obtain ⟨z, rfl⟩ := List.head?_eq_some_iff.mp hhead
  cases hname : p.argumentName with
  | nil => exact p.argumentName_ne hname
  | cons d n =>
      rw [hname] at hz
      obtain ⟨rfl, -⟩ := List.cons.inj hz
      exact p.argumentName_paren (by simp [hname])

theorem ParameterCall.Tight.name_not_longer {n v : Text} (hname : p'.argumentName = n ++ v) (h : p.Tight (v ++ r)) :
    v = [] := by
  cases v with
  | nil => rfl
  | cons c v =>
      have hc := h.argumentName_end c rfl
      subst hc
      exact absurd (by simp [hname]) p'.argumentName_paren

/-- A declaration is read in one way. -/
theorem ParameterCall.unique (heq : p.text ++ r = p'.text ++ r') (h : p.Tight r) (h' : p'.Tight r') :
    (p.argumentType, p.argumentName) = (p'.argumentType, p'.argumentName) ∧ r = r' := by
  simp only [text, List.append_assoc] at heq
  replace heq := List.append_cancel_left heq
  have htype : p.argumentType = p'.argumentType := by
    cases List.append_eq_append_iff.mp heq with
    | inl hv =>
        obtain ⟨v, htype, hv⟩ := hv
        by_contra hne
        exact h'.not_longer htype (fun hnil => hne (by rw [htype, hnil, List.append_nil])) hv
    | inr hv =>
        obtain ⟨v, htype, hv⟩ := hv
        by_contra hne
        exact h.not_longer htype (fun hnil => hne (by rw [htype, hnil, List.append_nil])) hv
  rw [htype] at heq
  replace heq := List.append_cancel_left (List.append_cancel_left heq)
  cases List.append_eq_append_iff.mp heq with
  | inl hv =>
      obtain ⟨v, hname, rfl⟩ := hv
      have hnil := h.name_not_longer hname
      subst hnil
      exact ⟨by rw [htype, hname, List.append_nil], rfl⟩
  | inr hv =>
      obtain ⟨v, hname, rfl⟩ := hv
      have hnil := h'.name_not_longer hname
      subst hnil
      exact ⟨by rw [htype, hname, List.append_nil], rfl⟩

end Parameter

/-- The argument table of any functions has, by the name of the function and in the order of its code, the declarations
of parameters that follow each other, where none begins before, between or behind them. -/
theorem functionBody_parameters (funs : List Details) (rows : List ArgRow) :
    deepstateGetFunctionBody funs = some rows ↔ funs ≠ [] ∧ ∃ calls : Text → List ParameterCall,
      (∀ name, Pieces ParameterCall.text ParameterCall.Tight (groupCode funs name) (calls name)) ∧
        rows = (funNames funs).flatMap fun name => (calls name).map (ParameterCall.row name) := by
  have hpieces := fun name =>
    findAll_pieces ParameterCall.text_ne_nil matches_parameterCall parameterCall_of_matchAt (groupCode funs name)
  choose calls hcalls hfind using hpieces
  have hrows : ∀ name, (argumentPattern.findAll (groupCode funs name)).map (fun c =>
      (⟨name, captured "argument.type" c, captured "argument.name" c⟩ : ArgRow)) =
      (calls name).map (ParameterCall.row name) := by
    intro name
    rw [hfind, List.map_map]
    exact List.map_congr_left fun p _ => p.row_captures name
  have htable : deepstateGetFunctionBody funs = if funs = [] then none else
      some ((funNames funs).flatMap fun name => (calls name).map (ParameterCall.row name)) := by
    simp only [deepstateGetFunctionBody, hrows]
  rw [htable]
  constructor
  · intro h
    split at h
    · cases h
    · rename_i hne
      exact ⟨hne, calls, hcalls, (Option.some.inj h).symm⟩
  · rintro ⟨hne, calls', hcalls', rfl⟩
    rw [if_neg hne]
    refine congrArg some (List.flatMap_congr fun name _ => ?_)
    have hsame := (hcalls name).unique ParameterCall.unique (hcalls' name)
    have hmap : ∀ ps : List ParameterCall, ps.map (ParameterCall.row name) =
        (ps.map fun p => (p.argumentType, p.argumentName)).map fun p => ⟨name, p.1, p.2⟩ := by
      intro ps
      rw [List.map_map]
      rfl
    rw [hmap, hmap, hsame]

end RcppDeepState
