import RcppDeepState.Library.Text

/-!
# Tokens of C++

A scanner for the part of C++ that generated code uses: words, string literals and single characters. A
qualified name is one word, and a backslash outside a literal continues a line.
-/

namespace Cpp

inductive Token
  | word (w : Text)
  | literal (t : Text)
  | punct (c : Char)
  deriving DecidableEq

/-- Where the scanner is; a word or a literal carries what was read of it. -/
inductive Mode
  | plain
  | word (w : Text)
  | literal (t : Text)
  | escaped (t : Text)
  deriving DecidableEq

def isWordChar (c : Char) : Bool := c.isAlphanum || c = '_' || c = ':'

def isBlank (c : Char) : Bool := c = ' ' || c = '\t' || c = '\n' || c = '\\'

/-- A character outside words and literals. -/
def start (c : Char) : List Token × Mode :=
  if isWordChar c then ([], .word [c])
  else if c = '"' then ([], .literal [])
  else if isBlank c then ([], .plain)
  else ([.punct c], .plain)

def step : Mode → Char → List Token × Mode
  | .plain, c => start c
  | .word w, c => if isWordChar c then ([], .word (w ++ [c])) else (.word w :: (start c).1, (start c).2)
  | .literal t, c =>
      if c = '"' then ([.literal t], .plain)
      else if c = '\\' then ([], .escaped t)
      else ([], .literal (t ++ [c]))
  | .escaped t, c => ([], .literal (t ++ [c]))

/-- The tokens that end inside a text, and where the scanner is behind it. -/
def scan : Mode → Text → List Token × Mode
  | m, [] => ([], m)
  | m, c :: t => ((step m c).1 ++ (scan (step m c).2 t).1, (scan (step m c).2 t).2)

/-- The token a text ends in. -/
def flush : Mode → List Token
  | .word w => [.word w]
  | _ => []

def tokens (t : Text) : List Token := (scan .plain t).1 ++ flush (scan .plain t).2

/-! ## Scanning from left to right -/

section Scan

variable {m m' : Mode} {a b : Text} {ts : List Token}

theorem scan_append (m : Mode) (a b : Text) :
    scan m (a ++ b) = ((scan m a).1 ++ (scan (scan m a).2 b).1, (scan (scan m a).2 b).2) := by
  induction a generalizing m with
  | nil => rfl
  | cons c a ih => simp [scan, ih]

/-- The tokens of a text from a given place on. -/
def rest (m : Mode) (t : Text) : List Token := (scan m t).1 ++ flush (scan m t).2

theorem tokens_eq_rest (t : Text) : tokens t = rest .plain t := rfl

@[simp] theorem rest_plain_nil : rest .plain [] = [] := rfl

@[simp] theorem rest_word_nil (w : Text) : rest (.word w) [] = [.word w] := rfl

/-- A text whose tokens are known is read off the front. -/
theorem rest_append (h : scan m a = (ts, m')) (b : Text) : rest m (a ++ b) = ts ++ rest m' b := by
  simp [rest, scan_append, h]

/-- A word is read to its end. -/
theorem rest_word (ha : ∀ c ∈ a, isWordChar c = true) (w b : Text) :
    rest (.word w) (a ++ b) = rest (.word (w ++ a)) b := by
  have hscan : scan (.word w) a = ([], .word (w ++ a)) := by
    induction a generalizing w with
    | nil => simp [scan]
    | cons c a ih =>
        have hc := ha c (by simp)
        have hrest := ih (fun x hx => ha x (by simp [hx])) (w ++ [c])
        simp [scan, step, hc, hrest]
  simpa using rest_append hscan b

/-- The scanner begins a word. -/
theorem rest_plain_word (hne : a ≠ []) (ha : ∀ c ∈ a, isWordChar c = true) (b : Text) :
    rest .plain (a ++ b) = rest (.word a) b := by
  obtain ⟨c, a, rfl⟩ := List.exists_cons_of_ne_nil hne
  have hc := ha c (by simp)
  have hscan : scan .plain [c] = ([], .word [c]) := by simp [scan, step, start, hc]
  have hstep := rest_append hscan (a ++ b)
  rw [List.nil_append] at hstep
  rw [List.cons_append, ← List.singleton_append, hstep, rest_word (fun x hx => ha x (by simp [hx]))]
  rfl

/-- Behind a word the scanner goes on as if there were none. -/
theorem rest_word_of_head {c : Char} (hc : isWordChar c = false) (w b : Text) :
    rest (.word w) (c :: b) = .word w :: rest .plain (c :: b) := by
  simp [rest, scan, step, hc]

/-- The text can stand in a literal. -/
def LiteralText (t : Text) : Prop := '"' ∉ t ∧ '\\' ∉ t

theorem rest_literal (ha : LiteralText a) (t b : Text) :
    rest (.literal t) (a ++ b) = rest (.literal (t ++ a)) b := by
  have hscan : scan (.literal t) a = ([], .literal (t ++ a)) := by
    induction a generalizing t with
    | nil => simp [scan]
    | cons c a ih =>
        obtain ⟨hq, hb⟩ := ha
        simp only [List.mem_cons, not_or] at hq hb
        have hrest := ih ⟨hq.2, hb.2⟩ (t ++ [c])
        simp [scan, step, Ne.symm hq.1, Ne.symm hb.1, hrest]
  simpa using rest_append hscan b

theorem rest_literal_end (t b : Text) : rest (.literal t) ('"' :: b) = .literal t :: rest .plain b := by
  simp [rest, scan, step]

end Scan

/-! ## Lines of the preprocessor -/

/-- A line with its continuations, and nothing behind it. -/
def logicalLine : Text → Text
  | '\\' :: '\n' :: t => logicalLine t
  | '\n' :: _ => []
  | c :: t => c :: logicalLine t
  | [] => []

section LogicalLine

variable {a b : Text}

theorem logicalLine_continued (ha : '\n' ∉ a) : logicalLine (a ++ '\\' :: '\n' :: b) = a ++ logicalLine b := by
  induction a with
  | nil => rw [List.nil_append, logicalLine, List.nil_append]
  | cons c a ih =>
      simp only [List.mem_cons, not_or] at ha
      have hnext : ∀ t, (a ++ '\\' :: '\n' :: b) ≠ '\n' :: t := by
        intro t ht
        cases a with
        | nil => simp at ht
        | cons d a =>
            obtain ⟨rfl, _⟩ := List.cons.inj ht
            exact ha.2 (by simp)
      rw [List.cons_append, logicalLine, ih ha.2, List.cons_append]
      · intro t _ ht
        exact hnext t ht
      · exact fun hc => ha.1 hc.symm

theorem logicalLine_end (ha : '\n' ∉ a) (hlast : a.getLast? ≠ some '\\') :
    logicalLine (a ++ '\n' :: b) = a := by
  induction a with
  | nil => rw [List.nil_append, logicalLine]
  | cons c a ih =>
      simp only [List.mem_cons, not_or] at ha
      rw [List.cons_append, logicalLine]
      · cases a with
        | nil => rw [List.nil_append, logicalLine]
        | cons d a => rw [ih ha.2 (by simpa using hlast)]
      · intro t hc ht
        subst hc
        cases a with
        | nil => exact hlast rfl
        | cons d a =>
            obtain ⟨rfl, _⟩ := List.cons.inj ht
            exact ha.2 (by simp)
      · exact fun hc => ha.1 hc.symm

theorem logicalLine_of_newline (ha : '\n' ∉ a) : logicalLine a = a := by
  induction a with
  | nil => rfl
  | cons c a ih =>
      simp only [List.mem_cons, not_or] at ha
      rw [logicalLine, ih ha.2]
      · intro t _ ht
        exact ha.2 (by simp [ht])
      · exact fun hc => ha.1 hc.symm

end LogicalLine

/-- The replacement of a macro: what follows `#define NAME` on its line. -/
def macroTokens (t : Text) : List Token := (tokens (logicalLine t)).drop 3

/-! ## Statements -/

/-- Statements end in a semicolon. -/
def statements : List Token → List (List Token)
  | [] => []
  | t :: ts =>
      if t = .punct ';' then [] :: statements ts else
        match statements ts with
        | [] => [[t]]
        | s :: ss => (t :: s) :: ss

theorem statements_append {s : List Token} (hs : Token.punct ';' ∉ s) (ts : List Token) :
    statements (s ++ .punct ';' :: ts) = s :: statements ts := by
  induction s with
  | nil => simp [statements]
  | cons t s ih =>
      simp only [List.mem_cons, not_or] at hs
      simp [statements, ih hs.2, Ne.symm hs.1]

/-- Statements, each with its semicolon. -/
def unstatements (ss : List (List Token)) : List Token := ss.flatMap (· ++ [.punct ';'])

theorem unstatements_cons (s : List Token) (ss : List (List Token)) :
    unstatements (s :: ss) = s ++ .punct ';' :: unstatements ss := by simp [unstatements]

theorem statements_unstatements {ss : List (List Token)} (hss : ∀ s ∈ ss, Token.punct ';' ∉ s) :
    statements (unstatements ss) = ss := by
  induction ss with
  | nil => rfl
  | cons s ss ih =>
      rw [unstatements_cons, statements_append (hss s (by simp)), ih fun x hx => hss x (by simp [hx])]

/-- A declaration is a type and a name. -/
def declaredName : List Token → Option Text
  | .word _ :: .word x :: _ => some x
  | _ => none

/-- The name that is given the value of a call without arguments, or whose element is, and the callee. -/
def initialiser : List Token → Option (Text × Text)
  | [.word _, .word x, .punct '=', .word g, .punct '(', .punct ')'] => some (x, g)
  | [.word x, .punct '[', .word _, .punct ']', .punct '=', .word g, .punct '(', .punct ')'] => some (x, g)
  | _ => none

def declaredNames (ts : List Token) : List Text := (statements ts).filterMap declaredName

def initialisers (ts : List Token) : List (Text × Text) := (statements ts).filterMap initialiser

/-- A word that may name a variable: no qualified name, no number and no keyword. -/
def isVariable (w : Text) : Bool :=
  !(w.contains ':') && !(w.head?.any Char.isDigit) && !decide (w = ['t', 'r', 'u', 'e'])

/-- The variables of an expression; the flag tells that the last token was a dot, so that a member follows. -/
def usedFrom : Bool → List Token → List Text
  | _, [] => []
  | member, .word w :: ts => if member || !isVariable w then usedFrom false ts else w :: usedFrom false ts
  | _, .literal _ :: ts => usedFrom false ts
  | _, .punct c :: ts => usedFrom (decide (c = '.')) ts

def usedNames (ts : List Token) : List Text := usedFrom false ts

/-- The arguments behind an opening parenthesis; `depth` counts the brackets inside an argument. -/
def argumentsFrom : Nat → List Token → List (List Token)
  | _, [] => [[]]
  | depth, t :: ts =>
      if depth = 0 ∧ t = .punct ')' then [[]]
      else if depth = 0 ∧ t = .punct ',' then [] :: argumentsFrom 0 ts
      else
        let depth' :=
          if t = .punct '(' ∨ t = .punct '[' then depth + 1
          else if t = .punct ')' ∨ t = .punct ']' then depth - 1
          else depth
        match argumentsFrom depth' ts with
        | [] => [[t]]
        | a :: as => (t :: a) :: as

/-- The callee and the arguments of a call. -/
def call : List Token → Option (Text × List (List Token))
  | .word f :: .punct '(' :: ts => some (f, argumentsFrom 0 ts)
  | _ => none

/-! ## Names that a statement looks up -/

/-- The type of a declaration. -/
def typeName : List Token → Option Text
  | .word t :: .word _ :: _ => some t
  | _ => none

/-- A statement behind the name it declares, if it declares one. -/
def expression : List Token → List Token
  | .word _ :: .word _ :: ts => ts
  | ts => ts

/-- The words in front of a parenthesis; the flag tells that the last token was a dot, so that a member
follows. -/
def calleesFrom : Bool → List Token → List Text
  | _, [] => []
  | member, .word w :: ts =>
      if member = false ∧ ts.head? = some (.punct '(') then w :: calleesFrom false ts else calleesFrom false ts
  | _, .literal _ :: ts => calleesFrom false ts
  | _, .punct c :: ts => calleesFrom (decide (c = '.')) ts

def callees (ts : List Token) : List Text := calleesFrom false ts

/-- The types and functions that a variable of the block hides; a variable is in scope behind its name. -/
def hiddenNames (vars : List Text) : List (List Token) → List Text
  | [] => []
  | s :: ss =>
      (typeName s).toList.filter (· ∈ vars) ++
        ((callees (expression s)).filter (· ∈ vars ++ (declaredName s).toList) ++
          hiddenNames (vars ++ (declaredName s).toList) ss)

section Hidden

variable {vars : List Text} {s : List Token} {ss : List (List Token)}

theorem hiddenNames_append (vars : List Text) (ss ss' : List (List Token)) :
    hiddenNames vars (ss ++ ss') = hiddenNames vars ss ++ hiddenNames (vars ++ ss.filterMap declaredName) ss' := by
  induction ss generalizing vars with
  | nil => simp [hiddenNames]
  | cons s ss ih =>
      rw [List.cons_append, hiddenNames, ih, hiddenNames, List.append_assoc, List.append_assoc,
        List.append_assoc]
      cases hs : declaredName s <;> simp [hs]

theorem hiddenNames_cons_eq_nil : hiddenNames vars (s :: ss) = [] ↔
    ((∀ t, typeName s = some t → t ∉ vars) ∧
      ∀ g ∈ callees (expression s), g ∉ vars ++ (declaredName s).toList) ∧
      hiddenNames (vars ++ (declaredName s).toList) ss = [] := by
  rw [hiddenNames, List.append_eq_nil_iff, List.append_eq_nil_iff, List.filter_eq_nil_iff,
    List.filter_eq_nil_iff, and_assoc]
  simp [Option.mem_toList]

/-- A statement that declares nothing, and looks up qualified names only. -/
theorem hiddenNames_qualified (hvars : ∀ x ∈ vars, ':' ∉ x)
    (hss : ∀ s ∈ ss, ∀ w, (typeName s = some w ∨ w ∈ callees (expression s)) → ':' ∈ w)
    (hnames : ∀ x ∈ ss.filterMap declaredName, ':' ∉ x) : hiddenNames vars ss = [] := by
  induction ss generalizing vars with
  | nil => rfl
  | cons s ss ih =>
      have hs : ∀ x ∈ (declaredName s).toList, ':' ∉ x := by
        intro x hx
        rw [Option.mem_toList] at hx
        exact hnames x (List.mem_filterMap.mpr ⟨s, by simp, hx⟩)
      have hall : ∀ x ∈ vars ++ (declaredName s).toList, ':' ∉ x := by
        intro x hx
        exact (List.mem_append.mp hx).elim (hvars x) (hs x)
      refine hiddenNames_cons_eq_nil.mpr ⟨⟨fun t ht hmem => ?_, fun g hg hmem => ?_⟩, ih hall ?_ ?_⟩
      · exact hvars t hmem (hss s (by simp) t (Or.inl ht))
      · exact hall g hmem (hss s (by simp) g (Or.inr hg))
      · exact fun x hx => hss x (by simp [hx])
      · intro x hx
        obtain ⟨r, hr, hrx⟩ := List.mem_filterMap.mp hx
        exact hnames x (List.mem_filterMap.mpr ⟨r, by simp [hr], hrx⟩)

end Hidden

/-! ## Macros and comments -/

/-- A macro is replaced wherever it stands, or only in front of a parenthesis. -/
inductive Macro
  | object
  | function
  deriving DecidableEq

/-- The preprocessor replaces a name in a statement. -/
def Replaced (macros : Text → Option Macro) (s : List Token) (x : Text) : Prop :=
  match macros x with
  | some .object => .word x ∈ s
  | some .function => x ∈ callees s
  | none => False

/-- A name that stands in a statement is left alone everywhere exactly when it is no macro, or one with arguments that
no statement calls. -/
theorem not_replaced_iff {macros : Text → Option Macro} {ss : List (List Token)} {x : Text}
    (hx : ∃ s ∈ ss, .word x ∈ s) : (∀ s ∈ ss, ¬ Replaced macros s x) ↔
      macros x ≠ some .object ∧ (macros x = some .function → ¬ ∃ s ∈ ss, x ∈ callees s) := by
  obtain ⟨s, hs, hxs⟩ := hx
  unfold Replaced
  cases hm : macros x with
  | none => simp
  | some m =>
      cases m with
      | object =>
          refine iff_of_false (fun h => ?_) fun h => h.1 rfl
          exact h s hs hxs
      | function => simp

/-- Every line is blank or a comment, and none is continued. -/
def CommentLines (t : Text) : Prop :=
  ∃ ls : List Text, t = ls.flatMap (· ++ ['\n']) ∧ ∀ l ∈ ls, '\n' ∉ l ∧ '\\' ∉ l ∧
    (l = [] ∨ ['/', '/'] <+: l.dropWhile (· = ' '))

section Comments

variable {a b : Text}

theorem commentLines_nil : CommentLines [] := ⟨[], rfl, by simp⟩

theorem CommentLines.append (ha : CommentLines a) (hb : CommentLines b) : CommentLines (a ++ b) := by
  obtain ⟨ls, rfl, hls⟩ := ha
  obtain ⟨ls', rfl, hls'⟩ := hb
  refine ⟨ls ++ ls', by rw [List.flatMap_append], fun l hl => ?_⟩
  exact (List.mem_append.mp hl).elim (hls l) (hls' l)

theorem commentLines_line (hn : '\n' ∉ a) (hb : '\\' ∉ a) : CommentLines ('/' :: '/' :: (a ++ ['\n'])) :=
  ⟨['/' :: '/' :: a], by simp, by simp [hn, hb]⟩

theorem commentLines_flatMap {α : Type} {f : α → Text} {xs : List α} (h : ∀ x ∈ xs, CommentLines (f x)) :
    CommentLines (xs.flatMap f) := by
  induction xs with
  | nil => exact commentLines_nil
  | cons x xs ih =>
      rw [List.flatMap_cons]
      exact (h x (by simp)).append (ih fun y hy => h y (by simp [hy]))

end Comments

end Cpp
