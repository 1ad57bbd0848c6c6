import RcppDeepState.Library.Text

/-!
# Extended regular expressions

The patterns of a line filter: assertions, bracket expressions, bounds and back references beside the
usual operators. A pattern that the library refuses is not read. Character classes are those of ASCII;
`\Q`, `\x` and flags behind `(?` are not read.
-/

namespace Ere

/-! ## Matching -/

/-- A place in a text: the character in front, the text behind, and what the groups have matched. -/
structure Spot where
  prev : Option Char
  rest : Text
  groups : List (Nat × Text)

inductive Assertion
  | lineStart
  | lineEnd
  | wordStart
  | wordEnd
  | wordEdge
  | noWordEdge

inductive Pattern
  | empty
  | set (p : Char → Bool)
  | assert (a : Assertion)
  | seq (p q : Pattern)
  | alt (p q : Pattern)
  | rep (min : Nat) (max : Option Nat) (p : Pattern)
  | group (n : Nat) (p : Pattern)
  | back (n : Nat)

def isWord (c : Char) : Bool := c.isAlphanum || c = '_'

/-- The place behind the first `n` characters. -/
def Spot.advance (a : Spot) (n : Nat) : Spot :=
  { a with prev := if n = 0 then a.prev else (a.rest.take n).getLast?, rest := a.rest.drop n }

def Assertion.holds (a : Spot) : Assertion → Bool
  | .lineStart => a.prev.isNone
  | .lineEnd => a.rest.isEmpty
  | .wordStart => !a.prev.any isWord && a.rest.head?.any isWord
  | .wordEnd => a.prev.any isWord && !a.rest.head?.any isWord
  | .wordEdge => a.prev.isNone || a.rest.isEmpty || a.prev.any isWord != a.rest.head?.any isWord
  | .noWordEdge => !(a.prev.isNone || a.rest.isEmpty) && a.prev.any isWord == a.rest.head?.any isWord

/-- Exactly `n` turns of a loop. -/
def times (turn : Spot → List Spot) : Nat → Spot → List Spot
  | 0, a => [a]
  | n + 1, a => (turn a).flatMap (times turn n)

/-- At most `n` turns, each of which consumes something. -/
def upTo (turn : Spot → List Spot) : Nat → Spot → List Spot
  | 0, a => [a]
  | n + 1, a => a :: ((turn a).filter fun b => b.rest.length < a.rest.length).flatMap (upTo turn n)

/-- The places where a match from a place may end. -/
def Pattern.ends : Pattern → Spot → List Spot
  | .empty, a => [a]
  | .set p, a => if a.rest.head?.any p then [a.advance 1] else []
  | .assert s, a => if s.holds a then [a] else []
  | .seq p q, a => (p.ends a).flatMap q.ends
  | .alt p q, a => p.ends a ++ q.ends a
  | .rep min max p, a =>
      (times p.ends min a).flatMap fun b => upTo p.ends ((max.map (· - min)).getD b.rest.length) b
  | .group n p, a => (p.ends a).map fun b =>
      { b with groups := (n, a.rest.take (a.rest.length - b.rest.length)) :: b.groups }
  | .back n, a =>
      let t := (a.groups.lookup n).getD []
      if t <+: a.rest then [a.advance t.length] else []

/-- A match somewhere in the text behind a character. -/
def Pattern.occurs (p : Pattern) (prev : Option Char) : Text → Bool
  | [] => !(p.ends ⟨prev, [], []⟩).isEmpty
  | c :: s => !(p.ends ⟨prev, c :: s, []⟩).isEmpty || p.occurs (some c) s

/-! ## Bracket expressions and bounds -/

/-- The named classes. -/
def classes : List (Text × (Char → Bool)) :=
  [("alnum", Char.isAlphanum), ("alpha", Char.isAlpha), ("blank", fun c => c = ' ' || c = '\t'),
   ("cntrl", fun c => c.toNat < 32 || c.toNat = 127), ("digit", Char.isDigit),
   ("graph", fun c => decide (32 < c.toNat ∧ c.toNat < 127)), ("lower", Char.isLower),
   ("print", fun c => decide (32 ≤ c.toNat ∧ c.toNat < 127)),
   ("punct", fun c => decide (32 < c.toNat ∧ c.toNat < 127) && !c.isAlphanum),
   ("space", fun c => c = ' ' || decide (9 ≤ c.toNat ∧ c.toNat ≤ 13)), ("upper", Char.isUpper),
   ("xdigit", fun c => c.isDigit || decide ('a' ≤ c.toLower ∧ c.toLower ≤ 'f'))]

/-- The items of a bracket expression up to the closing bracket, which as the first item is literal. -/
def items : Nat → Bool → Text → Option ((Char → Bool) × Text)
  | 0, _, _ => none
  | _, _, [] => none
  | fuel + 1, first, c :: s =>
      if c = ']' ∧ ¬ first then some (fun _ => false, s) else do
        let (item, s') ← match c, s with
          | c, '-' :: d :: s' =>
              if d = ']' then if c = '-' ∧ ¬ first then none else some ((· == c), s)
              else if c ≤ d then some (fun x => decide (c ≤ x ∧ x ≤ d), s') else none
          | '[', '.' :: _ => none
          | '[', '=' :: _ => none
          | '[', ':' :: s' => do
              let p ← classes.lookup (s'.takeWhile (· ≠ ':'))
              some (p, (s'.dropWhile (· ≠ ':')).drop 2)
          | '-', d :: _ => if first ∨ d = ']' then some ((· == '-'), s) else none
          | c, _ => some ((· == c), s)
        let (others, s'') ← items fuel false s'
        some (fun x => item x || others x, s'')

/-- The bracket expression behind `[`. -/
def bracket (s : Text) : Option ((Char → Bool) × Text) :=
  match s with
  | '^' :: s => (items (s.length + 1) true s).map fun r => (fun x => !r.1 x, r.2)
  | _ => items (s.length + 1) true s

def number (s : Text) : Option Nat :=
  match s.takeWhile Char.isDigit with
  | [] => none
  | ds => some (ds.foldl (fun n d => 10 * n + (d.toNat - '0'.toNat)) 0)

/-- The bounds behind an opening brace; a bound without numbers is one turn. -/
def bounds (s : Text) : Option ((Nat × Option Nat) × Text) :=
  let min := number s
  let (max, s') := match s.dropWhile Char.isDigit with
    | ',' :: s' => (number s', s'.dropWhile Char.isDigit)
    | s' => (min, s')
  match s' with
  | '\x7d' :: s'' =>
      if s.head? = some '\x7d' ∨ max.any (255 < ·) ∨ max.any (· < min.getD 0) then none
      else if min = none ∧ max = none then some ((1, some 1), s'') else some ((min.getD 0, max), s'')
  | _ => none

/-! ## Reading a pattern -/

/-- The characters that do not stand for themselves. -/
def special : List Char := ['.', '*', '+', '?', '(', ')', '|', '[', '\x7b', '^', '$', '\\']

/-- Behind a repetition a question mark asks for the shortest match; another sign is reserved. -/
def behindSign : Text → Option Text
  | '?' :: s => some s
  | '*' :: _ => none
  | '+' :: _ => none
  | s => some s

/-- The repetitions behind an atom. -/
def repeats : Nat → Pattern → Text → Option (Pattern × Text)
  | 0, p, s => some (p, s)
  | fuel + 1, p, s =>
      match s with
      | '*' :: s' => do repeats fuel (.rep 0 none p) (← behindSign s')
      | '+' :: s' => do repeats fuel (.rep 1 none p) (← behindSign s')
      | '?' :: s' => do repeats fuel (.rep 0 (some 1) p) (← behindSign s')
      | '\x7b' :: s' => do
          let ((min, max), s'') ← bounds s'
          repeats fuel (.rep min max p) (← behindSign s'')
      | s => some (p, s)

/-- What a backslash makes of the characters behind it. -/
def escaped : Text → Option (Pattern × Text)
  | [] => none
  | c :: s =>
      let space := fun x : Char => x = ' ' || decide (9 ≤ x.toNat ∧ x.toNat ≤ 13)
      match c with
      | 'w' => some (.set isWord, s)
      | 'W' => some (.set fun x => !isWord x, s)
      | 'd' => some (.set Char.isDigit, s)
      | 'D' => some (.set fun x => !x.isDigit, s)
      | 's' => some (.set space, s)
      | 'S' => some (.set fun x => !space x, s)
      | 't' => some (.set (· == '\t'), s)
      | 'n' => some (.set (· == '\n'), s)
      | 'r' => some (.set (· == '\r'), s)
      | 'f' => some (.set (· == '\x0c'), s)
      | 'a' => some (.set (· == '\x07'), s)
      | 'e' => some (.set (· == '\x1b'), s)
      | '<' => some (.assert .wordStart, s)
      | '>' => some (.assert .wordEnd, s)
      | 'b' => some (.assert .wordEdge, s)
      | 'B' => some (.assert .noWordEdge, s)
      | 'Q' => none
      | 'x' => none
      | '0' => none
      | c => if c.isDigit then some (.back (c.toNat - '0'.toNat), s) else some (.set (· == c), s)

/-- A branch ends with the pattern, at a bar, and in a group at its parenthesis. -/
def endsBranch (nested : Bool) : Text → Bool
  | [] => true
  | '|' :: _ => true
  | ')' :: _ => nested
  | _ => false

mutual

/-- One atom; before a repetition it may be missing. `n` groups are open or closed before it. -/
def atom : Nat → Bool → Nat → Text → Option (Pattern × Text × Nat)
  | 0, _, _, _ => none
  | _, _, n, [] => some (.empty, [], n)
  | fuel + 1, _, n, c :: s =>
      match c with
      | '(' =>
          if s.head? = some '?' then none else do
            let (p, s', m) ← alternatives fuel true (n + 1) s
            match s' with
            | ')' :: s'' => some (.group (n + 1) p, s'', m)
            | _ => none
      | '[' => (bracket s).map fun r => (.set r.1, r.2, n)
      | '\\' => (escaped s).map fun r => (r.1, r.2, n)
      | '.' => some (.set fun _ => true, s, n)
      | '^' => some (.assert .lineStart, s, n)
      | '$' => some (.assert .lineEnd, s, n)
      | '*' => some (.empty, c :: s, n)
      | '+' => some (.empty, c :: s, n)
      | '?' => some (.empty, c :: s, n)
      | '\x7b' => some (.empty, c :: s, n)
      | c => some (.set (· == c), s, n)

def branch : Nat → Bool → Nat → Text → Option (Pattern × Text × Nat)
  | 0, _, _, _ => none
  | fuel + 1, nested, n, s =>
      if endsBranch nested s then some (.empty, s, n) else do
        let (p, s', n') ← atom fuel nested n s
        let (p', s'') ← repeats s'.length p s'
        let (q, s''', n'') ← branch fuel nested n' s''
        some (.seq p' q, s''', n'')

def alternatives : Nat → Bool → Nat → Text → Option (Pattern × Text × Nat)
  | 0, _, _, _ => none
  | fuel + 1, nested, n, s => do
      let (p, s', n') ← branch fuel nested n s
      match s' with
      | '|' :: s'' => do
          let (q, s''', n'') ← alternatives fuel nested n' s''
          some (.alt p q, s''', n'')
      | _ => some (p, s', n')

end

/-- The highest number a back reference has. -/
def Pattern.maxBack : Pattern → Nat
  | .empty | .set _ | .assert _ => 0
  | .seq p q | .alt p q => max p.maxBack q.maxBack
  | .rep _ _ p | .group _ p => p.maxBack
  | .back n => n

/-- Read a pattern; a back reference needs a group of its number. -/
def parse (pattern : Text) : Option Pattern :=
  match alternatives (3 * pattern.length + 3) false 0 pattern with
  | some (p, [], n) => if p.maxBack ≤ n then some p else none
  | _ => none

/-- The lines a pattern matches in; `none` when the pattern is not read. -/
def grep (pattern : Text) (lines : List Text) : Option (List Text) :=
  (parse pattern).map fun p => lines.filter (p.occurs none)

/-- Whether a pattern matches does not depend on how often or where a line stands. -/
theorem grep_congr {pattern : Text} {ls ls' : List Text} (h : ∀ l, l ∈ ls ↔ l ∈ ls') :
    (grep pattern ls).map (· = []) = (grep pattern ls').map (· = []) := by
  cases hp : parse pattern with
  | none => simp [grep, hp]
  | some p => simp [grep, hp, List.filter_eq_nil_iff, h]

/-! ## Patterns of ordinary characters -/

def lit (t : Text) : Pattern := t.foldr (fun c p => .seq (.set (· == c)) p) .empty

theorem ends_lit_eq_nil_iff {t : Text} {a : Spot} : (lit t).ends a = [] ↔ ¬ t <+: a.rest := by
  induction t generalizing a with
  | nil => simp [lit, Pattern.ends]
  | cons c t ih =>
      have hseq : (lit (c :: t)).ends a =
          (if a.rest.head?.any (· == c) then [a.advance 1] else []).flatMap (lit t).ends := rfl
      rw [hseq]
      cases hr : a.rest with
      | nil => simp
      | cons d r =>
          by_cases hd : d = c
          · subst hd
            have hrest : (a.advance 1).rest = r := by simp [Spot.advance, hr]
            simp [ih, hrest]
          · simp [hd, Ne.symm hd]

theorem occurs_lit {t l : Text} {prev : Option Char} : (lit t).occurs prev l = true ↔ t <:+: l := by
  induction l generalizing prev with
  | nil => simp [Pattern.occurs, ends_lit_eq_nil_iff]
  | cons c l ih =>
      rw [Pattern.occurs, List.infix_cons_iff, Bool.or_eq_true, ih]
      simp [ends_lit_eq_nil_iff]

section Ordinary

variable {t : Text} (h : ∀ c ∈ t, c ∉ special)
include h

theorem repeats_of_ordinary (fuel : Nat) (p : Pattern) : repeats fuel p t = some (p, t) := by
  cases fuel with
  | zero => rfl
  | succ fuel =>
      unfold repeats
      split
      · exact absurd (h '*' (by simp)) (by decide)
      · exact absurd (h '+' (by simp)) (by decide)
      · exact absurd (h '?' (by simp)) (by decide)
      · exact absurd (h '\x7b' (by simp)) (by decide)
      · rfl

omit h in
theorem atom_of_ordinary {c : Char} (hc : c ∉ special) (fuel n : Nat) (nested : Bool) (s : Text) :
    atom (fuel + 1) nested n (c :: s) = some (.set (· == c), s, n) := by
  unfold atom
  split
  all_goals first | rfl | exact absurd hc (by decide)

omit h in
theorem endsBranch_of_ordinary {c : Char} (hc : c ∉ special) (nested : Bool) (s : Text) :
    endsBranch nested (c :: s) = false := by
  unfold endsBranch
  split
  · contradiction
  · rename_i heq
    cases heq
    exact absurd hc (by decide)
  · rename_i heq
    cases heq
    exact absurd hc (by decide)
  · rfl

theorem branch_of_ordinary {fuel : Nat} (hf : t.length + 1 < fuel) (nested : Bool) (n : Nat) :
    branch fuel nested n t = some (lit t, [], n) := by
  induction t generalizing fuel with
  | nil =>
      obtain ⟨fuel, rfl⟩ : ∃ m, fuel = m + 1 := ⟨fuel - 1, by omega⟩
      rw [branch]
      rfl
  | cons c t ih =>
      obtain ⟨fuel, rfl⟩ : ∃ m, fuel = m + 2 := ⟨fuel - 2, by omega⟩
      have hc : c ∉ special := h c (by simp)
      have ht : ∀ x ∈ t, x ∉ special := fun x hx => h x (by simp [hx])
      have hrest := @ih ht (fuel + 1) (by simp at hf; omega)
      rw [branch, endsBranch_of_ordinary hc, atom_of_ordinary hc]
      simp only [Bool.false_eq_true, ↓reduceIte, Option.bind_eq_bind, Option.bind_some,
        repeats_of_ordinary ht, hrest]
      rfl

theorem parse_of_ordinary : parse t = some (lit t) := by
  have hb := @branch_of_ordinary t h (3 * t.length + 2) (by omega) false 0
  have hback : (lit t).maxBack = 0 := by
    clear h hb
    induction t with
    | nil => rfl
    | cons c t ih =>
        have hcons : (lit (c :: t)).maxBack = max 0 (lit t).maxBack := rfl
        rw [hcons, ih]
        rfl
  rw [parse, alternatives, hb]
  simp [hback]

/-- Such a pattern matches in the lines that have it as a part. -/
theorem grep_ordinary (lines : List Text) :
    grep t lines = some (lines.filter fun l => decide (t <:+: l)) := by
  rw [grep, parse_of_ordinary h, Option.map_some]
  refine congrArg some (List.filter_congr ?_)
  intro l _
  rw [Bool.eq_iff_iff, occurs_lit, decide_eq_true_eq]

end Ordinary

end Ere
