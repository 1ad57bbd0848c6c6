import RcppDeepState.Library.Ere

/-!
# Filename patterns

`fnmatch` in the POSIX locale: a star stands for any text, a question mark for any character, and a bracket
expression for one character of a set. A bracket that is not closed stands for itself. Where a backslash escapes,
it makes the next character stand for itself, and a pattern does not end with one.
-/

namespace Glob

/-- A member of a bracket expression. A name that is no class and no character matches nothing. -/
inductive Item
  | range (lo hi : Char)
  | cls (p : Char → Bool)
  | bad

/-- A part of a pattern. -/
inductive Piece
  | star
  | any
  | set (negated : Bool) (items : List Item)
  | char (c : Char)

/-! ## Bracket expressions -/

/-- What stands first in a text: a character, which may begin a range, or a named set. -/
inductive Element
  | char (c : Char)
  | item (i : Item)

/-- The first element of a text, and the text behind it. -/
def readElement (escapes : Bool) : Text → Option (Element × Text)
  | [] => none
  | '[' :: ':' :: t =>
      let name := t.takeWhile Char.isLower
      if ([':', ']'] : Text) <+: t.drop name.length then
        some (.item (((Ere.classes.lookup name).map Item.cls).getD .bad), t.drop (name.length + 2))
      else some (.char '[', ':' :: t)
  | '[' :: '=' :: c :: '=' :: ']' :: t => some (.item (.range c c), t)
  | '[' :: '.' :: c :: '.' :: ']' :: t => some (.char c, t)
  | '[' :: '.' :: t => some (.item .bad, t)
  | c :: t => if escapes && c = '\\' then t.head?.map fun d => (.char d, t.tail) else some (.char c, t)

/-- The end of a range, where classes have no meaning. -/
def readEnd (escapes : Bool) (t : Text) : Option (Char × Text) :=
  match readElement escapes t with
  | some (.char c, t) => some (c, t)
  | some (.item _, _) => some ('[', t.tail)
  | none => none

/-- The members of a bracket expression up to the closing bracket, which comes first as a member, and what follows
it. -/
def readItems (escapes : Bool) : Nat → Bool → Text → Option (List Item × Text)
  | 0, _, _ => none
  | n + 1, first, t =>
      if t.head? = some ']' && !first then some ([], t.tail)
      else do
        let (element, t) ← readElement escapes t
        let (item, t) ← match element with
          | .item i => some (i, t)
          | .char lo =>
              if t.head? = some '-' && t.tail.head? ≠ some ']' then
                (readEnd escapes t.tail).map fun r => (Item.range lo r.1, r.2)
              else some (Item.range lo lo, t)
        let (items, t) ← readItems escapes n false t
        return (item :: items, t)

/-- A character is looked for in the order of the members. -/
def setAccepts (c : Char) (negated : Bool) : List Item → Bool
  | [] => negated
  | .range lo hi :: items => if lo ≤ c && c ≤ hi then !negated else setAccepts c negated items
  | .cls p :: items => if p c then !negated else setAccepts c negated items
  | .bad :: _ => false

/-! ## Patterns -/

/-- The parts of a pattern of at most `n` characters. -/
def pieces (escapes : Bool) : Nat → Text → List Piece
  | 0, _ => []
  | _, [] => []
  | n + 1, c :: t =>
      if c = '*' then .star :: pieces escapes n t
      else if c = '?' then .any :: pieces escapes n t
      else if c = '[' then
        let negated := t.head? = some '!' || t.head? = some '^'
        match readItems escapes (n + 1) true (if negated then t.tail else t) with
        | some (items, rest) => .set negated items :: pieces escapes n rest
        | none => .char '[' :: pieces escapes n t
      else if escapes && c = '\\' then
        match t with
        | [] => [.set false []]
        | d :: t => .char d :: pieces escapes n t
      else .char c :: pieces escapes n t

def Piece.accepts (c : Char) : Piece → Bool
  | .star => false
  | .any => true
  | .set negated items => setAccepts c negated items
  | .char d => c = d

def matchPieces : List Piece → Text → Bool
  | [], t => t.isEmpty
  | .star :: ps, t => t.tails.any (matchPieces ps)
  | _ :: _, [] => false
  | p :: ps, c :: t => p.accepts c && matchPieces ps t

/-- `fnmatch` with `FNM_NOESCAPE`. -/
def fnmatch (pattern name : Text) : Bool := matchPieces (pieces false pattern.length pattern) name

example : fnmatch "c_[[:upper:]]*[!h-x[.-.]]" "c_Boring" = true := by with_unfolding_all decide

/-- A component of a path fits the pattern that it is read as. -/
def fitsItself (name : Text) : Bool := matchPieces (pieces true name.length name) name

/-- The characters with a meaning in a pattern. -/
def special : Text := ['*', '?', '[', '\\']

variable {name : Text}

theorem pieces_of_plain {n : Nat} (h : ∀ c ∈ name, c ∉ special) (hn : name.length ≤ n) :
    pieces true n name = name.map Piece.char := by
  induction name generalizing n with
  | nil => cases n <;> rfl
  | cons c t ih =>
    cases n with
    | zero => simp at hn
    | succ n =>
      have hc : c ≠ '*' ∧ c ≠ '?' ∧ c ≠ '[' ∧ c ≠ '\\' := by simpa [special] using h c List.mem_cons_self
      have ht := ih (fun d hd => h d (List.mem_cons_of_mem _ hd)) (by simpa using hn)
      simp [pieces, hc, ht]

theorem matchPieces_chars (t : Text) : matchPieces (t.map Piece.char) t = true := by
  induction t with
  | nil => rfl
  | cons c t ih => simp [matchPieces, Piece.accepts, ih]

/-- A name without characters that have a meaning fits itself. -/
theorem fitsItself_of_plain (h : ∀ c ∈ name, c ∉ special) : fitsItself name = true := by
  rw [fitsItself, pieces_of_plain h le_rfl]
  exact matchPieces_chars name

end Glob
