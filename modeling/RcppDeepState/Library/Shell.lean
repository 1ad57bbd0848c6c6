import Mathlib.Data.List.Count
import RcppDeepState.Library.Text

/-!
# Words and operators of the POSIX shell

The token rules of the shell: blanks and operators end a word, quotes and backslashes take the meaning from a
character, and an unquoted `*`, `?` or `[` makes a word a pattern. A text with an expansion that depends on
the environment, or with an open quote, has no tokens.
-/

namespace Shell

/-! ## The scanner -/

/-- A character of a word: itself, or active in a pattern. -/
inductive WordChar
  | char (c : Char)
  | active (c : Char)
  deriving DecidableEq

abbrev Word := List WordChar

/-- `number` is the file descriptor before a redirection. -/
inductive Token
  | word (w : Word)
  | number (n : Text)
  | operator (o : Text)
  deriving DecidableEq

/-- Where the scanner is; a word or an operator carries what was read of it, and a word whether all of that
was unquoted. -/
inductive Mode
  | blank
  | word (w : Word) (bare : Bool)
  | operator (o : Text)
  | comment
  | single (w : Word)
  | double (w : Word)
  | doubleEscaped (w : Word)
  | escaped (m : Mode)
  deriving DecidableEq

def operators : List Text :=
  ["&", "&&", "|", "||", ";", ";;", "<", "<<", "<<-", "<&", "<>", ">", ">>", ">&", ">|", "(", ")"]

def isBlank (c : Char) : Bool := c = ' ' || c = '\t'

/-- `$` and a backquote begin an expansion. -/
def isExpansion (c : Char) : Bool := c = '$' || c = '`'

def isPattern (c : Char) : Bool := c = '*' || c = '?' || c = '['

/-- An unquoted character of a word. -/
def wordChar (c : Char) : WordChar := if isPattern c then .active c else .char c

def isDigit : WordChar → Bool
  | .char c => c.isDigit
  | .active _ => false

def WordChar.erase : WordChar → Char
  | .char c => c
  | .active c => c

/-- The token that ends. -/
def Mode.flush : Mode → List Token
  | .word w _ => [.word w]
  | .operator o => [.operator o]
  | _ => []

/-- The token that ends before an operator: digits before a redirection are a file descriptor. -/
def Mode.flushBefore (c : Char) : Mode → List Token
  | .word w bare =>
      if bare && w.all isDigit && (c = '<' || c = '>') then [.number (w.map WordChar.erase)] else [.word w]
  | m => m.flush

/-- Put a character into a word, or begin one. -/
def Mode.put (x : WordChar) (bare : Bool) : Mode → List Token × Mode
  | .word w b => ([], .word (w ++ [x]) (b && bare))
  | m => (m.flush, .word [x] bare)

/-- What has been read of the word that goes on, or begins, with a quote. -/
def Mode.opened : Mode → Word
  | .word w _ => w
  | _ => []

/-- The tokens that a quote ends. -/
def Mode.beforeQuote : Mode → List Token
  | .word _ _ => []
  | m => m.flush

def Mode.inWord : Mode → Bool
  | .word _ _ => true
  | _ => false

/-- An unquoted character that does not continue an operator. -/
def unquoted (m : Mode) (c : Char) : Option (List Token × Mode) :=
  if c = '\n' then some (m.flush ++ [.operator "\n"], .blank)
  else if isBlank c then some (m.flush, .blank)
  else if [c] ∈ operators then some (m.flushBefore c, .operator [c])
  else if c = '\\' then some ([], .escaped m)
  else if c = '\'' then some (m.beforeQuote, .single m.opened)
  else if c = '"' then some (m.beforeQuote, .double m.opened)
  else if isExpansion c then none
  else if c = '#' ∧ m.inWord = false then some (m.flush, .comment)
  else if c = '~' ∧ m.inWord = false then none
  else some (m.put (wordChar c) true)

/-- The tokens that end at a character, and where the scanner is behind it; `none` at an expansion. -/
def step : Mode → Char → Option (List Token × Mode)
  | .comment, c => some (if c = '\n' then ([.operator "\n"], .blank) else ([], .comment))
  | .single w, c => some ([], if c = '\'' then .word w false else .single (w ++ [.char c]))
  | .double w, c =>
      if c = '"' then some ([], .word w false)
      else if c = '\\' then some ([], .doubleEscaped w)
      else if isExpansion c then none
      else some ([], .double (w ++ [.char c]))
  | .doubleEscaped w, c =>
      -- A backslash between quotes stays, unless it quotes one of these or continues the line.
      if c = '\n' then some ([], .double w)
      else if c = '"' || c = '\\' || isExpansion c then some ([], .double (w ++ [.char c]))
      else some ([], .double (w ++ [.char '\\', .char c]))
  | .escaped m, c => some (if c = '\n' then ([], m) else m.put (.char c) false)
  | .operator o, c => if o ++ [c] ∈ operators then some ([], .operator (o ++ [c])) else unquoted (.operator o) c
  | .word w bare, c => unquoted (.word w bare) c
  | .blank, c => unquoted .blank c

/-- The token a text ends in; an open quote has none. -/
def finish : Mode → Option (List Token)
  | .blank | .comment => some []
  | .word w _ => some [.word w]
  | .operator o => some [.operator o]
  | .single _ | .double _ | .doubleEscaped _ | .escaped _ => none

def scan : Mode → Text → Option (List Token)
  | m, [] => finish m
  | m, c :: t =>
      match step m c with
      | none => none
      | some (ts, m') => (scan m' t).map (ts ++ ·)

def tokens (t : Text) : Option (List Token) := scan .blank t

/-- The tokens that end inside a text, and where the scanner is behind it. -/
def run : Mode → Text → Option (List Token × Mode)
  | m, [] => some ([], m)
  | m, c :: t =>
      match step m c with
      | none => none
      | some (ts, m') => (run m' t).map fun r => (ts ++ r.1, r.2)

/-- A text that is read up to some place is read off the front. -/
theorem scan_append {m m' : Mode} {a : Text} {ts : List Token} (h : run m a = some (ts, m')) (t : Text) :
    scan m (a ++ t) = (scan m' t).map (ts ++ ·) := by
  induction a generalizing m ts with
  | nil =>
      cases h
      rw [List.nil_append]
      cases scan m' t <;> rfl
  | cons c a ih =>
      rw [run] at h
      rw [List.cons_append, scan]
      cases hstep : step m c with
      | none => rw [hstep] at h; cases h
      | some r =>
          rw [hstep] at h
          obtain ⟨r', hr', heq⟩ := Option.map_eq_some_iff.mp h
          cases heq
          show (scan r.2 (a ++ t)).map (r.1 ++ ·) = _
          rw [ih hr', Option.map_map]
          congr 1
          funext l
          exact (List.append_assoc _ _ _).symm

/-! ## Words -/

/-- The character stands for itself, or for a pattern, inside an unquoted word. -/
def isBare (c : Char) : Bool :=
  !(c = '\n' || isBlank c || decide ([c] ∈ operators) || c = '\\' || c = '\'' || c = '"' || isExpansion c)

/-- The character can begin a word. -/
def begins (c : Char) : Bool := isBare c && !(c = '#') && !(c = '~')

/-- A word that the shell reads as it is written. -/
def literal (u : Text) : Word := u.map .char

/-- No character of the text means anything to the shell inside a word. -/
def Plain (u : Text) : Prop := ∀ c ∈ u, isBare c = true ∧ isPattern c = false

section Words

variable {m : Mode} {w : Word} {b : Bool} {c : Char} {t s : Text} {ts : List Token}

theorem scan_of_step {m' : Mode} (h : step m c = some (ts, m')) (t : Text) :
    scan m (c :: t) = (scan m' t).map (ts ++ ·) := by
  rw [scan, h]

theorem scan_of_quiet {m' : Mode} (h : step m c = some ([], m')) (t : Text) : scan m (c :: t) = scan m' t := by
  rw [scan_of_step h]
  cases scan m' t <;> rfl

theorem scan_of_stop (h : step m c = none) (t : Text) : scan m (c :: t) = none := by rw [scan, h]

theorem step_word_of_bare (hc : isBare c = true) : step (.word w b) c = some ([], .word (w ++ [wordChar c]) b) := by
  simp only [isBare, Bool.not_eq_true', Bool.or_eq_false_iff, decide_eq_false_iff_not] at hc
  obtain ⟨⟨⟨⟨⟨⟨hnl, hblank⟩, hop⟩, hback⟩, hsingle⟩, hdouble⟩, hexp⟩ := hc
  simp [step, unquoted, hnl, hblank, hop, hback, hsingle, hdouble, hexp, Mode.inWord, Mode.put]

/-- An unquoted word is read to its end. -/
theorem scan_word_bare {u : Text} (hu : ∀ c ∈ u, isBare c = true) (w : Word) (t : Text) :
    scan (.word w b) (u ++ t) = scan (.word (w ++ u.map wordChar) b) t := by
  induction u generalizing w with
  | nil => simp
  | cons c u ih =>
      rw [List.cons_append, scan_of_quiet (step_word_of_bare (hu c (by simp))), ih fun x hx => hu x (by simp [hx]),
        List.append_assoc]
      rfl

/-- Where a word ends the scanner goes on as if there were none. -/
theorem scan_word_blank (w : Word) (t : Text) : scan (.word w b) (' ' :: t) = (scan .blank t).map (.word w :: ·) := rfl

theorem scan_blank_blank (t : Text) : scan .blank (' ' :: t) = scan .blank t := scan_of_quiet rfl t

theorem scan_begins (hc : begins c = true) (t : Text) : scan .blank (c :: t) = scan (.word [wordChar c] true) t := by
  simp only [begins, isBare, Bool.and_eq_true, Bool.not_eq_true', Bool.or_eq_false_iff, decide_eq_false_iff_not] at hc
  obtain ⟨⟨⟨⟨⟨⟨⟨⟨hnl, hblank⟩, hop⟩, hback⟩, hsingle⟩, hdouble⟩, hexp⟩, hcomment⟩, htilde⟩ := hc
  apply scan_of_quiet
  simp [step, unquoted, hnl, hblank, hop, hback, hsingle, hdouble, hexp, hcomment, htilde, Mode.put, Mode.flush]

/-- The modes in which a word goes on. -/
inductive InWord : Mode → Word → Prop
  | word (w : Word) (b : Bool) : InWord (.word w b) w
  | single (w : Word) : InWord (.single w) w
  | double (w : Word) : InWord (.double w) w
  | doubleEscaped (w : Word) : InWord (.doubleEscaped w) w
  | escaped (w : Word) (b : Bool) : InWord (.escaped (.word w b)) w

/-- How many characters more than it reads a mode can add to a word. -/
def Mode.debt : Mode → Nat
  | .doubleEscaped _ => 1
  | _ => 0

/-- What the scanner has read of a text when a word ends: `read`, which adds `added` to the word. Quotes make a
word shorter than what was read, and every blank that was read is in the word. -/
structure WordRead (m : Mode) (w : Word) (t : Text) (full : Word) (ts : List Token) (added : Word)
    (read rest : Text) : Prop where
  full_eq : full = w ++ added
  text_eq : t = read ++ rest
  rest_tokens : scan .blank rest = some ts
  length_le : added.length ≤ read.length + m.debt
  blanks : read.count ' ' ≤ added.count (.char ' ')
  bare : (∃ b, m = .word w b) → added.length = read.length → added = read.map wordChar ∧ ∀ c ∈ read, isBare c = true

section WordRead

variable {full : Word}

/-- One more character in front. -/
theorem WordRead.cons {m' : Mode} {new added : Word} {read rest : Text}
    (h : WordRead m' (w ++ new) t full ts added read rest) (hlength : new.length + m'.debt ≤ 1 + m.debt)
    (hblank : [c].count ' ' ≤ new.count (.char ' '))
    (hbare : (∃ b, m = .word w b) → new = [] ∧ m'.debt = 0 ∨
      new = [wordChar c] ∧ isBare c = true ∧ ∃ b, m' = .word (w ++ new) b) :
    WordRead m w (c :: t) full ts (new ++ added) (c :: read) rest where
  full_eq := by rw [h.full_eq, List.append_assoc]
  text_eq := by rw [h.text_eq, List.cons_append]
  rest_tokens := h.rest_tokens
  length_le := by
    have hle := h.length_le
    rw [List.length_append, List.length_cons]
    omega
  blanks := by
    have hle := h.blanks
    rw [List.count_append, ← List.singleton_append, List.count_append]
    omega
  bare := by
    intro hword hsame
    have hle := h.length_le
    cases hbare hword with
    | inl hquote =>
        rw [hquote.1, List.nil_append, List.length_cons] at hsame
        omega
    | inr hplain =>
        obtain ⟨hnew, hc, hmode⟩ := hplain
        rw [hnew, List.singleton_append, List.length_cons, List.length_cons] at hsame
        obtain ⟨hadded, hread⟩ := h.bare hmode (Nat.succ.inj hsame)
        exact ⟨by rw [hnew, hadded]; rfl, List.forall_mem_cons.mpr ⟨hc, hread⟩⟩

/-- The word ends here. -/
theorem wordRead_end (h : scan .blank t = some ts) : WordRead m w t w ts [] [] t :=
  ⟨(List.append_nil w).symm, rfl, h, Nat.zero_le _, le_rfl, fun _ _ => ⟨rfl, by simp⟩⟩

/-- A character that ends a word begins the same token as it does between words. -/
theorem step_word_end (hc : c = '\n' ∨ isBlank c = true ∨ [c] ∈ operators) : ∃ tok more m',
    step (.word w b) c = some (tok :: more, m') ∧ step .blank c = some (more, m') ∧
      (tok = .word w ∨ ∃ n, tok = .number n) := by
  simp only [step, unquoted]
  by_cases hnl : c = '\n'
  · exact ⟨_, _, _, by rw [if_pos hnl]; rfl, by rw [if_pos hnl]; rfl, .inl rfl⟩
  · rw [if_neg hnl, if_neg hnl]
    by_cases hblank : isBlank c = true
    · exact ⟨_, _, _, by rw [if_pos hblank]; rfl, by rw [if_pos hblank]; rfl, .inl rfl⟩
    · have hop : [c] ∈ operators := (hc.resolve_left hnl).resolve_left hblank
      rw [if_neg hblank, if_neg hblank, if_pos hop, if_pos hop, Mode.flushBefore]
      split
      · exact ⟨_, _, _, rfl, rfl, .inr ⟨_, rfl⟩⟩
      · exact ⟨_, _, _, rfl, rfl, .inl rfl⟩

theorem scan_word_end (hc : c = '\n' ∨ isBlank c = true ∨ [c] ∈ operators)
    (h : scan (.word w b) (c :: t) = some (.word full :: ts)) :
    ∃ added read rest, WordRead (.word w b) w (c :: t) full ts added read rest := by
  obtain ⟨tok, more, m', hstep, hblank, htok⟩ := @step_word_end w b c hc
  rw [scan_of_step hstep] at h
  obtain ⟨ts', hrest, heq⟩ := Option.map_eq_some_iff.mp h
  obtain ⟨htoken, hts⟩ := List.cons.inj heq
  cases htok with
  | inl hword =>
      cases hword.symm.trans htoken
      refine ⟨[], [], c :: t, wordRead_end ?_⟩
      rw [scan_of_step hblank, hrest, ← hts]
      rfl
  | inr hnumber =>
      obtain ⟨n, hn⟩ := hnumber
      cases hn.symm.trans htoken

theorem scan_inWord (hm : InWord m w) (h : scan m t = some (.word full :: ts)) :
    ∃ added read rest, WordRead m w t full ts added read rest := by
  induction t generalizing m w with
  | nil =>
      cases hm with
      | word w b =>
          cases h
          exact ⟨[], [], [], wordRead_end rfl⟩
      | single w => cases h
      | double w => cases h
      | doubleEscaped w => cases h
      | escaped w b => cases h
  | cons c t ih =>
      -- The step adds `new` to the word and the scan goes on in a word.
      have hnext {m' : Mode} (new : Word) (hm' : InWord m' (w ++ new)) (hstep : step m c = some ([], m'))
          (hlength : new.length + m'.debt ≤ 1 + m.debt) (hblank : [c].count ' ' ≤ new.count (.char ' '))
          (hbare : (∃ b, m = .word w b) → new = [] ∧ m'.debt = 0 ∨
            new = [wordChar c] ∧ isBare c = true ∧ ∃ b, m' = .word (w ++ new) b) :
          ∃ added read rest, WordRead m w (c :: t) full ts added read rest := by
        rw [scan_of_quiet hstep] at h
        obtain ⟨added, read, rest, hread⟩ := ih hm' h
        exact ⟨_, _, _, hread.cons hlength hblank hbare⟩
      have hquoted : [c].count ' ' ≤ [WordChar.char c].count (.char ' ') := by
        by_cases hc : c = ' ' <;> simp [hc]
      cases hm with
      | word w b =>
          by_cases hend : c = '\n' ∨ isBlank c = true ∨ [c] ∈ operators
          · exact scan_word_end hend h
          · simp only [not_or, Bool.not_eq_true] at hend
            obtain ⟨hnl, hblank, hop⟩ := hend
            have hne : c ≠ ' ' := by rintro rfl; cases hblank
            -- A quote or a backslash adds nothing to the word.
            have hquote {m' : Mode} (hm' : InWord m' w) (hdebt : m'.debt = 0) (hstep : step (.word w b) c = some ([], m')) :
                ∃ added read rest, WordRead (.word w b) w (c :: t) full ts added read rest :=
              hnext [] (by simpa using hm') hstep (by simp [hdebt]) (by simp [hne]) fun _ => .inl ⟨rfl, hdebt⟩
            have hinside : isBlank c ≠ true := by simp [hblank]
            by_cases hback : c = '\\'
            · exact hquote (.escaped w b) rfl
                (by rw [step, unquoted, if_neg hnl, if_neg hinside, if_neg hop, if_pos hback])
            by_cases hsingle : c = '\''
            · exact hquote (.single w) rfl
                (by rw [step, unquoted, if_neg hnl, if_neg hinside, if_neg hop, if_neg hback, if_pos hsingle]; rfl)
            by_cases hdouble : c = '"'
            · exact hquote (.double w) rfl
                (by rw [step, unquoted, if_neg hnl, if_neg hinside, if_neg hop, if_neg hback, if_neg hsingle,
                  if_pos hdouble]; rfl)
            cases hexp : isExpansion c with
            | true =>
                rw [scan_of_stop (by simp [step, unquoted, hnl, hblank, hop, hback, hsingle, hdouble, hexp])] at h
                cases h
            | false =>
                have hbare : isBare c = true := by
                  simp [isBare, hnl, hblank, hop, hback, hsingle, hdouble, hexp]
                exact hnext [wordChar c] (.word _ b) (step_word_of_bare hbare) (by simp [Mode.debt]) (by simp [hne])
                  fun _ => .inr ⟨rfl, hbare, b, rfl⟩
      | single w =>
          by_cases hc : c = '\''
          · exact hnext [] (by simpa using .word w false) (by simp [step, hc]) (by simp [Mode.debt]) (by simp [hc])
              (by simp)
          · exact hnext [.char c] (.single _) (by simp [step, hc]) (by simp [Mode.debt]) hquoted (by simp)
      | double w =>
          by_cases hc : c = '"'
          · exact hnext [] (by simpa using .word w false) (by simp [step, hc]) (by simp [Mode.debt]) (by simp [hc])
              (by simp)
          · by_cases hback : c = '\\'
            · exact hnext [] (by simpa using .doubleEscaped w) (by simp [step, hback]) (by simp [Mode.debt])
                (by simp [hback]) (by simp)
            · cases hexp : isExpansion c with
              | true =>
                  rw [scan_of_stop (by simp [step, hc, hback, hexp])] at h
                  cases h
              | false =>
                  exact hnext [.char c] (.double _) (by simp [step, hc, hback, hexp]) (by simp [Mode.debt]) hquoted
                    (by simp)
      | doubleEscaped w =>
          by_cases hc : c = '\n'
          · exact hnext [] (by simpa using .double w) (by simp [step, hc]) (by simp [Mode.debt]) (by simp [hc])
              (by simp)
          · cases hspecial : (c = '"' || c = '\\' || isExpansion c : Bool) with
            | true =>
                exact hnext [.char c] (.double _) (by simp [step, hc, hspecial]) (by simp [Mode.debt]) hquoted (by simp)
            | false =>
                exact hnext [.char '\\', .char c] (.double _) (by simp [step, hc, hspecial]) (by simp [Mode.debt])
                  (by simpa using hquoted) (by simp)
      | escaped w b =>
          by_cases hc : c = '\n'
          · exact hnext [] (by simpa using .word w b) (by simp [step, hc]) (by simp [Mode.debt]) (by simp [hc])
              (by simp)
          · exact hnext [.char c] (.word _ false) (by simp [step, hc, Mode.put]) (by simp [Mode.debt]) hquoted (by simp)

end WordRead

theorem count_literal (u : Text) (c : Char) : (literal u).count (.char c) = u.count c :=
  List.count_map_of_injective u WordChar.char (fun _ _ h => WordChar.char.inj h) c

theorem literal_eq_map_iff {u : Text} : literal u = u.map wordChar ↔ ∀ c ∈ u, isPattern c = false := by
  rw [literal, List.map_inj_left]
  refine forall₂_congr fun c _ => ?_
  cases h : isPattern c <;> simp [wordChar, h]

/-- A text that begins like a word and is followed by a blank is read as it is written exactly when none of its
characters means anything to the shell. -/
theorem scan_word_iff {u : Text} (hc : begins c = true) (hp : isPattern c = false) :
    scan .blank (c :: u ++ ' ' :: s) = some (.word (literal (c :: u)) :: ts) ↔
      Plain u ∧ scan .blank s = some ts := by
  have hstart : wordChar c = .char c := by simp [wordChar, hp]
  rw [List.cons_append, scan_begins hc, hstart]
  constructor
  · intro h
    obtain ⟨added, read, rest, hread⟩ := scan_inWord (.word _ true) h
    have hadded : added = literal u := (List.cons.inj hread.full_eq).2.symm
    have hlength : added.length = u.length := by rw [hadded, literal, List.length_map]
    have hle : added.length ≤ read.length := hread.length_le
    have hall (hsame : read = u) (hrest : rest = ' ' :: s) : Plain u ∧ scan .blank s = some ts := by
      obtain ⟨hmap, hbare⟩ := hread.bare ⟨true, rfl⟩ (by rw [hlength, hsame])
      rw [hadded, hsame] at hmap
      rw [hsame] at hbare
      refine ⟨fun x hx => ⟨hbare x hx, literal_eq_map_iff.mp hmap x hx⟩, ?_⟩
      have htokens := hread.rest_tokens
      rwa [hrest, scan_blank_blank] at htokens
    cases List.append_eq_append_iff.mp hread.text_eq with
    | inl hmore =>
        obtain ⟨z, hz, hs⟩ := hmore
        cases z with
        | nil => exact hall (by rw [hz, List.append_nil]) (by rw [hs, List.nil_append])
        | cons x z =>
            -- The blank behind the text would be in the word.
            have hx : x = ' ' := (List.cons.inj hs).1.symm
            have hblanks := hread.blanks
            rw [hadded, count_literal, hz, hx, List.count_append, List.count_cons_self] at hblanks
            omega
    | inr hless =>
        obtain ⟨z, hz, hs⟩ := hless
        have hnil : z = [] := by
          rw [hz, List.length_append] at hlength
          exact List.length_eq_zero_iff.mp (by omega)
        exact hall (by rw [hz, hnil, List.append_nil]) (by rw [hs, hnil, List.nil_append])
  · intro h
    rw [scan_word_bare fun x hx => (h.1 x hx).1, ← literal_eq_map_iff.mpr fun x hx => (h.1 x hx).2, scan_word_blank, h.2]
    rfl

end Words

/-! ## Plain text -/

section Plain

variable {c : Char} {u v : Text}

theorem plain_append : Plain (u ++ v) ↔ Plain u ∧ Plain v := List.forall_mem_append

theorem plain_nil : Plain [] := fun _ h => by cases h

instance (u : Text) : Decidable (Plain u) := inferInstanceAs (Decidable (∀ c ∈ u, _))

/-- Characters that mean nothing to the shell, not even at the start of a word. -/
def isSafe (c : Char) : Bool := c.isAlphanum || c = '_' || c = '.' || c = '-' || c = '=' || c = '/'

theorem isSafe_spec (h : isSafe c = true) : begins c = true ∧ isPattern c = false := by
  have hne (d : Char) (hd : isSafe d = false) : c ≠ d := by
    rintro rfl
    rw [h] at hd
    cases hd
  have hop : ¬ [c] ∈ operators := by
    intro hmem
    have hall : ∀ o ∈ operators, o.length = 1 → ∀ d ∈ o, isSafe d = false := by with_unfolding_all decide
    have hc := hall [c] hmem rfl c (by simp)
    rw [h] at hc
    cases hc
  simp [begins, isBare, isBlank, isExpansion, isPattern, hop, hne '\n' (by decide), hne ' ' (by decide),
    hne '\t' (by decide), hne '\\' (by decide), hne '\'' (by decide), hne '"' (by decide), hne '$' (by decide),
    hne '`' (by decide), hne '#' (by decide), hne '~' (by decide), hne '*' (by decide), hne '?' (by decide),
    hne '[' (by decide)]

theorem plain_of_safe (h : ∀ c ∈ u, isSafe c = true) : Plain u := by
  intro c hc
  obtain ⟨hbegins, hpattern⟩ := isSafe_spec (h c hc)
  rw [begins, Bool.and_eq_true, Bool.and_eq_true] at hbegins
  exact ⟨hbegins.1.1, hpattern⟩

theorem plain_all {ts : List Text} (h : ts.all (fun t => t.all isSafe) = true) : ∀ t ∈ ts, Plain t := by
  rw [List.all_eq_true] at h
  exact fun t ht => plain_of_safe (List.all_eq_true.mp (h t ht))

end Plain

/-! ## Commands -/

/-- `> file`, or `n>&m`. -/
inductive Redirection
  | toFile (file : Word)
  | duplicate (n m : Text)
  deriving DecidableEq

def Redirection.tokens : Redirection → List Token
  | .toFile file => [.operator ">", .word file]
  | .duplicate n m => [.number n, .operator ">&", .word (literal m)]

/-- A simple command. -/
structure Simple where
  words : List Word
  redirections : List Redirection
  deriving DecidableEq

def Simple.tokens (c : Simple) : List Token :=
  c.words.map .word ++ c.redirections.flatMap Redirection.tokens

/-- The tokens of commands, each with the operator behind it. -/
def script (cs : List (Simple × Option Text)) : List Token :=
  cs.flatMap fun c => c.1.tokens ++ c.2.toList.map .operator

/-- The shell reads a text as these commands. -/
def Denotes (line : Text) (cs : List (Simple × Option Text)) : Prop := tokens line = some (script cs)

/-! ## Texts put together from words -/

/-- What a command line is pasted from: a word, an operator or `2>&1` with a blank behind it, or one more blank. -/
inductive Piece
  | word (u : Text)
  | sign (o : Text)
  | merge
  | gap

def Piece.text : Piece → Text
  | .word u => u ++ [' ']
  | .sign o => o ++ [' ']
  | .merge => "2>&1 "
  | .gap => [' ']

def Piece.tokens : Piece → List Token
  | .word u => [.word (literal u)]
  | .sign o => [.operator o]
  | .merge => [.number "2", .operator ">&", .word (literal "1")]
  | .gap => []

/-- A word begins like one. -/
def Piece.WellFormed : Piece → Prop
  | .word u => ∃ c v, u = c :: v ∧ begins c = true ∧ isPattern c = false
  | .sign o => o ∈ [("&&" : Text), ";", ">"]
  | .merge | .gap => True

def Piece.PlainWord : Piece → Prop
  | .word u => Plain u
  | .sign _ | .merge | .gap => True

section Pieces

variable {p : Piece} {ps : List Piece} {s last : Text} {ts : List Token}

/-- An operator, and `2>&1`, are read whatever follows. -/
theorem run_sign {o : Text} (ho : o ∈ [("&&" : Text), ";", ">"]) :
    run .blank (o ++ [' ']) = some ([.operator o], .blank) := by
  simp only [List.mem_cons, List.not_mem_nil, or_false] at ho
  rcases ho with rfl | rfl | rfl <;> with_unfolding_all decide

theorem run_merge : run .blank "2>&1 " = some ([.number "2", .operator ">&", .word (literal "1")], .blank) := by
  with_unfolding_all decide

theorem scan_run_iff {a : Text} {front : List Token} (h : run .blank a = some (front, .blank)) :
    scan .blank (a ++ s) = some (front ++ ts) ↔ scan .blank s = some ts := by
  rw [scan_append h, Option.map_eq_some_iff]
  constructor
  · rintro ⟨ts', hts', heq⟩
    rw [hts', List.append_cancel_left heq]
  · exact fun hts => ⟨ts, hts, rfl⟩

/-- One piece is read for itself exactly when its word is plain. -/
theorem scan_piece_iff (hp : p.WellFormed) :
    scan .blank (p.text ++ s) = some (p.tokens ++ ts) ↔ p.PlainWord ∧ scan .blank s = some ts := by
  cases p with
  | word u =>
      obtain ⟨c, v, rfl, hc, hpattern⟩ := hp
      have hplain : Plain (c :: v) ↔ Plain v := by
        rw [begins, Bool.and_eq_true, Bool.and_eq_true] at hc
        exact List.forall_mem_cons.trans (and_iff_right ⟨hc.1.1, hpattern⟩)
      have htext : (Piece.word (c :: v)).text ++ s = c :: v ++ ' ' :: s := by simp [Piece.text]
      rw [htext, Piece.PlainWord, hplain]
      exact scan_word_iff hc hpattern
  | sign o => exact (scan_run_iff (run_sign hp)).trans (and_iff_right trivial).symm
  | merge => exact (scan_run_iff run_merge).trans (and_iff_right trivial).symm
  | gap => exact (scan_run_iff rfl).trans (and_iff_right trivial).symm

/-- Pieces are read one by one exactly when all their words are plain. -/
theorem tokens_pieces_iff (hps : ∀ p ∈ ps, p.WellFormed) (hlast : tokens last = some ts) :
    tokens (ps.flatMap Piece.text ++ last) = some (ps.flatMap Piece.tokens ++ ts) ↔ ∀ p ∈ ps, p.PlainWord := by
  induction ps with
  | nil => simpa using hlast
  | cons p ps ih =>
      rw [List.flatMap_cons, List.flatMap_cons, List.append_assoc, List.append_assoc, tokens,
        scan_piece_iff (hps p (by simp)), List.forall_mem_cons]
      exact and_congr_right fun _ => ih fun q hq => hps q (by simp [hq])

end Pieces

end Shell
