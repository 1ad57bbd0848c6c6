import RcppDeepState.Library.Outline

/-!
# Block YAML

The part of YAML that is written in lines: entries, the items of sequences, and scalars that are plain or in single
quotes. A document with anything else is not read.
-/

namespace Yaml

inductive Heading
  | item
  | entry (key : Text) (value : Option Text)
  | scalar (value : Text)
  deriving DecidableEq

/-! ## Reading -/

/-- The characters that no plain scalar begins with. -/
def indicators : Text := ",[]\x7b\x7d#&*!|>'\"%@`"

/-- The characters that a plain scalar begins with only when no blank follows. -/
def guarded : Text := "-?:"

/-- A text of one line that stands for itself. -/
def Plain (t : Text) : Prop :=
  t.head?.any (fun c => c ∉ indicators && (c ∉ guarded || t.tail.head?.any (· ≠ ' '))) = true ∧
    (∀ c ∈ t, ' ' ≤ c) ∧ t.head? ≠ some ' ' ∧ t.getLast? ≠ some ' ' ∧ t.getLast? ≠ some ':' ∧
    ¬ (": " : Text) <:+: t ∧ ¬ (" #" : Text) <:+: t

instance (t : Text) : Decidable (Plain t) := inferInstanceAs (Decidable (_ ∧ _))

/-- The value that is written as `t`. -/
def scalarOf (t : Text) : Option Text :=
  if t.head? = some '\'' then
    if t.tail.getLast? = some '\'' ∧ '\'' ∉ t.tail.dropLast then some t.tail.dropLast else none
  else if Plain t then some t else none

/-- What is before and behind the first colon that a blank or nothing follows. -/
def splitKey : Text → Option (Text × Text)
  | [] => none
  | c :: t =>
      if c = ':' ∧ t.head?.all (· = ' ') then some ([], t) else (splitKey t).map fun p => (c :: p.1, p.2)

/-- The heading of an entry or a scalar. -/
def headingOf (t : Text) : Option Heading :=
  match splitKey t with
  | some (key, value) =>
      if value.strip = [] then some (.entry key none) else (scalarOf value.strip).map fun v => .entry key (some v)
  | none => (scalarOf t).map .scalar

/-- The headings of a line without the blanks around it: an item and what follows it are on one line. -/
def lineHeadings (column : ℕ) : Text → Option (List (ℕ × Heading))
  | '-' :: ' ' :: t => (lineHeadings (column + 2) t).map ((column, .item) :: ·)
  | t => (headingOf t).map fun h => [(column, h)]

def readLine (line : Text) : Option (List (ℕ × Heading)) :=
  if line.strip = [] ∨ line.strip.head? = some '#' then some []
  else lineHeadings (line.takeWhile (· = ' ')).length line.strip

def readLines (lines : List Text) : Option (List (Outline Heading)) :=
  (lines.mapM readLine).map fun hs => Outline.read hs.flatten

/-- The document that a text holds. -/
def document (t : Text) : Option (List (Outline Heading)) := readLines t.lines

theorem readLines_eq {lines : List Text} {hss : List (List (ℕ × Heading))}
    (h : List.Forall₂ (fun line hs => readLine line = some hs) lines hss) :
    readLines lines = some (Outline.read hss.flatten) := by
  have hmap : lines.mapM readLine = some hss := by
    induction h with
    | nil => rfl
    | cons hline _ ih => simp [hline, ih]
  rw [readLines, hmap]
  rfl

/-! ## Entries -/

theorem Plain.oneLine {t : Text} (h : Plain t) : t.OneLine := by
  constructor
  · intro hmem
    exact absurd (h.2.1 _ hmem) (by decide)
  · intro hmem
    exact absurd (h.2.1 _ hmem) (by decide)

theorem scalarOf_plain {t : Text} (h : Plain t) : scalarOf t = some t := by
  have hquote : t.head? ≠ some '\'' := by
    intro hq
    have hstart := h.1
    rw [hq] at hstart
    simp [indicators, Text.ofString_eq] at hstart
  rw [scalarOf, if_neg hquote, if_pos h]

theorem splitKey_append {key value : Text} (hkey : ':' ∉ key) (hvalue : value.head?.all (· = ' ') = true) :
    splitKey (key ++ ':' :: value) = some (key, value) := by
  induction key with
  | nil => simp [splitKey, hvalue]
  | cons c key ih =>
      simp only [List.mem_cons, not_or] at hkey
      rw [List.cons_append, splitKey, if_neg fun hc => hkey.1 hc.1.symm, ih hkey.2]
      rfl

theorem strip_eq_self {t : Text} (hhead : t.head? ≠ some ' ') (hlast : t.getLast? ≠ some ' ') : t.strip = t := by
  have hdrop : ∀ u : Text, u.head? ≠ some ' ' → u.dropWhile (· = ' ') = u := by
    intro u hu
    cases u with
    | nil => rfl
    | cons c u =>
        have hc : c ≠ ' ' := fun h => hu (by rw [h]; rfl)
        simp [hc]
  rw [Text.strip, hdrop t hhead, hdrop t.reverse (by rwa [List.head?_reverse]), List.reverse_reverse]

theorem strip_replicate_append (n : ℕ) (t : Text) : Text.strip (List.replicate n ' ' ++ t) = t.strip := by
  induction n with
  | zero => rfl
  | succ n ih => rw [List.replicate_succ, List.cons_append, Text.strip_blank_cons, ih]

theorem lineHeadings_of_ne {column : ℕ} {c : Char} {t : Text} (hc : c ≠ '-') :
    lineHeadings column (c :: t) = (headingOf (c :: t)).map fun h => [(column, h)] := by
  rw [lineHeadings]
  rintro u ⟨⟩
  exact hc rfl

/-- What is written behind a key is its value. -/
theorem headingOf_entry {key value : Text} (hkey : ':' ∉ key) (hvalue : Plain value) :
    headingOf (key ++ (": " ++ value)) = some (.entry key (some value)) := by
  have hstrip : Text.strip (' ' :: value) = value := by
    rw [Text.strip_blank_cons, strip_eq_self hvalue.2.2.1 hvalue.2.2.2.1]
  have hne : value ≠ [] := by
    rintro rfl
    exact absurd hvalue.1 (by decide)
  have hsplit := @splitKey_append key (' ' :: value) hkey rfl
  rw [Text.ofString_eq]
  rw [headingOf, show key ++ (": ".toList ++ value) = key ++ ':' :: ' ' :: value from rfl, hsplit]
  simp only [hstrip, if_neg hne, scalarOf_plain hvalue, Option.map_some]

/-- A line holds the entry that is written in it. -/
theorem readLine_entry {column : ℕ} {c : Char} {key value : Text} (hkey : ':' ∉ c :: key) (hc : c ∉ (" -#" : Text))
    (hvalue : Plain value) :
    readLine (List.replicate column ' ' ++ ((c :: key) ++ (": " ++ value))) =
      some [(column, .entry (c :: key) (some value))] := by
  simp only [Text.ofString_eq, show " -#".toList = [' ', '-', '#'] from rfl, List.mem_cons, List.not_mem_nil,
    or_false, not_or] at hc
  obtain ⟨hblank, hdash, hhash⟩ := hc
  have hne : value ≠ [] := by
    rintro rfl
    exact absurd hvalue.1 (by decide)
  have hlast : ((c :: key) ++ (": " ++ value)).getLast? ≠ some ' ' := by
    rw [← List.append_assoc, List.getLast?_append_of_ne_nil _ hne]
    exact hvalue.2.2.2.1
  have hstrip : Text.strip (List.replicate column ' ' ++ ((c :: key) ++ (": " ++ value))) =
      (c :: key) ++ (": " ++ value) := by
    rw [strip_replicate_append]
    exact strip_eq_self (by simpa using hblank) hlast
  have hcolumn :
      ((List.replicate column ' ' ++ ((c :: key) ++ (": " ++ value))).takeWhile (· = ' ')).length = column := by
    rw [List.takeWhile_append_of_pos fun x hx => by simpa using (List.mem_replicate.mp hx).2]
    simp [hblank]
  rw [readLine, hstrip, hcolumn, if_neg]
  · rw [List.cons_append, lineHeadings_of_ne hdash, ← List.cons_append, headingOf_entry hkey hvalue]
    rfl
  · simpa using hhash

end Yaml
