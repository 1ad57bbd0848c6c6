import RcppDeepState.Library.Text

/-!
# Outlines

Headings at columns, where what is below a heading stands further to the right, and the entries of block YAML that
are written so.
-/

/-- A heading and the outlines below it. -/
inductive Outline (α : Type)
  | node (heading : α) (below : List (Outline α))

namespace Outline

variable {α : Type}

mutual

/-- The headings in order, each with its column. -/
def headings (step column : ℕ) : Outline α → List (ℕ × α)
  | node h below => (column, h) :: headingsAll step (column + step) below

def headingsAll (step column : ℕ) : List (Outline α) → List (ℕ × α)
  | [] => []
  | o :: os => headings step column o ++ headingsAll step column os

end

/-- Put a heading over the outlines that follow it further to the right. -/
def add (line : ℕ × α) (os : List (ℕ × Outline α)) : List (ℕ × Outline α) :=
  (line.1, node line.2 ((os.takeWhile (line.1 < ·.1)).map Prod.snd)) :: os.dropWhile (line.1 < ·.1)

def read (lines : List (ℕ × α)) : List (Outline α) := (lines.foldr add []).map Prod.snd

/-- Nothing at the front stands further to the right than `column`. -/
def Left (column : ℕ) (os : List (ℕ × Outline α)) : Prop := ∀ o ∈ os.head?, o.1 ≤ column

theorem add_below {column inner : ℕ} (h : α) {below : List (Outline α)} {os : List (ℕ × Outline α)}
    (hinner : column < inner) (hos : Left column os) :
    add (column, h) (below.map (inner, ·) ++ os) = (column, node h below) :: os := by
  have hall : ∀ o ∈ below.map (inner, ·), decide (column < o.1) = true := by
    intro o ho
    obtain ⟨o, _, rfl⟩ := List.mem_map.mp ho
    simpa using hinner
  have htake : os.takeWhile (column < ·.1) = [] ∧ os.dropWhile (column < ·.1) = os := by
    cases os with
    | nil => exact ⟨rfl, rfl⟩
    | cons o os =>
        have hle : ¬ column < o.1 := Nat.not_lt.mpr (hos o rfl)
        simp [hle]
  unfold add
  rw [List.takeWhile_append_of_pos hall, List.dropWhile_append_of_pos hall, htake.1, htake.2]
  simp

mutual

theorem foldr_headings {step : ℕ} (hstep : 0 < step) (column : ℕ) (o : Outline α) {os : List (ℕ × Outline α)}
    (hos : Left column os) : (headings step column o).foldr add os = (column, o) :: os := by
  match o with
  | node h below =>
      have hlt : column < column + step := by omega
      have hinner : Left (column + step) os := fun o ho => Nat.le_trans (hos o ho) hlt.le
      rw [headings, List.foldr_cons, foldr_headingsAll hstep (column + step) below hinner]
      exact add_below h hlt hos

theorem foldr_headingsAll {step : ℕ} (hstep : 0 < step) (column : ℕ) (os : List (Outline α))
    {rest : List (ℕ × Outline α)} (hrest : Left column rest) :
    (headingsAll step column os).foldr add rest = os.map (column, ·) ++ rest := by
  match os with
  | [] => rfl
  | o :: os =>
      have hfront : Left column (os.map (column, ·) ++ rest) := by
        cases os with
        | nil => exact hrest
        | cons o' os =>
            intro p hp
            cases hp
            exact Nat.le_refl _
      rw [headingsAll, List.foldr_append, foldr_headingsAll hstep column os hrest,
        foldr_headings hstep column o hfront]
      rfl

end

/-- Outlines are read back from their headings. -/
theorem read_headingsAll {step : ℕ} (hstep : 0 < step) (column : ℕ) (os : List (Outline α)) :
    read (headingsAll step column os) = os := by
  have hleft : Left column ([] : List (ℕ × Outline α)) := fun o ho => by cases ho
  rw [read, foldr_headingsAll hstep column os hleft, List.append_nil, List.map_map]
  exact List.map_id os

end Outline
