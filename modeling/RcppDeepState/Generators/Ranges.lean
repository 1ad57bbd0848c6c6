import Mathlib.Data.Rat.Cast.Order
import RcppDeepState.Generators.Bounds

/-!
# Elements stay in the range asked for

The first entry of `missing_values` is an unrestricted draw, and the element that a numeric vector leaves to the
overwrites may keep its zero.
-/

namespace RcppDeepState

variable {α : Type}

/-! ## The values that a caller accepts -/

/-- A number of the range, or one of the special values. -/
def Double.Accepted (low high : ℤ) : Double → Prop
  | .finite q => low ≤ q ∧ q ≤ high
  | .nan | .posInf | .negInf | .na => True

def IntegerAccepted (low high : ℤ) (v : BitVec 32) : Prop :=
  v = naInteger ∨ low ≤ v.toInt ∧ v.toInt ≤ high

def Generator.Accepted : Generator α → ℤ → ℤ → α → Prop
  | .numericVector | .numericVectorInRange .. | .numericMatrix | .numericMatrixInRange .. => Double.Accepted
  | .integerVector | .integerVectorInRange .. | .integerMatrix | .integerMatrixInRange .. => IntegerAccepted

/-- The zero that a container is allocated with. -/
def Generator.zero : Generator α → α
  | .numericVector | .numericVectorInRange .. | .numericMatrix | .numericMatrixInRange .. => .finite 0
  | .integerVector | .integerVectorInRange .. | .integerMatrix | .integerMatrixInRange .. => 0#32

/-- The range that a generator is asked for. -/
def Generator.range : Generator α → Option (BitVec 32 × BitVec 32)
  | .numericVectorInRange _ low high | .integerVectorInRange _ low high => some (low, high)
  | .numericMatrixInRange _ _ low high | .integerMatrixInRange _ _ low high => some (low, high)
  | .numericVector | .integerVector | .numericMatrix | .integerMatrix => none

/-- The run returns a container of accepted elements. -/
def Generator.InRange (g : Generator α) (low high : ℤ) (run : Except Fault (Cells α)) : Prop :=
  ∃ c, run = .ok c ∧ ∀ cell ∈ c, g.Accepted low high (cell.getD g.zero)

/-- `DeepState_DoubleInRange` returns a number in its range. -/
def DrawsInRange (doubleInRange : ℚ → ℚ → Double → Double) : Prop :=
  ∀ low high x, low ≤ high → ∃ q, doubleInRange low high x = .finite q ∧ low ≤ q ∧ q ≤ high

/-- The last entry of the table that a generator draws missing values from. -/
def Generator.lastEntry (g : Generator α) (d : Draws α) : BitVec 32 :=
  BitVec.ofNat 32 (g.missingValues d).length - 1

/-- The overwrites have positions, an element keeps the first entry of the table only where that is accepted, and
nothing leaves an element out unless the zero is in the range. -/
def Generator.Kept (g : Generator α) (low high : ℤ) (d : Draws α) : Prop :=
  (d.second = false ∨ (g.shape d).HasPositions d) ∧ ∀ j < (g.shape d).length,
    match (g.shape d).lastOverwrite d j with
    | some k => drawn 0 (g.lastEntry d) (d.entry k) ≠ 0 ∨ g.Accepted low high d.special
    | none => j < (g.shape d).filled d.second ∨ low ≤ 0 ∧ 0 ≤ high

/-! ## What the loops write -/

/-- An entry of the table is accepted when it is not the first, or when the first is. -/
theorem taken_iff {p : α → Prop} {special : α} {rest : List α} (hrest : ∀ v ∈ rest, p v)
    (htop : (special :: rest).length < 2 ^ 31) (x : BitVec 32) :
    p (taken (special :: rest) special x) ↔
      drawn 0 (BitVec.ofNat 32 (special :: rest).length - 1) x ≠ 0 ∨ p special := by
  have hlast : (BitVec.ofNat 32 (special :: rest).length - 1).toInt = rest.length := by
    have hone : (1 : BitVec 32).toInt = 1 := by decide
    rw [BitVec.toInt_sub, toInt_ofNat_of_lt (by omega), hone, List.length_cons]
    rw [List.length_cons] at htop
    exact (Int.bmod_eq_of_le (by omega) (by omega)).trans (by omega)
  have hbounds := drawn_zero_bounds (BitVec.ofNat 32 (special :: rest).length - 1) x
  rw [hlast] at hbounds
  rw [taken]
  generalize drawn 0 (BitVec.ofNat 32 (special :: rest).length - 1) x = i at hbounds
  by_cases hi : i = 0
  · subst hi
    simp
  · -- The draw goes past the first entry.
    have hne : i.toInt ≠ 0 := fun h => hi (BitVec.eq_of_toInt_eq (h.trans (by decide)))
    obtain ⟨n, hn⟩ : ∃ n, i.toInt.toNat = n + 1 := Nat.exists_eq_succ_of_ne_zero (by omega)
    have hlt : n < rest.length := by omega
    rw [hn, List.getElem?_cons_succ, List.getElem?_eq_getElem hlt, Option.getD_some]
    exact iff_of_true (hrest _ (List.getElem_mem hlt)) (.inl hi)

theorem Generator.accepted_taken_iff (g : Generator α) (low high : ℤ) (d : Draws α) (x : BitVec 32) :
    g.Accepted low high (taken (g.missingValues d) d.special x) ↔
      drawn 0 (g.lastEntry d) x ≠ 0 ∨ g.Accepted low high d.special := by
  have hdoubles (special : Double) : ∀ v ∈ [Double.nan, .posInf, .negInf, .na], v.Accepted low high := by
    simp [Double.Accepted]
  have hintegers : ∀ v ∈ [naInteger], IntegerAccepted low high v := by
    simp [IntegerAccepted]
  cases g with
  | numericVector | numericVectorInRange _ _ _ | numericMatrix | numericMatrixInRange _ _ _ _ =>
    exact taken_iff (hdoubles d.special) (by simp) x
  | integerVector | integerVectorInRange _ _ _ | integerMatrix | integerMatrixInRange _ _ _ _ =>
    exact taken_iff hintegers (by simp) x

theorem Generator.accepted_zero_iff (g : Generator α) (low high : ℤ) :
    g.Accepted low high g.zero ↔ low ≤ 0 ∧ 0 ≤ high := by
  have hdouble : Double.Accepted low high (.finite 0) ↔ low ≤ 0 ∧ 0 ≤ high := by
    simp [Double.Accepted]
  have hinteger : IntegerAccepted low high 0#32 ↔ low ≤ 0 ∧ 0 ≤ high := by
    have hne : (0#32 : BitVec 32) ≠ naInteger := by decide
    simp [IntegerAccepted, hne]
  cases g with
  | numericVector | numericVectorInRange _ _ _ | numericMatrix | numericMatrixInRange _ _ _ _ => exact hdouble
  | integerVector | integerVectorInRange _ _ _ | integerMatrix | integerMatrixInRange _ _ _ _ => exact hinteger

theorem Generator.accepted_value {doubleInRange : ℚ → ℚ → Double → Double} (hdraws : DrawsInRange doubleInRange)
    {g : Generator α} {low high : BitVec 32} (hrange : g.range = some (low, high))
    (h : low.toInt ≤ high.toInt) (d : Draws α) (i : ℕ) :
    g.Accepted low.toInt high.toInt (g.value doubleInRange d i) := by
  have hinteger (x : BitVec 32) : IntegerAccepted low.toInt high.toInt (drawn low high x) := by
    have hbounds := drawn_bounds low high x
    exact .inr ⟨by omega, by omega⟩
  have hdouble (x : Double) : (doubleInRange low.toInt high.toInt x).Accepted low.toInt high.toInt := by
    obtain ⟨q, hq, hbounds⟩ := hdraws low.toInt high.toInt x (by exact_mod_cast h)
    rw [hq]
    exact hbounds
  cases g with
  | numericVector | integerVector | numericMatrix | integerMatrix => cases hrange
  | numericVectorInRange _ _ _ | numericMatrixInRange _ _ _ _ =>
    cases hrange
    exact hdouble _
  | integerVectorInRange _ _ _ | integerMatrixInRange _ _ _ _ =>
    cases hrange
    exact hinteger _

/-! ## The elements of a run -/

theorem Generator.inRange_iff {doubleInRange : ℚ → ℚ → Double → Double} (hdraws : DrawsInRange doubleInRange)
    {g : Generator α} (hsized : g.Sized) {low high : BitVec 32} (hrange : g.range = some (low, high))
    (h : low.toInt ≤ high.toInt) (d : Draws α) :
    g.InRange low.toInt high.toInt (g.run doubleInRange d) ↔ g.Kept low.toInt high.toInt d := by
  rw [Generator.InRange, Generator.Kept, ← Shape.inside_iff (g.shape_times d),
    g.run_forall_iff doubleInRange hsized d (fun cell => g.Accepted low.toInt high.toInt (cell.getD g.zero))]
  refine and_congr_right fun _ => forall₂_congr fun j _ => ?_
  cases (g.shape d).lastOverwrite d j with
  | some k => exact g.accepted_taken_iff _ _ d _
  | none =>
    by_cases hfilled : j < (g.shape d).filled d.second
    · simp only [hfilled, if_true, Option.getD_some, true_or, iff_true]
      exact Generator.accepted_value hdraws hrange h d j
    · simp only [hfilled, if_false, Option.getD_none, false_or]
      exact g.accepted_zero_iff _ _

/-- A `DeepState_DoubleInRange` that moves what is outside to the bounds. -/
def clampDouble (low high : ℚ) : Double → Double
  | .finite q => .finite (max low (min q high))
  | .nan | .posInf | .negInf | .na => .finite low

theorem clampDouble_inRange : DrawsInRange clampDouble := by
  intro low high x h
  cases x with
  | finite q => exact ⟨_, rfl, le_max_left _ _, max_le h (min_le_right _ _)⟩
  | _ => exact ⟨low, rfl, le_refl _, h⟩

/-- The second of four elements is overwritten, with a missing value rather than the 100 drawn for the table. -/
theorem Generator.inRange_sample :
    Generator.InRange (.integerVectorInRange 4 5 7) 5 7
      (Generator.run clampDouble (.integerVectorInRange 4 5 7) (constantDraws 1 100)) := by
  have hentry : drawn 0 1 1 = 1 := by
    rw [drawn, deepStateIntInRange_of_mem (by decide) (by decide)]
  refine (Generator.inRange_iff clampDouble_inRange (g := .integerVectorInRange 4 5 7)
    (by decide : (0 : ℤ) ≤ (4 : BitVec 32).toInt) rfl (by decide) (constantDraws 1 100)).mpr
      ⟨.inr (.inl (by decide)), fun j hj => ?_⟩
  split
  · refine .inl ?_
    change drawn 0 1 1 ≠ 0
    rw [hentry]
    decide
  · exact .inl hj

/-- The integer vector of one element that is overwritten by an unrestricted draw. -/
theorem Generator.run_not_inRange :
    ¬ ∀ (doubleInRange : ℚ → ℚ → Double → Double), DrawsInRange doubleInRange → ∀ (α : Type) (g : Generator α)
      (low high : BitVec 32) (d : Draws α), g.Sized → 0 < (g.shape d).length → g.range = some (low, high) →
      low.toInt ≤ high.toInt → g.InRange low.toInt high.toInt (g.run doubleInRange d) := by
  intro h
  have hsized : (Generator.integerVectorInRange 1 5 7).Sized := (by decide : (0 : ℤ) ≤ (1 : BitVec 32).toInt)
  have hrun := h clampDouble clampDouble_inRange (BitVec 32) (.integerVectorInRange 1 5 7) 5 7
    (constantDraws 0 100) hsized (by decide) rfl (by decide)
  have hposition : drawn 0 0 0 = 0 := by
    rw [drawn, deepStateIntInRange_of_mem (by decide) (by decide)]
  have hentry : drawn 0 1 0 = 0 := by
    rw [drawn, deepStateIntInRange_of_mem (by decide) (by decide)]
  have hlast : ((Generator.integerVectorInRange 1 5 7).shape (constantDraws 0 100)).lastOverwrite
      (constantDraws 0 (100 : BitVec 32)) 0 = some 1 := by
    change (if (drawn 0 0 0).toInt.toNat = 0 then some 1 else _) = some 1
    rw [hposition]
    rfl
  have hfirst := ((Generator.run_forall_iff _ _ hsized _ _).mp hrun).2 0 (by decide)
  simp only [hlast, Option.getD_some] at hfirst
  rcases (Generator.accepted_taken_iff (.integerVectorInRange 1 5 7) _ _ (constantDraws 0 100) _).mp hfirst with
    hne | haccepted
  · exact hne hentry
  · rcases haccepted with hna | hbounds
    · exact absurd hna (by decide)
    · exact absurd hbounds (by decide)

end RcppDeepState
