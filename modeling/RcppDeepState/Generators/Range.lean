import Mathlib.Algebra.Order.Ring.Int

/-!
# Integers in a range

The draw of an integer between two bounds, with the arithmetic of 32-bit integers.
-/

namespace RcppDeepState

/-- What stops a generator: a remainder by zero, or an element outside its container. -/
inductive Fault where
  | remainderByZero
  | outOfBounds
  deriving DecidableEq, Repr

/-- `if (x < 0) x = -x; if (x < 0) x = 0;` -/
def magnitude (x : BitVec 32) : BitVec 32 :=
  let x := if x.slt 0 then -x else x
  -- The smallest integer is its own negation.
  if x.slt 0 then 0 else x

/-- `DEEPSTATE_MAKE_SYMBOLIC_RANGE(Int, int)` outside symbolic execution, for the raw draw `x`. -/
def deepStateIntInRange (low high x : BitVec 32) : Except Fault (BitVec 32) :=
  if high.slt low then deepStateIntInRange high low x
  else if low = high then .ok low
  else if x.slt low || high.slt x then
    let size := (high - low) + 1
    if size = 0 then .error .remainderByZero else .ok (low + (magnitude x).srem size)
  else .ok x
termination_by if high.slt low then 1 else 0
decreasing_by
  rename_i h
  have hswap : low.slt high = false := by
    simp only [BitVec.slt, decide_eq_true_eq, decide_eq_false_iff_not] at h ⊢
    omega
  simp [h, hswap]

def rcppDeepStateInt (low high x : BitVec 32) : Except Fault (BitVec 32) :=
  deepStateIntInRange low high x

/-! ## The magnitude of a draw -/

theorem magnitude_nonneg (x : BitVec 32) : 0 ≤ (magnitude x).toInt := by
  simp only [magnitude]
  generalize (if x.slt 0 then -x else x) = y
  split
  · simp
  · rename_i h
    simpa [BitVec.slt] using h

/-- A remainder is no more than the number it is taken of. -/
theorem tmod_le_self {y : Int} (hy : 0 ≤ y) (w : Int) : y.tmod w ≤ y := by
  have hnonneg : 0 ≤ y.tmod w := Int.tmod_nonneg w hy
  have hle : (y.tmod w).natAbs ≤ y.natAbs := by
    rw [Int.natAbs_tmod]
    exact Nat.mod_le _ _
  omega

/-- The remainder stays below the width, also where the width has wrapped to a negative integer. -/
theorem tmod_bmod_lt {y w : Int} (hy : 0 ≤ y) (hyTop : y < 2 ^ 31) (hw : 0 < w) :
    y.tmod (w.bmod (2 ^ 32)) < w := by
  by_cases hsmall : w < 2 ^ 31
  · have hwidth : w.bmod (2 ^ 32) = w := Int.bmod_eq_of_le (by omega) (by omega)
    rw [hwidth]
    exact Int.tmod_lt_of_pos y hw
  · have hle := tmod_le_self hy (w.bmod (2 ^ 32))
    omega

/-! ## The draw stays between its bounds -/

theorem deepStateIntInRange_swap {low high : BitVec 32} (h : high.toInt < low.toInt) (x : BitVec 32) :
    deepStateIntInRange low high x = deepStateIntInRange high low x := by
  have hslt : high.slt low = true := by simpa [BitVec.slt] using h
  rw [deepStateIntInRange, if_pos hslt]

theorem deepStateIntInRange_of_mem {low high x : BitVec 32} (hlow : low.toInt ≤ x.toInt)
    (hhigh : x.toInt ≤ high.toInt) : deepStateIntInRange low high x = .ok x := by
  rw [deepStateIntInRange, if_neg (by simp [BitVec.slt]; omega)]
  split
  · rename_i heq
    subst heq
    rw [BitVec.eq_of_toInt_eq (by omega : low.toInt = x.toInt)]
  · rw [if_neg (by simp [BitVec.slt]; omega)]

/-- A draw outside the bounds is folded into them. -/
theorem deepStateIntInRange_of_not_mem {low high x : BitVec 32} (h : low.toInt < high.toInt)
    (hx : x.toInt < low.toInt ∨ high.toInt < x.toInt) :
    ∃ v, deepStateIntInRange low high x = .ok v ∧ low.toInt ≤ v.toInt ∧ v.toInt ≤ high.toInt := by
  have hlowBot := low.le_toInt
  have hhighTop := high.toInt_lt
  have hxBot := x.le_toInt
  have hxTop := x.toInt_lt
  have hmag := magnitude_nonneg x
  have hmagTop := (magnitude x).toInt_lt
  -- The true width does not reach 2 ^ 32, since the draw is outside.
  have hsize : ((high - low) + 1).toInt = (high.toInt - low.toInt + 1).bmod (2 ^ 32) := by
    simp [BitVec.toInt_add, BitVec.toInt_sub]
  have hne : (high - low) + 1 ≠ 0 := by
    intro h0
    rw [h0] at hsize
    have hdvd : (0 : Int) % (2 ^ 32 : Nat) = (high.toInt - low.toInt + 1) % (2 ^ 32 : Nat) := by
      rw [← Int.bmod_emod (x := high.toInt - low.toInt + 1), ← hsize]
      rfl
    omega
  have hnot : ¬ high.slt low = true := by simp [BitVec.slt]; omega
  have hneq : low ≠ high := by rintro rfl; omega
  have hout : (x.slt low || high.slt x) = true := by simp [BitVec.slt]; omega
  have hrem : 0 ≤ ((magnitude x).srem ((high - low) + 1)).toInt ∧
      ((magnitude x).srem ((high - low) + 1)).toInt < high.toInt - low.toInt + 1 := by
    rw [BitVec.toInt_srem, hsize]
    exact ⟨Int.tmod_nonneg _ hmag, tmod_bmod_lt hmag (by omega) (by omega)⟩
  have hsum : (low + (magnitude x).srem ((high - low) + 1)).toInt =
      low.toInt + ((magnitude x).srem ((high - low) + 1)).toInt := by
    rw [BitVec.toInt_add]
    exact Int.bmod_eq_of_le (by omega) (by omega)
  refine ⟨low + (magnitude x).srem ((high - low) + 1), ?_, by omega, by omega⟩
  rw [deepStateIntInRange, if_neg hnot, if_neg hneq, if_pos hout]
  exact if_neg hne

/-- Between ordered bounds the draw has a value, and no remainder by zero. -/
theorem deepStateIntInRange_of_le {low high : BitVec 32} (h : low.toInt ≤ high.toInt) (x : BitVec 32) :
    ∃ v, deepStateIntInRange low high x = .ok v ∧ low.toInt ≤ v.toInt ∧ v.toInt ≤ high.toInt := by
  by_cases hmem : low.toInt ≤ x.toInt ∧ x.toInt ≤ high.toInt
  · exact ⟨x, deepStateIntInRange_of_mem hmem.1 hmem.2, hmem⟩
  · by_cases heq : low = high
    · subst heq
      exact ⟨low, by simp [deepStateIntInRange, BitVec.slt], le_refl _, le_refl _⟩
    · have hlt : low.toInt < high.toInt := lt_of_le_of_ne h fun he => heq (BitVec.eq_of_toInt_eq he)
      exact deepStateIntInRange_of_not_mem hlt (by omega)

/-- In either order of the bounds the draw has a value between them. -/
theorem deepStateIntInRange_bounds (low high x : BitVec 32) :
    ∃ v, deepStateIntInRange low high x = .ok v ∧
      min low.toInt high.toInt ≤ v.toInt ∧ v.toInt ≤ max low.toInt high.toInt := by
  rcases le_or_gt low.toInt high.toInt with h | h
  · rw [min_eq_left h, max_eq_right h]
    exact deepStateIntInRange_of_le h x
  · rw [min_eq_right h.le, max_eq_left h.le, deepStateIntInRange_swap h]
    exact deepStateIntInRange_of_le h.le x

/-- A raw draw between the bounds is drawn as it is. -/
theorem deepStateIntInRange_eq_self {low high x : BitVec 32} (hlow : min low.toInt high.toInt ≤ x.toInt)
    (hhigh : x.toInt ≤ max low.toInt high.toInt) : deepStateIntInRange low high x = .ok x := by
  rcases le_or_gt low.toInt high.toInt with h | h
  · rw [min_eq_left h] at hlow
    rw [max_eq_right h] at hhigh
    exact deepStateIntInRange_of_mem hlow hhigh
  · rw [min_eq_right h.le] at hlow
    rw [max_eq_left h.le] at hhigh
    rw [deepStateIntInRange_swap h]
    exact deepStateIntInRange_of_mem hlow hhigh

theorem rcppDeepStateInt_mem (low high x : BitVec 32) :
    ∃ v, rcppDeepStateInt low high x = .ok v ∧
      min low.toInt high.toInt ≤ v.toInt ∧ v.toInt ≤ max low.toInt high.toInt ∧
      (min low.toInt high.toInt ≤ x.toInt → x.toInt ≤ max low.toInt high.toInt → v = x) := by
  obtain ⟨v, hv, hlow, hhigh⟩ := deepStateIntInRange_bounds low high x
  have hself (h₁ : min low.toInt high.toInt ≤ x.toInt) (h₂ : x.toInt ≤ max low.toInt high.toInt) : v = x := by
    rw [deepStateIntInRange_eq_self h₁ h₂] at hv
    cases hv
    rfl
  exact ⟨v, hv, hlow, hhigh, hself⟩

end RcppDeepState
