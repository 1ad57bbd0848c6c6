import RcppDeepState.Library.IntType
import RcppDeepState.Generators.Range

/-!
# Ranges of every integer type

`DEEPSTATE_MAKE_SYMBOLIC_RANGE` makes one function for each integer type. What they do with a raw draw is the
same, up to the type in which the compiler computes.
-/

namespace RcppDeepState

open IntType

variable {t : IntType}

/-- `if (x < 0) x = -x; if (x < 0) x = 0;` in the type. -/
def magnitudeOf (t : IntType) (x : ℤ) : ℤ :=
  let x := if x < 0 then t.wrap (t.promoted.wrap (-x)) else x
  if x < 0 then 0 else x

/-- `(high - low) + 1`, converted to the type. -/
def sizeOfRange (t : IntType) (low high : ℤ) : ℤ := t.wrap (t.promoted.wrap (t.promoted.wrap (high - low) + 1))

/-- `low + (x % size)`, converted to the type. -/
def foldInto (t : IntType) (low size x : ℤ) : t.Value := t.convert (t.promoted.wrap (low + x.tmod size))

/-- `DEEPSTATE_MAKE_SYMBOLIC_RANGE(Tname, tname)` outside symbolic execution, for the raw draw `x`. -/
def symbolicRange (t : IntType) (low high x : t.Value) : Except Fault t.Value :=
  if high.val < low.val then symbolicRange t high low x
  else if low.val = high.val then .ok low
  else if x.val < low.val ∨ high.val < x.val then
    let size := sizeOfRange t low.val high.val
    if size = 0 then .error .remainderByZero else .ok (foldInto t low.val size (magnitudeOf t x.val))
  else .ok x
termination_by (low.val - high.val).toNat
decreasing_by omega

/-! ## The functions of the macro -/

def sizeType : IntType := ⟨64, false, by decide⟩
def longType : IntType := ⟨64, true, by decide⟩
def int64Type : IntType := ⟨64, true, by decide⟩
def uint64Type : IntType := ⟨64, false, by decide⟩
def intType : IntType := ⟨32, true, intBits_pos⟩
def uint32Type : IntType := ⟨32, false, intBits_pos⟩
def int16Type : IntType := ⟨16, true, by decide⟩
def uint16Type : IntType := ⟨16, false, by decide⟩
def charType : IntType := ⟨8, true, by decide⟩
def unsignedCharType : IntType := ⟨8, false, by decide⟩

def deepStateSizeInRange := symbolicRange sizeType
def deepStateLongInRange := symbolicRange longType
def deepStateInt64InRange := symbolicRange int64Type
def deepStateUInt64InRange := symbolicRange uint64Type
def deepStateUIntInRange := symbolicRange uint32Type
def deepStateShortInRange := symbolicRange int16Type
def deepStateUShortInRange := symbolicRange uint16Type
def deepStateCharInRange := symbolicRange charType
def deepStateUCharInRange := symbolicRange unsignedCharType

/-! ## The parts -/

theorem magnitudeOf_bounds {x : ℤ} (hx : t.Fits x) : 0 ≤ magnitudeOf t x ∧ magnitudeOf t x ≤ t.max := by
  have hfits : t.Fits (if x < 0 then t.wrap (t.promoted.wrap (-x)) else x) := by
    split
    · exact t.wrap_fits _
    · exact hx
  have hmax : 0 ≤ t.max := by
    have hpos := t.half_pos
    have hmin := t.min_bounds
    rw [t.max_eq]
    omega
  unfold magnitudeOf
  generalize (if x < 0 then t.wrap (t.promoted.wrap (-x)) else x) = y at hfits
  dsimp only
  split
  · exact ⟨Int.le_refl 0, hmax⟩
  · rename_i h
    exact ⟨not_lt.mp h, hfits.2⟩

/-- The size that is computed is the width of the range, up to the number of values of the type. -/
theorem sizeOfRange_spec (low high : ℤ) :
    t.Fits (sizeOfRange t low high) ∧ ∃ k : ℤ, sizeOfRange t low high = high - low + 1 + k * (2 * t.half) := by
  refine ⟨t.wrap_fits _, ?_⟩
  obtain ⟨k, hk⟩ := t.promoted.exists_wrap (high - low)
  obtain ⟨n, hn⟩ := t.half_dvd_promoted
  obtain ⟨m, hm⟩ := t.exists_wrap (t.promoted.wrap (high - low) + 1)
  refine ⟨m + k * n, ?_⟩
  unfold sizeOfRange
  rw [t.wrap_promoted, hm, hk, hn]
  ring

/-! ## The draw stays between its bounds -/

theorem symbolicRange_swap {low high : t.Value} (h : high.val < low.val) (x : t.Value) :
    symbolicRange t low high x = symbolicRange t high low x := by
  rw [symbolicRange, if_pos h]

theorem symbolicRange_of_mem {low high x : t.Value} (hlow : low.val ≤ x.val) (hhigh : x.val ≤ high.val) :
    symbolicRange t low high x = .ok x := by
  rw [symbolicRange, if_neg (by omega)]
  split
  · rename_i heq
    exact congrArg Except.ok (Subtype.ext (by omega))
  · rw [if_neg (by omega)]

/-- The computed size is the width of the range, or negative where the width does not fit. -/
theorem sizeOfRange_cases {low high : ℤ} (h : low < high) (hwidth : high - low + 1 < 2 * t.half) :
    sizeOfRange t low high = high - low + 1 ∨
      sizeOfRange t low high = high - low + 1 - 2 * t.half ∧ t.max < high - low + 1 := by
  obtain ⟨⟨hbot, htop⟩, k, hsize⟩ := sizeOfRange_spec (t := t) low high
  have hmax := t.max_eq
  have hmin := t.min_bounds
  have hhalf := t.half_pos
  have hk : k = 0 ∨ k = -1 := by
    by_contra hne
    rcases (by omega : 1 ≤ k ∨ k ≤ -2) with hk | hk
    · have := Int.mul_le_mul_of_nonneg_right hk (show 0 ≤ 2 * t.half by omega)
      omega
    · have := Int.mul_le_mul_of_nonneg_right hk (show 0 ≤ 2 * t.half by omega)
      omega
  rcases hk with rfl | rfl
  · exact .inl (by omega)
  · exact .inr (by omega)

/-- A draw outside the bounds is folded into them. -/
theorem symbolicRange_of_not_mem {low high x : t.Value} (h : low.val < high.val)
    (hx : x.val < low.val ∨ high.val < x.val) :
    ∃ v, symbolicRange t low high x = .ok v ∧ low.val ≤ v.val ∧ v.val ≤ high.val := by
  obtain ⟨hmag, hmagTop⟩ := magnitudeOf_bounds x.property
  obtain ⟨hlowBot, hlowTop⟩ := low.property
  obtain ⟨hhighBot, hhighTop⟩ := high.property
  obtain ⟨hxBot, hxTop⟩ := x.property
  have hmax := t.max_eq
  -- The draw lies outside, so the width is less than the number of values.
  have hwidth : high.val - low.val + 1 < 2 * t.half := by omega
  have hcases := sizeOfRange_cases h hwidth
  have hrest : 0 ≤ (magnitudeOf t x.val).tmod (sizeOfRange t low.val high.val) ∧
      (magnitudeOf t x.val).tmod (sizeOfRange t low.val high.val) < high.val - low.val + 1 := by
    refine ⟨Int.tmod_nonneg _ hmag, ?_⟩
    rcases hcases with hsize | ⟨hsize, hbig⟩
    · rw [hsize]
      exact Int.tmod_lt_of_pos _ (by omega)
    · have hle := tmod_le_self hmag (sizeOfRange t low.val high.val)
      omega
  have hfits : t.Fits (low.val + (magnitudeOf t x.val).tmod (sizeOfRange t low.val high.val)) :=
    ⟨by omega, by omega⟩
  have hvalue : (foldInto t low.val (sizeOfRange t low.val high.val) (magnitudeOf t x.val)).val =
      low.val + (magnitudeOf t x.val).tmod (sizeOfRange t low.val high.val) :=
    (t.wrap_promoted _).trans (t.wrap_of_fits hfits)
  refine ⟨foldInto t low.val (sizeOfRange t low.val high.val) (magnitudeOf t x.val), ?_, by omega, by omega⟩
  rw [symbolicRange, if_neg (by omega), if_neg (by omega), if_pos hx]
  exact if_neg (by omega)

/-- The function returns a value between the bounds, in either order, and keeps a draw that lies between them. -/
theorem symbolicRange_between (t : IntType) (low high x : t.Value) :
    (∃ v, symbolicRange t low high x = .ok v ∧ min low.val high.val ≤ v.val ∧ v.val ≤ max low.val high.val ∧
      (min low.val high.val ≤ x.val → x.val ≤ max low.val high.val → v = x)) ∧
      symbolicRange t low high x = symbolicRange t high low x := by
  have hordered : ∀ low high : t.Value, low.val ≤ high.val → ∃ v, symbolicRange t low high x = .ok v ∧
      low.val ≤ v.val ∧ v.val ≤ high.val ∧ (low.val ≤ x.val → x.val ≤ high.val → v = x) := by
    intro low high hle
    by_cases hmem : low.val ≤ x.val ∧ x.val ≤ high.val
    · exact ⟨x, symbolicRange_of_mem hmem.1 hmem.2, hmem.1, hmem.2, fun _ _ => rfl⟩
    · rcases Int.lt_or_eq_of_le hle with hlt | heq
      · obtain ⟨v, hv, hbot, htop⟩ := @symbolicRange_of_not_mem t low high x hlt (by omega)
        exact ⟨v, hv, hbot, htop, fun h h' => absurd ⟨h, h'⟩ hmem⟩
      · refine ⟨low, ?_, Int.le_refl _, hle, fun h h' => absurd ⟨h, h'⟩ hmem⟩
        rw [symbolicRange, if_neg (by omega), if_pos heq]
  rcases Int.lt_trichotomy low.val high.val with hlt | heq | hgt
  · rw [min_eq_left (by omega), max_eq_right (by omega), symbolicRange_swap hlt]
    exact ⟨hordered low high (by omega), rfl⟩
  · have hsame : low = high := Subtype.ext heq
    subst hsame
    rw [min_self, max_self]
    exact ⟨hordered low low (by omega), rfl⟩
  · rw [min_eq_right (by omega), max_eq_left (by omega), symbolicRange_swap hgt]
    exact ⟨hordered high low (by omega), rfl⟩

/-! ## The range of `int` -/

section Int

def intValue (x : BitVec 32) : intType.Value := ⟨x.toInt, by
  have hbot := x.le_toInt
  have htop := x.toInt_lt
  have hbounds : intType.min = -2 ^ 31 ∧ intType.max = 2 ^ 31 - 1 := by decide
  unfold Fits
  omega⟩

theorem intType_wrap (x : ℤ) : intType.wrap x = x.bmod (2 ^ 32) := by
  have hbot := Int.le_bmod (x := x) (m := 2 ^ 32) (by decide)
  have htop := Int.bmod_lt (x := x) (m := 2 ^ 32) (by decide)
  have hbounds : intType.min = -2 ^ 31 ∧ intType.max = 2 ^ 31 - 1 ∧ 2 * intType.half = 2 ^ 32 := by decide
  refine wrap_eq_of_fits (k := x.bdiv (2 ^ 32)) ⟨by omega, by omega⟩ ?_
  have hdiv := Int.bmod_add_bdiv' x (2 ^ 32)
  rw [hbounds.2.2]
  exact hdiv.symm

theorem intType_promoted : intType.promoted = intType := rfl

theorem toInt_magnitude (x : BitVec 32) : (magnitude x).toInt = magnitudeOf intType x.toInt := by
  have hneg : (if x.slt 0 then -x else x).toInt =
      if x.toInt < 0 then intType.wrap (intType.promoted.wrap (-x.toInt)) else x.toInt := by
    by_cases h : x.toInt < 0
    · rw [if_pos (by simpa [BitVec.slt] using h), if_pos h, intType.wrap_promoted, intType_wrap, BitVec.toInt_neg]
    · rw [if_neg (by simpa [BitVec.slt] using h), if_neg h]
  unfold magnitude magnitudeOf
  dsimp only
  rw [← hneg]
  generalize (if x.slt 0 then -x else x) = y
  by_cases h : y.toInt < 0
  · rw [if_pos (by simpa [BitVec.slt] using h), if_pos h]
    rfl
  · rw [if_neg (by simpa [BitVec.slt] using h), if_neg h]

theorem toInt_size (low high : BitVec 32) :
    ((high - low) + 1).toInt = sizeOfRange intType low.toInt high.toInt := by
  unfold sizeOfRange
  rw [intType.wrap_promoted, intType_promoted, intType_wrap, intType_wrap, BitVec.toInt_add, BitVec.toInt_sub]
  rfl

/-- The range of `int` as the generators use it is the one of the macro. -/
theorem deepStateIntInRange_eq (low high x : BitVec 32) :
    (deepStateIntInRange low high x).map BitVec.toInt =
      (symbolicRange intType (intValue low) (intValue high) (intValue x)).map Subtype.val := by
  have hordered : ∀ low high : BitVec 32, ¬ high.toInt < low.toInt →
      (deepStateIntInRange low high x).map BitVec.toInt =
        (symbolicRange intType (intValue low) (intValue high) (intValue x)).map Subtype.val := by
    intro low high h
    rw [deepStateIntInRange, symbolicRange, if_neg (by simpa [BitVec.slt] using h),
      if_neg (show ¬ (intValue high).val < (intValue low).val from h)]
    by_cases heq : low = high
    · rw [if_pos heq, if_pos (show (intValue low).val = (intValue high).val from congrArg BitVec.toInt heq)]
      rfl
    · have hne : low.toInt ≠ high.toInt := fun he => heq (BitVec.eq_of_toInt_eq he)
      rw [if_neg heq, if_neg (show ¬ (intValue low).val = (intValue high).val from hne)]
      by_cases hout : x.toInt < low.toInt ∨ high.toInt < x.toInt
      · rw [if_pos (by simpa [BitVec.slt] using hout),
          if_pos (show (intValue x).val < (intValue low).val ∨ (intValue high).val < (intValue x).val from hout)]
        dsimp only
        have hzero : ((high - low) + 1 = 0) ↔ sizeOfRange intType (intValue low).val (intValue high).val = 0 := by
          show _ ↔ sizeOfRange intType low.toInt high.toInt = 0
          rw [← toInt_size]
          exact ⟨fun h0 => by rw [h0]; rfl, fun h0 => BitVec.eq_of_toInt_eq (h0.trans (by decide))⟩
        by_cases h0 : (high - low) + 1 = 0
        · rw [if_pos h0, if_pos (hzero.mp h0)]
          rfl
        · rw [if_neg h0, if_neg (mt hzero.mpr h0)]
          refine congrArg Except.ok ?_
          show _ = intType.wrap (intType.promoted.wrap _)
          rw [intType.wrap_promoted, intType_wrap, BitVec.toInt_add, BitVec.toInt_srem, toInt_magnitude, toInt_size]
          rfl
      · rw [if_neg (by simpa [BitVec.slt] using hout),
          if_neg (show ¬ ((intValue x).val < (intValue low).val ∨ (intValue high).val < (intValue x).val) from hout)]
        rfl
  by_cases hswap : high.toInt < low.toInt
  · rw [deepStateIntInRange_swap hswap, symbolicRange_swap (show (intValue high).val < (intValue low).val from hswap)]
    exact hordered high low (by omega)
  · exact hordered low high hswap

end Int

/-- For every type the function returns a value between the bounds, in either order, and keeps a draw that lies
between them. That of `int` is what the generators of vectors and matrices draw with. -/
theorem symbolicRange_spec :
    (∀ (t : IntType) (low high x : t.Value),
      (∃ v, symbolicRange t low high x = .ok v ∧ min low.val high.val ≤ v.val ∧ v.val ≤ max low.val high.val ∧
        (min low.val high.val ≤ x.val → x.val ≤ max low.val high.val → v = x)) ∧
        symbolicRange t low high x = symbolicRange t high low x) ∧
      ∀ low high x : BitVec 32, (deepStateIntInRange low high x).map BitVec.toInt =
        (symbolicRange intType (intValue low) (intValue high) (intValue x)).map Subtype.val :=
  ⟨symbolicRange_between, deepStateIntInRange_eq⟩

end RcppDeepState
