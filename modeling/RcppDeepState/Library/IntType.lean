import Mathlib.Algebra.Order.Ring.Int
import Mathlib.Tactic.Positivity
import Mathlib.Tactic.Ring

/-!
# Integer types of C

A type is given by its width and its signedness. What does not fit is reduced modulo the number of values, and a
type narrower than `int` is promoted to `int` before it is computed with.
-/

structure IntType where
  bits : ℕ
  signed : Bool
  pos : 0 < bits

namespace IntType

theorem intBits_pos : 0 < 32 := by decide

variable (t : IntType)

/-- Half the number of values. -/
def half : ℤ := 2 ^ (t.bits - 1)

def min : ℤ := if t.signed then -t.half else 0

def max : ℤ := if t.signed then t.half - 1 else 2 * t.half - 1

/-- `x` is a value of the type. -/
def Fits (x : ℤ) : Prop := t.min ≤ x ∧ x ≤ t.max

instance (x : ℤ) : Decidable (t.Fits x) := inferInstanceAs (Decidable (_ ∧ _))

/-- A value of the type. -/
def Value : Type := { x : ℤ // t.Fits x }

/-- Conversion to the type. -/
def wrap (x : ℤ) : ℤ := (x - t.min) % (2 * t.half) + t.min

/-- The type in which values of `t` are computed with. -/
def promoted : IntType := if t.bits < 32 then ⟨32, true, intBits_pos⟩ else t

section Wrap

variable {t}

theorem half_pos : 0 < t.half := by
  unfold half
  positivity

theorem max_eq : t.max = t.min + 2 * t.half - 1 := by
  unfold max min
  cases t.signed with
  | false => simp
  | true => simp only [↓reduceIte]; omega

theorem min_bounds : -t.half ≤ t.min ∧ t.min ≤ 0 := by
  have hpos := t.half_pos
  unfold min
  cases t.signed with
  | false => simp only [Bool.false_eq_true, ↓reduceIte]; omega
  | true => simp only [↓reduceIte]; omega

theorem wrap_fits (x : ℤ) : t.Fits (t.wrap x) := by
  have hpos := t.half_pos
  have hnonneg := Int.emod_nonneg (x - t.min) (show 2 * t.half ≠ 0 by omega)
  have hlt := Int.emod_lt_of_pos (x - t.min) (show 0 < 2 * t.half by omega)
  rw [Fits, max_eq]
  unfold wrap
  omega

/-- Conversion to a value of the type. -/
def convert (t : IntType) (x : ℤ) : t.Value := ⟨t.wrap x, wrap_fits x⟩

theorem wrap_of_fits {x : ℤ} (h : t.Fits x) : t.wrap x = x := by
  rw [Fits, max_eq] at h
  unfold wrap
  rw [Int.emod_eq_of_lt (by omega) (by omega)]
  omega

/-- Wrapping only adds multiples of the number of values. -/
theorem exists_wrap (x : ℤ) : ∃ k : ℤ, t.wrap x = x + k * (2 * t.half) := by
  refine ⟨-((x - t.min) / (2 * t.half)), ?_⟩
  have hdiv := Int.emod_add_mul_ediv (x - t.min) (2 * t.half)
  unfold wrap
  rw [Int.neg_mul, Int.mul_comm ((x - t.min) / (2 * t.half))]
  omega

/-- A value is determined by what it wraps to. -/
theorem wrap_eq_of_fits {x y k : ℤ} (hy : t.Fits y) (h : x = y + k * (2 * t.half)) : t.wrap x = y := by
  have hsub : x - t.min = (y - t.min) + k * (2 * t.half) := by rw [h]; omega
  rw [Fits, max_eq] at hy
  unfold wrap
  rw [hsub, Int.add_mul_emod_self_right, Int.emod_eq_of_lt (by omega) (by omega)]
  omega

end Wrap

/-! ## Promotion -/

section Promoted

variable {t}

theorem bits_le_promoted : t.bits ≤ t.promoted.bits := by
  unfold promoted
  split
  · rename_i h
    exact Nat.le_of_lt h
  · exact Nat.le_refl _

/-- The number of values of a type divides that of the type it is promoted to. -/
theorem half_dvd_promoted : ∃ k : ℤ, t.promoted.half = k * t.half := by
  have hle := t.bits_le_promoted
  have hpos := t.pos
  refine ⟨2 ^ (t.promoted.bits - t.bits), ?_⟩
  unfold half
  rw [← pow_add]
  congr 1
  omega

/-- Whatever is computed in the promoted type, a conversion back forgets what was wrapped there. -/
theorem wrap_promoted (x : ℤ) : t.wrap (t.promoted.wrap x) = t.wrap x := by
  obtain ⟨k, hk⟩ := t.promoted.exists_wrap x
  obtain ⟨n, hn⟩ := t.half_dvd_promoted
  obtain ⟨m, hm⟩ := t.exists_wrap x
  refine wrap_eq_of_fits (t.wrap_fits x) (k := k * n - m) ?_
  rw [hk, hn, hm]
  ring

end Promoted

end IntType
