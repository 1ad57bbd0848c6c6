import RcppDeepState.Generators.Lemmas.Shapes

/-!
# Accesses stay inside the container

The fill loops never leave the container. The overwrites leave it when the last position is negative, which an
empty vector makes it.
-/

namespace RcppDeepState

variable {α : Type}

/-- The overwrites have a position to go to: the bound of the loops is positive, or so small that the last
position wraps around, or every position drawn is the first of a container that has one. -/
def Shape.HasPositions (s : Shape) (d : Draws α) : Prop :=
  0 < s.count.toInt ∨ s.count = BitVec.intMin 32 ∨
    (0 < s.length ∧ ∀ k < s.times.toInt.toNat, positions (s.count - 1) d k = 0)

theorem toInt_pred_of_ne {x : BitVec 32} (h : x ≠ BitVec.intMin 32) : (x - 1).toInt = x.toInt - 1 := by
  have hbot := x.le_toInt
  have htop := x.toInt_lt
  have hne : x.toInt ≠ -2 ^ 31 := fun heq => h (BitVec.eq_of_toInt_eq (heq.trans (by decide)))
  rw [BitVec.toInt_sub]
  exact Int.bmod_eq_of_le (by simp; omega) (by simp; omega)

/-- A positive bound keeps the positions below it. -/
theorem Shape.inside_of_pos {s : Shape} (h : 0 < s.count.toInt) (d : Draws α) : s.Inside d := by
  intro k _
  have hle := s.count_le
  have hlast : (s.count - 1).toInt = s.count.toInt - 1 := by
    apply toInt_pred_of_ne
    intro heq
    rw [heq] at h
    exact absurd h (by decide)
  have hbounds := drawn_zero_bounds (s.count - 1) (d.position k)
  simp only [positions]
  omega

/-- The last position of the smallest bound is the greatest integer, and the container is longer than that. -/
theorem Shape.inside_of_intMin {s : Shape} (h : s.count = BitVec.intMin 32) (d : Draws α) : s.Inside d := by
  intro k _
  have hlength : (2 : ℤ) ^ 31 ≤ s.length := by
    have hcount := s.count_bmod
    rw [h, Int.bmod_def] at hcount
    have hmin : (BitVec.intMin 32).toInt = -2 ^ 31 := by decide
    split at hcount <;> omega
  have hlast : (s.count - 1).toInt = 2 ^ 31 - 1 := by
    rw [h]
    decide
  have hbounds := drawn_zero_bounds (s.count - 1) (d.position k)
  simp only [positions]
  omega

theorem Shape.inside_iff {s : Shape} (htimes : 0 < s.times.toInt.toNat) (d : Draws α) :
    s.Inside d ↔ s.HasPositions d := by
  constructor
  · intro hinside
    by_cases hpos : 0 < s.count.toInt
    · exact .inl hpos
    by_cases hmin : s.count = BitVec.intMin 32
    · exact .inr (.inl hmin)
    -- The positions are drawn between a negative number and zero.
    have hlast := toInt_pred_of_ne hmin
    refine .inr (.inr ⟨?_, fun k hk => ?_⟩)
    · have := hinside 0 htimes
      omega
    · have hk := hinside k hk
      have hbounds := drawn_zero_bounds (s.count - 1) (d.position k)
      simp only [positions] at hk ⊢
      have hzero : (0 : BitVec 32).toInt = 0 := by decide
      apply BitVec.eq_of_toInt_eq
      omega
  · intro h
    rcases h with hpos | hmin | ⟨hlength, hzero⟩
    · exact inside_of_pos hpos d
    · exact inside_of_intMin hmin d
    · intro k hk
      have htoInt : (0 : BitVec 32).toInt = 0 := by decide
      rw [hzero k hk, htoInt]
      omega

theorem Generator.shape_times (g : Generator α) (d : Draws α) : 0 < (g.shape d).times.toInt.toNat := by
  cases g <;> exact Nat.zero_lt_succ _

/-- No access is outside exactly when `OneOf` takes the first function or the overwrites have a position. -/
theorem Generator.run_inBounds_iff (doubleInRange : ℚ → ℚ → Double → Double) (g : Generator α)
    (hsized : g.Sized) (d : Draws α) :
    g.run doubleInRange d ≠ .error .outOfBounds ↔ d.second = false ∨ (g.shape d).HasPositions d := by
  cases hsecond : d.second with
  | false => simp [g.run_of_first doubleInRange hsized hsecond]
  | true =>
    rw [g.run_of_second doubleInRange hsized hsecond, ← Shape.inside_iff (g.shape_times d)]
    by_cases h : (g.shape d).Inside d
    · simp [h]
    · simp [h]

/-- A run whose draws are all `x`, with the second function. -/
def constantDraws (x : BitVec 32) (v : α) : Draws α where
  size := x
  rows := x
  columns := x
  special := v
  second := true
  element := fun _ => v
  position := fun _ => x
  entry := fun _ => x

theorem Generator.run_inBounds_sample :
    (Generator.integerMatrixInRange 2 3 5 7).run (fun _ _ v => v) (constantDraws 4 6) ≠ .error .outOfBounds :=
  (Generator.run_inBounds_iff _ (.integerMatrixInRange 2 3 5 7) (And.intro (by decide) (by decide)) _).mpr
    (.inr (.inl (by decide)))

/-- The default numeric vector that draws the size 0. -/
theorem Generator.run_outOfBounds :
    ¬ ∀ (α : Type) (doubleInRange : ℚ → ℚ → Double → Double) (g : Generator α), g.Sized → ∀ d : Draws α,
      g.run doubleInRange d ≠ .error .outOfBounds := by
  intro h
  have hsize : drawn 0 100 0 = 0 := by
    rw [drawn, deepStateIntInRange_of_mem (by decide) (by decide)]
  refine h Double (fun _ _ v => v) .numericVector trivial (constantDraws 0 .na) ?_
  rw [Generator.run_of_second _ .numericVector trivial rfl, if_neg]
  intro hinside
  have hlength : (Generator.numericVector.shape (constantDraws 0 .na)).length = 0 := by
    change (drawn 0 100 0).toInt.toNat = 0
    rw [hsize]
    rfl
  have hfirst := hinside 0 (Nat.zero_lt_succ _)
  omega

end RcppDeepState
