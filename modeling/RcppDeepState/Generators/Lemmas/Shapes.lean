import RcppDeepState.Generators.Lemmas.Writes

/-!
# The shape of a run

The generators differ in how many elements they allocate and in three numbers of their loops.
-/

namespace RcppDeepState

variable {α : Type}

structure Shape where
  /-- The elements that are allocated. -/
  length : ℕ
  /-- The elements at the end that the second function of `OneOf` does not fill. -/
  lag : BitVec 32
  /-- The overwrites of the second function. -/
  times : BitVec 32

/-- The bound of the loops: the length as an `int`. -/
def Shape.count (s : Shape) : BitVec 32 := BitVec.ofNat 32 s.length

/-- The elements that the fill loop goes through. -/
def Shape.filled (s : Shape) (second : Bool) : ℕ :=
  (if second then s.count - s.lag else s.count).toInt.toNat

def vectorShape (size lag times : BitVec 32) : Shape := ⟨size.toInt.toNat, lag, times⟩

def matrixShape (rows columns times : BitVec 32) : Shape := ⟨rows.toInt.toNat * columns.toInt.toNat, 0, times⟩

def Generator.shape : Generator α → Draws α → Shape
  | .numericVector, d => vectorShape (drawn 0 100 d.size) 1 5
  | .numericVectorInRange size _ _, _ => vectorShape size 1 5
  | .integerVector, d => vectorShape (drawn 0 100 d.size) 0 2
  | .integerVectorInRange size _ _, _ => vectorShape size 0 2
  | .numericMatrix, d => matrixShape (drawn 1 10 d.rows) (drawn 1 10 d.columns) 5
  | .numericMatrixInRange rows columns _ _, _ => matrixShape rows columns 5
  | .integerMatrix, d => matrixShape (drawn 1 10 d.rows) (drawn 1 10 d.columns) 5
  | .integerMatrixInRange rows columns _ _, _ => matrixShape rows columns 5

section Run

variable (doubleInRange : ℚ → ℚ → Double → Double)

/-- What the fill loop writes into element `i`. -/
def Generator.value : Generator α → Draws α → ℕ → α
  | .numericVector, d, i => d.element i
  | .numericVectorInRange _ low high, d, i => doubleInRange low.toInt high.toInt (d.element i)
  | .integerVector, d, i => d.element i
  | .integerVectorInRange _ low high, d, i => drawn low high (d.element i)
  | .numericMatrix, d, i => doubleInRange 0 (17 * 10 ^ 307) (d.element i)
  | .numericMatrixInRange _ _ low high, d, i => doubleInRange low.toInt high.toInt (d.element i)
  | .integerMatrix, d, i => drawn 0 100 (d.element i)
  | .integerMatrixInRange _ _ low high, d, i => drawn low high (d.element i)

def Generator.missingValues : Generator α → Draws α → List α
  | .numericVector, d | .numericVectorInRange .., d | .numericMatrix, d | .numericMatrixInRange .., d =>
    missingDoubles d.special
  | .integerVector, d | .integerVectorInRange .., d | .integerMatrix, d | .integerMatrixInRange .., d =>
    missingIntegers d.special

/-! ## The shape decides the run -/

theorem toNat_toInt_of_nonneg {x : BitVec 32} (h : 0 ≤ x.toInt) : x.toInt.toNat = x.toNat := by
  have hlt : 2 * x.toNat < 2 ^ 32 := by
    rw [BitVec.toInt_eq_toNat_cond] at h
    split at h
    · assumption
    · have := x.isLt
      omega
  rw [BitVec.toInt_eq_toNat_of_lt hlt, Int.toNat_natCast]

theorem count_vectorShape {size : BitVec 32} (h : 0 ≤ size.toInt) (lag times : BitVec 32) :
    (vectorShape size lag times).count = size := by
  apply BitVec.eq_of_toNat_eq
  simp only [Shape.count, vectorShape, BitVec.toNat_ofNat]
  rw [toNat_toInt_of_nonneg h]
  exact Nat.mod_eq_of_lt size.isLt

theorem count_matrixShape {rows columns : BitVec 32} (hrows : 0 ≤ rows.toInt) (hcolumns : 0 ≤ columns.toInt)
    (times : BitVec 32) : (matrixShape rows columns times).count = rows * columns := by
  apply BitVec.eq_of_toNat_eq
  simp only [Shape.count, matrixShape, BitVec.toNat_ofNat, BitVec.toNat_mul]
  rw [toNat_toInt_of_nonneg hrows, toNat_toInt_of_nonneg hcolumns]

theorem drawn_nonneg {low high : BitVec 32} (hlow : 0 ≤ low.toInt) (hhigh : 0 ≤ high.toInt) (x : BitVec 32) :
    0 ≤ (drawn low high x).toInt := by
  have h := drawn_bounds low high x
  omega

/-- Every generator runs the loops of its shape. -/
theorem Generator.run_eq (g : Generator α) (hsized : g.Sized) (d : Draws α) :
    g.run doubleInRange d =
      fillOneOf (g.shape d).count (g.shape d).lag (g.shape d).times (g.missingValues d)
        (fun i => .ok (g.value doubleInRange d i)) d (allocate (g.shape d).length) := by
  have hsize : 0 ≤ (drawn 0 100 d.size).toInt := drawn_nonneg (by decide) (by decide) d.size
  have hrows : 0 ≤ (drawn 1 10 d.rows).toInt := drawn_nonneg (by decide) (by decide) d.rows
  have hcolumns : 0 ≤ (drawn 1 10 d.columns).toInt := drawn_nonneg (by decide) (by decide) d.columns
  cases g with
  | numericVector =>
    simp only [Generator.run, rcppDeepStateNumericVector, deepStateIntInRange_eq_drawn, Generator.shape,
      count_vectorShape hsize]
    rfl
  | numericVectorInRange size low high =>
    simp only [Generator.shape, count_vectorShape hsized]
    rfl
  | integerVector =>
    simp only [Generator.run, rcppDeepStateIntegerVector, deepStateIntInRange_eq_drawn, Generator.shape,
      count_vectorShape hsize]
    rfl
  | integerVectorInRange size low high =>
    simp only [Generator.run, rcppDeepStateIntegerVectorInRange, deepStateIntInRange_eq_drawn, Generator.shape,
      count_vectorShape hsized]
    rfl
  | numericMatrix =>
    simp only [Generator.run, rcppDeepStateNumericMatrix, deepStateIntInRange_eq_drawn, Generator.shape,
      count_matrixShape hrows hcolumns]
    rfl
  | numericMatrixInRange rows columns low high =>
    simp only [Generator.shape, count_matrixShape hsized.1 hsized.2]
    rfl
  | integerMatrix =>
    simp only [Generator.run, rcppDeepStateIntegerMatrix, deepStateIntInRange_eq_drawn, Generator.shape,
      count_matrixShape hrows hcolumns]
    rfl
  | integerMatrixInRange rows columns low high =>
    simp only [Generator.run, rcppDeepStateIntegerMatrixInRange, deepStateIntInRange_eq_drawn, Generator.shape,
      count_matrixShape hsized.1 hsized.2]
    rfl

end Run

/-! ## The bounds of the loops -/

theorem Shape.count_bmod (s : Shape) : s.count.toInt = (s.length : ℤ).bmod (2 ^ 32) :=
  BitVec.toInt_ofNat' ..

/-- The bound never passes the length: it is the length, or the length less a multiple of the width. -/
theorem Shape.count_le (s : Shape) : s.count.toInt ≤ s.length := by
  rw [s.count_bmod, Int.bmod_def]
  split <;> omega

theorem Shape.count_eq_of_lt {s : Shape} (h : s.length < 2 ^ 31) : s.count.toInt = s.length := by
  rw [s.count_bmod]
  exact Int.bmod_eq_of_le (by omega) (by omega)

/-- Only the vectors leave elements to the overwrites, and their length is an `int`. -/
theorem Generator.shape_lag (g : Generator α) (d : Draws α) :
    (g.shape d).lag = 0 ∨ (g.shape d).lag = 1 ∧ (g.shape d).length < 2 ^ 31 := by
  have hvector (size times : BitVec 32) : (vectorShape size 1 times).length < 2 ^ 31 := by
    have := size.toInt_lt
    simp only [vectorShape]
    omega
  cases g with
  | numericVector => exact .inr ⟨rfl, hvector _ _⟩
  | numericVectorInRange size low high => exact .inr ⟨rfl, hvector _ _⟩
  | _ => exact .inl rfl

theorem Shape.filled_le {s : Shape} (hlag : s.lag = 0 ∨ s.lag = 1 ∧ s.length < 2 ^ 31) (second : Bool) :
    (if second then s.count - s.lag else s.count).toInt ≤ s.length := by
  have hcount := s.count_le
  cases second with
  | false => exact hcount
  | true =>
    rcases hlag with h | ⟨h, hlength⟩
    · simpa [h] using hcount
    · have heq := Shape.count_eq_of_lt hlength
      simp only [if_true, h, BitVec.toInt_sub, heq]
      rw [Int.bmod_eq_of_le (by simp; omega) (by simp; omega)]
      simp

/-! ## What a run returns -/

/-- The writes of the fill loop. -/
def Shape.filledCells (s : Shape) (second : Bool) (v : ℕ → α) : Cells α :=
  writes id v (s.filled second) (allocate s.length)

@[simp] theorem length_filledCells (s : Shape) (second : Bool) (v : ℕ → α) :
    (s.filledCells second v).length = s.length := by
  simp [Shape.filledCells, allocate]

/-- The overwrites are inside the container. -/
def Shape.Inside (s : Shape) (d : Draws α) : Prop :=
  ∀ k < s.times.toInt.toNat, 0 ≤ (positions (s.count - 1) d k).toInt ∧
    (positions (s.count - 1) d k).toInt < s.length

instance (s : Shape) (d : Draws α) : Decidable (s.Inside d) := by
  unfold Shape.Inside
  infer_instance

theorem Generator.run_of_first (doubleInRange : ℚ → ℚ → Double → Double) (g : Generator α) (hsized : g.Sized)
    {d : Draws α} (h : d.second = false) :
    g.run doubleInRange d = .ok ((g.shape d).filledCells false (g.value doubleInRange d)) := by
  have hle := Shape.filled_le (g.shape_lag d) false
  rw [g.run_eq doubleInRange hsized, fillOneOf, h, if_neg (by decide)]
  exact fill_eq (fun _ => rfl) (by simpa [allocate] using hle)

theorem Generator.length_missingValues (g : Generator α) (d : Draws α) :
    0 < (g.missingValues d).length ∧ (g.missingValues d).length < 2 ^ 31 := by
  cases g <;> simp [Generator.missingValues, missingDoubles, missingIntegers]

theorem Generator.run_of_second (doubleInRange : ℚ → ℚ → Double → Double) (g : Generator α) (hsized : g.Sized)
    {d : Draws α} (h : d.second = true) :
    g.run doubleInRange d =
      if (g.shape d).Inside d then
        .ok (writes (fun k => (positions ((g.shape d).count - 1) d k).toInt.toNat)
          (fun k => taken (g.missingValues d) d.special (d.entry k)) (g.shape d).times.toInt.toNat
          ((g.shape d).filledCells true (g.value doubleInRange d)))
      else .error .outOfBounds := by
  have hle := Shape.filled_le (g.shape_lag d) true
  have hmissing := g.length_missingValues d
  have hfill : fill ((g.shape d).count - (g.shape d).lag) (fun i => .ok (g.value doubleInRange d i))
      (allocate (g.shape d).length) = .ok ((g.shape d).filledCells true (g.value doubleInRange d)) :=
    fill_eq (fun _ => rfl) (by simpa [allocate] using hle)
  rw [g.run_eq doubleInRange hsized, fillOneOf, if_pos h, hfill]
  refine (overwrite_eq hmissing.1 hmissing.2 _ _ _ _).trans ?_
  simp only [Shape.Inside, length_filledCells]

/-! ## The elements of what a run returns -/

theorem lastWrite_id {j m : ℕ} : lastWrite id j m = if j < m then some j else none := by
  by_cases h : j < m
  · rw [if_pos h]
    cases hlast : lastWrite id j m with
    | none => exact absurd rfl (lastWrite_eq_none.mp hlast j h)
    | some k => rw [← (lastWrite_lt hlast).2, id]
  · rw [if_neg h, lastWrite_eq_none]
    intro k hk heq
    exact h (heq ▸ hk)

theorem getElem?_filledCells (s : Shape) (second : Bool) (v : ℕ → α) {j : ℕ} (hj : j < s.length) :
    (s.filledCells second v)[j]? = some (if j < s.filled second then some (v j) else none) := by
  rw [Shape.filledCells, getElem?_writes id v _ (by simpa [allocate] using hj), lastWrite_id]
  by_cases h : j < s.filled second
  · simp only [if_pos h]
  · simp [if_neg h, allocate, hj]

/-- The overwrite that an element keeps. -/
def Shape.lastOverwrite (s : Shape) (d : Draws α) (j : ℕ) : Option ℕ :=
  if d.second then lastWrite (fun k => (positions (s.count - 1) d k).toInt.toNat) j s.times.toInt.toNat else none

/-- What a run returns that stays inside its container. -/
def Generator.returned (doubleInRange : ℚ → ℚ → Double → Double) (g : Generator α) (d : Draws α) : Cells α :=
  let filled := (g.shape d).filledCells d.second (g.value doubleInRange d)
  if d.second then
    writes (fun k => (positions ((g.shape d).count - 1) d k).toInt.toNat)
      (fun k => taken (g.missingValues d) d.special (d.entry k)) (g.shape d).times.toInt.toNat filled
  else filled

variable (doubleInRange : ℚ → ℚ → Double → Double)

theorem Generator.run_eq_ok_iff (g : Generator α) (hsized : g.Sized) {d : Draws α} {c : Cells α} :
    g.run doubleInRange d = .ok c ↔
      (d.second = false ∨ (g.shape d).Inside d) ∧ g.returned doubleInRange d = c := by
  cases h : d.second with
  | false => simp [g.run_of_first doubleInRange hsized h, Generator.returned, h]
  | true =>
    rw [g.run_of_second doubleInRange hsized h]
    by_cases hinside : (g.shape d).Inside d
    · simp [hinside, Generator.returned, h]
    · simp [hinside]

@[simp] theorem Generator.length_returned (g : Generator α) (d : Draws α) :
    (g.returned doubleInRange d).length = (g.shape d).length := by
  cases h : d.second with
  | false => simp [Generator.returned, h]
  | true => simp [Generator.returned, h]

/-- An element keeps its last overwrite, and otherwise what the fill loop gave it. -/
theorem Generator.getElem?_returned (g : Generator α) (d : Draws α) {j : ℕ} (hj : j < (g.shape d).length) :
    (g.returned doubleInRange d)[j]? = some (match (g.shape d).lastOverwrite d j with
      | some k => some (taken (g.missingValues d) d.special (d.entry k))
      | none => if j < (g.shape d).filled d.second then some (g.value doubleInRange d j) else none) := by
  have hfilled := getElem?_filledCells (g.shape d) d.second (g.value doubleInRange d) hj
  cases h : d.second with
  | false =>
    rw [h] at hfilled
    simp only [Generator.returned, Shape.lastOverwrite, h, Bool.false_eq_true, if_false, hfilled]
  | true =>
    rw [h] at hfilled
    simp only [Generator.returned, Shape.lastOverwrite, h, if_true]
    rw [getElem?_writes _ _ _ (by simpa using hj), hfilled]
    cases lastWrite (fun k => (positions ((g.shape d).count - 1) d k).toInt.toNat) j (g.shape d).times.toInt.toNat with
    | none => rfl
    | some k => rfl

/-- What holds of every element of what a run returns. -/
theorem Generator.run_forall_iff (g : Generator α) (hsized : g.Sized) (d : Draws α) (p : Option α → Prop) :
    (∃ c, g.run doubleInRange d = .ok c ∧ ∀ cell ∈ c, p cell) ↔
      (d.second = false ∨ (g.shape d).Inside d) ∧ ∀ j < (g.shape d).length,
        p (match (g.shape d).lastOverwrite d j with
          | some k => some (taken (g.missingValues d) d.special (d.entry k))
          | none => if j < (g.shape d).filled d.second then some (g.value doubleInRange d j) else none) := by
  simp only [g.run_eq_ok_iff doubleInRange hsized]
  constructor
  · rintro ⟨_, ⟨hinside, rfl⟩, hall⟩
    exact ⟨hinside, fun j hj => hall _ (List.mem_of_getElem? (g.getElem?_returned doubleInRange d hj))⟩
  · rintro ⟨hinside, hall⟩
    refine ⟨_, ⟨hinside, rfl⟩, fun cell hcell => ?_⟩
    obtain ⟨j, hj⟩ := List.mem_iff_getElem?.mp hcell
    have hlt : j < (g.shape d).length := by
      have := (List.getElem?_eq_some_iff.mp hj).1
      simpa using this
    rw [g.getElem?_returned doubleInRange d hlt, Option.some.injEq] at hj
    exact hj ▸ hall j hlt

end RcppDeepState
