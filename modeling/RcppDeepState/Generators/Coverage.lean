import Mathlib.Order.Interval.Finset.Nat
import RcppDeepState.Generators.Bounds

/-!
# Every element is assigned

The fill loop of a numeric vector leaves the last element to the overwrites, and no loop reaches the end of a
matrix whose size is not an `int`. Everything else is assigned.
-/

namespace RcppDeepState

variable {α : Type}

/-- The run returns a container whose elements have all been assigned. -/
def Assigned (run : Except Fault (Cells α)) : Prop :=
  ∃ c, run = .ok c ∧ ∀ cell ∈ c, cell.isSome

/-! ## The containers that one loop fills and overwrites -/

/-- So many overwrites leave one of as many elements and one more. -/
theorem exists_not_overwritten (p : ℕ → ℕ) (a times : ℕ) :
    ∃ j, a ≤ j ∧ j ≤ a + times ∧ ∀ k < times, p k ≠ j := by
  have hcard : ((Finset.range times).image p).card < (Finset.Icc a (a + times)).card := by
    have hle : ((Finset.range times).image p).card ≤ times := by
      simpa using Finset.card_image_le (s := Finset.range times) (f := p)
    rw [Nat.card_Icc]
    omega
  obtain ⟨j, hj, hnot⟩ := Finset.exists_mem_notMem_of_card_lt_card hcard
  rw [Finset.mem_Icc] at hj
  refine ⟨j, hj.1, hj.2, fun k hk heq => hnot ?_⟩
  exact Finset.mem_image.mpr ⟨k, Finset.mem_range.mpr hk, heq⟩

theorem Shape.lastOverwrite_ne_none {s : Shape} {d : Draws α} {j : ℕ} :
    s.lastOverwrite d j ≠ none ↔
      d.second = true ∧ ∃ k < s.times.toInt.toNat, (positions (s.count - 1) d k).toInt.toNat = j := by
  cases h : d.second with
  | false => simp [Shape.lastOverwrite, h]
  | true => simp [Shape.lastOverwrite, h, lastWrite_eq_none]

/-- An element is assigned when it has been filled or overwritten. -/
theorem Generator.assigned_iff (doubleInRange : ℚ → ℚ → Double → Double) (g : Generator α) (hsized : g.Sized)
    (d : Draws α) :
    Assigned (g.run doubleInRange d) ↔
      (d.second = false ∨ (g.shape d).Inside d) ∧
        ∀ j < (g.shape d).length, (g.shape d).lastOverwrite d j ≠ none ∨ j < (g.shape d).filled d.second := by
  rw [Assigned, g.run_forall_iff doubleInRange hsized d (fun cell => cell.isSome)]
  refine and_congr_right fun _ => forall₂_congr fun j _ => ?_
  cases (g.shape d).lastOverwrite d j with
  | some k => simp
  | none => by_cases h : j < (g.shape d).filled d.second <;> simp [h]

theorem Shape.filled_of_lag_zero {s : Shape} (hlag : s.lag = 0) (second : Bool) :
    s.filled second = s.count.toInt.toNat := by
  cases second with
  | false => rfl
  | true => simp [Shape.filled, hlag]

/-- A container that is longer than an `int` keeps elements that no loop reaches. -/
theorem Shape.filled_of_large {s : Shape} (hlag : s.lag = 0) (hlarge : 2 ^ 31 ≤ s.length) (second : Bool) :
    s.filled second + s.times.toInt.toNat < s.length := by
  have hcount := s.count_bmod
  have htimes := s.times.toInt_lt
  rw [Shape.filled_of_lag_zero hlag]
  rw [Int.bmod_def] at hcount
  split at hcount <;> omega

/-- Every position of the shape is filled or overwritten. -/
def Shape.Covered (s : Shape) (d : Draws α) : Prop :=
  s.length < 2 ^ 31 ∧ (d.second = false ∨ s.lag = 0 ∨
    ∃ k < s.times.toInt.toNat, positions (s.count - 1) d k = s.count - 1)

theorem Generator.covered_of_assigned {g : Generator α} {d : Draws α}
    (h : ∀ j < (g.shape d).length, (g.shape d).lastOverwrite d j ≠ none ∨ j < (g.shape d).filled d.second)
    (hpos : 0 < (g.shape d).length) : (g.shape d).Covered d := by
  have hsmall : (g.shape d).length < 2 ^ 31 := by
    by_contra hlarge
    rcases g.shape_lag d with hlag | ⟨_, hlt⟩
    · -- One of the elements behind the filled ones is not overwritten.
      obtain ⟨j, hfrom, hto, hnot⟩ := exists_not_overwritten
        (fun k => (positions ((g.shape d).count - 1) d k).toInt.toNat) ((g.shape d).filled d.second)
        (g.shape d).times.toInt.toNat
      have hlt := Shape.filled_of_large hlag (by omega) d.second
      rcases h j (by omega) with hlast | hfilled
      · obtain ⟨_, k, hk, heq⟩ := Shape.lastOverwrite_ne_none.mp hlast
        exact hnot k hk heq
      · omega
    · exact hlarge hlt
  refine ⟨hsmall, ?_⟩
  cases hsecond : d.second with
  | false => exact .inl rfl
  | true =>
    rcases g.shape_lag d with hlag | ⟨hlag, _⟩
    · exact .inr (.inl hlag)
    · -- The last element is not filled.
      have hcount := Shape.count_eq_of_lt hsmall
      have hlast : ((g.shape d).count - 1).toInt = (g.shape d).length - 1 := by
        rw [BitVec.toInt_sub, hcount]
        exact Int.bmod_eq_of_le (by simp; omega) (by simp; omega)
      have hfilled : (g.shape d).filled d.second = (g.shape d).length - 1 := by
        simp only [Shape.filled, hsecond, if_true, hlag, hlast]
        omega
      rcases h ((g.shape d).length - 1) (by omega) with hover | hlt
      · obtain ⟨_, k, hk, heq⟩ := Shape.lastOverwrite_ne_none.mp hover
        have hbounds := drawn_zero_bounds ((g.shape d).count - 1) (d.position k)
        refine .inr (.inr ⟨k, hk, BitVec.eq_of_toInt_eq ?_⟩)
        simp only [positions] at heq ⊢
        omega
      · omega

theorem Generator.assigned_of_covered {g : Generator α} {d : Draws α} (h : (g.shape d).Covered d)
    {j : ℕ} (hj : j < (g.shape d).length) :
    (g.shape d).lastOverwrite d j ≠ none ∨ j < (g.shape d).filled d.second := by
  obtain ⟨hsmall, hcases⟩ := h
  have hcount := Shape.count_eq_of_lt hsmall
  cases hsecond : d.second with
  | false =>
    refine .inr ?_
    simp only [Shape.filled, Bool.false_eq_true, if_false]
    omega
  | true =>
    rcases g.shape_lag d with hlag | ⟨hlag, _⟩
    · refine .inr ?_
      rw [Shape.filled_of_lag_zero hlag]
      omega
    · have hlast : ((g.shape d).count - 1).toInt = (g.shape d).length - 1 := by
        rw [BitVec.toInt_sub, hcount]
        exact Int.bmod_eq_of_le (by simp; omega) (by simp; omega)
      by_cases hend : j < (g.shape d).length - 1
      · refine .inr ?_
        simp only [Shape.filled, if_true, hlag, hlast]
        omega
      · -- The last element is the one that is overwritten.
        rcases hcases with hfalse | hzero | ⟨k, hk, heq⟩
        · simp [hsecond] at hfalse
        · rw [hlag] at hzero
          exact absurd hzero (by decide)
        · refine .inl (Shape.lastOverwrite_ne_none.mpr ⟨hsecond, k, hk, ?_⟩)
          rw [heq, hlast]
          omega

/-! ## The containers that are filled one element at a time -/

theorem characterVector_assigned (size : BitVec 32) (choice : ℕ → Fin 3) (cStr cStrUpToLen : ℕ → Text) :
    Assigned (rcppDeepStateCharacterVector size choice cStr cStrUpToLen) := by
  have hsize : 0 ≤ (drawn 0 100 size).toInt := drawn_nonneg (by decide) (by decide) size
  simp only [rcppDeepStateCharacterVector, deepStateIntInRange_eq_drawn, bind, Except.bind]
  rw [fill_eq (fun _ => rfl) (by simp [allocate])]
  refine ⟨_, rfl, fun cell hcell => ?_⟩
  obtain ⟨j, hj⟩ := List.mem_iff_getElem?.mp hcell
  have hlt : j < (drawn 0 100 size).toInt.toNat := by
    have := (List.getElem?_eq_some_iff.mp hj).1
    simpa [allocate] using this
  rw [getElem?_writes _ _ _ (by simpa [allocate] using hlt), lastWrite_id, if_pos hlt] at hj
  cases hj
  rfl

/-- The elements that the loops over rows and columns have assigned before column `j` of row `i`. -/
def FilledTo (rows columns i j : ℕ) (cells : Cells Double) : Prop :=
  cells.length = rows * columns ∧ ∀ q < rows * columns,
    (q % rows < i ∨ q % rows = i ∧ q / rows < j) → ∃ v, cells[q]? = some (some v)

theorem FilledTo.put {rows columns i j : ℕ} {c : Cells Double} (h : FilledTo rows columns i j c)
    (hsmall : rows * columns < 2 ^ 31) (hi : i < rows) (hj : j < columns) (v : Double) :
    ∃ c', c.put (BitVec.ofNat 32 i + BitVec.ofNat 32 j * BitVec.ofNat 32 rows) v = .ok c' ∧
      FilledTo rows columns i (j + 1) c' := by
  have hlt : i + j * rows < rows * columns := by
    calc i + j * rows < rows + j * rows := Nat.add_lt_add_right hi _
      _ = (j + 1) * rows := by rw [Nat.succ_mul, Nat.add_comm]
      _ ≤ columns * rows := Nat.mul_le_mul_right rows hj
      _ = rows * columns := Nat.mul_comm _ _
  have hindex : (BitVec.ofNat 32 i + BitVec.ofNat 32 j * BitVec.ofNat 32 rows).toInt = (i + j * rows : ℕ) := by
    rw [← BitVec.ofNat_mul, ← BitVec.ofNat_add]
    exact toInt_ofNat_of_lt (by omega)
  obtain ⟨hlength, hfilled⟩ := h
  refine ⟨c.set (i + j * rows) (some v), ?_, by simp [hlength], fun q hq hbefore => ?_⟩
  · rw [Cells.put, hindex, if_pos (by omega), Int.toNat_natCast]
  · rw [List.getElem?_set]
    by_cases heq : i + j * rows = q
    · rw [if_pos heq, if_pos (by omega)]
      exact ⟨v, rfl⟩
    · rw [if_neg heq]
      refine hfilled q hq ?_
      rcases hbefore with hrow | ⟨hrow, hcolumn⟩
      · exact .inl hrow
      · refine .inr ⟨hrow, lt_of_le_of_ne (Nat.lt_succ_iff.mp hcolumn) fun hcol => heq ?_⟩
        rw [← hrow, ← hcol, Nat.mul_comm]
        exact Nat.mod_add_div q rows

/-- The loop over the columns of one row. -/
theorem FilledTo.row {rows columns i : ℕ} {c : Cells Double} (h : FilledTo rows columns i 0 c)
    (hsmall : rows * columns < 2 ^ 31) (hcolumns : columns < 2 ^ 31) (hi : i < rows) (element : ℕ → Double) :
    ∃ c', forLoop (BitVec.ofNat 32 columns) (fun j c =>
        c.put (BitVec.ofNat 32 i + BitVec.ofNat 32 j * BitVec.ofNat 32 rows) (element j)) c = .ok c' ∧
      FilledTo rows columns (i + 1) 0 c' := by
  have hbound : (BitVec.ofNat 32 columns).toInt.toNat = columns := by
    rw [toInt_ofNat_of_lt (by omega), Int.toNat_natCast]
  obtain ⟨c', hc', hfilled⟩ := forLoop_ok (FilledTo rows columns i) h fun j hj c hc =>
    hc.put hsmall hi (hbound ▸ hj) (element j)
  rw [hbound] at hfilled
  refine ⟨c', hc', hfilled.1, fun q hq hbefore => hfilled.2 q hq ?_⟩
  rcases hbefore with hrow | ⟨_, hcolumn⟩
  · rcases Nat.lt_succ_iff_lt_or_eq.mp hrow with hlt | heq
    · exact .inl hlt
    · exact .inr ⟨heq, Nat.div_lt_of_lt_mul hq⟩
  · exact absurd hcolumn (Nat.not_lt_zero _)

theorem mat_assigned (rows columns : BitVec 32) (element : ℕ → ℕ → Double) :
    Assigned (rcppDeepStateMat rows columns element) := by
  have hrows := drawn_bounds 1 10 rows
  have hcolumns := drawn_bounds 1 10 columns
  have hone : (1 : BitVec 32).toInt = 1 := by decide
  have hten : (10 : BitVec 32).toInt = 10 := by decide
  obtain ⟨r, hr⟩ : ∃ r : ℕ, (drawn 1 10 rows).toInt = r := Int.eq_ofNat_of_zero_le (by omega)
  obtain ⟨n, hn⟩ : ∃ n : ℕ, (drawn 1 10 columns).toInt = n := Int.eq_ofNat_of_zero_le (by omega)
  have hrBits : drawn 1 10 rows = BitVec.ofNat 32 r :=
    BitVec.eq_of_toInt_eq (hr.trans (toInt_ofNat_of_lt (by omega)).symm)
  have hnBits : drawn 1 10 columns = BitVec.ofNat 32 n :=
    BitVec.eq_of_toInt_eq (hn.trans (toInt_ofNat_of_lt (by omega)).symm)
  have hsmall : r * n ≤ 10 * 10 := Nat.mul_le_mul (by omega) (by omega)
  have hstart : FilledTo r n 0 0 (allocate (r * n)) :=
    ⟨by simp [allocate], fun q _ h => by simp at h⟩
  obtain ⟨c, hc, hlength, hfilled⟩ := @forLoop_ok _ (fun i => FilledTo r n i 0) (BitVec.ofNat 32 r) _ _
    hstart fun i hi c hc => hc.row (by omega) (by omega)
      (by rwa [← hrBits, hr, Int.toNat_natCast] at hi) (element i)
  simp only [rcppDeepStateMat, deepStateIntInRange_eq_drawn, bind, Except.bind, hr, hn, Int.toNat_natCast]
  rw [hrBits, hnBits]
  refine ⟨c, hc, fun cell hcell => ?_⟩
  obtain ⟨q, hq⟩ := List.mem_iff_getElem?.mp hcell
  have hlt : q < r * n := by
    have := (List.getElem?_eq_some_iff.mp hq).1
    omega
  have hmod : q % r < (BitVec.ofNat 32 r).toInt.toNat := by
    rw [← hrBits, hr, Int.toNat_natCast]
    exact Nat.mod_lt _ (by omega)
  obtain ⟨v, hv⟩ := hfilled q hlt (.inl hmod)
  rw [hv] at hq
  cases hq
  rfl

/-! ## All generators -/

theorem elements_assigned_iff (doubleInRange : ℚ → ℚ → Double → Double) :
    (∀ (α : Type) (g : Generator α) (d : Draws α), g.Sized → 0 < (g.shape d).length →
      (Assigned (g.run doubleInRange d) ↔ (g.shape d).Covered d)) ∧
    (∀ size choice cStr cStrUpToLen,
      Assigned (rcppDeepStateCharacterVector size choice cStr cStrUpToLen)) ∧
    ∀ rows columns element, Assigned (rcppDeepStateMat rows columns element) := by
  refine ⟨fun α g d hsized hpos => ?_, characterVector_assigned, mat_assigned⟩
  rw [g.assigned_iff doubleInRange hsized]
  constructor
  · exact fun h => Generator.covered_of_assigned h.2 hpos
  · intro h
    refine ⟨.inr (Shape.inside_of_pos ?_ d), fun j hj => Generator.assigned_of_covered h hj⟩
    have := Shape.count_eq_of_lt h.1
    omega

theorem elements_assigned_sample :
    Assigned ((Generator.integerMatrixInRange 2 3 5 7).run (fun _ _ v => v) (constantDraws 4 6)) :=
  ((elements_assigned_iff fun _ _ v => v).1 _ (.integerMatrixInRange 2 3 5 7) _
    (And.intro (by decide) (by decide)) (by decide)).mpr ⟨by decide, .inr (.inl rfl)⟩

/-- The numeric vector of two elements whose overwrites all go to the first one. -/
theorem elements_not_assigned :
    ¬ ∀ (doubleInRange : ℚ → ℚ → Double → Double) (α : Type) (g : Generator α) (d : Draws α), g.Sized →
      0 < (g.shape d).length → Assigned (g.run doubleInRange d) := by
  intro h
  have hassigned := h (fun _ _ v => v) Double (.numericVectorInRange 2 1 5) (constantDraws 0 .na)
    (by decide : (0 : ℤ) ≤ (2 : BitVec 32).toInt) (by decide)
  rw [Generator.assigned_iff _ (.numericVectorInRange 2 1 5) (by decide : (0 : ℤ) ≤ (2 : BitVec 32).toInt)]
    at hassigned
  have hposition : drawn 0 1 0 = 0 := by
    rw [drawn, deepStateIntInRange_of_mem (by decide) (by decide)]
  rcases hassigned.2 1 (by decide) with hover | hfilled
  · obtain ⟨_, k, _, heq⟩ := Shape.lastOverwrite_ne_none.mp hover
    change (drawn 0 1 0).toInt.toNat = 1 at heq
    rw [hposition] at heq
    exact absurd heq (by decide)
  · exact absurd hfilled (by decide)

end RcppDeepState
