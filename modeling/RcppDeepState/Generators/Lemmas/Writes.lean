import RcppDeepState.Generators.Containers

/-!
# What the loops write

Each loop of a generator is a sequence of writes into one container: it stops at the first write outside, and
otherwise an element holds what the last write to it put there.
-/

namespace RcppDeepState

variable {α : Type}

/-! ## Draws in a range -/

/-- The value of a draw in a range. -/
def drawn (low high x : BitVec 32) : BitVec 32 :=
  match deepStateIntInRange low high x with
  | .ok v => v
  | .error _ => 0

theorem deepStateIntInRange_eq_drawn (low high x : BitVec 32) :
    deepStateIntInRange low high x = .ok (drawn low high x) := by
  obtain ⟨v, hv, _⟩ := deepStateIntInRange_bounds low high x
  simp [drawn, hv]

theorem drawn_bounds (low high x : BitVec 32) :
    min low.toInt high.toInt ≤ (drawn low high x).toInt ∧
      (drawn low high x).toInt ≤ max low.toInt high.toInt := by
  obtain ⟨v, hv, h⟩ := deepStateIntInRange_bounds low high x
  rw [deepStateIntInRange_eq_drawn] at hv
  cases hv
  exact h

theorem drawn_zero_bounds (last x : BitVec 32) :
    min 0 last.toInt ≤ (drawn 0 last x).toInt ∧ (drawn 0 last x).toInt ≤ max 0 last.toInt := by
  simpa using drawn_bounds 0 last x

/-! ## Sequences of writes -/

/-- The writes of `v k` at `p k` for `k` below `m`. -/
def writes (p : ℕ → ℕ) (v : ℕ → α) : ℕ → Cells α → Cells α
  | 0, c => c
  | m + 1, c => (writes p v m c).set (p m) (some (v m))

/-- The last of the first `m` writes that goes to position `j`. -/
def lastWrite (p : ℕ → ℕ) (j : ℕ) : ℕ → Option ℕ
  | 0 => none
  | m + 1 => if p m = j then some m else lastWrite p j m

@[simp] theorem length_writes (p : ℕ → ℕ) (v : ℕ → α) (m : ℕ) (c : Cells α) :
    (writes p v m c).length = c.length := by
  induction m with
  | zero => rfl
  | succ m ih => simp [writes, ih]

/-- An element holds what the last write to it put there. -/
theorem getElem?_writes (p : ℕ → ℕ) (v : ℕ → α) (m : ℕ) {cells : Cells α} {j : ℕ} (hj : j < cells.length) :
    (writes p v m cells)[j]? = (match lastWrite p j m with
      | some k => some (some (v k))
      | none => cells[j]?) := by
  induction m with
  | zero => rfl
  | succ m ih =>
    by_cases h : p m = j
    · simp [writes, lastWrite, h, hj]
    · simp [writes, lastWrite, h, ih]

theorem lastWrite_eq_none {p : ℕ → ℕ} {j m : ℕ} : lastWrite p j m = none ↔ ∀ k < m, p k ≠ j := by
  induction m with
  | zero => simp [lastWrite]
  | succ m ih =>
    by_cases h : p m = j
    · simp only [lastWrite, h, if_true, reduceCtorEq, false_iff, not_forall]
      exact ⟨m, Nat.lt_succ_self m, not_not.mpr h⟩
    · rw [lastWrite, if_neg h, ih]
      constructor
      · intro hk k hlt
        rcases Nat.lt_succ_iff_lt_or_eq.mp hlt with h' | h'
        · exact hk k h'
        · exact h' ▸ h
      · exact fun hk k hlt => hk k (Nat.lt_succ_of_lt hlt)

theorem lastWrite_lt {p : ℕ → ℕ} {j m k : ℕ} (h : lastWrite p j m = some k) : k < m ∧ p k = j := by
  induction m with
  | zero => cases h
  | succ m ih =>
    rw [lastWrite] at h
    split at h
    · rename_i hp
      cases h
      exact ⟨Nat.lt_succ_self _, hp⟩
    · exact ⟨Nat.lt_succ_of_lt (ih h).1, (ih h).2⟩

/-! ## Loops -/

/-- If every step succeeds and keeps `P`, the loop succeeds with a result that satisfies `P`. -/
theorem forLoop_ok {σ : Type} (P : ℕ → σ → Prop) {bound : BitVec 32} {body : ℕ → σ → Except Fault σ} {s : σ}
    (hzero : P 0 s)
    (hstep : ∀ i < bound.toInt.toNat, ∀ s, P i s → ∃ t, body i s = .ok t ∧ P (i + 1) t) :
    ∃ t, forLoop bound body s = .ok t ∧ P bound.toInt.toNat t := by
  rw [forLoop]
  generalize bound.toInt.toNat = m at hstep ⊢
  induction m with
  | zero => exact ⟨s, rfl, hzero⟩
  | succ m ih =>
    obtain ⟨t, ht, hP⟩ := ih fun i hi => hstep i (Nat.lt_succ_of_lt hi)
    obtain ⟨u, hu, hP'⟩ := hstep m (Nat.lt_succ_self m) t hP
    refine ⟨u, ?_, hP'⟩
    rw [List.range_succ, List.foldlM_append, ht]
    simp [bind, Except.bind, hu, pure, Except.pure]

/-- A loop whose body is one write: either all writes are inside the container, or it stops outside. -/
theorem forLoop_put {bound : BitVec 32} {body : ℕ → Cells α → Except Fault (Cells α)} {p : ℕ → BitVec 32}
    {v : ℕ → α} (hbody : ∀ i c, body i c = c.put (p i) (v i)) (c : Cells α) :
    forLoop bound body c =
      if ∀ i < bound.toInt.toNat, 0 ≤ (p i).toInt ∧ (p i).toInt < c.length then
        .ok (writes (fun i => (p i).toInt.toNat) v bound.toInt.toNat c)
      else .error .outOfBounds := by
  rw [forLoop]
  induction bound.toInt.toNat with
  | zero => simp [writes, pure, Except.pure]
  | succ m ih =>
    rw [List.range_succ, List.foldlM_append, ih]
    by_cases hm : ∀ i < m, 0 ≤ (p i).toInt ∧ (p i).toInt < c.length
    · rw [if_pos hm]
      simp only [bind, Except.bind, List.foldlM_cons, List.foldlM_nil, hbody, Cells.put, length_writes, pure,
        Except.pure]
      by_cases hlast : 0 ≤ (p m).toInt ∧ (p m).toInt < c.length
      · rw [if_pos hlast, if_pos]
        · rfl
        · intro i hi
          rcases Nat.lt_succ_iff_lt_or_eq.mp hi with h | h
          · exact hm i h
          · exact h ▸ hlast
      · rw [if_neg hlast, if_neg fun hall => hlast (hall m (Nat.lt_succ_self m))]
    · rw [if_neg hm, if_neg fun hall => hm fun i hi => hall i (Nat.lt_succ_of_lt hi)]
      rfl

/-! ## The two loops -/

variable {value : ℕ → Except Fault α} {v : ℕ → α}

theorem toInt_ofNat_of_lt {i : ℕ} (h : (i : ℤ) < 2 ^ 31) : (BitVec.ofNat 32 i).toInt = i := by
  rw [BitVec.toInt_ofNat']
  exact Int.bmod_eq_of_le (by omega) (by omega)

/-- Filling up to a bound that the container reaches writes each element below it. -/
theorem fill_eq (hvalue : ∀ i, value i = .ok (v i)) {bound : BitVec 32} {c : Cells α}
    (h : bound.toInt ≤ c.length) : fill bound value c = .ok (writes id v bound.toInt.toNat c) := by
  have htop := bound.toInt_lt
  have hindex : ∀ i < bound.toInt.toNat, (BitVec.ofNat 32 i).toInt = i := by
    intro i hi
    exact toInt_ofNat_of_lt (by omega)
  rw [fill, forLoop_put (p := fun i => BitVec.ofNat 32 i) (v := v) (fun i c => by rw [hvalue]; rfl), if_pos]
  · have hcongr : ∀ m ≤ bound.toInt.toNat,
        writes (fun i => (BitVec.ofNat 32 i).toInt.toNat) v m c = writes id v m c := by
      intro m hm
      induction m with
      | zero => rfl
      | succ m ih =>
        simp only [writes, ih (by omega), hindex m (by omega), id, Int.toNat_natCast]
    rw [hcongr _ le_rfl]
  · intro i hi
    rw [hindex i hi]
    omega

/-- The entry of an array that `OneOf` takes. -/
def taken (arr : List α) (default : α) (x : BitVec 32) : α :=
  (arr[(drawn 0 (BitVec.ofNat 32 arr.length - 1) x).toInt.toNat]?).getD default

theorem oneOf_eq_taken {arr : List α} (hpos : 0 < arr.length) (htop : arr.length < 2 ^ 31) (default : α)
    (x : BitVec 32) : oneOf arr x = .ok (taken arr default x) := by
  have hlast : (BitVec.ofNat 32 arr.length - 1).toInt = arr.length - 1 := by
    rw [BitVec.toInt_sub, toInt_ofNat_of_lt (by omega)]
    exact Int.bmod_eq_of_le (by simp; omega) (by simp; omega)
  have hbounds := drawn_zero_bounds (BitVec.ofNat 32 arr.length - 1) x
  rw [hlast] at hbounds
  have hlt : (drawn 0 (BitVec.ofNat 32 arr.length - 1) x).toInt.toNat < arr.length := by omega
  simp only [oneOf, deepStateIntInRange_eq_drawn, bind, Except.bind, taken, List.getElem?_eq_getElem hlt,
    Option.getD_some]
  rw [if_neg (by omega)]

/-- The position of each overwrite. -/
def positions (last : BitVec 32) (d : Draws α) (k : ℕ) : BitVec 32 := drawn 0 last (d.position k)

theorem overwrite_eq {missingValues : List α} (hpos : 0 < missingValues.length)
    (htop : missingValues.length < 2 ^ 31) (times last : BitVec 32) (d : Draws α) (c : Cells α) :
    overwrite times last missingValues d c =
      if ∀ k < times.toInt.toNat, 0 ≤ (positions last d k).toInt ∧ (positions last d k).toInt < c.length then
        .ok (writes (fun k => (positions last d k).toInt.toNat)
          (fun k => taken missingValues d.special (d.entry k)) times.toInt.toNat c)
      else .error .outOfBounds := by
  refine forLoop_put (fun k c => ?_) c
  rw [oneOf_eq_taken hpos htop d.special, deepStateIntInRange_eq_drawn]
  rfl

end RcppDeepState
