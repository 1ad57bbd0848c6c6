import Mathlib.Data.List.Basic

/-!
# Runs of a step function

The states that any sequence of operations leads through, and the rules that lift what one step preserves
to a whole run.
-/

namespace Run

variable {ι σ : Type} (step : ι → σ → σ)

/-- The state after a sequence of operations. -/
def run (ops : List ι) (s : σ) : σ := ops.foldl (fun s op => step op s) s

/-- Every step of a run satisfies `P` of its operation and of the state it starts from. -/
def Each (P : ι → σ → Prop) : List ι → σ → Prop
  | [], _ => True
  | op :: ops, s => P op s ∧ Each P ops (step op s)

variable {step} {P : ι → σ → Prop}

@[simp] theorem run_nil (s : σ) : run step [] s = s := rfl

@[simp] theorem run_cons (op : ι) (ops : List ι) (s : σ) :
    run step (op :: ops) s = run step ops (step op s) := rfl

@[simp] theorem each_nil (s : σ) : Each step P [] s := trivial

@[simp] theorem each_cons {op : ι} {ops : List ι} {s : σ} :
    Each step P (op :: ops) s ↔ P op s ∧ Each step P ops (step op s) := Iff.rfl

theorem each_of_mem {ops : List ι} (h : ∀ op ∈ ops, ∀ s, P op s) (s : σ) : Each step P ops s := by
  induction ops generalizing s with
  | nil => trivial
  | cons op ops ih =>
      exact ⟨h op List.mem_cons_self s, ih (fun op' hop' => h op' (List.mem_cons_of_mem _ hop')) _⟩

theorem Each.take {ops : List ι} {s : σ} (h : Each step P ops s) (n : Nat) :
    Each step P (ops.take n) s := by
  induction ops generalizing s n with
  | nil => simp
  | cons op ops ih =>
      cases n with
      | zero => trivial
      | succ n => exact ⟨h.1, ih h.2 n⟩

theorem Each.and {Q : ι → σ → Prop} {ops : List ι} {s : σ} (h : Each step P ops s)
    (h' : Each step Q ops s) : Each step (fun op s => P op s ∧ Q op s) ops s := by
  induction ops generalizing s with
  | nil => trivial
  | cons op ops ih => exact ⟨⟨h.1, h'.1⟩, ih h.2 h'.2⟩

/-- What every step of a run keeps, the run keeps. -/
theorem invariant {I : σ → Prop} (hstep : ∀ op s, P op s → I s → I (step op s)) {ops : List ι} {s : σ}
    (h : Each step P ops s) (hs : I s) : I (run step ops s) := by
  induction ops generalizing s with
  | nil => exact hs
  | cons op ops ih => exact ih h.2 (hstep op s h.1 hs)

/-! ## Counting steps -/

/-- How many steps of a run satisfy `q` of their operation and of the state they start from. -/
def count (step : ι → σ → σ) (q : ι → σ → Bool) : List ι → σ → Nat
  | [], _ => 0
  | op :: ops, s => (if q op s then 1 else 0) + count step q ops (step op s)

section Count

variable {q : ι → σ → Bool}

theorem count_take_le (ops : List ι) (s : σ) (n : Nat) : count step q (ops.take n) s ≤ count step q ops s := by
  induction ops generalizing s n with
  | nil => simp
  | cons op ops ih =>
      cases n with
      | zero => exact Nat.zero_le _
      | succ n => exact Nat.add_le_add_left (ih _ n) _

/-- What the counted steps append, the run has appended as often as it has such steps. -/
theorem accumulates {α : Type} {f : σ → List α} {block : List α}
    (hstep : ∀ op s, f (step op s) = f s ++ if q op s then block else []) (ops : List ι) (s : σ) :
    f (run step ops s) = f s ++ (List.replicate (count step q ops s) block).flatten := by
  induction ops generalizing s with
  | nil => exact (List.append_nil _).symm
  | cons op ops ih =>
      rw [run_cons, ih, hstep, count, List.append_assoc]
      cases q op s with
      | false => simp
      | true =>
          have hone : (if true = true then 1 else 0) + count step q ops (step op s) =
              count step q ops (step op s) + 1 := Nat.add_comm _ _
          rw [hone, List.replicate_succ, List.flatten_cons, if_pos rfl]

theorem length_copies {α : Type} (k : Nat) (block : List α) :
    (List.replicate k block).flatten.length = k * block.length := by
  induction k with
  | zero => simp
  | succ k ih => rw [List.replicate_succ, List.flatten_cons, List.length_append, ih, Nat.succ_mul, Nat.add_comm]

/-- A run appends at most one block in every state exactly when it has at most one counted step. -/
theorem appends_once_iff {α : Type} {f : σ → List α} {block : List α} (hne : block ≠ [])
    (hstep : ∀ op s, f (step op s) = f s ++ if q op s then block else []) (ops : List ι) (s : σ) :
    (∀ n, f (run step (ops.take n) s) = f s ∨ f (run step (ops.take n) s) = f s ++ block) ↔
      count step q ops s ≤ 1 := by
  constructor
  · intro hall
    have hend := hall ops.length
    rw [List.take_length, accumulates hstep] at hend
    have hblocks : count step q ops s * block.length ≤ 1 * block.length := by
      cases hend with
      | inl hnone =>
          have hlength := congrArg List.length hnone
          rw [List.length_append, length_copies] at hlength
          omega
      | inr hone =>
          have hlength := congrArg List.length hone
          rw [List.length_append, List.length_append, length_copies] at hlength
          omega
    exact Nat.le_of_mul_le_mul_right hblocks (List.length_pos_iff.mpr hne)
  · intro hone n
    have hle : count step q (ops.take n) s ≤ 1 := Nat.le_trans (count_take_le ops s n) hone
    rw [accumulates hstep]
    cases hcount : count step q (ops.take n) s with
    | zero => exact .inl (List.append_nil _)
    | succ k =>
        have hk : k = 0 := by omega
        rw [hk]
        exact .inr (congrArg (f s ++ ·) (by simp))

end Count

end Run
