import RcppDeepState.Library.Run

/-!
# Runs with what is not observed left out

Operations that an observer does not own are unwound from a run: when each of them goes unseen, and the owned ones
answer alike in states that look alike, the answers are those of the run of the owned operations alone.
-/

namespace Run

variable {ι σ ο : Type} (step : ι → σ → σ) (answer : ι → σ → ο)

/-- The operations of a run with what each of them answers. -/
def answers : List ι → σ → List (ι × ο)
  | [], _ => []
  | op :: ops, s => (op, answer op s) :: answers ops (step op s)

variable {step answer}

/-- What a class of operations needs to be observed alone. `Alike` is the observer's relation between states,
`I` an invariant of the runs. -/
structure Unwinds (step : ι → σ → σ) (answer : ι → σ → ο) (own : ι → Bool) (I : σ → Prop)
    (Alike : σ → σ → Prop) : Prop where
  invariant : ∀ op s, I s → I (step op s)
  answers : ∀ op s s', own op = true → Alike s s' → answer op s = answer op s'
  steps : ∀ op s s', own op = true → Alike s s' → Alike (step op s) (step op s')
  unseen : ∀ op s s', own op = false → I s → Alike s s' → Alike (step op s) s'

theorem Unwinds.run {own : ι → Bool} {I : σ → Prop} {Alike : σ → σ → Prop} (h : Unwinds step answer own I Alike)
    (ops : List ι) {s s' : σ} (hs : I s) (halike : Alike s s') :
    (Run.answers step answer ops s).filter (fun a => own a.1) = Run.answers step answer (ops.filter own) s' ∧
      Alike (Run.run step ops s) (Run.run step (ops.filter own) s') := by
  induction ops generalizing s s' with
  | nil => exact ⟨rfl, halike⟩
  | cons op ops ih =>
      cases hown : own op with
      | true =>
          obtain ⟨hanswers, hrest⟩ := ih (h.invariant op s hs) (h.steps op s s' hown halike)
          rw [List.filter_cons_of_pos hown]
          refine ⟨?_, hrest⟩
          show ((op, answer op s) :: Run.answers step answer ops (step op s)).filter _ = _
          rw [List.filter_cons_of_pos (by exact hown), hanswers, h.answers op s s' hown halike]
          rfl
      | false =>
          obtain ⟨hanswers, hrest⟩ := ih (h.invariant op s hs) (h.unseen op s s' hown hs halike)
          rw [List.filter_cons_of_neg (by simp [hown])]
          refine ⟨?_, hrest⟩
          show ((op, answer op s) :: Run.answers step answer ops (step op s)).filter _ = _
          rw [List.filter_cons_of_neg (by simp [hown]), hanswers]

end Run
