import RcppDeepState.Library.Command

/-!
# Two runs side by side

Two commands are related when, from states related by `R`, they return the same value or stop with the same
error, in states that `R` relates again.
-/

namespace Command

variable {ε σ τ α β γ : Type} {R : σ → τ → Prop}

/-- The two runs end alike. -/
inductive Agree (R : σ → τ → Prop) : EStateM.Result ε σ α → EStateM.Result ε τ α → Prop
  | ok {a : α} {s : σ} {t : τ} (h : R s t) : Agree R (.ok a s) (.ok a t)
  | error {e : ε} {s : σ} {t : τ} (h : R s t) : Agree R (.error e s) (.error e t)

def Related (R : σ → τ → Prop) (m : EStateM ε σ α) (n : EStateM ε τ α) : Prop :=
  ∀ s t, R s t → Agree R (m s) (n t)

/-! ## What agreement says -/

section Agreement

variable {m : EStateM ε σ α} {n : EStateM ε τ α} {s : σ} {t : τ}

theorem Agree.final (h : Agree R (m s) (n t)) : R (final m s) (final n t) := by
  unfold Command.final
  cases hm : m s with
  | ok a s' =>
      rw [hm] at h
      cases hn : n t with
      | ok b t' => rw [hn] at h; cases h with | ok hR => exact hR
      | error e t' => rw [hn] at h; cases h
  | error e s' =>
      rw [hm] at h
      cases hn : n t with
      | ok b t' => rw [hn] at h; cases h
      | error e' t' => rw [hn] at h; cases h with | error hR => exact hR

theorem Agree.value? (h : Agree R (m s) (n t)) : value? m s = value? n t := by
  unfold Command.value?
  cases hm : m s with
  | ok a s' =>
      rw [hm] at h
      cases hn : n t with
      | ok b t' => rw [hn] at h; cases h with | ok _ => rfl
      | error e t' => rw [hn] at h; cases h
  | error e s' =>
      rw [hm] at h
      cases hn : n t with
      | ok b t' => rw [hn] at h; cases h
      | error e' t' => rfl

theorem Agree.mono {R' : σ → τ → Prop} {x : EStateM.Result ε σ α} {y : EStateM.Result ε τ α}
    (h : Agree R x y) (hR : ∀ s t, R s t → R' s t) : Agree R' x y := by
  cases h with
  | ok h => exact .ok (hR _ _ h)
  | error h => exact .error (hR _ _ h)

/-- Where one run returns, the other one returns the same. -/
theorem Agree.of_ok {a : α} {s' : σ} {y : EStateM.Result ε τ α}
    (h : Agree R (EStateM.Result.ok (ε := ε) a s') y) : ∃ t', y = .ok a t' ∧ R s' t' := by
  cases h with
  | ok hR => exact ⟨_, rfl, hR⟩

end Agreement

/-! ## Rules -/

section Rules

variable {m : EStateM ε σ α} {n : EStateM ε τ α} {f : α → EStateM ε σ β} {g : α → EStateM ε τ β}

theorem Related.pure (a : α) : Related R (pure a : EStateM ε σ α) (Pure.pure a) := fun _ _ h => .ok h

theorem Related.throw (e : ε) : Related R (throw e : EStateM ε σ α) (MonadExcept.throw e) := fun _ _ h => .error h

theorem Related.modify {u : σ → σ} {v : τ → τ} (h : ∀ s t, R s t → R (u s) (v t)) :
    Related R (modify u : EStateM ε σ PUnit) (MonadStateOf.modifyGet fun t => (⟨⟩, v t)) :=
  fun s t hst => .ok (h s t hst)

/-- The rule for a sequence that starts in two given states. -/
theorem Agree.bind {s : σ} {t : τ} (hm : Agree R (m s) (n t)) (hf : ∀ a, Related R (f a) (g a)) :
    Agree R ((m >>= f) s) ((n >>= g) t) := by
  rw [bind_apply, bind_apply]
  cases hms : m s with
  | ok a s' =>
      rw [hms] at hm
      obtain ⟨t', hnt, hR⟩ := hm.of_ok
      rw [hnt]
      exact hf a s' t' hR
  | error e s' =>
      rw [hms] at hm
      cases hnt : n t with
      | ok b t' => rw [hnt] at hm; cases hm
      | error e' t' => rw [hnt] at hm; cases hm with | error hR => exact .error hR

theorem Related.bind (hm : Related R m n) (hf : ∀ a, Related R (f a) (g a)) :
    Related R (m >>= f) (n >>= g) :=
  fun s t h => (hm s t h).bind hf

theorem Related.ite {c d : Prop} [Decidable c] [Decidable d] {m' : EStateM ε σ α} {n' : EStateM ε τ α}
    (hcd : c ↔ d) (hm : Related R m n) (hm' : Related R m' n') :
    Related R (if c then m else m') (if d then n else n') := by
  by_cases hc : c
  · rw [if_pos hc, if_pos (hcd.mp hc)]
    exact hm
  · rw [if_neg hc, if_neg (fun hd => hc (hcd.mpr hd))]
    exact hm'

theorem Related.foldlM {f : β → γ → EStateM ε σ β} {g : β → γ → EStateM ε τ β} {xs : List γ}
    (h : ∀ b, ∀ x ∈ xs, Related R (f b x) (g b x)) (b : β) : Related R (xs.foldlM f b) (xs.foldlM g b) := by
  induction xs generalizing b with
  | nil => exact Related.pure b
  | cons x xs ih =>
      rw [List.foldlM_cons, List.foldlM_cons]
      exact (h b x (by simp)).bind fun b' => ih (fun c y hy => h c y (List.mem_cons_of_mem _ hy)) b'

theorem Related.mapM {f : γ → EStateM ε σ β} {g : γ → EStateM ε τ β} {xs : List γ}
    (h : ∀ x ∈ xs, Related R (f x) (g x)) : Related R (xs.mapM f) (xs.mapM g) := by
  induction xs with
  | nil => exact Related.pure []
  | cons x xs ih =>
      rw [List.mapM_cons, List.mapM_cons]
      refine (h x (by simp)).bind fun b => ?_
      exact (ih fun y hy => h y (List.mem_cons_of_mem _ hy)).bind fun bs => Related.pure (b :: bs)

end Rules

/-! ## Loops that return -/

/-- A loop each of whose turns returns, returns what the turns compute. -/
theorem foldlM_returns {f : β → γ → EStateM ε σ β} {g : β → γ → β} {I : σ → Prop} {xs : List γ}
    (h : ∀ b, ∀ x ∈ xs, ∀ s, I s → ∃ s', f b x s = .ok (g b x) s' ∧ I s') (b : β) {s : σ} (hs : I s) :
    ∃ s', xs.foldlM f b s = .ok (xs.foldl g b) s' ∧ I s' := by
  induction xs generalizing b s with
  | nil => exact ⟨s, rfl, hs⟩
  | cons x xs ih =>
      obtain ⟨s', hstep, hs'⟩ := h b x (by simp) s hs
      obtain ⟨s'', hrest, hs''⟩ := ih (fun c y hy => h c y (List.mem_cons_of_mem _ hy)) (g b x) hs'
      exact ⟨s'', by rw [List.foldlM_cons, bind_of_ok hstep, hrest, List.foldl_cons], hs''⟩

/-- A loop that stops with `e` in its first turn over an element that `stops`. -/
theorem foldlM_stops {f : β → γ → EStateM ε σ β} {g : β → γ → β} {I : σ → Prop} {stops : γ → Prop} {e : ε}
    {xs : List γ} (hreturns : ∀ b, ∀ x ∈ xs, ¬ stops x → ∀ s, I s → ∃ s', f b x s = .ok (g b x) s' ∧ I s')
    (hstops : ∀ b, ∀ x ∈ xs, stops x → ∀ s, I s → ∃ s', f b x s = .error e s') (hany : ∃ x ∈ xs, stops x) (b : β)
    {s : σ} (hs : I s) : ∃ s', xs.foldlM f b s = .error e s' := by
  induction xs generalizing b s with
  | nil =>
      obtain ⟨x, hx, _⟩ := hany
      cases hx
  | cons x xs ih =>
      rw [List.foldlM_cons]
      by_cases hx : stops x
      · obtain ⟨s', hstep⟩ := hstops b x (by simp) hx s hs
        exact ⟨s', by rw [bind_apply, hstep]⟩
      · obtain ⟨s', hstep, hs'⟩ := hreturns b x (by simp) hx s hs
        rw [bind_of_ok hstep]
        refine ih (fun c y hy => hreturns c y (List.mem_cons_of_mem _ hy))
          (fun c y hy => hstops c y (List.mem_cons_of_mem _ hy)) ?_ (g b x) hs'
        obtain ⟨y, hy, hstop⟩ := hany
        rcases List.mem_cons.mp hy with rfl | hy
        · exact absurd hstop hx
        · exact ⟨y, hy, hstop⟩

end Command
