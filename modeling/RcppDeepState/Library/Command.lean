import Mathlib.Data.List.Forall2

/-!
# Commands over a state that may stop

A command is an `EStateM` program: it returns or stops, and what it has done to the state stays done in
both cases. `Within R` says that the state a command leaves is related by `R` to the state it found.
-/

namespace Command

variable {ε σ α β : Type} {R : σ → σ → Prop}

/-- The state a command leaves, whether it returns or stops. -/
def final (m : EStateM ε σ α) (s : σ) : σ :=
  match m s with
  | .ok _ s' => s'
  | .error _ s' => s'

/-- What a command returns, if it does. -/
def value? (m : EStateM ε σ α) (s : σ) : Option α :=
  match m s with
  | .ok a _ => some a
  | .error _ _ => none

def Within (R : σ → σ → Prop) (m : EStateM ε σ α) : Prop := ∀ s, R s (final m s)

/-! ## The state a command leaves -/

@[simp] theorem final_pure (a : α) (s : σ) : final (pure a : EStateM ε σ α) s = s := rfl

@[simp] theorem final_throw (e : ε) (s : σ) : final (throw e : EStateM ε σ α) s = s := rfl

@[simp] theorem final_get (s : σ) : final (get : EStateM ε σ σ) s = s := rfl

@[simp] theorem final_modify (f : σ → σ) (s : σ) :
    final (modify f : EStateM ε σ PUnit) s = f s := rfl

theorem final_of_ok {m : EStateM ε σ α} {s s' : σ} {a : α} (h : m s = .ok a s') : final m s = s' := by
  simp [final, h]

/-- Commands that end alike leave the same state. -/
theorem final_congr {m m' : EStateM ε σ α} {s s' : σ} (h : m s = m' s') : final m s = final m' s' := by
  rw [final, h, final]

/-- A command that returns, returns in the state it leaves. -/
theorem ok_of_value? {m : EStateM ε σ α} {s : σ} {a : α} (h : value? m s = some a) :
    m s = .ok a (final m s) := by
  unfold value? at h
  unfold final
  split at h
  · rename_i a' s' he
    cases h
    rw [he]
  · cases h

theorem bind_apply (m : EStateM ε σ α) (f : α → EStateM ε σ β) (s : σ) :
    (m >>= f) s =
      match m s with
      | .ok a s' => f a s'
      | .error e s' => .error e s' := rfl

/-- A sequence returns when both of its commands do. -/
theorem bind_eq_ok {m : EStateM ε σ α} {f : α → EStateM ε σ β} {s s'' : σ} {b : β} :
    (m >>= f) s = .ok b s'' ↔ ∃ a s', m s = .ok a s' ∧ f a s' = .ok b s'' := by
  rw [bind_apply]
  cases h : m s with
  | ok a s' =>
      constructor
      · intro hf; exact ⟨a, s', rfl, hf⟩
      · rintro ⟨_, _, he, hf⟩; cases he; exact hf
  | error e s' => simp

theorem bind_of_ok {m : EStateM ε σ α} {f : α → EStateM ε σ β} {s s' : σ} {a : α}
    (h : m s = .ok a s') : (m >>= f) s = f a s' := by
  rw [bind_apply, h]

/-- What a sequence leaves is what its second command leaves, when the first returns. -/
theorem final_bind_of_ok {m : EStateM ε σ α} {f : α → EStateM ε σ β} {s s' : σ} {a : α}
    (h : m s = .ok a s') : final (m >>= f) s = final (f a) s' := by
  rw [final, bind_apply, h]
  rfl

theorem final_bind_of_error {m : EStateM ε σ α} {f : α → EStateM ε σ β} {s s' : σ} {e : ε}
    (h : m s = .error e s') : final (m >>= f) s = s' := by
  rw [final, bind_apply, h]

theorem final_bind_pure (m : EStateM ε σ α) (f : α → β) (s : σ) :
    final (m >>= fun a => pure (f a)) s = final m s := by
  rw [final, final, bind_apply]
  cases m s <;> rfl

/-! ## Rules for what a command may do -/

theorem Within.mono {R' : σ → σ → Prop} {m : EStateM ε σ α} (h : Within R m)
    (hR : ∀ s s', R s s' → R' s s') : Within R' m :=
  fun s => hR _ _ (h s)

section Rules

variable (hrefl : ∀ s, R s s) (htrans : ∀ s s' s'', R s s' → R s' s'' → R s s'')

include hrefl in
theorem Within.pure (a : α) : Within R (pure a : EStateM ε σ α) := fun s => hrefl s

include hrefl in
theorem Within.throw (e : ε) : Within R (throw e : EStateM ε σ α) := fun s => hrefl s

include hrefl in
theorem Within.get : Within R (MonadState.get : EStateM ε σ σ) := fun s => hrefl s

theorem Within.modify {f : σ → σ} (h : ∀ s, R s (f s)) :
    Within R (modify f : EStateM ε σ PUnit) := h

include htrans in
/-- The rule for a sequence in one state. -/
theorem rel_bind {m : EStateM ε σ α} {f : α → EStateM ε σ β} {s : σ} (hm : R s (final m s))
    (hf : ∀ a, Within R (f a)) : R s (final (m >>= f) s) := by
  unfold final at hm ⊢
  rw [bind_apply]
  cases he : m s with
  | ok a s' =>
      rw [he] at hm
      exact htrans _ _ _ hm (hf a s')
  | error e s' => rw [he] at hm; exact hm

include htrans in
theorem Within.bind {m : EStateM ε σ α} {f : α → EStateM ε σ β} (hm : Within R m)
    (hf : ∀ a, Within R (f a)) : Within R (m >>= f) :=
  fun s => rel_bind htrans (hm s) hf

theorem Within.ite {c : Prop} [Decidable c] {m m' : EStateM ε σ α} (hm : Within R m)
    (hm' : Within R m') : Within R (if c then m else m') := by
  split
  · exact hm
  · exact hm'

include hrefl htrans in
theorem Within.foldlM {γ : Type} {f : β → γ → EStateM ε σ β} (hf : ∀ b x, Within R (f b x))
    (xs : List γ) (b : β) : Within R (xs.foldlM f b) := by
  induction xs generalizing b with
  | nil => exact Within.pure hrefl b
  | cons x xs ih => exact Within.bind htrans (hf b x) (fun b' => ih b')

include hrefl htrans in
theorem Within.forM {γ : Type} {f : γ → EStateM ε σ PUnit} (hf : ∀ x, Within R (f x))
    (xs : List γ) : Within R (xs.forM f) := by
  induction xs with
  | nil => exact Within.pure hrefl _
  | cons x xs ih => exact Within.bind htrans (hf x) (fun _ => ih)

end Rules

/-! ## What a command emits -/

section Emits

variable {ω γ : Type} {obs : σ → List ω} {l l' : List ω}

/-- What is observed of the state grows by the list: by all of it when the command returns, and by an initial
part of it when it stops. -/
def Emits (obs : σ → List ω) (l : List ω) (m : EStateM ε σ α) (s : σ) : Prop :=
  ∃ done, done <+: l ∧ obs (final m s) = obs s ++ done ∧ ∀ a s', m s = .ok a s' → done = l

theorem Emits.pure (a : α) (s : σ) : Emits obs [] (pure a : EStateM ε σ α) s :=
  ⟨[], List.nil_prefix, (List.append_nil _).symm, fun _ _ _ => rfl⟩

theorem Emits.error {m : EStateM ε σ α} {s s' : σ} {e : ε} (h : m s = .error e s') (hobs : obs s' = obs s) :
    Emits obs l m s := by
  refine ⟨[], List.nil_prefix, ?_, fun a s'' hok => ?_⟩
  · rw [final, h, List.append_nil]
    exact hobs
  · rw [h] at hok
    cases hok

/-- What a command emits is decided by what it does. -/
theorem Emits.congr {m m' : EStateM ε σ α} {s s' : σ} (h : Emits obs l m' s') (hrun : m s = m' s')
    (hobs : obs s' = obs s) : Emits obs l m s := by
  unfold Emits final at h ⊢
  rw [hrun, ← hobs]
  exact h

theorem Emits.bind {m : EStateM ε σ α} {f : α → EStateM ε σ β} {s : σ} (hm : Emits obs l m s)
    (hf : ∀ a s', m s = .ok a s' → Emits obs l' (f a) s') : Emits obs (l ++ l') (m >>= f) s := by
  obtain ⟨done, hpre, hobs, hall⟩ := hm
  cases h : m s with
  | ok a s' =>
      obtain ⟨done', hpre', hobs', hall'⟩ := hf a s' h
      rw [final_of_ok h] at hobs
      refine ⟨l ++ done', List.prefix_append_right_inj l |>.mpr hpre', ?_, fun b s'' hok => ?_⟩
      · rw [final_bind_of_ok h, hobs', hobs, hall a s' h, List.append_assoc]
      · rw [bind_of_ok h] at hok
        rw [hall' b s'' hok]
  | error e s' =>
      have hfinal : final m s = s' := by rw [final, h]
      rw [hfinal] at hobs
      refine ⟨done, hpre.trans (List.prefix_append _ _), ?_, fun b s'' hok => ?_⟩
      · rw [final_bind_of_error h, hobs]
      · rw [bind_apply, h] at hok
        cases hok

/-- The rule for a loop: `I` holds of what is left to do and the state, as long as the loop goes on. -/
theorem Emits.mapM {f : γ → EStateM ε σ β} {emitted : γ → List ω} {I : List γ → σ → Prop}
    (hstep : ∀ x xs s, I (x :: xs) s → Emits obs (emitted x) (f x) s ∧ ∀ b s', f x s = .ok b s' → I xs s')
    {xs : List γ} {s : σ} (hI : I xs s) : Emits obs (xs.flatMap emitted) (xs.mapM f) s := by
  induction xs generalizing s with
  | nil => exact Emits.pure _ _
  | cons x xs ih =>
      rw [List.mapM_cons, List.flatMap_cons]
      obtain ⟨hone, hnext⟩ := hstep x xs s hI
      refine hone.bind fun b s' hok => ?_
      have hrest := Emits.bind (ih (hnext b s' hok)) fun bs s'' _ => Emits.pure (b :: bs) s''
      rwa [List.append_nil] at hrest

/-- A loop returns when each of its steps does. -/
theorem mapM_returns {f : γ → EStateM ε σ β} {I : List γ → σ → Prop}
    (hstep : ∀ x xs s, I (x :: xs) s → ∃ b s', f x s = .ok b s' ∧ I xs s') {xs : List γ} {s : σ} (hI : I xs s) :
    ∃ bs s', xs.mapM f s = .ok bs s' := by
  induction xs generalizing s with
  | nil => exact ⟨[], s, rfl⟩
  | cons x xs ih =>
      obtain ⟨b, s', hok, hrest⟩ := hstep x xs s hI
      obtain ⟨bs, s'', hoks⟩ := ih hrest
      exact ⟨b :: bs, s'', by rw [List.mapM_cons, bind_of_ok hok, bind_of_ok hoks]; rfl⟩

/-- What each step of a loop that returns keeps, the loop keeps. -/
theorem mapM_keeps {f : γ → EStateM ε σ β} {J : σ → Prop}
    (hstep : ∀ x s b s', J s → f x s = .ok b s' → J s') {xs : List γ} {s s' : σ} {bs : List β} (hJ : J s)
    (hok : xs.mapM f s = .ok bs s') : J s' := by
  induction xs generalizing s bs with
  | nil =>
      cases hok
      exact hJ
  | cons x xs ih =>
      rw [List.mapM_cons] at hok
      obtain ⟨b, s₁, hone, hrest⟩ := bind_eq_ok.mp hok
      obtain ⟨bs', s₂, hmany, hret⟩ := bind_eq_ok.mp hrest
      cases hret
      exact ih (hstep x s b s₁ hJ hone) hmany

end Emits

/-! ## Lists of results -/

section Results

variable {γ : Type} {f : γ → Except ε β}

theorem mapM_eq_ok {xs : List γ} {ys : List β} :
    xs.mapM f = .ok ys ↔ List.Forall₂ (fun x y => f x = .ok y) xs ys := by
  induction xs generalizing ys with
  | nil =>
      rw [List.mapM_nil, List.forall₂_nil_left_iff]
      exact ⟨fun h => by cases h; rfl, fun h => by rw [h]; rfl⟩
  | cons x xs ih =>
      rw [List.mapM_cons, List.forall₂_cons_left_iff]
      cases hx : f x with
      | error e =>
          constructor
          · intro h; cases h
          · rintro ⟨_, _, h, _⟩; cases h
      | ok y =>
          cases hxs : xs.mapM f with
          | error e =>
              constructor
              · intro h; cases h
              · rintro ⟨_, zs, _, h, _⟩
                rw [← ih, hxs] at h
                cases h
          | ok zs =>
              constructor
              · intro h
                cases h
                exact ⟨y, zs, rfl, ih.mp hxs, rfl⟩
              · rintro ⟨_, zs', he, h, rfl⟩
                cases he
                rw [← ih, hxs] at h
                cases h
                rfl

theorem exists_mapM_eq_ok {xs : List γ} : (∃ ys, xs.mapM f = .ok ys) ↔ ∀ x ∈ xs, ∃ y, f x = .ok y := by
  simp only [mapM_eq_ok]
  induction xs with
  | nil => simp
  | cons x xs ih =>
      rw [List.forall_mem_cons, ← ih]
      constructor
      · rintro ⟨_, h⟩
        obtain ⟨y, ys, hx, hxs, -⟩ := List.forall₂_cons_left_iff.mp h
        exact ⟨⟨y, hx⟩, ys, hxs⟩
      · rintro ⟨⟨y, hx⟩, ys, hxs⟩
        exact ⟨y :: ys, .cons hx hxs⟩

theorem mapM_congr {g : γ → Except ε β} {xs : List γ} (h : ∀ x ∈ xs, f x = g x) : xs.mapM f = xs.mapM g := by
  induction xs with
  | nil => rfl
  | cons x xs ih => rw [List.mapM_cons, List.mapM_cons, h x (by simp), ih fun y hy => h y (by simp [hy])]

theorem mapM_eq_map {xs : List γ} {g : γ → β} (h : ∀ x ∈ xs, f x = .ok (g x)) : xs.mapM f = .ok (xs.map g) := by
  rw [mapM_eq_ok, List.forall₂_map_right_iff, List.forall₂_same]
  exact h

/-- Where only one error is raised, the list raises it as soon as one member does. -/
theorem mapM_eq_error {xs : List γ} {e : ε} (h : ∀ x ∈ xs, ∀ e', f x = .error e' → e' = e)
    (hx : ∃ x ∈ xs, ∃ e', f x = .error e') : xs.mapM f = .error e := by
  cases hxs : xs.mapM f with
  | ok ys =>
      obtain ⟨x, hmem, e', he'⟩ := hx
      obtain ⟨y, hy⟩ := exists_mapM_eq_ok.mp ⟨ys, hxs⟩ x hmem
      rw [he'] at hy
      cases hy
  | error e'' =>
      clear hx
      induction xs with
      | nil => cases hxs
      | cons x xs ih =>
          rw [List.mapM_cons] at hxs
          cases hf : f x with
          | error e' =>
              rw [hf] at hxs
              cases hxs
              rw [h x (by simp) _ hf]
          | ok y =>
              rw [hf] at hxs
              cases hrest : xs.mapM f with
              | error e' =>
                  rw [hrest] at hxs
                  cases hxs
                  exact ih (fun x' hx' => h x' (by simp [hx'])) hrest
              | ok ys =>
                  rw [hrest] at hxs
                  cases hxs

/-- What stands on the left of a pointwise relation has a partner on the right. -/
theorem exists_of_mem_left {R : γ → β → Prop} {xs : List γ} {ys : List β} (h : List.Forall₂ R xs ys) {x : γ}
    (hx : x ∈ xs) : ∃ y ∈ ys, R x y := by
  induction h with
  | nil => cases hx
  | @cons a b as bs hab has ih =>
      rcases List.mem_cons.mp hx with rfl | hx
      · exact ⟨b, by simp, hab⟩
      · obtain ⟨y, hy, hR⟩ := ih hx
        exact ⟨y, List.mem_cons_of_mem _ hy, hR⟩

theorem exists_of_mem_right {R : γ → β → Prop} {xs : List γ} {ys : List β} (h : List.Forall₂ R xs ys) {y : β}
    (hy : y ∈ ys) : ∃ x ∈ xs, R x y := exists_of_mem_left h.flip hy

end Results

end Command
