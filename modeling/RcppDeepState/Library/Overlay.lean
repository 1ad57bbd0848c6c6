import Mathlib.Data.List.Chain

/-!
# Rounds over a shared map

A partial map is written by one round after the other and never cleared. What a round finds afterwards is
its own writes laid over what was there.
-/

namespace Overlay

variable {α β : Type}

def overlay (d m : α → Option β) : α → Option β := fun a => (d a).or (m a)

/-- `m` is defined at most where `d` is. -/
def Covered (m d : α → Option β) : Prop := ∀ a, (m a).isSome → (d a).isSome

theorem overlay_eq_left_iff {d m : α → Option β} : overlay d m = d ↔ Covered m d := by
  constructor
  · intro h a ha
    have hd := congrFun h a
    unfold overlay at hd
    cases hda : d a with
    | some b => rfl
    | none =>
        rw [hda, Option.none_or] at hd
        rw [hd] at ha
        cases ha
  · intro h
    funext a
    unfold overlay
    cases hda : d a with
    | some b => rfl
    | none =>
        cases hma : m a with
        | none => rfl
        | some b =>
            have hd := h a (by rw [hma]; rfl)
            rw [hda] at hd
            cases hd

theorem overlay_of_none {d m : α → Option β} {a : α} (h : d a = none) : overlay d m a = m a := by
  simp [overlay, h]

theorem overlay_of_some {d m : α → Option β} {a : α} {b : β} (h : d a = some b) : overlay d m a = some b := by
  simp [overlay, h]

theorem overlay_eq_some {d m : α → Option β} {a : α} {b : β} (h : overlay d m a = some b) :
    d a = some b ∨ d a = none ∧ m a = some b := by
  cases hd : d a with
  | some c =>
      rw [overlay_of_some hd] at h
      exact Or.inl h
  | none =>
      rw [overlay_of_none hd] at h
      exact Or.inr ⟨rfl, h⟩

/-! ## Runs of rounds -/

/-- What is there after some rounds. -/
def after (m : α → Option β) (ds : List (α → Option β)) : α → Option β := ds.foldl (fun m d => overlay d m) m

/-- What each round finds when it is over. -/
def findings (m : α → Option β) : List (α → Option β) → List (α → Option β)
  | [] => []
  | d :: ds => overlay d m :: findings (overlay d m) ds

@[simp] theorem after_nil (m : α → Option β) : after m [] = m := rfl

@[simp] theorem after_cons (m d : α → Option β) (ds : List (α → Option β)) :
    after m (d :: ds) = after (overlay d m) ds := rfl

theorem after_append (m : α → Option β) (ds es : List (α → Option β)) :
    after m (ds ++ es) = after (after m ds) es := List.foldl_append

/-- Every round finds its own writes and no others exactly when each covers what the one before has written,
and the first covers what was there. -/
theorem findings_eq_iff (m : α → Option β) (ds : List (α → Option β)) :
    findings m ds = ds ↔ (m :: ds).IsChain Covered := by
  induction ds generalizing m with
  | nil => simp [findings]
  | cons d ds ih =>
      rw [findings, List.isChain_cons_cons, List.cons.injEq, overlay_eq_left_iff]
      refine and_congr_right fun hd => ?_
      rw [overlay_eq_left_iff.mpr hd, ih]

theorem after_congr {m m' : α → Option β} {ds : List (α → Option β)} {a : α} (h : m a = m' a) :
    after m ds a = after m' ds a := by
  induction ds generalizing m m' with
  | nil => exact h
  | cons d ds ih =>
      have hone : overlay d m a = overlay d m' a := by unfold overlay; rw [h]
      exact ih hone

/-- The same rounds once more change nothing. -/
theorem after_after (m : α → Option β) (ds : List (α → Option β)) : after (after m ds) ds = after m ds := by
  induction ds using List.reverseRecOn generalizing m with
  | nil => rfl
  | append_singleton ds d ih =>
      simp only [after_append, after_cons, after_nil]
      funext a
      cases hd : d a with
      | some b => rw [overlay_of_some hd, overlay_of_some hd]
      | none =>
          rw [overlay_of_none hd, overlay_of_none hd, ← congrFun (ih m) a]
          exact after_congr (overlay_of_none hd)

/-! ## Passes that may stop -/

section Pass

variable {ι : Type} (d : ι → α → Option β) (ok : ι → Prop) (good : α → β → Prop)

def AllGood (m : α → Option β) : Prop := ∀ a b, m a = some b → good a b

/-- A round that leaves `m` ends well: it is in order itself, and so is everything it finds. -/
def Ends (m : α → Option β) (i : ι) : Prop := ok i ∧ AllGood good m

/-- Every round of a pass ends well. -/
def Completes (m : α → Option β) : List ι → Prop
  | [] => True
  | i :: is => Ends ok good (overlay (d i) m) i ∧ Completes (overlay (d i) m) is

/-- The rounds that are begun: a pass stops behind the first that does not end well. -/
inductive Pass : (α → Option β) → List ι → List ι → Prop
  | nil {m} : Pass m [] []
  | stop {m i is} : ¬ Ends ok good (overlay (d i) m) i → Pass m (i :: is) [i]
  | next {m i is rs} : Ends ok good (overlay (d i) m) i → Pass (overlay (d i) m) is rs → Pass m (i :: is) (i :: rs)

variable {d ok good} {m : α → Option β} {i : ι} {is rs : List ι}

theorem allGood_overlay {e m : α → Option β} (he : AllGood good e) (hm : AllGood good m) :
    AllGood good (overlay e m) := by
  intro a b h
  rcases overlay_eq_some h with h | ⟨-, h⟩
  · exact he a b h
  · exact hm a b h

/-- A pass ends well when its rounds do by themselves and the first one finds nothing bad. -/
theorem completes_cons_iff : Completes d ok good m (i :: is) ↔
    (∀ j ∈ i :: is, ok j ∧ AllGood good (d j)) ∧ AllGood good (overlay (d i) m) := by
  induction is generalizing i m with
  | nil =>
      simp only [Completes, Ends, and_true, List.forall_mem_singleton]
      exact ⟨fun h => ⟨⟨h.1, fun a b hd => h.2 a b (overlay_of_some hd)⟩, h.2⟩, fun h => ⟨h.1.1, h.2⟩⟩
  | cons j js ih =>
      rw [Completes, ih, Ends]
      constructor
      · rintro ⟨⟨hi, hgood⟩, hrest, -⟩
        exact ⟨List.forall_mem_cons.mpr ⟨⟨hi, fun a b hd => hgood a b (overlay_of_some hd)⟩, hrest⟩, hgood⟩
      · rintro ⟨hall, hgood⟩
        obtain ⟨hi, hrest⟩ := List.forall_mem_cons.mp hall
        exact ⟨⟨hi.1, hgood⟩, hrest, allGood_overlay (hrest j (by simp)).2 hgood⟩

theorem completes_append (is js : List ι) : Completes d ok good m (is ++ js) ↔
    Completes d ok good m is ∧ Completes d ok good (after m (is.map d)) js := by
  induction is generalizing m with
  | nil => simp [Completes]
  | cons i is ih => simp only [List.cons_append, Completes, ih, List.map_cons, after_cons, and_assoc]

theorem Completes.allGood (h : Completes d ok good m is) (hne : is ≠ []) : AllGood good (after m (is.map d)) := by
  induction is generalizing m with
  | nil => exact absurd rfl hne
  | cons i is ih =>
      cases is with
      | nil => exact h.1.2
      | cons j js => exact ih h.2 (by simp)

theorem Pass.ne_nil (h : Pass d ok good m is rs) (hne : is ≠ []) : rs ≠ [] := by
  cases h with
  | nil => exact absurd rfl hne
  | stop _ => simp
  | next _ _ => simp

theorem Pass.subset (h : Pass d ok good m is rs) : rs ⊆ is := by
  induction h with
  | nil => simp
  | stop _ => simp
  | next _ _ ih => exact List.cons_subset_cons _ ih

/-- The rounds up to and including one that does not end well. -/
def StopsAt (d : ι → α → Option β) (ok : ι → Prop) (good : α → β → Prop) (m : α → Option β) (done : List ι)
    (i : ι) : Prop :=
  Completes d ok good m done ∧ ¬ Ends ok good (overlay (d i) (after m (done.map d))) i

theorem Pass.cases (h : Pass d ok good m is rs) : (rs = is ∧ Completes d ok good m is) ∨
    ∃ done i rest, is = done ++ i :: rest ∧ rs = done ++ [i] ∧ StopsAt d ok good m done i := by
  induction h with
  | nil => exact Or.inl ⟨rfl, trivial⟩
  | @stop m i is hstop => exact Or.inr ⟨[], i, is, rfl, rfl, trivial, hstop⟩
  | @next m i is rs hend _ ih =>
      rcases ih with ⟨rfl, hc⟩ | ⟨done, j, rest, rfl, rfl, hc, hstop⟩
      · exact Or.inl ⟨rfl, hend, hc⟩
      · exact Or.inr ⟨i :: done, j, rest, rfl, rfl, ⟨hend, hc⟩, hstop⟩

theorem Pass.of_completes (h : Completes d ok good m is) {js : List ι}
    (hp : Pass d ok good m (is ++ js) rs) : ∃ rs', rs = is ++ rs' ∧ Pass d ok good (after m (is.map d)) js rs' := by
  induction is generalizing m rs with
  | nil => exact ⟨rs, rfl, hp⟩
  | cons i is ih =>
      cases hp with
      | stop hstop => exact absurd h.1 hstop
      | next _ hp =>
          obtain ⟨rs', rfl, hp'⟩ := ih h.2 hp
          exact ⟨rs', rfl, hp'⟩

theorem Pass.of_stopsAt {done : List ι} (h : StopsAt d ok good m done i) {js : List ι}
    (hp : Pass d ok good m (done ++ i :: js) rs) : rs = done ++ [i] := by
  obtain ⟨rs', rfl, hp'⟩ := Pass.of_completes h.1 hp
  cases hp' with
  | stop _ => rfl
  | next hend _ => exact absurd hend h.2

theorem StopsAt.not_completes {done rest : List ι} (h : StopsAt d ok good m done i) :
    ¬ Completes d ok good m (done ++ i :: rest) :=
  fun hc => h.2 ((completes_append _ _).mp hc).2.1

/-! ## The same pass again -/

/-- A pass stops at a round, and what that round leaves behind does not stop the next pass earlier: the bad
values it writes are written again by the first round. -/
def StopsAlike (d : ι → α → Option β) (ok : ι → Prop) (good : α → β → Prop) (m : α → Option β) (is : List ι) : Prop :=
  ∃ done i rest, is = done ++ i :: rest ∧ StopsAt d ok good m done i ∧
    ∀ j ∈ done.head?, ∀ a b, d i a = some b → ¬ good a b → (d j a).isSome

theorem Completes.again (h : Completes d ok good m is) : Completes d ok good (after m (is.map d)) is := by
  cases is with
  | nil => trivial
  | cons i is =>
      have hall := (completes_cons_iff.mp h).1
      exact completes_cons_iff.mpr ⟨hall, allGood_overlay (hall i (by simp)).2 (h.allGood (by simp))⟩

theorem StopsAt.again {done : List ι} (h : StopsAt d ok good m done i)
    (hfirst : ∀ j ∈ done.head?, ∀ a b, d i a = some b → ¬ good a b → (d j a).isSome) :
    StopsAt d ok good (after m ((done ++ [i]).map d)) done i := by
  have hsnoc : ∀ m', after m' ((done ++ [i]).map d) = overlay (d i) (after m' (done.map d)) := by
    intro m'
    rw [List.map_append, after_append]
    rfl
  constructor
  · cases done with
    | nil => trivial
    | cons j done =>
        have hall := (completes_cons_iff.mp h.1).1
        refine completes_cons_iff.mpr ⟨hall, fun a b hab => ?_⟩
        rcases overlay_eq_some hab with hj | ⟨hnone, hm⟩
        · exact (hall j (by simp)).2 a b hj
        · rw [hsnoc] at hm
          rcases overlay_eq_some hm with hi | ⟨-, hm⟩
          · by_contra hbad
            have hsome := hfirst j rfl a b hi hbad
            rw [hnone] at hsome
            cases hsome
          · exact h.1.allGood (by simp) a b hm
  · rw [← hsnoc, after_after, hsnoc]
    exact h.2

/-- A second pass over a list that begins with the first begins the same rounds exactly when the first ends
well and the list is no longer, or both stop at the same round. -/
theorem second_pass_iff {is' rs' : List ι} (h : Pass d ok good m is rs)
    (h' : Pass d ok good (after m (rs.map d)) is' rs') (hpre : is <+: is') :
    rs' = rs ↔ (Completes d ok good m is ∧ is' = is) ∨ StopsAlike d ok good m is := by
  obtain ⟨js, rfl⟩ := hpre
  rcases h.cases with ⟨rfl, hc⟩ | ⟨done, i, rest, rfl, rfl, hstop⟩
  · obtain ⟨rs'', rfl, hp⟩ := h'.of_completes hc.again
    rw [List.append_right_eq_self, List.append_right_eq_self]
    constructor
    · rintro rfl
      refine Or.inl ⟨hc, ?_⟩
      cases hp
      rfl
    · rintro (⟨-, rfl⟩ | ⟨done, i, rest, rfl, hstop, -⟩)
      · cases hp
        rfl
      · exact absurd hc hstop.not_completes
  · rw [List.append_assoc, List.cons_append] at h'
    constructor
    · rintro rfl
      refine Or.inr ⟨done, i, rest, rfl, hstop, ?_⟩
      intro j hj a b hi hbad
      obtain ⟨done, rfl⟩ := List.head?_eq_some_iff.mp hj
      by_contra hnone
      rw [Option.not_isSome_iff_eq_none] at hnone
      have hstopj : StopsAt d ok good (after m ((j :: done ++ [i]).map d)) [] j := by
        refine ⟨trivial, fun hend => hbad (hend.2 a b ?_)⟩
        rw [List.map_nil, after_nil, overlay_of_none hnone, List.map_append, after_append]
        exact overlay_of_some hi
      have hlen := congrArg List.length (Pass.of_stopsAt hstopj h')
      simp at hlen
    · rintro (⟨hc, -⟩ | ⟨done', i', rest', heq, hstop', hfirst⟩)
      · exact absurd hc hstop.not_completes
      · have hsame : done' ++ [i'] = done ++ [i] := by
          rw [heq] at h
          exact (h.of_stopsAt hstop').symm
        obtain ⟨rfl, hi⟩ := List.append_inj' hsame rfl
        cases hi
        exact h'.of_stopsAt (hstop'.again hfirst)

end Pass

end Overlay
