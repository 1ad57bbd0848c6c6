import Mathlib.Data.List.Nodup

/-!
# Lists up to repeated elements

Two lists with the same first occurrences in the same order. The parts of a list that can be told apart by a key
can be compared one by one.
-/

namespace Dedup

section Lists

variable {α β : Type} [DecidableEq β]

theorem eraseDups_filter (p : β → Bool) (l : List β) : (l.filter p).eraseDups = l.eraseDups.filter p := by
  induction hl : l.length using Nat.strongRecOn generalizing l with
  | ind n ih =>
      cases l with
      | nil => rfl
      | cons b l =>
          have hlen : (l.filter fun c => !c == b).length < n := by
            rw [← hl]
            exact Nat.lt_succ_of_le (List.length_filter_le _ _)
          rw [List.eraseDups_cons, List.filter_cons, List.filter_cons, ← ih _ hlen _ rfl, List.filter_filter]
          cases hb : p b with
          | true =>
              rw [if_pos rfl, if_pos rfl, List.eraseDups_cons, List.filter_filter]
              simp only [Bool.and_comm]
          | false =>
              rw [if_neg Bool.false_ne_true, if_neg Bool.false_ne_true]
              congr 1
              refine List.filter_congr fun c _ => ?_
              by_cases hc : c = b <;> simp [hc, hb]

theorem eraseDups_eq_nil_iff {l : List β} : l.eraseDups = [] ↔ l = [] := by
  cases l with
  | nil => simp
  | cons b l => simp [List.eraseDups_cons]

theorem eraseDups_cons_of_forall_eq {b : β} {l : List β} (h : ∀ c ∈ l, c = b) : (b :: l).eraseDups = [b] := by
  have hnil : (l.filter fun c => !c == b) = [] := by
    rw [List.filter_eq_nil_iff]
    intro c hc
    simp [h c hc]
  rw [List.eraseDups_cons, hnil]
  rfl

theorem eraseDups_append_congr {l l' m m' : List β} (hl : l.eraseDups = l'.eraseDups)
    (hm : m.eraseDups = m'.eraseDups) : (l ++ m).eraseDups = (l' ++ m').eraseDups := by
  have hmem : ∀ b, b ∈ l ↔ b ∈ l' := fun b => by rw [← List.mem_eraseDups, hl, List.mem_eraseDups]
  have hrest : (m.removeAll l).eraseDups = (m'.removeAll l').eraseDups := by
    rw [List.removeAll, List.removeAll, eraseDups_filter, eraseDups_filter, hm]
    exact List.filter_congr fun b _ => by simp [hmem b]
  rw [List.eraseDups_append, List.eraseDups_append, hl, hrest]

/-- Parts that agree make lists that agree. -/
theorem eraseDups_flatMap_congr {f g : α → List β} {xs : List α} (h : ∀ x ∈ xs, (f x).eraseDups = (g x).eraseDups) :
    (xs.flatMap f).eraseDups = (xs.flatMap g).eraseDups := by
  induction xs with
  | nil => rfl
  | cons x xs ih =>
      rw [List.flatMap_cons, List.flatMap_cons]
      exact eraseDups_append_congr (h x (by simp)) (ih fun y hy => h y (by simp [hy]))

end Lists

section Keys

variable {α β κ : Type} [DecidableEq κ] {f g : α → List β} {key : β → κ} {keyOf : α → κ} {xs : List α}

/-- The part with the key of `x`. -/
theorem filter_flatMap_key (hkey : ∀ x ∈ xs, ∀ b ∈ f x, key b = keyOf x) (hnodup : (xs.map keyOf).Nodup)
    {x : α} (hx : x ∈ xs) : (xs.flatMap f).filter (fun b => key b = keyOf x) = f x := by
  induction xs with
  | nil => cases hx
  | cons y xs ih =>
      rw [List.map_cons, List.nodup_cons] at hnodup
      rw [List.flatMap_cons, List.filter_append]
      have hrest : ∀ z ∈ xs, ∀ b ∈ f z, key b = keyOf z := fun z hz => hkey z (by simp [hz])
      cases List.mem_cons.mp hx with
      | inl heq =>
          subst heq
          have hall : (f x).filter (fun b => key b = keyOf x) = f x := by
            rw [List.filter_eq_self]
            exact fun b hb => decide_eq_true (hkey x (by simp) b hb)
          have hnone : (xs.flatMap f).filter (fun b => key b = keyOf x) = [] := by
            rw [List.filter_eq_nil_iff]
            intro b hb heq
            obtain ⟨z, hz, hbz⟩ := List.mem_flatMap.mp hb
            rw [decide_eq_true_eq, hrest z hz b hbz] at heq
            exact hnodup.1 (List.mem_map.mpr ⟨z, hz, heq⟩)
          rw [hall, hnone, List.append_nil]
      | inr hmem =>
          have hnone : (f y).filter (fun b => key b = keyOf x) = [] := by
            rw [List.filter_eq_nil_iff]
            intro b hb heq
            rw [decide_eq_true_eq, hkey y (by simp) b hb] at heq
            exact hnodup.1 (List.mem_map.mpr ⟨x, hmem, heq.symm⟩)
          rw [hnone, List.nil_append, ih hrest hnodup.2 hmem]

/-- Where no key comes twice, lists that agree have parts that agree. -/
theorem eraseDups_of_flatMap [DecidableEq β] (hf : ∀ x ∈ xs, ∀ b ∈ f x, key b = keyOf x)
    (hg : ∀ x ∈ xs, ∀ b ∈ g x, key b = keyOf x) (hnodup : (xs.map keyOf).Nodup)
    (h : (xs.flatMap f).eraseDups = (xs.flatMap g).eraseDups) : ∀ x ∈ xs, (f x).eraseDups = (g x).eraseDups := by
  intro x hx
  rw [← filter_flatMap_key hf hnodup hx, ← filter_flatMap_key hg hnodup hx, eraseDups_filter, eraseDups_filter, h]

end Keys

end Dedup
