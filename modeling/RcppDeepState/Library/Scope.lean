import Mathlib.Data.Option.Basic

/-!
# Lexical scopes

A name means what the innermost scope that binds it says.
-/

namespace Scope

variable {ν α : Type}

/-- The bindings of one scope. -/
abbrev Frame (ν α : Type) := ν → Option α

/-- Look a name up in scopes that are nested, the innermost first. -/
def resolve : List (Frame ν α) → Frame ν α
  | [], _ => none
  | f :: fs, x => (f x).or (resolve fs x)

/-- No scope binds the name. -/
def Free (fs : List (Frame ν α)) (x : ν) : Prop := ∀ f ∈ fs, f x = none

theorem resolve_append (fs gs : List (Frame ν α)) (x : ν) :
    resolve (fs ++ gs) x = (resolve fs x).or (resolve gs x) := by
  induction fs with
  | nil => rfl
  | cons f fs ih => rw [List.cons_append, resolve, ih, resolve, Option.or_assoc]

theorem resolve_of_free {fs : List (Frame ν α)} {x : ν} (h : Free fs x) : resolve fs x = none := by
  induction fs with
  | nil => rfl
  | cons f fs ih =>
    rw [resolve, h f (by simp), Option.none_or]
    exact ih fun g hg => h g (by simp [hg])

/-- A name that the inner scopes bind means the same whatever is around them. -/
theorem resolve_append_of_bound {fs : List (Frame ν α)} {x : ν} (h : (resolve fs x).isSome)
    (gs gs' : List (Frame ν α)) : resolve (fs ++ gs) x = resolve (fs ++ gs') x := by
  obtain ⟨a, ha⟩ := Option.isSome_iff_exists.mp h
  rw [resolve_append, resolve_append, ha]
  rfl

/-- A name that the inner scopes do not bind means what it means around them. -/
theorem resolve_append_of_free {fs : List (Frame ν α)} {x : ν} (h : Free fs x) (gs : List (Frame ν α)) :
    resolve (fs ++ gs) x = resolve gs x := by
  rw [resolve_append, resolve_of_free h, Option.none_or]

/-! ## Scopes as lists of bindings -/

variable [DecidableEq ν]

def ofList (bindings : List (ν × α)) : Frame ν α := fun x => bindings.lookup x

theorem ofList_eq_none {bindings : List (ν × α)} {x : ν} :
    ofList bindings x = none ↔ x ∉ bindings.map (·.1) := by
  rw [ofList, List.lookup_eq_none_iff]
  constructor
  · intro h hx
    obtain ⟨b, hb, rfl⟩ := List.mem_map.mp hx
    simpa using h b hb
  · intro h b hb
    have hne : x ≠ b.1 := fun he => h (he ▸ List.mem_map_of_mem hb)
    simpa using hne

end Scope
