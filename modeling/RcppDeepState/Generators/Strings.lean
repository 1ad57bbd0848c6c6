import RcppDeepState.Generators.Coverage
import RcppDeepState.Generators.SymbolicRange

/-!
# Strings and choices

`OneOf` of functions calls one of them, and the strings a harness draws consist of the letters that are allowed.
-/

namespace RcppDeepState

open IntType

/-! ## Choices -/

/-- `NoSwarmOneOf` of functions, for the raw draw `x` of the index. A value that is not symbolic is returned by
`Pump` as it is. -/
def noSwarmOneOf {α : Type} (funcs : List α) (x : uint32Type.Value) : Except Fault α := do
  let index ← deepStateUIntInRange (uint32Type.convert 0) (uint32Type.convert (funcs.length - 1)) x
  match funcs[index.val.toNat]? with
  | some f => .ok f
  | none => .error .outOfBounds

/-- Outside of memory only when there is no function to call. -/
theorem noSwarmOneOf_mem {α : Type} {funcs : List α} (hne : funcs ≠ []) (hlen : funcs.length < 2 ^ 32)
    (x : uint32Type.Value) : ∃ f ∈ funcs, noSwarmOneOf funcs x = .ok f := by
  have hpos := List.length_pos_iff.mpr hne
  have hbounds : uint32Type.min = 0 ∧ uint32Type.max = 2 ^ 32 - 1 := by decide
  have hzero : (uint32Type.convert 0).val = 0 := wrap_of_fits ⟨by omega, by omega⟩
  have hlast : (uint32Type.convert (funcs.length - 1)).val = funcs.length - 1 := wrap_of_fits ⟨by omega, by omega⟩
  obtain ⟨v, hv, hbot, htop, _⟩ :=
    (symbolicRange_between uint32Type (uint32Type.convert 0) (uint32Type.convert (funcs.length - 1)) x).1
  have hlt : v.val.toNat < funcs.length := by omega
  refine ⟨funcs[v.val.toNat], List.getElem_mem hlt, ?_⟩
  unfold noSwarmOneOf deepStateUIntInRange
  rw [hv]
  simp [bind, Except.bind, List.getElem?_eq_getElem hlt]

/-! ## Strings -/

def letters : Text := "abcdefghijklmnopqrstuvwxyz"

/-- What `DeepState_CStr_C` returns for a length and the allowed characters, at each of its calls. -/
abbrev CStr := ℕ → Text → ℕ → Text

/-- The string has the length that is asked for, and only allowed characters. -/
def CStr.Allowed (cStr : CStr) : Prop :=
  ∀ len allowed call, allowed ≠ [] → (cStr len allowed call).length = len ∧ ∀ c ∈ cStr len allowed call, c ∈ allowed

/-- `DeepState_NoSwarmCStrUpToLen`, for the raw draw `x` of the length. -/
def noSwarmCStrUpToLen (cStr : CStr) (maxLen : ℕ) (allowed : Text) (x : uint32Type.Value) (call : ℕ) :
    Except Fault Text := do
  let len ← deepStateUIntInRange (uint32Type.convert 0) (uint32Type.convert maxLen) x
  return cStr len.val.toNat allowed call

/-- The raw draws of a character vector. -/
structure TextDraws where
  size : BitVec 32
  choice : ℕ → uint32Type.Value
  length : ℕ → uint32Type.Value

/-- The element that `OneOf` assigns at `i`. -/
def characterElement (cStr : CStr) (d : TextDraws) (i : ℕ) : Except Fault CharSxp := do
  let f ← noSwarmOneOf
    [Except.ok (CharSxp.string (cStr 20 letters i)),
      (noSwarmCStrUpToLen cStr 20 letters (d.length i) i).map CharSxp.string,
      .ok CharSxp.na] (d.choice i)
  f

/-- `RcppDeepState_CharacterVector` from its raw draws. -/
def characterVectorOf (cStr : CStr) (d : TextDraws) : Except Fault (Cells CharSxp) := do
  let size ← deepStateIntInRange 0 100 d.size
  fill size (characterElement cStr d) (allocate size.toInt.toNat)

def rcppDeepStateString (cStr : CStr) (x : uint32Type.Value) (call : ℕ) : Except Fault Text :=
  noSwarmCStrUpToLen cStr 50 letters x call

/-- A text of at most `n` letters. -/
def LettersUpTo (n : ℕ) (s : Text) : Prop := s.length ≤ n ∧ ∀ c ∈ s, c ∈ letters

theorem letters_ne_nil : letters ≠ [] := by with_unfolding_all decide

theorem noSwarmCStrUpToLen_letters {cStr : CStr} (hallowed : cStr.Allowed) {maxLen : ℕ} (hmax : maxLen < 2 ^ 32)
    (x : uint32Type.Value) (call : ℕ) :
    ∃ s, noSwarmCStrUpToLen cStr maxLen letters x call = .ok s ∧ LettersUpTo maxLen s := by
  have hbounds : uint32Type.min = 0 ∧ uint32Type.max = 2 ^ 32 - 1 := by decide
  have hzero : (uint32Type.convert 0).val = 0 := wrap_of_fits ⟨by omega, by omega⟩
  have hlast : (uint32Type.convert maxLen).val = maxLen := wrap_of_fits ⟨by omega, by omega⟩
  obtain ⟨v, hv, hbot, htop, _⟩ :=
    (symbolicRange_between uint32Type (uint32Type.convert 0) (uint32Type.convert maxLen) x).1
  obtain ⟨hlen, hmem⟩ := hallowed v.val.toNat letters call letters_ne_nil
  refine ⟨cStr v.val.toNat letters call, ?_, by omega, hmem⟩
  unfold noSwarmCStrUpToLen deepStateUIntInRange
  rw [hv]
  rfl

/-- Each element is one of the three, with a text of at most twenty letters for the second. -/
theorem characterElement_choice {cStr : CStr} (hallowed : cStr.Allowed) (d : TextDraws) (i : ℕ) :
    ∃ (choice : Fin 3) (upToLen : Text), LettersUpTo 20 upToLen ∧ characterElement cStr d i =
      .ok (match choice with
        | 0 => .string (cStr 20 letters i)
        | 1 => .string upToLen
        | 2 => .na) := by
  obtain ⟨s, hs, hletters⟩ := noSwarmCStrUpToLen_letters hallowed (show 20 < 2 ^ 32 by decide) (d.length i) i
  obtain ⟨f, hf, hpick⟩ := @noSwarmOneOf_mem (Except Fault CharSxp)
    [.ok (.string (cStr 20 letters i)), (noSwarmCStrUpToLen cStr 20 letters (d.length i) i).map .string, .ok .na]
    (by simp) (show 3 < 2 ^ 32 by decide) (d.choice i)
  unfold characterElement
  rw [hpick]
  simp only [List.mem_cons, List.not_mem_nil, or_false] at hf
  rcases hf with rfl | rfl | rfl
  · exact ⟨0, s, hletters, rfl⟩
  · exact ⟨1, s, hletters, by rw [hs]; rfl⟩
  · exact ⟨2, s, hletters, rfl⟩

/-- The vector is the one that is filled by its choices. -/
theorem characterVectorOf_eq {cStr : CStr} (hallowed : cStr.Allowed) (d : TextDraws) :
    ∃ (choice : ℕ → Fin 3) (upToLen : ℕ → Text), (∀ i, LettersUpTo 20 (upToLen i)) ∧
      characterVectorOf cStr d = rcppDeepStateCharacterVector d.size choice (cStr 20 letters) upToLen := by
  choose choice upToLen hletters helement using characterElement_choice hallowed d
  refine ⟨choice, upToLen, hletters, ?_⟩
  exact congrArg (fun element => do
    let size ← deepStateIntInRange 0 100 d.size
    fill size element (allocate size.toInt.toNat)) (funext helement)

/-- An element of a drawn character vector. -/
def DrawnText : CharSxp → Prop
  | .string s => LettersUpTo 20 s
  | .na => True

/-- For all draws a character vector has at most 100 elements, and each of them is missing or a text of at most
twenty letters; a drawn string has at most fifty letters. -/
theorem strings_drawn {cStr : CStr} (hallowed : cStr.Allowed) :
    (∀ d : TextDraws, ∃ c, characterVectorOf cStr d = .ok c ∧ c.length ≤ 100 ∧
      ∀ cell ∈ c, ∃ v, cell = some v ∧ DrawnText v) ∧
      ∀ x call, ∃ s, rcppDeepStateString cStr x call = .ok s ∧ LettersUpTo 50 s := by
  refine ⟨fun d => ?_, fun x call => noSwarmCStrUpToLen_letters hallowed (by decide) x call⟩
  obtain ⟨choice, upToLen, hletters, heq⟩ := characterVectorOf_eq hallowed d
  have hbounds := drawn_bounds 0 100 d.size
  have hsize : 0 ≤ (drawn 0 100 d.size).toInt := drawn_nonneg (by decide) (by decide) d.size
  rw [heq]
  simp only [rcppDeepStateCharacterVector, deepStateIntInRange_eq_drawn, bind, Except.bind]
  rw [fill_eq (fun _ => rfl) (by simp [allocate])]
  refine ⟨_, rfl, ?_, fun cell hcell => ?_⟩
  · have htop : (drawn 0 100 d.size).toInt ≤ 100 := by simpa using hbounds.2
    rw [length_writes, allocate, List.length_replicate]
    omega
  · obtain ⟨j, hj⟩ := List.mem_iff_getElem?.mp hcell
    have hlt : j < (drawn 0 100 d.size).toInt.toNat := by
      have hlen := (List.getElem?_eq_some_iff.mp hj).1
      simpa [allocate] using hlen
    rw [getElem?_writes _ _ _ (by simpa [allocate] using hlt), lastWrite_id, if_pos hlt] at hj
    cases hj
    refine ⟨_, rfl, ?_⟩
    obtain ⟨hlen, hmem⟩ := hallowed 20 letters j letters_ne_nil
    have hchoices : ∀ k : Fin 3, k = 0 ∨ k = 1 ∨ k = 2 := by decide
    rcases hchoices (choice j) with h | h | h
    · rw [h]
      exact ⟨by omega, hmem⟩
    · rw [h]
      exact hletters j
    · rw [h]
      trivial

/-- Repeats the first allowed character. -/
def repeatFirst : CStr := fun len allowed _ => List.replicate len (allowed.headD 'a')

theorem repeatFirst_allowed : repeatFirst.Allowed := by
  intro len allowed call hne
  refine ⟨List.length_replicate, fun c hc => ?_⟩
  rw [List.eq_of_mem_replicate hc]
  cases allowed with
  | nil => exact absurd rfl hne
  | cons first rest => exact List.mem_cons_self

/-- A vector of three elements, of which `OneOf` fills the second with a shorter text and the third with NA. -/
def threeTexts : TextDraws where
  size := 3
  choice i := uint32Type.convert i
  length _ := uint32Type.convert 7

theorem strings_drawn_repeatFirst :
    (∃ c, characterVectorOf repeatFirst threeTexts = .ok c ∧ c.length ≤ 100 ∧
      ∀ cell ∈ c, ∃ v, cell = some v ∧ DrawnText v) ∧
      ∃ s, rcppDeepStateString repeatFirst (uint32Type.convert 7) 0 = .ok s ∧ LettersUpTo 50 s :=
  ⟨(strings_drawn repeatFirst_allowed).1 threeTexts,
    (strings_drawn repeatFirst_allowed).2 (uint32Type.convert 7) 0⟩

end RcppDeepState
