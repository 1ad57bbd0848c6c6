import RcppDeepState.Library.Command
import RcppDeepState.Valgrind.Reader

/-!
# Rows without errors

With an expression that can be evaluated the frames, traces and rows of an error are functions of the tree.
-/

namespace RcppDeepState

/-- The expression can be evaluated below a node. -/
def SourceXPath.Evaluates (x : SourceXPath) (node : Xml) : Prop := ∃ found, x.find node = .ok found

/-- The nodes the expression finds below a node, each with its frame. -/
def SourceXPath.frames (x : SourceXPath) (node : Xml) : List (Xml × Xml) :=
  match x with
  | .dir src => (node.findPairs "dir").filter fun p => decide (src ∈ p.2.textChildren)
  | .quoted find => (find node).toOption.getD []
  | .file => (node.findPairs "file").filter fun p => decide (("src/" : Text) <:+: (p.2.textChildren.headD []))

/-- The place a frame names. -/
def frameTrace (frame : Xml) : Option Text :=
  match getString frame "file", getString frame "line" with
  | file :: _, line :: _ => some (file ++ " : " ++ line)
  | _, _ => none

/-- The place of the first frame found in a stack. -/
def firstTrace (x : SourceXPath) (stack : Xml) : Option Text := (x.frames stack).head?.bind fun p => frameTrace p.1

/-- Whoever has an `auxwhat` has one among its children. -/
def AuxIsChild (err : Xml) : Prop := err.findAll "auxwhat" ≠ [] → addressTrace err ≠ .na

instance (err : Xml) : Decidable (AuxIsChild err) := inferInstanceAs (Decidable (_ → _))

/-- A stack follows the first `auxwhat`. -/
def HasAuxStack (err : Xml) : Prop := err.findAll "auxwhat" ≠ [] ∧ addressTrace err = .stack

/-- The stacks of an error that are searched for rows: with a stack behind `auxwhat` all but the last one. -/
def searchedStacks (err : Xml) : List Xml :=
  match (err.findAll "auxwhat").head?, addressTrace err with
  | some _, .stack => (err.findAll "stack").dropLast
  | _, _ => err.findAll "stack"

def addressMsg (err : Xml) : Text :=
  match (err.findAll "auxwhat").head? with
  | none => noAddress
  | some aux => aux.textContent

/-- The trace of the last stack stands for that of the address. -/
def addressTraceOf (x : SourceXPath) (err : Xml) : Option Text :=
  match (err.findAll "auxwhat").head?, addressTrace err, (err.findAll "stack").getLast? with
  | some _, .stack, some last => firstTrace x last
  | _, _, _ => some noAddressTrace

def rowsOf (x : SourceXPath) (err : Xml) : List LogRow :=
  (searchedStacks err).flatMap fun stack =>
    match firstTrace x stack with
    | none => []
    | some ret => (errorMessages err).map fun msg =>
        ⟨(getString err "kind").head?, msg, ret, addressMsg err, addressTraceOf x err⟩

variable {x : SourceXPath} {err stack : Xml}

theorem evaluates_dir (src : Text) (node : Xml) : (SourceXPath.dir src).Evaluates node := ⟨_, rfl⟩

theorem SourceXPath.Evaluates.find_eq {node : Xml} (h : x.Evaluates node) : x.find node = .ok (x.frames node) := by
  obtain ⟨found, hfound⟩ := h
  cases x with
  | dir src => rfl
  | quoted find =>
    have hfind : find node = .ok found := hfound
    rw [hfound, frames, hfind]
    rfl
  | file => rfl

theorem stackTrace_of_evaluates (h : x.Evaluates stack) : stackTrace x stack = .ok (firstTrace x stack) := by
  unfold stackTrace firstTrace frameTrace
  rw [h.find_eq]
  cases hf : (x.frames stack).head? with
  | none => simp only [bind, Except.bind, hf, pure, Except.pure, Option.bind_none]
  | some p =>
      simp only [bind, Except.bind, hf, Option.bind]
      cases getString p.1 "file" with
      | nil => rfl
      | cons file _ =>
          cases getString p.1 "line" with
          | nil => rfl
          | cons line _ => rfl

theorem evaluates_of_stackTrace {t : Option Text} (h : stackTrace x stack = .ok t) : x.Evaluates stack := by
  unfold stackTrace at h
  cases hfind : x.find stack with
  | error e =>
      rw [hfind] at h
      cases h
  | ok found => exact ⟨found, hfind⟩

theorem errorAddress_of_evaluates (hx : ∀ stack ∈ err.findAll "stack", x.Evaluates stack) (ha : AuxIsChild err) :
    errorAddress x err = .ok (addressMsg err, addressTraceOf x err, searchedStacks err) := by
  unfold errorAddress addressMsg addressTraceOf searchedStacks
  cases haux : (err.findAll "auxwhat").head? with
  | none => rfl
  | some aux =>
      have hne : err.findAll "auxwhat" ≠ [] := by
        intro hnil
        rw [hnil] at haux
        cases haux
      cases htrace : addressTrace err with
      | na => exact absurd htrace (ha hne)
      | null => rfl
      | stack =>
          cases hlast : (err.findAll "stack").getLast? with
          | none =>
              rw [List.getLast?_eq_none_iff] at hlast
              rw [hlast]
              rfl
          | some last =>
              simp only [hlast, stackTrace_of_evaluates (hx last (List.mem_of_getLast? hlast))]
              rfl

theorem errorAddress_of_not_child (ha : ¬ AuxIsChild err) : ∃ e, errorAddress x err = .error e := by
  obtain ⟨hne, hna⟩ : err.findAll "auxwhat" ≠ [] ∧ addressTrace err = .na := by
    simpa [AuxIsChild] using ha
  unfold errorAddress
  cases haux : (err.findAll "auxwhat").head? with
  | none => exact absurd (List.head?_eq_none_iff.mp haux) hne
  | some aux =>
      rw [hna]
      exact ⟨_, rfl⟩

theorem searchedStacks_subset (err : Xml) : searchedStacks err ⊆ err.findAll "stack" := by
  unfold searchedStacks
  split
  · exact List.dropLast_subset _
  · exact List.Subset.refl _

theorem errorRows_of_evaluates (hx : ∀ stack ∈ err.findAll "stack", x.Evaluates stack) (ha : AuxIsChild err) :
    errorRows x err = .ok (rowsOf x err) := by
  unfold errorRows rowsOf
  rw [errorAddress_of_evaluates hx ha]
  have hrows (stack : Xml) (hs : stack ∈ searchedStacks err) :
      stackRows x err (addressMsg err) (addressTraceOf x err) stack = .ok
      (match firstTrace x stack with
        | none => []
        | some ret => (errorMessages err).map fun msg =>
            ⟨(getString err "kind").head?, msg, ret, addressMsg err, addressTraceOf x err⟩) := by
    unfold stackRows
    rw [stackTrace_of_evaluates (hx stack (searchedStacks_subset err hs))]
    cases firstTrace x stack with
    | none => rfl
    | some ret => rfl
  have hall := Command.mapM_eq_map hrows
  simp only [bind, Except.bind, hall, pure, Except.pure, List.flatMap]

/-- The stacks that are left are all of them, or all but the last one, whose trace is that of the address. -/
theorem errorAddress_nodes {address : Text} {trace : Option Text} {nodes : List Xml}
    (h : errorAddress x err = .ok (address, trace, nodes)) : nodes = err.findAll "stack" ∨
      ∃ last, err.findAll "stack" = nodes ++ [last] ∧ stackTrace x last = .ok trace := by
  unfold errorAddress at h
  dsimp only at h
  cases haux : (err.findAll "auxwhat").head? with
  | none =>
      rw [haux] at h
      cases h
      exact Or.inl rfl
  | some aux =>
      rw [haux] at h
      cases htrace : addressTrace err with
      | na =>
          rw [htrace] at h
          cases h
      | null =>
          rw [htrace] at h
          cases h
          exact Or.inl rfl
      | stack =>
          rw [htrace] at h
          cases hlast : (err.findAll "stack").getLast? with
          | none =>
              rw [hlast] at h
              cases h
              exact Or.inl rfl
          | some last =>
              rw [hlast] at h
              cases hst : stackTrace x last with
              | error e => simp [hst, bind, Except.bind] at h
              | ok t =>
                  simp only [hst, bind, Except.bind, pure, Except.pure, Except.ok.injEq, Prod.mk.injEq] at h
                  obtain ⟨-, rfl, rfl⟩ := h
                  exact Or.inr ⟨last, (List.dropLast_append_getLast? last hlast).symm, hst⟩

/-- An expression that cannot be evaluated fails at its stack. -/
theorem evaluates_of_errorRows {rows : List LogRow} (h : errorRows x err = .ok rows) :
    ∀ stack ∈ err.findAll "stack", x.Evaluates stack := by
  unfold errorRows at h
  cases hadd : errorAddress x err with
  | error e =>
      rw [hadd] at h
      cases h
  | ok found =>
      obtain ⟨address, trace, nodes⟩ := found
      rw [hadd] at h
      have hnodes : ∀ stack ∈ nodes, x.Evaluates stack := by
        intro stack hs
        cases hall : nodes.mapM (stackRows x err address trace) with
        | error e => simp [hall, bind, Except.bind] at h
        | ok rss =>
            obtain ⟨rows, -, hrows⟩ := Command.exists_of_mem_left (Command.mapM_eq_ok.mp hall) hs
            unfold stackRows at hrows
            cases htrace : stackTrace x stack with
            | error e => simp [htrace, bind, Except.bind] at hrows
            | ok t => exact evaluates_of_stackTrace htrace
      rcases errorAddress_nodes hadd with rfl | ⟨last, hstacks, hlast⟩
      · exact hnodes
      · intro stack hs
        rw [hstacks, List.mem_append, List.mem_singleton] at hs
        rcases hs with hs | rfl
        · exact hnodes stack hs
        · exact evaluates_of_stackTrace hlast

theorem searchedStacks_of_hasAuxStack (h : HasAuxStack err) :
    searchedStacks err = (err.findAll "stack").dropLast := by
  obtain ⟨aux, haux⟩ := Option.ne_none_iff_exists'.mp (mt List.head?_eq_none_iff.mp h.1)
  simp only [searchedStacks, haux, h.2]

theorem searchedStacks_of_not_hasAuxStack (h : ¬ HasAuxStack err) : searchedStacks err = err.findAll "stack" := by
  unfold searchedStacks
  split
  · rename_i aux haux htrace
    have hne : err.findAll "auxwhat" ≠ [] := fun hnil => by
      rw [hnil] at haux
      cases haux
    exact absurd ⟨hne, htrace⟩ h
  · rfl

theorem addressTraceOf_of_hasAuxStack (h : HasAuxStack err) {last : Xml}
    (hlast : (err.findAll "stack").getLast? = some last) : addressTraceOf x err = firstTrace x last := by
  obtain ⟨aux, haux⟩ := Option.ne_none_iff_exists'.mp (mt List.head?_eq_none_iff.mp h.1)
  simp only [addressTraceOf, haux, h.2, hlast]

theorem addressTraceOf_of_not_hasAuxStack (h : ¬ HasAuxStack err) : addressTraceOf x err = some noAddressTrace := by
  unfold addressTraceOf
  split
  · rename_i aux last haux htrace hlast
    have hne : err.findAll "auxwhat" ≠ [] := fun hnil => by
      rw [hnil] at haux
      cases haux
    exact absurd ⟨hne, htrace⟩ h
  · rfl

theorem errorMessages_ne_nil (err : Xml) : errorMessages err ≠ [] := by
  have hne (texts : List Text) : (if texts = [] then [none] else texts.map some) ≠ [] := by
    split
    · exact List.cons_ne_nil _ _
    · rename_i h
      simpa using h
  exact hne _

/-- An error gives a row exactly when one of the stacks that are searched has a place. -/
theorem rowsOf_eq_nil_iff : rowsOf x err = [] ↔ ∀ stack ∈ searchedStacks err, firstTrace x stack = none := by
  rw [rowsOf, List.flatMap_eq_nil_iff]
  refine forall₂_congr fun stack _ => ?_
  cases firstTrace x stack with
  | none => simp
  | some ret => simp [errorMessages_ne_nil]

end RcppDeepState
