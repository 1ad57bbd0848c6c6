import RcppDeepState.Valgrind.Lemmas.Rows

/-!
# Rows of a changed log

The rows of an error stay when the texts of a log change outside what a row quotes, as long as the expression
of the new log gives every stack the place that the one of the old log has given it.
-/

namespace RcppDeepState

/-- The elements a row quotes. -/
def quotedNames : List Text := ["kind", "what", "xwhat", "auxwhat", "file", "line"]

/-- What a row quotes does not change. -/
def KeepsQuoted (f : Text → Text → Text) (tree : Xml) : Prop :=
  ∀ n ∈ quotedNames, ∀ e ∈ tree.findAll n, e.mapText f [] = e

/-- The expression of the new log gives the places of the old one, and fails where that one fails. -/
def Follows (f : Text → Text → Text) (tree : Xml) (x x' : SourceXPath) : Prop :=
  ∀ stack ∈ tree.findAll "stack", stackTrace x' (stack.mapText f []) = stackTrace x stack

variable {f : Text → Text → Text} {tree err stack : Xml} {x x' : SourceXPath}

theorem getString_mapText {node : Xml} {n m : Text}
    (h : ∀ c ∈ node.children, c.name? = some n → c.mapText f [] = c) :
    getString (node.mapText f m) n = getString node n := by
  unfold getString
  rw [Xml.child?_mapText]
  cases hc : node.child? n with
  | none => rfl
  | some c =>
      have hn : c.name? = some n := by simpa using List.find?_some hc
      rw [Option.map_some, h c (List.mem_of_find?_eq_some hc) hn]

theorem filter_findPairs_subset (n : Text) (p : Xml × Xml → Bool) : (stack.findPairs n).filter p ⊆ stack.pairs :=
  fun _ hpr => (List.mem_filter.mp (List.mem_filter.mp hpr).1).1

theorem KeepsQuoted.of_mem_findAll {n : Text} (hq : KeepsQuoted f tree) (h : err ∈ tree.findAll n) :
    KeepsQuoted f err :=
  fun m hm e he => hq m hm e (Xml.mem_findAll_trans h he)

theorem KeepsQuoted.getString {n m : Text} (hq : KeepsQuoted f err) (hn : n ∈ quotedNames) :
    getString (err.mapText f m) n = getString err n :=
  getString_mapText fun c hc hname => hq n hn c (Xml.mem_findAll_of_mem_children hc hname)

/-- The file and the line of a frame stay. -/
theorem KeepsQuoted.getString_frame {n m : Text} {frame node : Xml} (hq : KeepsQuoted f stack)
    (hframe : (frame, node) ∈ stack.pairs) (hn : n ∈ quotedNames) :
    RcppDeepState.getString (frame.mapText f m) n = RcppDeepState.getString frame n := by
  apply getString_mapText
  intro c hc hname
  have hpair : (frame, c) ∈ stack.pairs := Xml.children_mem_pairs stack _ hframe c hc
  exact hq n hn c (Xml.mem_findAll.mpr ⟨⟨frame, hpair⟩, hname⟩)

theorem KeepsQuoted.findAll {n m : Text} (hq : KeepsQuoted f err) (hn : n ∈ quotedNames) :
    (err.mapText f m).findAll n = err.findAll n := by
  rw [Xml.findAll_mapText]
  have hsame : ∀ e ∈ err.findAll n, e.mapText f [] = e := hq n hn
  rw [List.map_congr_left hsame, List.map_id']

/-- The frames of the new log are those of the old one, so they name the same places. -/
theorem stackTrace_mapText (hq : KeepsQuoted f stack) {found : List (Xml × Xml)} (hfound : x.find stack = .ok found)
    (hsub : found ⊆ stack.pairs) (hx : x'.find (stack.mapText f []) = .ok (found.map (Xml.mapPair f))) :
    stackTrace x' (stack.mapText f []) = stackTrace x stack := by
  unfold stackTrace
  rw [hx, hfound]
  cases found with
  | nil => rfl
  | cons pr found =>
      have hpr : (pr.1, pr.2) ∈ stack.pairs := hsub List.mem_cons_self
      have hfile := hq.getString_frame (m := []) hpr (n := "file") (by simp [quotedNames])
      have hline := hq.getString_frame (m := []) hpr (n := "line") (by simp [quotedNames])
      simp only [List.map_cons, bind, Except.bind, List.head?_cons, Xml.mapPair, hfile, hline]

theorem addressTrace_mapText {m : Text} : addressTrace (err.mapText f m) = addressTrace err := by
  have hnames : (err.mapText f m).children.map Xml.name? = err.children.map Xml.name? := by
    rw [Xml.children_mapText, List.map_map]
    exact List.map_congr_left fun c _ => Xml.name?_mapText c
  unfold addressTrace
  rw [hnames]

theorem errorMessages_mapText {m : Text} (hq : KeepsQuoted f err) :
    errorMessages (err.mapText f m) = errorMessages err := by
  unfold errorMessages
  rw [hq.getString (by simp [quotedNames]), hq.findAll (by simp [quotedNames]), hq.getString (by simp [quotedNames])]

/-- The stacks that are searched are stacks of the error. -/
theorem errorAddress_subset {address : Text} {trace : Option Text} {nodes : List Xml}
    (h : errorAddress x err = .ok (address, trace, nodes)) : nodes ⊆ err.findAll "stack" := by
  rcases errorAddress_nodes h with rfl | ⟨last, hstacks, -⟩
  · exact List.Subset.refl _
  · rw [hstacks]
    exact List.subset_append_left _ _

section Errors

variable (hq : KeepsQuoted f tree) (hx : Follows f tree x x') (he : err ∈ tree.findAll "error")
include hq hx he

theorem errorAddress_mapText : errorAddress x' (err.mapText f []) =
    (errorAddress x err).map fun r => (r.1, r.2.1, r.2.2.map (Xml.mapText f [])) := by
  have haux : (err.mapText f []).findAll "auxwhat" = err.findAll "auxwhat" :=
    (hq.of_mem_findAll he).findAll (by simp [quotedNames])
  unfold errorAddress
  dsimp only
  rw [haux, addressTrace_mapText, Xml.findAll_mapText, List.getLast?_map]
  cases (err.findAll "auxwhat").head? with
  | none => rfl
  | some aux =>
      cases addressTrace err with
      | na => rfl
      | null => rfl
      | stack =>
          cases hlast : (err.findAll "stack").getLast? with
          | none => rfl
          | some last =>
              have hmem : last ∈ tree.findAll "stack" := Xml.mem_findAll_trans he (List.mem_of_getLast? hlast)
              simp only [Option.map_some, hx last hmem]
              cases stackTrace x last with
              | error e => rfl
              | ok trace => simp [bind, Except.bind, pure, Except.pure, Except.map, List.map_dropLast]

theorem stackRows_mapText {address : Text} {trace : Option Text} (hs : stack ∈ err.findAll "stack") :
    stackRows x' (err.mapText f []) address trace (stack.mapText f []) = stackRows x err address trace stack := by
  have hkind : getString (err.mapText f []) "kind" = getString err "kind" :=
    (hq.of_mem_findAll he).getString (by simp [quotedNames])
  unfold stackRows
  rw [hx stack (Xml.mem_findAll_trans he hs), errorMessages_mapText (hq.of_mem_findAll he), hkind]

theorem errorRows_mapText : errorRows x' (err.mapText f []) = errorRows x err := by
  unfold errorRows
  rw [errorAddress_mapText hq hx he]
  cases hadd : errorAddress x err with
  | error e => rfl
  | ok r =>
      obtain ⟨address, trace, nodes⟩ := r
      have hsame : (nodes.map (Xml.mapText f [])).mapM (stackRows x' (err.mapText f []) address trace) =
          nodes.mapM (stackRows x err address trace) := by
        rw [List.mapM_map]
        exact Command.mapM_congr fun stack hs => stackRows_mapText hq hx he (errorAddress_subset hadd hs)
      simp only [Except.map, bind, Except.bind, hsame]

end Errors

/-- The rows of all errors stay. -/
theorem mapM_errorRows_mapText (hq : KeepsQuoted f tree) (hx : Follows f tree x x') :
    ((tree.mapText f []).findAll "error").mapM (errorRows x') = (tree.findAll "error").mapM (errorRows x) := by
  rw [Xml.findAll_mapText, List.mapM_map]
  exact Command.mapM_congr fun err he => errorRows_mapText hq hx he

end RcppDeepState
