import RcppDeepState.Valgrind.Lemmas.Rows

/-!
# The errors of memcheck

An error has one primary stack, and behind it texts on the address, each of which may have a stack of its own. The rows
of such an error are a function of its stacks.
-/

namespace RcppDeepState

/-! ## Errors -/

def frameNames : List Text := ["ip", "obj", "fn", "dir", "file", "line"]

/-- A frame is its fields, as element names with their texts. -/
structure StackFrame where
  fields : List (Text × Text)
  names_ok : ∀ e ∈ fields, e.1 ∈ frameNames

def StackFrame.field (f : StackFrame) (n : Text) : Option Text := f.fields.lookup n

def StackFrame.toXml (f : StackFrame) : Xml := .elem "frame" (f.fields.map fun e => Xml.leaf e.1 e.2)

/-- The frame has the directory `src`. -/
def StackFrame.LiesIn (src : Text) (f : StackFrame) : Prop := (("dir" : Text), src) ∈ f.fields

instance (src : Text) (f : StackFrame) : Decidable (f.LiesIn src) := inferInstanceAs (Decidable (_ ∈ _))

/-- The frame has a file and a line. -/
def StackFrame.HasPlace (f : StackFrame) : Prop := f.field "file" ≠ none ∧ f.field "line" ≠ none

/-- The file and the line, as they are written in the log. -/
def StackFrame.place (f : StackFrame) : Text :=
  Xml.escape ((f.field "file").getD []) ++ " : " ++ Xml.escape ((f.field "line").getD [])

abbrev CallStack := List StackFrame

def CallStack.toXml (s : CallStack) : Xml := .elem "stack" (s.map StackFrame.toXml)

/-- A text on the address of an error, and the stack behind it. -/
structure AuxText where
  text : Text
  stack : Option CallStack

def AuxText.toXml (a : AuxText) : List Xml := Xml.leaf "auxwhat" a.text :: (a.stack.map CallStack.toXml).toList

/-- What an error says: a text, or for leaks a text with the numbers that are in it. -/
inductive ErrorText
  | what (t : Text)
  | xwhat (t : Text) (bytes blocks : Text)

def ErrorText.toXml : ErrorText → Xml
  | .what t => Xml.leaf "what" t
  | .xwhat t bytes blocks =>
      .elem "xwhat" [Xml.leaf "text" t, Xml.leaf "leakedbytes" bytes, Xml.leaf "leakedblocks" blocks]

structure MemError where
  unique : Text
  tid : Text
  kind : Text
  what : ErrorText
  primary : CallStack
  aux : List AuxText

def MemError.toXml (e : MemError) : Xml :=
  .elem "error" ([Xml.leaf "unique" e.unique, Xml.leaf "tid" e.tid, Xml.leaf "kind" e.kind, e.what.toXml,
    e.primary.toXml] ++ e.aux.flatMap AuxText.toXml)

/-- The stacks of the texts on the address. -/
def MemError.auxStacks (e : MemError) : List CallStack := e.aux.filterMap (·.stack)

def MemError.stacks (e : MemError) : List CallStack := e.primary :: e.auxStacks

/-- The stack of the first text on the address. -/
def MemError.addressStack (e : MemError) : Option CallStack := e.aux.head?.bind (·.stack)

def MemError.addressMsg (e : MemError) : Text :=
  match e.aux with
  | [] => noAddress
  | a :: _ => a.text

/-! ## Queries -/

section Queries

variable {src : Text} {f : StackFrame} {s : CallStack} {e : MemError} {n : Text}

/-- The directories of a frame. -/
theorem frames_frame (src : Text) (f : StackFrame) : (SourceXPath.dir src).frames f.toXml =
    (f.fields.filter (· = (("dir" : Text), src))).map fun e => (f.toXml, Xml.leaf e.1 e.2) := by
  rw [SourceXPath.frames, StackFrame.toXml, Xml.findPairs_leaves, List.filter_map, List.filter_filter]
  refine congrArg _ (List.filter_congr fun e _ => ?_)
  simp [Prod.ext_iff, and_comm, eq_comm]

theorem frameTrace_of_hasPlace (h : f.HasPlace) : frameTrace f.toXml = some f.place := by
  have hstring (n : Text) : getString f.toXml n = ((f.field n).map Xml.escape).toList := by
    rw [getString, StackFrame.toXml, Xml.child?_leaves, StackFrame.field]
    cases f.fields.lookup n <;> simp [Xml.leaf, Xml.children, Xml.serialize]
  obtain ⟨hfile, hline⟩ := h
  obtain ⟨file, hfile⟩ := Option.ne_none_iff_exists'.mp hfile
  obtain ⟨line, hline⟩ := Option.ne_none_iff_exists'.mp hline
  rw [frameTrace, hstring, hstring, StackFrame.place, hfile, hline]
  rfl

/-- The first frame of a stack that lies in the sources. -/
def sourceTrace (src : Text) (s : CallStack) : Option Text := (s.find? fun f => f.LiesIn src).map StackFrame.place

theorem frames_stack (src : Text) (s : CallStack) : (SourceXPath.dir src).frames s.toXml =
    s.flatMap fun f => (SourceXPath.dir src).frames f.toXml := by
  have hname (f : StackFrame) : f.toXml.name? ≠ some ("dir" : Text) := by
    rw [StackFrame.toXml, Xml.name?]
    exact fun h => absurd (Option.some.inj h) (by with_unfolding_all decide)
  rw [SourceXPath.frames, CallStack.toXml, Xml.findPairs_elem, List.flatMap_map, List.filter_flatMap]
  refine List.flatMap_congr fun f _ => ?_
  rw [if_neg (hname f), List.nil_append, SourceXPath.frames]

theorem firstTrace_stack (hplaces : ∀ f ∈ s, f.LiesIn src → f.HasPlace) :
    firstTrace (.dir src) s.toXml = sourceTrace src s := by
  rw [firstTrace, frames_stack]
  induction s with
  | nil => rfl
  | cons f s ih =>
      have ih' := ih fun f hf => hplaces f (by simp [hf])
      rw [sourceTrace] at ih' ⊢
      rw [List.flatMap_cons, List.find?_cons, frames_frame]
      by_cases hf : f.LiesIn src
      · -- The pair found first is the frame with its directory.
        have hmem : (("dir" : Text), src) ∈ f.fields.filter (· = (("dir" : Text), src)) :=
          List.mem_filter.mpr ⟨hf, decide_eq_true rfl⟩
        obtain ⟨e, es, hes⟩ := List.exists_cons_of_ne_nil (List.ne_nil_of_mem hmem)
        rw [hes, decide_eq_true hf]
        exact frameTrace_of_hasPlace (hplaces f (by simp) hf)
      · have hnil : f.fields.filter (· = (("dir" : Text), src)) = [] := by
          rw [List.filter_eq_nil_iff]
          intro e he heq
          have hsame : e = (("dir" : Text), src) := of_decide_eq_true heq
          rw [hsame] at he
          exact hf he
        rw [hnil, decide_eq_false hf]
        exact ih'

/-! ## The parts of an error -/

theorem lacks_frames (hn : n ∉ ("frame" : Text) :: frameNames) : ∀ x ∈ s.map StackFrame.toXml, Xml.Lacks n x := by
  rw [List.mem_cons, not_or] at hn
  intro x hx
  obtain ⟨f, -, rfl⟩ := List.mem_map.mp hx
  refine Xml.lacks_elem (Ne.symm hn.1) fun y hy => ?_
  obtain ⟨e, he, rfl⟩ := List.mem_map.mp hy
  exact Xml.lacks_leaf fun h => hn.2 (h ▸ f.names_ok e he)

theorem findAll_callStack (hn : n ∉ ("frame" : Text) :: frameNames) : s.toXml.findAll n = [] := by
  have happend := @Xml.findAll_elem_append n "stack" (s.map StackFrame.toXml) [] (lacks_frames hn)
  rw [List.append_nil] at happend
  exact happend

/-- The names of the elements in front of the primary stack, and below them. -/
def headNames : List Text := ["unique", "tid", "kind", "what", "xwhat", "text", "leakedbytes", "leakedblocks"]

def MemError.head (e : MemError) : List Xml :=
  [Xml.leaf "unique" e.unique, Xml.leaf "tid" e.tid, Xml.leaf "kind" e.kind, e.what.toXml]

theorem lacks_head (hn : n ∉ headNames) : ∀ c ∈ e.head, Xml.Lacks n c := by
  simp only [headNames, List.mem_cons, not_or] at hn
  obtain ⟨hunique, htid, hkind, hwhat, hxwhat, htext, hbytes, hblocks, -⟩ := hn
  have hlast : Xml.Lacks n e.what.toXml := by
    cases e.what with
    | what t => exact Xml.lacks_leaf (Ne.symm hwhat)
    | xwhat t bytes blocks =>
        refine Xml.lacks_elem (Ne.symm hxwhat) ?_
        simp only [List.forall_mem_cons]
        exact ⟨Xml.lacks_leaf (Ne.symm htext), Xml.lacks_leaf (Ne.symm hbytes), Xml.lacks_leaf (Ne.symm hblocks), by simp⟩
  simp only [MemError.head, List.forall_mem_cons]
  exact ⟨Xml.lacks_leaf (Ne.symm hunique), Xml.lacks_leaf (Ne.symm htid), Xml.lacks_leaf (Ne.symm hkind), hlast, by simp⟩

theorem MemError.toXml_eq (e : MemError) :
    e.toXml = .elem "error" (e.head ++ (e.primary.toXml :: e.aux.flatMap AuxText.toXml)) := rfl

/-- The elements of a name behind the head of an error: stacks, and texts on the address. -/
theorem findAll_error (e : MemError) (hn : n ∉ headNames) (hframe : n ∉ ("frame" : Text) :: frameNames) :
    e.toXml.findAll n = (e.primary.toXml :: e.aux.flatMap AuxText.toXml).filter (·.name? = some n) := by
  rw [e.toXml_eq, Xml.findAll_elem_append (lacks_head hn), Xml.findAll_elem]
  have hall : ∀ c ∈ e.primary.toXml :: e.aux.flatMap AuxText.toXml, c.findAll n = [] := by
    intro c hc
    rw [List.mem_cons, List.mem_flatMap] at hc
    rcases hc with rfl | ⟨a, -, hc⟩
    · exact findAll_callStack hframe
    · rw [AuxText.toXml, List.mem_cons, Option.mem_toList, Option.map_eq_some_iff] at hc
      rcases hc with rfl | ⟨s, -, rfl⟩
      · exact Xml.findAll_leaf _ _
      · exact findAll_callStack hframe
  generalize e.primary.toXml :: e.aux.flatMap AuxText.toXml = cs at hall ⊢
  induction cs with
  | nil => rfl
  | cons c cs ih =>
      rw [List.flatMap_cons, hall c (by simp), ih fun d hd => hall d (by simp [hd]), List.filter_cons]
      by_cases hc : c.name? = some n <;> simp [hc]

theorem findAll_stack (e : MemError) : e.toXml.findAll "stack" = e.stacks.map CallStack.toXml := by
  have hstack (s : CallStack) : decide (s.toXml.name? = some ("stack" : Text)) = true := decide_eq_true rfl
  have haux : ∀ t, decide ((Xml.leaf "auxwhat" t).name? = some ("stack" : Text)) = false := by
    intro t
    rw [Xml.name?_leaf]
    with_unfolding_all rfl
  rw [findAll_error e (by with_unfolding_all decide) (by with_unfolding_all decide), List.filter_cons, hstack,
    MemError.stacks, MemError.auxStacks, List.map_cons, if_pos rfl]
  congr 1
  induction e.aux with
  | nil => rfl
  | cons a as ih =>
      rw [List.flatMap_cons, List.filter_append, ih, AuxText.toXml, List.filter_cons, haux, List.filterMap_cons]
      cases a.stack with
      | none => rfl
      | some s => simp [hstack]

theorem findAll_auxwhat (e : MemError) :
    e.toXml.findAll "auxwhat" = e.aux.map fun a => Xml.leaf "auxwhat" a.text := by
  have hstack (s : CallStack) : decide (s.toXml.name? = some ("auxwhat" : Text)) = false := by
    show decide (some ("stack" : Text) = some ("auxwhat" : Text)) = false
    with_unfolding_all rfl
  have haux : ∀ t, decide ((Xml.leaf "auxwhat" t).name? = some ("auxwhat" : Text)) = true :=
    fun t => decide_eq_true (Xml.name?_leaf _ _)
  rw [findAll_error e (by with_unfolding_all decide) (by with_unfolding_all decide), List.filter_cons, hstack,
    if_neg Bool.false_ne_true]
  induction e.aux with
  | nil => rfl
  | cons a as ih =>
      rw [List.flatMap_cons, List.filter_append, ih, AuxText.toXml, List.filter_cons, haux, if_pos rfl, List.map_cons]
      cases a.stack with
      | none => rfl
      | some s => simp [hstack]

theorem addressTrace_error (e : MemError) : addressTrace e.toXml = match e.aux with
    | [] => .na
    | a :: _ => if a.stack.isSome then .stack else .null := by
  have hhead : ∀ c ∈ e.head ++ [e.primary.toXml], decide (c.name? ≠ some ("auxwhat" : Text)) = true := by
    intro c hc
    rw [List.mem_append, List.mem_singleton] at hc
    rw [decide_eq_true_eq]
    cases hc with
    | inl hc => exact (lacks_head (by with_unfolding_all decide) c hc).name_ne
    | inr hc =>
        rw [hc]
        exact fun h => absurd (Option.some.inj h : ("stack" : Text) = "auxwhat") (by with_unfolding_all decide)
  have hchildren : e.toXml.children = e.head ++ [e.primary.toXml] ++ e.aux.flatMap AuxText.toXml := by
    rw [e.toXml_eq, Xml.children, List.append_assoc]
    rfl
  have hdrop : (e.toXml.children.map Xml.name?).dropWhile (· ≠ some ("auxwhat" : Text)) =
      ((e.aux.flatMap AuxText.toXml).map Xml.name?).dropWhile (· ≠ some ("auxwhat" : Text)) := by
    rw [hchildren, List.map_append, List.dropWhile_append_of_pos]
    exact List.forall_mem_map.mpr hhead
  rw [addressTrace, hdrop]
  cases e.aux with
  | nil => rfl
  | cons a as =>
      obtain ⟨t, stack⟩ := a
      have haux : decide ((Xml.leaf "auxwhat" t).name? ≠ some ("auxwhat" : Text)) = false :=
        decide_eq_false (not_not.mpr (Xml.name?_leaf _ _))
      rw [List.flatMap_cons, AuxText.toXml, List.cons_append, List.map_cons, List.dropWhile_cons, haux,
        if_neg Bool.false_ne_true]
      cases stack with
      | none =>
          have hnext : (("auxwhat" : Text) = "stack") = False := by with_unfolding_all decide
          cases as with
          | nil => rfl
          | cons a' as => simp [AuxText.toXml, hnext]
      | some s => exact if_pos rfl

/-! ## Texts -/

/-- The message in a row: the text of a leak is unescaped. -/
def ErrorText.message : ErrorText → Text
  | .what t => Xml.escape t
  | .xwhat t _ _ => t

theorem child?_head {m : Text} {c : Xml} (hc : e.head.find? (·.name? = some m) = some c) : e.toXml.child? m = some c := by
  rw [e.toXml_eq, Xml.child?, Xml.children, List.find?_append, hc]
  rfl

theorem getString_kind (e : MemError) : getString e.toXml "kind" = [Xml.escape e.kind] := by
  have hc : e.head.find? (·.name? = some ("kind" : Text)) = some (Xml.leaf "kind" e.kind) := by
    with_unfolding_all rfl
  rw [getString, child?_head hc]
  simp [Xml.leaf, Xml.children, Xml.serialize]

/-- The names in the stacks of an error, and of the texts on its address. -/
def tailNames : List Text := "auxwhat" :: "stack" :: "frame" :: frameNames

theorem lacks_tail (hn : n ∉ tailNames) : ∀ c ∈ e.primary.toXml :: e.aux.flatMap AuxText.toXml, Xml.Lacks n c := by
  rw [tailNames, List.mem_cons, List.mem_cons, not_or, not_or] at hn
  have hstack (s : CallStack) : Xml.Lacks n s.toXml := Xml.lacks_elem (Ne.symm hn.2.1) (lacks_frames hn.2.2)
  intro c hc
  rw [List.mem_cons, List.mem_flatMap] at hc
  rcases hc with rfl | ⟨a, -, hc⟩
  · exact hstack e.primary
  · rw [AuxText.toXml, List.mem_cons, Option.mem_toList, Option.map_eq_some_iff] at hc
    rcases hc with rfl | ⟨s, -, rfl⟩
    · exact Xml.lacks_leaf (Ne.symm hn.1)
    · exact hstack s

theorem findAll_xwhat (e : MemError) : e.toXml.findAll "xwhat" =
    (if e.what.toXml.name? = some ("xwhat" : Text) then [e.what.toXml] else []) ++ e.what.toXml.findAll "xwhat" := by
  have hfront : ∀ c ∈ [Xml.leaf "unique" e.unique, Xml.leaf "tid" e.tid, Xml.leaf "kind" e.kind], Xml.Lacks "xwhat" c := by
    simp only [List.forall_mem_cons]
    exact ⟨Xml.lacks_leaf (by with_unfolding_all decide), Xml.lacks_leaf (by with_unfolding_all decide),
      Xml.lacks_leaf (by with_unfolding_all decide), by simp⟩
  exact Xml.findAll_elem_middle hfront e.what.toXml (lacks_tail (by with_unfolding_all decide))

/-- The text of a leak is found below `xwhat`, any other one in the child `what`. -/
theorem errorMessages_error (e : MemError) : errorMessages e.toXml = [some e.what.message] := by
  have hfind := findAll_xwhat e
  cases hw : e.what with
  | what t =>
      have hne : (("what" : Text) = "xwhat") = False := by with_unfolding_all decide
      have hnil : e.toXml.findAll "xwhat" = [] := by
        rw [hfind, hw, ErrorText.toXml]
        simp [hne]
      have hnone : e.toXml.child? "xwhat" = none := by
        rw [Xml.child?, List.find?_eq_none]
        intro c hc hname
        have hmem := Xml.mem_findAll_of_mem_children hc (of_decide_eq_true hname)
        rw [hnil] at hmem
        cases hmem
      have hc : e.head.find? (·.name? = some ("what" : Text)) = some (Xml.leaf "what" t) := by
        rw [MemError.head, hw]
        with_unfolding_all rfl
      have hwhat : getString e.toXml "what" = [Xml.escape t] := by
        rw [getString, child?_head hc]
        simp [Xml.leaf, Xml.children, Xml.serialize]
      rw [errorMessages, getString, hnone, hwhat]
      rfl
  | xwhat t bytes blocks =>
      have hc : e.head.find? (·.name? = some ("xwhat" : Text)) = some e.what.toXml := by
        rw [MemError.head, hw]
        with_unfolding_all rfl
      have hsome : getString e.toXml "xwhat" ≠ [] := by
        rw [getString, child?_head hc, hw]
        simp [ErrorText.toXml, Xml.children]
      have htexts : (e.toXml.findAll "xwhat").flatMap (Xml.findAll "text") = [Xml.leaf "text" t] := by
        rw [hfind, hw]
        with_unfolding_all rfl
      rw [errorMessages, if_pos hsome, htexts]
      simp [ErrorText.message]

end Queries

/-! ## Rows -/

/-- The stacks that are searched besides the primary one. -/
def MemError.searched (e : MemError) : List CallStack :=
  if e.addressStack.isSome then e.auxStacks.dropLast else e.auxStacks

/-- The trace of the address in a row: that of the last stack. -/
def MemError.recordedTrace (src : Text) (e : MemError) : Option Text :=
  if e.addressStack.isSome then e.auxStacks.getLast?.bind (sourceTrace src) else some noAddressTrace

def MemError.row (e : MemError) (trace : Option Text) (place : Text) : LogRow :=
  ⟨some (Xml.escape e.kind), some e.what.message, place, e.addressMsg, trace⟩

section Rows

variable {src : Text} {e : MemError}

theorem auxStacks_ne_nil (h : e.addressStack.isSome = true) : e.auxStacks ≠ [] := by
  obtain ⟨s, hs⟩ := Option.isSome_iff_exists.mp h
  obtain ⟨a, ha, hs⟩ := Option.bind_eq_some_iff.mp hs
  exact List.ne_nil_of_mem (List.mem_filterMap.mpr ⟨a, List.mem_of_mem_head? ha, hs⟩)

theorem hasAuxStack_iff (e : MemError) : HasAuxStack e.toXml ↔ e.addressStack.isSome = true := by
  rw [HasAuxStack, findAll_auxwhat, addressTrace_error, MemError.addressStack]
  cases e.aux with
  | nil => simp
  | cons a as => cases h : a.stack <;> simp [h]

theorem auxIsChild_error (e : MemError) : AuxIsChild e.toXml := by
  intro hne hna
  rw [findAll_auxwhat] at hne
  rw [addressTrace_error] at hna
  cases haux : e.aux with
  | nil => exact hne (by rw [haux]; rfl)
  | cons a as =>
      rw [haux] at hna
      dsimp only at hna
      split at hna <;> cases hna

theorem addressMsg_error (e : MemError) : RcppDeepState.addressMsg e.toXml = e.addressMsg := by
  rw [RcppDeepState.addressMsg, findAll_auxwhat, MemError.addressMsg]
  cases e.aux with
  | nil => rfl
  | cons a as => exact Xml.textContent_leaf _ _

theorem searchedStacks_error (e : MemError) :
    searchedStacks e.toXml = (e.primary :: e.searched).map CallStack.toXml := by
  rw [MemError.searched]
  cases h : e.addressStack.isSome with
  | true =>
      rw [if_pos rfl, searchedStacks_of_hasAuxStack ((hasAuxStack_iff e).mpr h), findAll_stack, ← List.map_dropLast,
        MemError.stacks, List.dropLast_cons_of_ne_nil (auxStacks_ne_nil h)]
  | false =>
      have hno : ¬ HasAuxStack e.toXml := by simp [hasAuxStack_iff, h]
      rw [if_neg Bool.false_ne_true, searchedStacks_of_not_hasAuxStack hno, findAll_stack, MemError.stacks]

theorem addressTraceOf_error (hplaces : ∀ s ∈ e.auxStacks, ∀ f ∈ s, f.LiesIn src → f.HasPlace) :
    addressTraceOf (.dir src) e.toXml = e.recordedTrace src := by
  rw [MemError.recordedTrace]
  cases h : e.addressStack.isSome with
  | true =>
      have hne := auxStacks_ne_nil h
      have hlast : (e.toXml.findAll "stack").getLast? = some (e.auxStacks.getLast hne).toXml := by
        rw [findAll_stack, MemError.stacks, List.getLast?_map, List.getLast?_cons, List.getLast?_eq_getLast_of_ne_nil hne]
        rfl
      rw [if_pos rfl, List.getLast?_eq_getLast_of_ne_nil hne,
        addressTraceOf_of_hasAuxStack ((hasAuxStack_iff e).mpr h) hlast]
      exact firstTrace_stack (hplaces _ (List.getLast_mem hne))
  | false =>
      have hno : ¬ HasAuxStack e.toXml := by simp [hasAuxStack_iff, h]
      rw [if_neg Bool.false_ne_true, addressTraceOf_of_not_hasAuxStack hno]

/-- One row for each stack that is searched and has a frame in the sources. -/
theorem rowsOf_error (hplaces : ∀ s ∈ e.stacks, ∀ f ∈ s, f.LiesIn src → f.HasPlace) : rowsOf (.dir src) e.toXml =
    ((e.primary :: e.searched).filterMap (sourceTrace src)).map (e.row (e.recordedTrace src)) := by
  have haux : ∀ s ∈ e.auxStacks, ∀ f ∈ s, f.LiesIn src → f.HasPlace := fun s hs => hplaces s (List.mem_cons_of_mem _ hs)
  have hsearched : e.primary :: e.searched ⊆ e.stacks := by
    apply List.cons_subset_cons
    rw [MemError.searched]
    split
    · exact List.dropLast_subset _
    · exact List.Subset.refl _
  rw [rowsOf, searchedStacks_error, List.flatMap_map, getString_kind, errorMessages_error, addressMsg_error,
    addressTraceOf_error haux, List.map_filterMap, List.filterMap_eq_flatMap_toList]
  refine List.flatMap_congr fun s hs => ?_
  rw [firstTrace_stack (hplaces s (hsearched hs))]
  cases sourceTrace src s with
  | none => rfl
  | some t => rfl

end Rows

end RcppDeepState
