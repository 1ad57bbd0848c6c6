import RcppDeepState.Library.Text

/-!
# XML trees

Elements and texts, without attributes, and the few queries a reader of a log needs: elements below a node
in document order with their parents, children by name, and text contents.
-/

inductive Xml
  | text (t : Text)
  | elem (name : Text) (children : List Xml)

namespace Xml

/-! ## Queries -/

def name? : Xml → Option Text
  | text _ => none
  | elem n _ => some n

def children : Xml → List Xml
  | text _ => []
  | elem _ cs => cs

mutual

/-- The nodes below a node in document order, each with its parent. -/
def pairs : Xml → List (Xml × Xml)
  | text _ => []
  | elem n cs => pairsAll (elem n cs) cs

def pairsAll (parent : Xml) : List Xml → List (Xml × Xml)
  | [] => []
  | c :: cs => (parent, c) :: (pairs c ++ pairsAll parent cs)

end

mutual

/-- The texts below a node, put together. -/
def textContent : Xml → Text
  | text t => t
  | elem _ cs => textContents cs

def textContents : List Xml → Text
  | [] => []
  | c :: cs => textContent c ++ textContents cs

end

/-- The elements of a name below a node, each with its parent. -/
def findPairs (n : Text) (x : Xml) : List (Xml × Xml) := x.pairs.filter (·.2.name? = some n)

/-- The elements of a name below a node. -/
def findAll (n : Text) (x : Xml) : List Xml := (x.findPairs n).map (·.2)

def child? (n : Text) (x : Xml) : Option Xml := x.children.find? (·.name? = some n)

def textChildren (x : Xml) : List Text :=
  x.children.filterMap fun
    | text t => some t
    | elem _ _ => none

/-! ## Serialisation -/

def escapeChar : Char → Text
  | '&' => "&amp;"
  | '<' => "&lt;"
  | '>' => "&gt;"
  | c => [c]

def escape (t : Text) : Text := t.flatMap escapeChar

mutual

def serialize : Xml → Text
  | text t => escape t
  | elem n cs => "<" ++ n ++ ">" ++ serializeAll cs ++ "</" ++ n ++ ">"

def serializeAll : List Xml → Text
  | [] => []
  | c :: cs => serialize c ++ serializeAll cs

end

/-! ## Lemmas -/

variable {n m : Text} {cs ds : List Xml} {p : Xml}

@[simp] theorem pairs_text (t : Text) : (text t).pairs = [] := by rw [pairs]

@[simp] theorem pairs_elem : (elem n cs).pairs = pairsAll (elem n cs) cs := by rw [pairs]

@[simp] theorem pairsAll_nil : pairsAll p [] = [] := by rw [pairsAll]

@[simp] theorem pairsAll_cons (c : Xml) : pairsAll p (c :: cs) = (p, c) :: (c.pairs ++ pairsAll p cs) := by
  rw [pairsAll]

@[simp] theorem textContent_text (t : Text) : (text t).textContent = t := by rw [textContent]

@[simp] theorem textContent_elem : (elem n cs).textContent = textContents cs := by rw [textContent]

@[simp] theorem textContents_nil : textContents [] = [] := by rw [textContents]

@[simp] theorem textContents_cons (c : Xml) :
    textContents (c :: cs) = c.textContent ++ textContents cs := by
  rw [textContents]

theorem escape_eq_self {t : Text} (h : ∀ c ∈ t, c ≠ '&' ∧ c ≠ '<' ∧ c ≠ '>') : escape t = t := by
  induction t with
  | nil => rfl
  | cons c t ih =>
      obtain ⟨h1, h2, h3⟩ := h c (by simp)
      have hc : escapeChar c = [c] := by
        unfold escapeChar
        split <;> simp_all
      have ih' := ih (fun x hx => h x (by simp [hx]))
      rw [escape, List.flatMap_cons, hc, ← escape, ih']
      rfl

theorem lt_not_mem_escape (t : Text) : '<' ∉ escape t := by
  intro h
  obtain ⟨c, -, hc⟩ := List.mem_flatMap.mp h
  unfold escapeChar at hc
  split at hc
  · exact absurd hc (by with_unfolding_all decide)
  · exact absurd hc (by with_unfolding_all decide)
  · exact absurd hc (by with_unfolding_all decide)
  · rename_i hlt _
    exact hlt (List.mem_singleton.mp hc).symm

theorem oneLine_escape {t : Text} (h : t.OneLine) : (escape t).OneLine := by
  refine Text.oneLine_flatMap fun c hc => ?_
  have hchar : Text.OneLine [c] := h.of_subset (by simpa using hc)
  unfold escapeChar
  split
  · with_unfolding_all decide
  · with_unfolding_all decide
  · with_unfolding_all decide
  · exact hchar

/-! ## Nodes below a node -/

theorem mem_pairsAll {pr : Xml × Xml} : pr ∈ pairsAll p cs ↔ ∃ c ∈ cs, pr = (p, c) ∨ pr ∈ c.pairs := by
  induction cs with
  | nil => simp
  | cons c cs ih => simp [ih, or_assoc]

theorem mem_pairs_elem {pr : Xml × Xml} :
    pr ∈ (elem n cs).pairs ↔ ∃ c ∈ cs, pr = (elem n cs, c) ∨ pr ∈ c.pairs := by
  rw [pairs_elem, mem_pairsAll]

theorem sizeOf_lt_of_mem {c : Xml} (h : c ∈ cs) : sizeOf c < sizeOf (elem n cs) := by
  have := List.sizeOf_lt_of_mem h
  simp only [elem.sizeOf_spec]
  omega

/-- What stands below a node of a tree stands below the tree. -/
theorem pairs_subset (x : Xml) : ∀ pr ∈ x.pairs, pr.2.pairs ⊆ x.pairs := by
  match x with
  | text t => simp
  | elem n cs =>
      intro pr hpr pr' hpr'
      obtain ⟨c, hc, rfl | hin⟩ := mem_pairs_elem.mp hpr
      · exact mem_pairs_elem.mpr ⟨c, hc, Or.inr hpr'⟩
      · exact mem_pairs_elem.mpr ⟨c, hc, Or.inr (pairs_subset c pr hin hpr')⟩
termination_by sizeOf x
decreasing_by exact sizeOf_lt_of_mem hc

/-- A parent that is found has all its children found. -/
theorem children_mem_pairs (x : Xml) : ∀ pr ∈ x.pairs, ∀ c ∈ pr.1.children, (pr.1, c) ∈ x.pairs := by
  match x with
  | text t => simp
  | elem n cs =>
      intro pr hpr c' hc'
      obtain ⟨c, hc, rfl | hin⟩ := mem_pairs_elem.mp hpr
      · exact mem_pairs_elem.mpr ⟨c', hc', Or.inl rfl⟩
      · exact mem_pairs_elem.mpr ⟨c, hc, Or.inr (children_mem_pairs c pr hin c' hc')⟩
termination_by sizeOf x
decreasing_by exact sizeOf_lt_of_mem hc

theorem mem_findAll {x e : Xml} : e ∈ x.findAll n ↔ (∃ q, (q, e) ∈ x.pairs) ∧ e.name? = some n := by
  simp [findAll, findPairs]

theorem mem_findAll_trans {x y e : Xml} (hy : y ∈ x.findAll m) (he : e ∈ y.findAll n) : e ∈ x.findAll n := by
  obtain ⟨⟨q, hq⟩, -⟩ := mem_findAll.mp hy
  obtain ⟨⟨q', hq'⟩, hn⟩ := mem_findAll.mp he
  exact mem_findAll.mpr ⟨⟨q', pairs_subset x _ hq hq'⟩, hn⟩

theorem mem_findAll_of_mem_children {x c : Xml} (hc : c ∈ x.children) (hn : c.name? = some n) :
    c ∈ x.findAll n := by
  cases x with
  | text t => cases hc
  | elem m cs => exact mem_findAll.mpr ⟨⟨_, mem_pairs_elem.mpr ⟨c, hc, Or.inl rfl⟩⟩, hn⟩

theorem findPairs_elem : (elem n cs).findPairs m =
    cs.flatMap fun c => (if c.name? = some m then [(elem n cs, c)] else []) ++ c.findPairs m := by
  have hall : ∀ (p : Xml) (ds : List Xml), (pairsAll p ds).filter (·.2.name? = some m) =
      ds.flatMap fun c => (if c.name? = some m then [(p, c)] else []) ++ c.findPairs m := by
    intro p ds
    induction ds with
    | nil => simp
    | cons d ds ih =>
        rw [pairsAll_cons, List.filter_cons, List.filter_append, ih, List.flatMap_cons, findPairs]
        by_cases hd : d.name? = some m <;> simp [hd]
  rw [findPairs, pairs_elem]
  exact hall _ cs

theorem findAll_elem : (elem n cs).findAll m =
    cs.flatMap fun c => (if c.name? = some m then [c] else []) ++ c.findAll m := by
  rw [findAll, findPairs_elem, List.map_flatMap]
  refine List.flatMap_congr fun c _ => ?_
  rw [List.map_append, findAll]
  split <;> rfl

/-- An element that has only a text. -/
def leaf (n t : Text) : Xml := elem n [text t]

@[simp] theorem name?_leaf (n t : Text) : (leaf n t).name? = some n := rfl

@[simp] theorem findPairs_leaf (n t : Text) : (leaf n t).findPairs m = [] := by
  rw [leaf, findPairs_elem]
  rfl

@[simp] theorem findAll_leaf (n t : Text) : (leaf n t).findAll m = [] := by
  rw [findAll, findPairs_leaf, List.map_nil]

@[simp] theorem textChildren_leaf (n t : Text) : (leaf n t).textChildren = [t] := rfl

@[simp] theorem textContent_leaf (n t : Text) : (leaf n t).textContent = t := by
  simp [leaf]

/-- Leaves below an element. -/
theorem findPairs_leaves (fields : List (Text × Text)) : (elem n (fields.map fun e => leaf e.1 e.2)).findPairs m =
    (fields.filter (·.1 = m)).map fun e => (elem n (fields.map fun e => leaf e.1 e.2), leaf e.1 e.2) := by
  have hall : ∀ (p : Xml) (es : List (Text × Text)), (es.map fun e => leaf e.1 e.2).flatMap (fun c =>
      (if c.name? = some m then [(p, c)] else []) ++ c.findPairs m) =
        (es.filter (·.1 = m)).map fun e => (p, leaf e.1 e.2) := by
    intro p es
    induction es with
    | nil => rfl
    | cons e es ih =>
        rw [List.map_cons, List.flatMap_cons, ih]
        by_cases he : e.1 = m <;> simp [he]
  rw [findPairs_elem]
  exact hall _ _

theorem child?_leaves (fields : List (Text × Text)) :
    (elem n (fields.map fun e => leaf e.1 e.2)).child? m = (fields.lookup m).map (leaf m) := by
  rw [child?, children]
  induction fields with
  | nil => rfl
  | cons e es ih =>
      obtain ⟨k, v⟩ := e
      rw [List.map_cons, List.find?_cons, List.lookup_cons]
      by_cases hk : k = m
      · simp [hk]
      · have hkey : (m == k) = false := by simpa using Ne.symm hk
        simpa [hk, hkey] using ih

/-- Neither a node nor one below it has the name. -/
structure Lacks (n : Text) (x : Xml) : Prop where
  name_ne : x.name? ≠ some n
  findAll_eq : x.findAll n = []

theorem lacks_leaf {t : Text} (hn : m ≠ n) : Lacks n (leaf m t) where
  name_ne h := hn (Option.some.inj h)
  findAll_eq := findAll_leaf m t

theorem findAll_of_lacks (hcs : ∀ c ∈ cs, Lacks n c) : (elem m cs).findAll n = [] := by
  rw [findAll_elem, List.flatMap_eq_nil_iff]
  intro c hc
  rw [if_neg (hcs c hc).name_ne, (hcs c hc).findAll_eq]
  rfl

theorem lacks_elem (hn : m ≠ n) (hcs : ∀ c ∈ cs, Lacks n c) : Lacks n (elem m cs) where
  name_ne h := hn (Option.some.inj h)
  findAll_eq := findAll_of_lacks hcs

/-- Nodes that lack the name can be left out. -/
theorem findAll_elem_append (hcs : ∀ c ∈ cs, Lacks n c) : (elem m (cs ++ ds)).findAll n = (elem m ds).findAll n := by
  have hnil := @findAll_of_lacks n m cs hcs
  rw [findAll_elem] at hnil
  rw [findAll_elem, findAll_elem, List.flatMap_append, hnil, List.nil_append]

/-- Nodes that lack the name stand around the only one that may have it. -/
theorem findAll_elem_middle (hcs : ∀ c ∈ cs, Lacks n c) (x : Xml) (hds : ∀ c ∈ ds, Lacks n c) :
    (elem m (cs ++ x :: ds)).findAll n = (if x.name? = some n then [x] else []) ++ x.findAll n := by
  have hnil := @findAll_of_lacks n m ds hds
  rw [findAll_elem] at hnil
  rw [findAll_elem_append hcs, findAll_elem, List.flatMap_cons, hnil, List.append_nil]

/-! ## Other texts -/

mutual

/-- Change every text, depending on the name of the element it stands in. -/
def mapText (f : Text → Text → Text) (parent : Text) : Xml → Xml
  | text t => text (f parent t)
  | elem n cs => elem n (mapTextAll f n cs)

def mapTextAll (f : Text → Text → Text) (parent : Text) : List Xml → List Xml
  | [] => []
  | c :: cs => mapText f parent c :: mapTextAll f parent cs

end

variable {f : Text → Text → Text}

@[simp] theorem mapText_text (t : Text) : (text t).mapText f n = text (f n t) := by rw [mapText]

@[simp] theorem mapTextAll_eq_map : mapTextAll f n cs = cs.map (mapText f n) := by
  induction cs with
  | nil => rw [mapTextAll, List.map_nil]
  | cons c cs ih => rw [mapTextAll, ih, List.map_cons]

@[simp] theorem mapText_elem : (elem n cs).mapText f m = elem n (cs.map (mapText f n)) := by
  rw [mapText, mapTextAll_eq_map]

@[simp] theorem name?_mapText (x : Xml) : (x.mapText f m).name? = x.name? := by
  cases x with
  | text t => rw [mapText_text]; rfl
  | elem n cs => rw [mapText_elem]; rfl

theorem mapText_of_name {x : Xml} (h : x.name? = some n) : x.mapText f m = x.mapText f [] := by
  cases x with
  | text t => cases h
  | elem n cs => rw [mapText_elem, mapText_elem]

/-- Both nodes of a pair. -/
def mapPair (f : Text → Text → Text) (pr : Xml × Xml) : Xml × Xml :=
  (pr.1.mapText f [], pr.2.mapText f (pr.1.name?.getD []))

theorem pairs_mapText (x : Xml) (m : Text) : (x.mapText f m).pairs = x.pairs.map (mapPair f) := by
  match x with
  | text t => simp
  | elem n cs =>
      have hall : ∀ ds : List Xml, (∀ d ∈ ds, (d.mapText f n).pairs = d.pairs.map (mapPair f)) →
          pairsAll ((elem n cs).mapText f []) (ds.map (mapText f n)) =
            (pairsAll (elem n cs) ds).map (mapPair f) := by
        intro ds hds
        induction ds with
        | nil => simp
        | cons d ds ih =>
            rw [List.map_cons, pairsAll_cons, pairsAll_cons, hds d (by simp), ih fun d' hd' => hds d' (by simp [hd']),
              List.map_cons, List.map_append]
            rfl
      rw [mapText_elem, pairs_elem, pairs_elem, ← hall cs fun d hd => pairs_mapText d n, mapText_elem]
termination_by sizeOf x
decreasing_by exact sizeOf_lt_of_mem hd

theorem findPairs_mapText (x : Xml) : (x.mapText f m).findPairs n = (x.findPairs n).map (mapPair f) := by
  rw [findPairs, pairs_mapText, List.filter_map, findPairs]
  refine congrArg _ (List.filter_congr fun pr _ => ?_)
  simp [mapPair]

theorem findAll_mapText (x : Xml) : (x.mapText f m).findAll n = (x.findAll n).map (mapText f []) := by
  rw [findAll, findPairs_mapText, findAll, List.map_map, List.map_map]
  refine List.map_congr_left fun pr hpr => ?_
  have hn : pr.2.name? = some n := by simpa using (List.mem_filter.mp hpr).2
  exact mapText_of_name hn

theorem children_mapText (x : Xml) : (x.mapText f m).children = x.children.map (mapText f (x.name?.getD [])) := by
  cases x with
  | text t => rw [mapText_text]; rfl
  | elem n cs => rw [mapText_elem]; rfl

theorem child?_mapText (x : Xml) : (x.mapText f m).child? n = (x.child? n).map (mapText f []) := by
  unfold child?
  rw [children_mapText, List.find?_map]
  have hfun : (fun c : Xml => decide (c.name? = some n)) ∘ mapText f (x.name?.getD []) =
      fun c => decide (c.name? = some n) := by
    funext c
    simp
  rw [hfun]
  cases hc : x.children.find? fun c => decide (c.name? = some n) with
  | none => rfl
  | some c =>
      have hn : c.name? = some n := by simpa using List.find?_some hc
      rw [Option.map_some, Option.map_some, mapText_of_name hn]

theorem textChildren_mapText {x : Xml} (h : x.name? = some n) :
    (x.mapText f m).textChildren = x.textChildren.map (f n) := by
  cases x with
  | text t => cases h
  | elem n' cs =>
      cases h
      rw [mapText_elem, textChildren, textChildren, children, children, List.filterMap_map, List.map_filterMap]
      refine List.filterMap_congr fun c _ => ?_
      cases c with
      | text t => simp
      | elem n' ds => simp

end Xml
