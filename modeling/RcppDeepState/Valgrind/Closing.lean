import RcppDeepState.Valgrind.Reader

/-!
# Closing lines of forked processes

Every process that ends while it shares the log writes a closing line of its own. Of several closing lines
the reader drops the first.
-/

namespace RcppDeepState

/-- Behind the root of a document come comments and processing instructions, but no tag. -/
def RootIsLast (readXml : Text → Option Xml) : Prop :=
  ∀ (doc blank : Text) (c : Char) (rest : Text), (readXml doc).isSome → '<' ∉ blank → c ≠ '!' → c ≠ '?' →
    readXml (doc ++ (blank ++ '<' :: c :: rest)) = none

/-- The text goes on with a tag. -/
def StartsTag (t : Text) : Prop := ∃ blank c rest, t = blank ++ '<' :: c :: rest ∧ '<' ∉ blank ∧ c ≠ '!' ∧ c ≠ '?'

/-- A log of the lines `front`, those of its top-level elements, the closing line and the lines `back`. -/
structure WellFormedLog (readXml : Text → Option Xml) (front : List Text) (elements : List (List Text))
    (back : List Text) : Prop where
  parses : (readXml (Text.join "\n" (front ++ elements.flatten ++ closingTag :: back))).isSome
  closes : ∀ n, (readXml (Text.join "\n" (front ++ (elements.take n).flatten ++ [closingTag]))).isSome
  element : ∀ e ∈ elements, StartsTag (Text.join "\n" e)
  closesOnce : ∀ l ∈ front ++ elements.flatten ++ back, ¬ closingTag <:+: l

/-- The lines of the elements with `k` closing lines inserted between them. -/
inductive Forked : Nat → List (List Text) → List Text → Prop
  | done : Forked 0 [] []
  | element {k : Nat} {es : List (List Text)} {ls : List Text} (e : List Text) (h : Forked k es ls) :
      Forked k (e :: es) (e ++ ls)
  | closing {k : Nat} {es : List (List Text)} {ls : List Text} (h : Forked k es ls) :
      Forked (k + 1) es (closingTag :: ls)

variable {readXml : Text → Option Xml} {front back ls : List Text} {es : List (List Text)} {k : Nat}

/-! ## Inserted lines -/

theorem Forked.eq_flatten (h : Forked 0 es ls) : ls = es.flatten := by
  generalize hk : 0 = k at h
  induction h with
  | done => rfl
  | element e _ ih => rw [ih hk, List.flatten_cons]
  | closing _ _ => cases hk

/-- The first inserted line stands behind some of the elements. -/
theorem Forked.first (h : Forked (k + 1) es ls) :
    ∃ n ls', ls = (es.take n).flatten ++ closingTag :: ls' ∧ Forked k (es.drop n) ls' := by
  generalize hk : k + 1 = m at h
  induction h with
  | done => cases hk
  | element e _ ih =>
      obtain ⟨n, ls', hls, hf⟩ := ih hk
      exact ⟨n + 1, ls', by rw [hls, List.take_succ_cons, List.flatten_cons, List.append_assoc], hf⟩
  | closing h _ =>
      cases hk
      exact ⟨0, _, rfl, h⟩

theorem Forked.mem_iff (h : Forked k es ls) {l : Text} :
    l ∈ ls ↔ l ∈ es.flatten ∨ (0 < k ∧ l = closingTag) := by
  induction h with
  | done => simp
  | element e _ ih => rw [List.mem_append, ih, List.flatten_cons, List.mem_append, or_assoc]
  | closing h ih =>
      rw [List.mem_cons, ih]
      constructor
      · rintro (rfl | hl | ⟨_, rfl⟩)
        · exact Or.inr ⟨Nat.succ_pos _, rfl⟩
        · exact Or.inl hl
        · exact Or.inr ⟨Nat.succ_pos _, rfl⟩
      · rintro (hl | ⟨_, rfl⟩)
        · exact Or.inr (Or.inl hl)
        · exact Or.inl rfl

def isClosing (l : Text) : Bool := decide (closingTag <:+: l)

@[simp] theorem isClosing_closingTag : isClosing closingTag = true := decide_eq_true List.infix_rfl

theorem filter_isClosing_eq_nil (h : ∀ l ∈ ls, ¬ closingTag <:+: l) : ls.filter isClosing = [] :=
  List.filter_eq_nil_iff.mpr fun l hl => by simpa [isClosing] using h l hl

theorem Forked.filter_isClosing (h : Forked k es ls) (hes : ∀ l ∈ es.flatten, ¬ closingTag <:+: l) :
    (ls.filter isClosing).length = k := by
  induction h with
  | done => rfl
  | element e _ ih =>
      rw [List.flatten_cons] at hes
      rw [List.filter_append, filter_isClosing_eq_nil fun l hl => hes l (List.mem_append_left _ hl),
        List.nil_append, ih fun l hl => hes l (List.mem_append_right _ hl)]
  | closing _ ih => rw [List.filter_cons_of_pos isClosing_closingTag, List.length_cons, ih hes]

/-! ## The lines that are parsed -/

theorem parsedLines_of_one (h : (ls.filter isClosing).length ≤ 1) : parsedLines ls = ls :=
  if_neg (Nat.not_lt.mpr h)

theorem parsedLines_of_more {before after : List Text} (hls : ls = before ++ closingTag :: after)
    (hbefore : ∀ l ∈ before, ¬ closingTag <:+: l) (h : 1 < (ls.filter isClosing).length) :
    parsedLines ls = before ++ after := by
  have hdrop : parsedLines ls = ls.eraseP isClosing := if_pos h
  have hno : ∀ l ∈ before, ¬ isClosing l := fun l hl => by simpa [isClosing] using hbefore l hl
  rw [hdrop, hls, List.eraseP_append_right _ hno, List.eraseP_cons_of_pos isClosing_closingTag]

theorem flatten_take_drop (n : Nat) (es : List (List Text)) :
    (es.take n).flatten ++ (es.drop n).flatten = es.flatten := by
  rw [← List.flatten_append, List.take_append_drop]

/-! ## What follows a document -/

theorem startsTag_closing : StartsTag closingTag :=
  ⟨[], '/', closingTag.drop 2, by with_unfolding_all decide, by simp, by decide, by decide⟩

theorem StartsTag.append {t : Text} (h : StartsTag t) (s : Text) : StartsTag (t ++ s) := by
  obtain ⟨blank, c, rest, rfl, hblank, hc⟩ := h
  exact ⟨blank, c, rest ++ s, by simp, hblank, hc⟩

theorem startsTag_join {ts ts' : List Text} (h : StartsTag (Text.join "\n" ts)) :
    StartsTag (Text.join "\n" (ts ++ ts')) := by
  by_cases hts : ts = []
  · obtain ⟨blank, c, rest, hnil, -⟩ := h
    rw [hts] at hnil
    simp [Text.join] at hnil
  · by_cases hts' : ts' = []
    · rwa [hts', List.append_nil]
    · rw [Text.join_append hts hts', List.append_assoc]
      exact h.append ("\n" ++ Text.join "\n" ts')

theorem Forked.startsTag (hf : Forked k es ls) (hes : ∀ e ∈ es, StartsTag (Text.join "\n" e)) :
    StartsTag (Text.join "\n" (ls ++ closingTag :: back)) := by
  have hclosing (ts : List Text) : StartsTag (Text.join "\n" ([closingTag] ++ ts)) :=
    startsTag_join startsTag_closing
  cases hf with
  | done => exact hclosing back
  | element e _ =>
      rw [List.append_assoc]
      exact startsTag_join (hes e (by simp))
  | closing _ => exact hclosing _

section Lines

variable (hlog : WellFormedLog readXml front es back)
include hlog

theorem WellFormedLog.not_closing {l : Text} (h : l ∈ front ++ es.flatten) : ¬ closingTag <:+: l :=
  hlog.closesOnce l (List.mem_append_left back h)

theorem WellFormedLog.not_closing_take {n : Nat} {l : Text} (h : l ∈ front ++ (es.take n).flatten) :
    ¬ closingTag <:+: l := by
  apply hlog.not_closing
  rw [← flatten_take_drop n es, ← List.append_assoc]
  exact List.mem_append_left _ h

theorem WellFormedLog.filter_isClosing (hf : Forked k es ls) :
    ((front ++ ls ++ closingTag :: back).filter isClosing).length = k + 1 := by
  have hfront : front.filter isClosing = [] := by
    apply filter_isClosing_eq_nil
    exact fun l hl => hlog.not_closing (List.mem_append_left _ hl)
  have hback : back.filter isClosing = [] := by
    apply filter_isClosing_eq_nil
    exact fun l hl => hlog.closesOnce l (List.mem_append_right _ hl)
  have hls := hf.filter_isClosing fun l hl => hlog.not_closing (List.mem_append_right _ hl)
  rw [List.filter_append, List.filter_append, hfront, List.filter_cons_of_pos isClosing_closingTag, hback,
    List.nil_append, List.length_append, hls]
  rfl

/-- The first inserted line goes. -/
theorem WellFormedLog.parsedLines_forked (hf : Forked (k + 1) es ls) :
    ∃ n ls', Forked k (es.drop n) ls' ∧ parsedLines (front ++ ls ++ closingTag :: back) =
      front ++ (es.take n).flatten ++ (ls' ++ closingTag :: back) := by
  have hcount := hlog.filter_isClosing hf
  obtain ⟨n, ls', rfl, hrest⟩ := hf.first
  have hsplit : front ++ ((es.take n).flatten ++ closingTag :: ls') ++ closingTag :: back =
      (front ++ (es.take n).flatten) ++ closingTag :: (ls' ++ closingTag :: back) := by simp
  exact ⟨n, ls', hrest, parsedLines_of_more hsplit (fun l hl => hlog.not_closing_take hl) (by omega)⟩

/-- At most one inserted line is repaired: what is parsed are the lines of the log. -/
theorem WellFormedLog.parsedLines_repaired (hf : Forked k es ls) (hk : k ≤ 1) :
    parsedLines (front ++ ls ++ closingTag :: back) = front ++ es.flatten ++ closingTag :: back := by
  cases k with
  | zero => rw [parsedLines_of_one (hlog.filter_isClosing hf).le, hf.eq_flatten]
  | succ k =>
      obtain rfl : k = 0 := by omega
      obtain ⟨n, ls', hrest, hparsed⟩ := hlog.parsedLines_forked hf
      rw [hparsed, hrest.eq_flatten, ← flatten_take_drop n es]
      simp only [List.append_assoc]

/-- Of more inserted lines one still ends the document early. -/
theorem WellFormedLog.parsedLines_broken (hf : Forked (k + 2) es ls) :
    ∃ n ls', Forked k (es.drop n) ls' ∧ parsedLines (front ++ ls ++ closingTag :: back) =
      (front ++ (es.take n).flatten ++ [closingTag]) ++ (ls' ++ closingTag :: back) := by
  obtain ⟨n, ls₁, hf₁, hparsed⟩ := hlog.parsedLines_forked hf
  obtain ⟨m, ls₂, rfl, hf₂⟩ := hf₁.first
  refine ⟨n + m, ls₂, by rwa [List.drop_drop] at hf₂, ?_⟩
  rw [hparsed, List.take_add, List.flatten_append]
  simp

/-- The parser stops at a tag behind the first closing line that is left. -/
theorem WellFormedLog.not_parsed (hxml : RootIsLast readXml) (hf : Forked (k + 2) es ls) :
    readXml (Text.join "\n" (parsedLines (front ++ ls ++ closingTag :: back))) = none := by
  obtain ⟨n, ls', hrest, hparsed⟩ := hlog.parsedLines_broken hf
  obtain ⟨blank, c, rest, htag, hblank, hc, hc'⟩ : StartsTag (Text.join "\n" (ls' ++ closingTag :: back)) :=
    hrest.startsTag fun e he => hlog.element e (List.mem_of_mem_drop he)
  have hnewline : '<' ∉ "\n" ++ blank := by
    intro h
    rcases List.mem_append.mp h with h | h
    · exact absurd h (by with_unfolding_all decide)
    · exact hblank h
  have hnone := hxml _ ("\n" ++ blank) c rest (hlog.closes n) hnewline hc hc'
  rw [List.append_assoc "\n" blank] at hnone
  rw [hparsed, Text.join_append (by simp) (by simp), htag, List.append_assoc]
  exact hnone

end Lines

/-! ## The table -/

/-- How frames are recognised depends on the lines that occur, not on where they stand. -/
theorem sourceXPath_congr {xml2 : Xml2} {src : Text} {ls ls' : List Text} (h : ∀ l, l ∈ ls ↔ l ∈ ls') :
    sourceXPath xml2 src ls = sourceXPath xml2 src ls' := by
  have hgrep := @Ere.grep_congr src ls ls' h
  have hany (p : Text → Bool) : ls.any p = ls'.any p := by
    rw [Bool.eq_iff_iff, List.any_eq_true, List.any_eq_true]
    simp only [h]
  unfold sourceXPath
  rw [hany]
  cases hls : Ere.grep src ls with
  | none =>
      cases hls' : Ere.grep src ls' with
      | none => rfl
      | some found' => simp [hls, hls'] at hgrep
  | some found =>
      cases hls' : Ere.grep src ls' with
      | none => simp [hls, hls'] at hgrep
      | some found' =>
          have hnil : found = [] ↔ found' = [] := by simpa [hls, hls'] using hgrep
          simp only [ne_eq, hnil]

/-- The table depends on the lines that are parsed and on the lines that occur. -/
theorem deepstateReadValgrindXml_congr {xml2 : Xml2} {log log' : Text}
    (hparsed : parsedLines log'.lines = parsedLines log.lines) (hlines : ∀ l, l ∈ log'.lines ↔ l ∈ log.lines) :
    deepstateReadValgrindXml xml2 log' = deepstateReadValgrindXml xml2 log := by
  have hsource (src : Text) : sourceXPath xml2 src log'.lines = sourceXPath xml2 src log.lines := sourceXPath_congr hlines
  unfold deepstateReadValgrindXml
  simp only [hparsed, hsource]

/-- The table survives the closing lines of forked processes exactly when there is at most one of them. -/
theorem read_forked_iff {xml2 : Xml2} (hxml : RootIsLast xml2.read) (hlog : WellFormedLog xml2.read front es back)
    (hf : Forked k es ls) {log log' : Text} (h : log.lines = front ++ es.flatten ++ closingTag :: back)
    (h' : log'.lines = front ++ ls ++ closingTag :: back) :
    (deepstateReadValgrindXml xml2 log' = deepstateReadValgrindXml xml2 log ∧
      (xml2.read (Text.join "\n" (parsedLines log'.lines))).isSome) ↔ k ≤ 1 := by
  constructor
  · rintro ⟨-, hparses⟩
    by_contra hk
    obtain ⟨j, rfl⟩ : ∃ j, k = j + 2 := ⟨k - 2, by omega⟩
    rw [h', hlog.not_parsed hxml hf] at hparses
    cases hparses
  · intro hk
    have hzero : Forked 0 es es.flatten := by
      clear hlog hf h h'
      induction es with
      | nil => exact .done
      | cons e es ih => exact .element e ih
    have hrepaired : parsedLines log'.lines = front ++ es.flatten ++ closingTag :: back := by
      rw [h', hlog.parsedLines_repaired hf hk]
    have hsame : parsedLines log'.lines = parsedLines log.lines := by
      rw [hrepaired, h, hlog.parsedLines_repaired hzero (Nat.zero_le 1)]
    have hlines (l : Text) : l ∈ log'.lines ↔ l ∈ log.lines := by
      rw [h, h']
      simp only [List.mem_append, List.mem_cons, hf.mem_iff]
      tauto
    have hparses := hlog.parses
    rw [← hrepaired] at hparses
    exact ⟨deepstateReadValgrindXml_congr hsame hlines, hparses⟩

/-! ## A log of three elements -/

/-- A parser that knows some documents, none of which begins with another one. -/
theorem rootIsLast_lookup {docs : List (Text × Xml)} (h : ∀ d ∈ docs, ∀ d' ∈ docs, d.1 <+: d'.1 → d.1 = d'.1) :
    RootIsLast fun t => docs.lookup t := by
  intro doc blank c rest hdoc _ _ _
  rw [List.lookup_eq_none_iff]
  intro d' hd'
  obtain ⟨x, hx⟩ := Option.isSome_iff_exists.mp hdoc
  obtain ⟨_, _, hdocs, -⟩ := List.lookup_eq_some_iff.mp hx
  have hd : (doc, x) ∈ docs := by simp [hdocs]
  rw [bne_iff_ne]
  intro heq
  have hsame : doc = d'.1 := h _ hd d' hd' ⟨_, heq⟩
  rw [← hsame] at heq
  simp at heq

/-- The arguments, an error and the counts of the errors. -/
def sampleChildren : List Xml := sampleLog.children ++
  [.elem "error" [.elem "kind" [.text "InvalidRead"], .elem "what" [.text "Invalid read of size 4"]],
    .elem "errorcounts" []]

def sampleElements : List (List Text) := sampleChildren.map fun c => [c.serialize]

/-- The document of the first `n` elements, as it is written. -/
def sampleDocument (n : Nat) : Text :=
  Text.join "\n" ([("<valgrindoutput>" : Text)] ++ (sampleElements.take n).flatten ++ [closingTag])

def sampleDocuments : List (Text × Xml) :=
  (List.range 4).map fun n => (sampleDocument n, .elem "valgrindoutput" (sampleChildren.take n))

def readSample : Xml2 := .ofParser fun t => sampleDocuments.lookup t

theorem rootIsLast_readSample : RootIsLast readSample.read := by
  apply rootIsLast_lookup
  decide +kernel

theorem wellFormedLog_sample : WellFormedLog readSample.read ["<valgrindoutput>"] sampleElements [] where
  parses := by decide +kernel
  closes n := by
    have hfirst : ∀ n < 4, (readSample.read (sampleDocument n)).isSome := by decide +kernel
    have hdocument : (readSample.read (sampleDocument n)).isSome := by
      by_cases hn : n < 4
      · exact hfirst n hn
      · have hlength : sampleElements.length = 3 := rfl
        have htake : sampleDocument n = sampleDocument 3 := by
          rw [sampleDocument, sampleDocument, List.take_of_length_le (by omega), List.take_of_length_le (by omega)]
        rw [htake]
        exact hfirst 3 (by omega)
    exact hdocument
  element e he := by
    have htag : ∀ e ∈ sampleElements, (Text.join "\n" e).take 1 = ['<'] ∧
        (Text.join "\n" e).tail.take 1 ∈ [['a'], ['e']] := by decide +kernel
    obtain ⟨hopen, hname⟩ := htag e he
    generalize Text.join "\n" e = t at hopen hname
    rcases t with _ | ⟨c, _ | ⟨d, rest⟩⟩
    · simp at hopen
    · simp at hname
    · obtain rfl : c = '<' := by simpa using hopen
      refine ⟨[], d, rest, rfl, List.not_mem_nil, ?_, ?_⟩
      · rintro rfl
        simp at hname
      · rintro rfl
        simp at hname
  closesOnce := by decide +kernel

/-- The text of the log with these lines for its elements. -/
def forkedText (ls : List Text) : Text := Text.unlines ([("<valgrindoutput>" : Text)] ++ ls ++ [closingTag])

theorem forkedText_lines {ls : List Text} (h : ∀ l ∈ ls, l.OneLine) :
    (forkedText ls).lines = [("<valgrindoutput>" : Text)] ++ ls ++ [closingTag] := by
  apply Text.lines_unlines
  intro l hl
  simp only [List.mem_append, List.mem_singleton] at hl
  rcases hl with (rfl | hl) | rfl
  · with_unfolding_all decide
  · exact h l hl
  · with_unfolding_all decide

/-- The elements with a closing line behind the first, and with one more behind the second. -/
def forkedOnce : List Text :=
  (sampleElements.take 1).flatten ++ closingTag :: (sampleElements.drop 1).flatten

def forkedTwice : List Text :=
  (sampleElements.take 1).flatten ++ closingTag :: ((sampleElements.drop 1).take 1).flatten ++
    closingTag :: (sampleElements.drop 2).flatten

theorem forked_once : Forked 1 sampleElements forkedOnce :=
  .element _ (.closing (.element _ (.element _ .done)))

theorem forked_twice : Forked 2 sampleElements forkedTwice :=
  .element _ (.closing (.element _ (.closing (.element _ .done))))

theorem read_forked_sample :
    ((deepstateReadValgrindXml readSample (forkedText forkedOnce) =
        deepstateReadValgrindXml readSample (forkedText sampleElements.flatten) ∧
      (readSample.read (Text.join "\n" (parsedLines (forkedText forkedOnce).lines))).isSome) ↔ 1 ≤ 1) ∧
    ((deepstateReadValgrindXml readSample (forkedText forkedTwice) =
        deepstateReadValgrindXml readSample (forkedText sampleElements.flatten) ∧
      (readSample.read (Text.join "\n" (parsedLines (forkedText forkedTwice).lines))).isSome) ↔ 2 ≤ 1) :=
  ⟨read_forked_iff rootIsLast_readSample wellFormedLog_sample forked_once
      (forkedText_lines (by decide +kernel)) (forkedText_lines (by decide +kernel)),
    read_forked_iff rootIsLast_readSample wellFormedLog_sample forked_twice
      (forkedText_lines (by decide +kernel)) (forkedText_lines (by decide +kernel))⟩

/-- Two forked processes are enough to lose the table. -/
theorem read_forked_fails : ¬ ∀ (xml2 : Xml2) (front : List Text) (es : List (List Text))
    (back ls : List Text) (k : Nat) (log log' : Text), RootIsLast xml2.read → WellFormedLog xml2.read front es back →
      Forked k es ls → log.lines = front ++ es.flatten ++ closingTag :: back →
      log'.lines = front ++ ls ++ closingTag :: back →
      deepstateReadValgrindXml xml2 log' = deepstateReadValgrindXml xml2 log ∧
        (xml2.read (Text.join "\n" (parsedLines log'.lines))).isSome := by
  intro hall
  have hlines := @forkedText_lines forkedTwice (by decide +kernel)
  obtain ⟨-, hparses⟩ := hall readSample _ _ _ _ 2 _ _ rootIsLast_readSample wellFormedLog_sample forked_twice
    (forkedText_lines (by decide +kernel)) hlines
  rw [hlines, wellFormedLog_sample.not_parsed rootIsLast_readSample forked_twice] at hparses
  cases hparses

end RcppDeepState
