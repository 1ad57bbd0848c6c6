import RcppDeepState.Valgrind.Lemmas.Relocate
import RcppDeepState.Valgrind.Tables

/-!
# Logs of a package under another path

The path of the package is looked for as a regular expression in the text of the log and put between quotes in
an expression over its tree. What comes of it decides which errors are found.
-/

namespace RcppDeepState

/-- The texts of a log with the path of the package replaced in `dir` and in the name of the log file. -/
def movePath (p q name t : Text) : Text :=
  if name = "dir" ∧ p <+: t then q ++ t.drop p.length
  else if name = "arg" ∧ (("--xml-file=" : Text) ++ p) <+: t then
    "--xml-file=" ++ q ++ t.drop (("--xml-file=" : Text) ++ p).length
  else t

/-- The text of a log whose segments stand around the places of the path, which is written escaped. -/
def logText (segments : List Text) (p : Text) : Text := Text.join (Xml.escape p) segments

/-- The path stands in `dir` and in the name of the log file. -/
def PathPlaces (segments : List Text) : Prop :=
  ∀ s ∈ segments.dropLast, ("<dir>" : Text) <:+ s ∨ ("--xml-file=" : Text) <:+ s

/-- A log of the package in `p` whose texts have neither `p` nor `q` where they are not replaced. -/
structure PackageLog (p q rest : Text) (tree : Xml) : Prop where
  named : ((tree.findAll "arg").filter fun a => decide (("--xml-file" : Text) <:+: (a.textChildren.headD []))).head? =
    some (.elem "arg" [.text ("--xml-file=" ++ p ++ ("/inst/testfiles/" ++ rest))])
  once : ¬ ("/inst/testfiles/" : Text) <:+: "inst/testfiles/" ++ rest
  dirs : ∀ d ∈ tree.findAll "dir", ∀ t ∈ d.textChildren, p <+: t ∨ ¬ p <:+: t ∧ ¬ q <:+: t
  quoted : KeepsQuoted (movePath p q) tree

/-- What comes of the path in the text of a log. -/
inductive Reading
  | invalid
  | absent
  | found
  deriving DecidableEq

def reading (p log : Text) : Reading :=
  match Ere.grep (p ++ "/src") log.lines with
  | none => .invalid
  | some [] => .absent
  | some (_ :: _) => .found

/-- Two paths are read in the same way. Where one of them has a quote and both are found, the expressions they are
pasted into give every stack the same place. -/
def ReadAlike (xml2 : Xml2) (p q : Text) (tree : Xml) (segments : List Text) : Prop :=
  reading q (logText segments q) = reading p (logText segments p) ∧
    (reading p (logText segments p) = .found → '\'' ∈ p ∨ '\'' ∈ q →
      Follows (movePath p q) tree (xml2.dirXPath (p ++ "/src")) (xml2.dirXPath (q ++ "/src")))

/-- A quote in the path makes an invalid expression. -/
def QuoteBreaks (xml2 : Xml2) (p : Text) : Prop :=
  '\'' ∈ p → ∀ node, xml2.quoted (p ++ "/src") node = .error "xmlXPathEval: evaluation failed"

variable {xml2 : Xml2} {p q rest log : Text} {tree : Xml}

/-! ## The directory -/

/-- `.*` at the end of a pattern takes the rest of the line. -/
theorem run_rest_of_line {β : Type} {k : Regex.Captures → Text → Option β} {v : β}
    (hk : k [] (rest.dropWhile (· != '\n')) = some v) : (Regex.star true Regex.dot).run rest k = some v := by
  have hline : ∀ c ∈ rest.takeWhile (· != '\n'), (c != '\n') = true := List.all_eq_true.mp List.all_takeWhile
  rw [← List.takeWhile_append_dropWhile (p := (· != '\n')) (l := rest)]
  apply Regex.run_greedy_eq_some hline
  · intro b s' hs hb hall
    obtain ⟨c, b', rfl⟩ := List.exists_cons_of_ne_nil hb
    have hc := List.head?_dropWhile_not (· != '\n') rest
    rw [hs] at hc
    have hnot : (c != '\n') = false := by simpa using hc
    rw [hall c List.mem_cons_self] at hnot
    cases hnot
  · exact hk

theorem xmlFilePattern_search (hp : '\n' ∉ p) (hrest : ¬ ("/inst/testfiles/" : Text) <:+: "inst/testfiles/" ++ rest) :
    ∃ s, xmlFilePattern.search ("--xml-file=" ++ p ++ ("/inst/testfiles/" ++ rest)) =
      some ([(("file" : Text), p)], s) := by
  refine ⟨rest.dropWhile (· != '\n'), Regex.search_of_matchAt ?_⟩
  rw [xmlFilePattern, Regex.matchAt, List.append_assoc, Regex.run_cat_cons, Regex.run_lit_append, Regex.run_cat_cons,
    Regex.run_group]
  apply Regex.run_greedy_eq_some (Regex.mem_dot hp)
  · intro b s' hs hb _
    rw [Regex.run_cat_cons]
    apply Regex.run_lit_of_not_prefix
    intro hpre
    apply hrest
    obtain ⟨c, b', rfl⟩ := List.exists_cons_of_ne_nil hb
    have hcons : ("/inst/testfiles/" : Text) = '/' :: ("inst/testfiles/" : Text) := by with_unfolding_all decide
    have htail : ("inst/testfiles/" : Text) ++ rest = b' ++ s' := by
      rw [hcons] at hs
      exact (List.cons.inj hs).2
    rw [htail]
    exact hpre.isInfix.trans (List.suffix_append b' s').isInfix
  · rw [Regex.run_cat_cons, Regex.run_lit_append, Regex.run_cat_cons, Regex.take_matched]
    apply run_rest_of_line
    rw [Regex.run_cat_nil]
    rfl

theorem sourceDir_of_named (hp : '\n' ∉ p) (hrest : ¬ ("/inst/testfiles/" : Text) <:+: "inst/testfiles/" ++ rest)
    (h : ((tree.findAll "arg").filter fun a => decide (("--xml-file" : Text) <:+: (a.textChildren.headD []))).head? =
      some (.elem "arg" [.text ("--xml-file=" ++ p ++ ("/inst/testfiles/" ++ rest))])) :
    sourceDir tree = .ok (p ++ "/src") := by
  unfold sourceDir
  dsimp only
  rw [List.head?_map, h, Option.map_some, Xml.textContent_elem, Xml.textContents_cons, Xml.textContent_text,
    Xml.textContents_nil, List.append_nil]
  obtain ⟨_, hsearch⟩ := @xmlFilePattern_search p rest hp hrest
  dsimp only
  rw [hsearch]
  simp

/-! ## The places of the path -/

@[simp] theorem movePath_dir (t : Text) : movePath p q "dir" t = if p <+: t then q ++ t.drop p.length else t := by
  have hname : ("dir" : Text) ≠ "arg" := by with_unfolding_all decide
  simp [movePath, hname]

theorem movePath_arg_starts (t : Text) :
    movePath p q "arg" ("--xml-file=" ++ p ++ t) = "--xml-file=" ++ q ++ t := by
  have hname : ("arg" : Text) ≠ "dir" := by with_unfolding_all decide
  have hpre : ("--xml-file=" : Text) ++ p <+: "--xml-file=" ++ p ++ t := List.prefix_append _ _
  simp only [movePath, hname, false_and, ↓reduceIte, hpre, and_true]
  simp

theorem movePath_arg_contains (t : Text) :
    ("--xml-file" : Text) <:+: movePath p q "arg" t ↔ ("--xml-file" : Text) <:+: t := by
  have hfile : ("--xml-file" : Text) <+: "--xml-file=" := by with_unfolding_all decide
  by_cases h : ("--xml-file=" : Text) ++ p <+: t
  · obtain ⟨u, rfl⟩ := h
    have hin (r : Text) : ("--xml-file" : Text) <:+: "--xml-file=" ++ r ++ u := by
      rw [List.append_assoc]
      exact (hfile.trans (List.prefix_append _ _)).isInfix
    rw [movePath_arg_starts]
    exact iff_of_true (hin q) (hin p)
  · have hname : ("arg" : Text) ≠ "dir" := by with_unfolding_all decide
    simp [movePath, hname, h]

section Package

variable (hlog : PackageLog p q rest tree)
include hlog

theorem PackageLog.named_moved :
    (((tree.mapText (movePath p q) []).findAll "arg").filter fun a =>
      decide (("--xml-file" : Text) <:+: (a.textChildren.headD []))).head? =
        some (.elem "arg" [.text ("--xml-file=" ++ q ++ ("/inst/testfiles/" ++ rest))]) := by
  have hfilter : ∀ a ∈ tree.findAll "arg",
      ((fun a : Xml => decide (("--xml-file" : Text) <:+: (a.textChildren.headD []))) ∘
        Xml.mapText (movePath p q) []) a = decide (("--xml-file" : Text) <:+: (a.textChildren.headD [])) := by
    intro a ha
    have hname := (Xml.mem_findAll.mp ha).2
    rw [Function.comp_apply, Xml.textChildren_mapText hname]
    cases a.textChildren with
    | nil => rfl
    | cons t ts => exact decide_eq_decide.mpr (movePath_arg_contains t)
  rw [Xml.findAll_mapText, List.filter_map, List.filter_congr hfilter, List.head?_map, hlog.named, Option.map_some,
    Xml.mapText_elem, List.map_singleton, Xml.mapText_text, movePath_arg_starts]

/-- A frame lies in the sources under the new path when it did under the old one. -/
theorem PackageLog.mem_textChildren_iff {d : Xml} (hd : d ∈ tree.findAll "dir") :
    q ++ "/src" ∈ (d.mapText (movePath p q) []).textChildren ↔ p ++ "/src" ∈ d.textChildren := by
  rw [Xml.textChildren_mapText (Xml.mem_findAll.mp hd).2, List.mem_map]
  constructor
  · rintro ⟨t, ht, hmoved⟩
    rcases hlog.dirs d hd t ht with ⟨u, rfl⟩ | ⟨hp, hq⟩
    · rw [movePath_dir, if_pos (List.prefix_append p u), List.drop_left] at hmoved
      rw [List.append_cancel_left hmoved] at ht
      exact ht
    · rw [movePath_dir, if_neg fun h => hp h.isInfix] at hmoved
      exact absurd (hmoved ▸ (List.prefix_append q _).isInfix) hq
  · intro ht
    refine ⟨_, ht, ?_⟩
    rw [movePath_dir, if_pos (List.prefix_append p _), List.drop_left]

theorem PackageLog.frames_moved {stack : Xml} (hs : stack ∈ tree.findAll "stack") :
    (SourceXPath.dir (q ++ "/src")).frames (stack.mapText (movePath p q) []) =
      ((SourceXPath.dir (p ++ "/src")).frames stack).map (Xml.mapPair (movePath p q)) := by
  unfold SourceXPath.frames
  dsimp only
  rw [Xml.findPairs_mapText, List.filter_map]
  refine congrArg _ (List.filter_congr fun pr hpr => ?_)
  have hname : pr.2.name? = some ("dir" : Text) := by simpa using (List.mem_filter.mp hpr).2
  have hd : pr.2 ∈ tree.findAll "dir" :=
    Xml.mem_findAll_trans hs (Xml.mem_findAll.mpr ⟨⟨pr.1, (List.mem_filter.mp hpr).1⟩, hname⟩)
  rw [Function.comp_apply, Xml.mapPair, Xml.mapText_of_name hname]
  exact decide_eq_decide.mpr (hlog.mem_textChildren_iff hd)

theorem PackageLog.follows_dir :
    Follows (movePath p q) tree (.dir (p ++ "/src")) (.dir (q ++ "/src")) := by
  intro stack hs
  apply stackTrace_mapText (hlog.quoted.of_mem_findAll hs) (evaluates_dir _ stack).find_eq
  · exact filter_findPairs_subset _ _
  · rw [(evaluates_dir _ _).find_eq, hlog.frames_moved hs]

theorem PackageLog.follows_file : Follows (movePath p q) tree .file .file := by
  intro stack hs
  apply stackTrace_mapText (hlog.quoted.of_mem_findAll hs) rfl
  · exact filter_findPairs_subset _ _
  · simp only [SourceXPath.find, Except.ok.injEq]
    rw [Xml.findPairs_mapText, List.filter_map]
    refine congrArg _ (List.filter_congr fun pr hpr => ?_)
    have hname : pr.2.name? = some ("file" : Text) := by simpa using (List.mem_filter.mp hpr).2
    have hfile : pr.2 ∈ tree.findAll "file" :=
      Xml.mem_findAll_trans hs (Xml.mem_findAll.mpr ⟨⟨pr.1, (List.mem_filter.mp hpr).1⟩, hname⟩)
    rw [Function.comp_apply, Xml.mapPair, Xml.mapText_of_name hname, hlog.quoted "file" (by simp [quotedNames]) _ hfile]

end Package

/-! ## The text -/

variable {segments : List Text}

def fileTag : Text := "<file>src/"

/-- No start of the tag ends a segment in front of a path. -/
theorem fileTag_infix_append {s : Text} (hs : ("<dir>" : Text) <:+ s ∨ ("--xml-file=" : Text) <:+ s) (t : Text) :
    fileTag <:+: s ++ t ↔ fileTag <:+: s ∨ fileTag <:+: t := by
  have hdir : ∀ x ∈ fileTag.inits, x ≠ [] → ¬ x <:+ ("<dir>" : Text) ∧ ¬ ("<dir>" : Text) <:+ x := by
    with_unfolding_all decide
  have hfile : ∀ x ∈ fileTag.inits, x ≠ [] → ¬ x <:+ ("--xml-file=" : Text) ∧ ¬ ("--xml-file=" : Text) <:+ x := by
    with_unfolding_all decide
  rw [List.infix_append_iff_ne_nil]
  refine or_congr_right (or_iff_left ?_)
  rintro ⟨x, y, hx, -, hxy, hsuf, -⟩
  have hinit : x ∈ fileTag.inits := (List.mem_inits x fileTag).mpr ⟨y, hxy.symm⟩
  rcases hs with hs | hs
  · rcases List.suffix_or_suffix_of_suffix hsuf hs with h | h
    · exact (hdir x hinit hx).1 h
    · exact (hdir x hinit hx).2 h
  · rcases List.suffix_or_suffix_of_suffix hsuf hs with h | h
    · exact (hfile x hinit hx).1 h
    · exact (hfile x hinit hx).2 h

/-- A path does not make the tag. -/
theorem fileTag_infix_logText (h : PathPlaces segments) (p : Text) :
    fileTag <:+: logText segments p ↔ ∃ s ∈ segments, fileTag <:+: s := by
  have htag : fileTag = '<' :: fileTag.tail := by with_unfolding_all decide
  induction segments with
  | nil =>
      have hne : fileTag ≠ [] := by with_unfolding_all decide
      simp [logText, Text.join, hne]
  | cons s segments ih =>
      cases segments with
      | nil => simp [logText, Text.join]
      | cons s' segments =>
          have hs := h s (by simp)
          have ih' : fileTag <:+: Text.join (Xml.escape p) (s' :: segments) ↔ ∃ u ∈ s' :: segments, fileTag <:+: u :=
            ih fun u hu => h u (by rw [List.dropLast_cons_cons]; exact List.mem_cons_of_mem _ hu)
          have hpath : fileTag <:+: Xml.escape p ++ Text.join (Xml.escape p) (s' :: segments) ↔
              fileTag <:+: Text.join (Xml.escape p) (s' :: segments) := by
            rw [htag]
            exact Text.infix_append_of_head_not_mem (Xml.lt_not_mem_escape p)
          rw [logText, Text.join_cons s (List.cons_ne_nil s' segments), List.append_assoc, fileTag_infix_append hs, hpath,
            ih']
          simp only [List.mem_cons, exists_eq_or_imp]

theorem any_fileTag (h : PathPlaces segments) (p : Text) :
    (logText segments p).lines.any (fun l => decide (("<file>src/" : Text) <:+: l)) =
      segments.any fun s => decide (fileTag <:+: s) := by
  have honeLine : fileTag.OneLine := by with_unfolding_all decide
  have hne : fileTag ≠ [] := by with_unfolding_all decide
  have hlines := @Text.exists_line_infix_iff fileTag (logText segments p) honeLine hne
  rw [Bool.eq_iff_iff, List.any_eq_true, List.any_eq_true]
  simp only [decide_eq_true_eq]
  rw [← fileTag_infix_logText h p, ← hlines]
  rfl

/-! ## What is returned -/

theorem sourceXPath_eq_reading : sourceXPath xml2 (p ++ "/src") log.lines =
    match reading p log with
    | .invalid => .error "invalid regular expression"
    | .absent =>
        if log.lines.any fun l => decide (("<file>src/" : Text) <:+: l) then .ok (some .file) else .ok none
    | .found => .ok (some (xml2.dirXPath (p ++ "/src"))) := by
  unfold sourceXPath reading
  cases Ere.grep (p ++ "/src") log.lines with
  | none => rfl
  | some found =>
      cases found with
      | nil => rfl
      | cons l ls => rfl

/-- What is returned for a log of the package in `p`. -/
theorem read_eq_reading (h : xml2.read (Text.join "\n" (parsedLines log.lines)) = some tree)
    (hsrc : sourceDir tree = .ok (p ++ "/src")) : deepstateReadValgrindXml xml2 log =
      match reading p log with
      | .invalid => .error "invalid regular expression"
      | .absent =>
          if log.lines.any fun l => decide (("<file>src/" : Text) <:+: l) then
            ((tree.findAll "error").mapM (errorRows .file)).map boundRows
          else .ok (some [])
      | .found => ((tree.findAll "error").mapM (errorRows (xml2.dirXPath (p ++ "/src")))).map boundRows := by
  rw [read_of_parsed h, hsrc]
  simp only [bind, Except.bind, sourceXPath_eq_reading]
  cases reading p log with
  | invalid => rfl
  | absent =>
      by_cases hany : (log.lines.any fun l => decide (("<file>src/" : Text) <:+: l)) = true
      · simp only [if_pos hany]
        rfl
      · simp only [if_neg hany]
        rfl
  | found => rfl

/-- Findings of the package that an expression reports. -/
def HasFindings (x : SourceXPath) (tree : Xml) : Prop :=
  (∀ err ∈ tree.findAll "error", AuxIsChild err) ∧ Locates x tree

theorem quote_mem_dir (p : Text) : '\'' ∈ p ++ "/src" ↔ '\'' ∈ p := by
  rw [List.mem_append, or_iff_left (by with_unfolding_all decide)]

theorem dirXPath_of_no_quote (h : '\'' ∉ p) : xml2.dirXPath (p ++ "/src") = .dir (p ++ "/src") :=
  if_neg (mt (quote_mem_dir p).mp h)

theorem dirXPath_of_quote (h : '\'' ∈ p) : xml2.dirXPath (p ++ "/src") = .quoted (xml2.quoted (p ++ "/src")) :=
  if_pos ((quote_mem_dir p).mpr h)

/-- What is returned for a log with findings. -/
def Outcome (p : Text) : Reading → Except Text (Option (List LogRow)) → Prop
  | .invalid, r => r = .error "invalid regular expression"
  | .absent, r => r = .ok (some [])
  | .found, r =>
      if '\'' ∈ p then r = .error "xmlXPathEval: evaluation failed" else ∃ row rows, r = .ok (some (row :: rows))

theorem outcome_injective {m m' : Reading} {r : Except Text (Option (List LogRow))} (h : Outcome p m r)
    (h' : Outcome q m' r) : m = m' ∧ (m = .found → ('\'' ∈ p ↔ '\'' ∈ q)) := by
  have herr : ("invalid regular expression" : Text) ≠ "xmlXPathEval: evaluation failed" := by with_unfolding_all decide
  by_cases hp : '\'' ∈ p <;> by_cases hq : '\'' ∈ q <;> cases m <;> cases m' <;> simp_all [Outcome]

theorem eraseDups_ne_nil {rows : List LogRow} (h : rows ≠ []) : ∃ row rows', rows.eraseDups = row :: rows' := by
  obtain ⟨row, rows, rfl⟩ := List.exists_cons_of_ne_nil h
  exact ⟨row, _, List.eraseDups_cons⟩

/-- An invalid expression. -/
def brokenXPath : SourceXPath := .quoted fun _ => .error "xmlXPathEval: evaluation failed"

theorem QuoteBreaks.dirXPath (hbreaks : QuoteBreaks xml2 p) (h : '\'' ∈ p) :
    xml2.dirXPath (p ++ "/src") = brokenXPath := by
  rw [dirXPath_of_quote h, funext (hbreaks h)]
  rfl

theorem stackTrace_broken (stack : Xml) : stackTrace brokenXPath stack = .error "xmlXPathEval: evaluation failed" :=
  rfl

theorem errorRows_broken {err : Xml} (ha : AuxIsChild err) : errorRows brokenXPath err =
    if err.findAll "stack" = [] then .ok [] else .error "xmlXPathEval: evaluation failed" := by
  have hrows (address : Text) (trace : Option Text) (stack : Xml) :
      stackRows brokenXPath err address trace stack = .error "xmlXPathEval: evaluation failed" := by
    rw [stackRows, stackTrace_broken]
    rfl
  have hall (address : Text) (trace : Option Text) (nodes : List Xml) :
      (do return (← nodes.mapM (stackRows brokenXPath err address trace)).flatten : Except Text (List LogRow)) =
        if nodes = [] then .ok [] else .error "xmlXPathEval: evaluation failed" := by
    cases nodes with
    | nil => rfl
    | cons stack nodes =>
        rw [List.mapM_cons, hrows]
        rfl
  unfold errorRows errorAddress
  dsimp only
  cases haux : (err.findAll "auxwhat").head? with
  | none => exact hall _ _ _
  | some aux =>
      have hne : err.findAll "auxwhat" ≠ [] := by
        intro hnil
        rw [hnil] at haux
        cases haux
      cases hna : addressTrace err with
      | na => exact absurd hna (ha hne)
      | null => exact hall _ _ _
      | stack =>
          cases hlast : (err.findAll "stack").getLast? with
          | none =>
              rw [List.getLast?_eq_none_iff] at hlast
              rw [hlast]
              rfl
          | some last =>
              have hstack : err.findAll "stack" ≠ [] := by
                intro hnil
                rw [hnil] at hlast
                cases hlast
              simp only [stackTrace_broken, if_neg hstack]
              rfl

theorem mapM_errorRows_broken (hfind : HasFindings (.dir (p ++ "/src")) tree) :
    (tree.findAll "error").mapM (errorRows brokenXPath) = .error "xmlXPathEval: evaluation failed" := by
  apply Command.mapM_eq_error
  · intro err he e' he'
    rw [errorRows_broken (hfind.1 err he)] at he'
    split at he'
    · cases he'
    · cases he'
      rfl
  · obtain ⟨err, he, stack, hstack, -⟩ := hfind.2
    have hne : err.findAll "stack" ≠ [] := List.ne_nil_of_mem (searchedStacks_subset err hstack)
    exact ⟨err, he, _, by rw [errorRows_broken (hfind.1 err he), if_neg hne]⟩

theorem read_outcome (h : xml2.read (Text.join "\n" (parsedLines log.lines)) = some tree)
    (hsrc : sourceDir tree = .ok (p ++ "/src")) (hfind : HasFindings (.dir (p ++ "/src")) tree)
    (hbreaks : QuoteBreaks xml2 p)
    (hfile : (log.lines.any fun l => decide (("<file>src/" : Text) <:+: l)) = false) :
    Outcome p (reading p log) (deepstateReadValgrindXml xml2 log) := by
  rw [read_eq_reading h hsrc]
  cases reading p log with
  | invalid => rfl
  | absent => exact if_neg (by simp [hfile])
  | found =>
      by_cases hquote : '\'' ∈ p
      · simp only [Outcome, if_pos hquote]
        rw [hbreaks.dirXPath hquote, mapM_errorRows_broken hfind]
        rfl
      · simp only [Outcome, if_neg hquote]
        have hreads : ∀ err ∈ tree.findAll "error", Reads (.dir (p ++ "/src")) err :=
          fun err he => ⟨hfind.1 err he, fun stack _ => evaluates_dir _ stack⟩
        obtain ⟨rss, hrss, hne⟩ := mapM_errorRows_ne_nil_iff.mpr ⟨hreads, hfind.2⟩
        obtain ⟨row, rows, hrows⟩ := eraseDups_ne_nil hne
        refine ⟨row, rows, ?_⟩
        rw [dirXPath_of_no_quote hquote, hrss, Except.map, boundRows, if_neg hne, hrows]

/-! ## Both logs -/

section Both

variable (hlog : PackageLog p q rest tree)
include hlog

theorem PackageLog.searchedStacks_moved {err : Xml} (he : err ∈ tree.findAll "error") :
    searchedStacks (err.mapText (movePath p q) []) = (searchedStacks err).map (Xml.mapText (movePath p q) []) := by
  have haux : (err.mapText (movePath p q) []).findAll "auxwhat" = err.findAll "auxwhat" :=
    (hlog.quoted.of_mem_findAll he).findAll (by simp [quotedNames])
  unfold searchedStacks
  rw [haux, addressTrace_mapText, Xml.findAll_mapText]
  cases (err.findAll "auxwhat").head? with
  | none => rfl
  | some aux =>
      cases addressTrace err with
      | na => rfl
      | null => rfl
      | stack => exact (List.map_dropLast ..).symm

theorem PackageLog.hasPlace_moved {stack : Xml} (hs : stack ∈ tree.findAll "stack")
    (h : HasPlace (.dir (p ++ "/src")) stack) :
    HasPlace (.dir (q ++ "/src")) (stack.mapText (movePath p q) []) := by
  obtain ⟨frame, node, hhead, hfile, hline⟩ := h
  have hpair : (frame, node) ∈ stack.pairs := by
    have hmem := List.mem_of_head? hhead
    exact (List.mem_filter.mp (List.mem_filter.mp hmem).1).1
  have hq := hlog.quoted.of_mem_findAll hs
  refine ⟨_, _, by rw [hlog.frames_moved hs, List.head?_map, hhead]; rfl, ?_, ?_⟩
  · rwa [hq.getString_frame hpair (by simp [quotedNames])]
  · rwa [hq.getString_frame hpair (by simp [quotedNames])]

theorem PackageLog.hasFindings_moved (h : HasFindings (.dir (p ++ "/src")) tree) :
    HasFindings (.dir (q ++ "/src")) (tree.mapText (movePath p q) []) := by
  constructor
  · intro err' he'
    rw [Xml.findAll_mapText] at he'
    obtain ⟨err, he, rfl⟩ := List.mem_map.mp he'
    have haux : (err.mapText (movePath p q) []).findAll "auxwhat" = err.findAll "auxwhat" :=
      (hlog.quoted.of_mem_findAll he).findAll (by simp [quotedNames])
    rw [AuxIsChild, haux, addressTrace_mapText]
    exact h.1 err he
  · obtain ⟨err, he, stack, hstack, hplace⟩ := h.2
    refine ⟨err.mapText (movePath p q) [], ?_, stack.mapText (movePath p q) [], ?_, ?_⟩
    · rw [Xml.findAll_mapText]
      exact List.mem_map_of_mem he
    · rw [hlog.searchedStacks_moved he]
      exact List.mem_map_of_mem hstack
    · exact hlog.hasPlace_moved (Xml.mem_findAll_trans he (searchedStacks_subset err hstack)) hplace

end Both

section Moved

variable (hlog : PackageLog p q rest tree) (hplaces : PathPlaces segments)
  (hp : p.OneLine) (hq : q.OneLine)
  (h : xml2.read (Text.join "\n" (parsedLines (logText segments p).lines)) = some tree)
  (h' : xml2.read (Text.join "\n" (parsedLines (logText segments q).lines)) = some (tree.mapText (movePath p q) []))
include hlog hplaces hp hq h h'

theorem read_eq_of_readAlike (halike : ReadAlike xml2 p q tree segments) :
    deepstateReadValgrindXml xml2 (logText segments q) = deepstateReadValgrindXml xml2 (logText segments p) := by
  obtain ⟨hreading, hquotes⟩ := halike
  have hsrc := sourceDir_of_named hp.1 hlog.once hlog.named
  have hsrc' := sourceDir_of_named hq.1 hlog.once hlog.named_moved
  rw [read_eq_reading h hsrc, read_eq_reading h' hsrc', hreading, any_fileTag hplaces p, any_fileTag hplaces q,
    mapM_errorRows_mapText hlog.quoted hlog.follows_file]
  cases hmode : reading p (logText segments p) with
  | invalid => rfl
  | absent => rfl
  | found =>
      have hfollows : Follows (movePath p q) tree (xml2.dirXPath (p ++ "/src")) (xml2.dirXPath (q ++ "/src")) := by
        by_cases hquote : '\'' ∈ p ∨ '\'' ∈ q
        · exact hquotes hmode hquote
        · obtain ⟨hnp, hnq⟩ := not_or.mp hquote
          rw [dirXPath_of_no_quote hnp, dirXPath_of_no_quote hnq]
          exact hlog.follows_dir
      dsimp only
      rw [mapM_errorRows_mapText hlog.quoted hfollows]

theorem readAlike_of_read_eq (hfind : HasFindings (.dir (p ++ "/src")) tree)
    (hfile : ∀ s ∈ segments, ¬ ("<file>src/" : Text) <:+: s) (hbp : QuoteBreaks xml2 p) (hbq : QuoteBreaks xml2 q)
    (heq : deepstateReadValgrindXml xml2 (logText segments q) = deepstateReadValgrindXml xml2 (logText segments p)) :
    ReadAlike xml2 p q tree segments := by
  have hany (r : Text) : ((logText segments r).lines.any fun l => decide (("<file>src/" : Text) <:+: l)) = false := by
    rw [any_fileTag hplaces, List.any_eq_false]
    intro s hs
    rw [decide_eq_true_eq]
    exact hfile s hs
  have hout := read_outcome h (sourceDir_of_named hp.1 hlog.once hlog.named) hfind hbp (hany p)
  have hout' := read_outcome h' (sourceDir_of_named hq.1 hlog.once hlog.named_moved) (hlog.hasFindings_moved hfind)
    hbq (hany q)
  rw [heq] at hout'
  obtain ⟨hreading, hquotes⟩ := outcome_injective hout hout'
  refine ⟨hreading.symm, fun hfound hquote => ?_⟩
  -- Both paths have a quote, so both expressions are invalid.
  have hiff := hquotes hfound
  have hqp : '\'' ∈ p := hquote.elim id hiff.mpr
  rw [hbp.dirXPath hqp, hbq.dirXPath (hiff.mp hqp)]
  exact fun stack _ => rfl

/-- The log of a moved package gives the same table when its path is read in the same way; with findings of the
package that are not reported by a relative path, and without quotes that leave an expression valid, only then. -/
theorem read_relocated_iff :
    (ReadAlike xml2 p q tree segments →
      deepstateReadValgrindXml xml2 (logText segments q) = deepstateReadValgrindXml xml2 (logText segments p)) ∧
    (HasFindings (.dir (p ++ "/src")) tree → (∀ s ∈ segments, ¬ ("<file>src/" : Text) <:+: s) →
      QuoteBreaks xml2 p → QuoteBreaks xml2 q →
      (deepstateReadValgrindXml xml2 (logText segments q) = deepstateReadValgrindXml xml2 (logText segments p) ↔
        ReadAlike xml2 p q tree segments)) := by
  have hsame := read_eq_of_readAlike hlog hplaces hp hq h h'
  exact ⟨hsame, fun hfind hfile hbp hbq => ⟨readAlike_of_read_eq hlog hplaces hp hq h h' hfind hfile hbp hbq, hsame⟩⟩

end Moved

/-! ## Plain paths -/

/-- No character of the path has a meaning in a pattern, in XML, between quotes or for lines. -/
def PlainPath (p : Text) : Prop :=
  ∀ c ∈ p, c ∉ Ere.special ∧ (c ≠ '&' ∧ c ≠ '<' ∧ c ≠ '>') ∧ c ≠ '\'' ∧ c ≠ '\n' ∧ c ≠ '\r'

theorem PlainPath.oneLine (hp : PlainPath p) : p.OneLine :=
  ⟨fun h => (hp _ h).2.2.2.1 rfl, fun h => (hp _ h).2.2.2.2 rfl⟩

theorem PlainPath.no_quote (hp : PlainPath p) : '\'' ∉ p := fun h => (hp _ h).2.2.1 rfl

theorem reading_of_plain (hp : PlainPath p) {before after : List Text} {s t : Text} :
    reading p (logText (before ++ [s] ++ ("/src" ++ t) :: after) p) = .found := by
  have hsrc : ∀ c ∈ ("/src" : Text), c ∉ Ere.special := by with_unfolding_all decide
  have hordinary : ∀ c ∈ p ++ "/src", c ∉ Ere.special := by
    intro c hc
    rcases List.mem_append.mp hc with hc | hc
    · exact (hp c hc).1
    · exact hsrc c hc
  have honeLine : (p ++ "/src").OneLine := Text.oneLine_append.mpr ⟨hp.oneLine, by with_unfolding_all decide⟩
  have hne : p ++ ("/src" : Text) ≠ [] := by
    intro h
    exact absurd (List.append_eq_nil_iff.mp h).2 (by with_unfolding_all decide)
  have hocc : p ++ ("/src" : Text) <:+: logText (before ++ [s] ++ ("/src" ++ t) :: after) p := by
    have htail : ∃ u, Text.join (Xml.escape p) (("/src" ++ t) :: after) = "/src" ++ u := by
      by_cases hnil : after = []
      · exact ⟨t, by rw [hnil]; rfl⟩
      · exact ⟨_, by rw [Text.join_cons _ hnil, List.append_assoc, List.append_assoc]⟩
    obtain ⟨u, hu⟩ := htail
    refine ⟨Text.join (Xml.escape p) (before ++ [s]), u, ?_⟩
    rw [logText, Text.join_append (List.append_ne_nil_of_right_ne_nil before (List.cons_ne_nil s []))
      (List.cons_ne_nil _ after), hu, Xml.escape_eq_self fun c hc => (hp c hc).2.1]
    simp
  obtain ⟨l, hl, hin⟩ := (Text.exists_line_infix_iff honeLine hne).mpr hocc
  unfold reading
  rw [Ere.grep_ordinary hordinary]
  split
  · rename_i heq
    cases heq
  · rename_i heq
    have hnil := Option.some.inj heq
    rw [List.filter_eq_nil_iff] at hnil
    exact absurd hin (by simpa using hnil l hl)
  · rfl

/-- Between plain paths nothing depends on the path. -/
theorem read_relocated_plain (hlog : PackageLog p q rest tree)
    {before after : List Text} {s t : Text} (hplaces : PathPlaces (before ++ [s] ++ ("/src" ++ t) :: after))
    (hp : PlainPath p) (hq : PlainPath q)
    (h : xml2.read (Text.join "\n"
      (parsedLines (logText (before ++ [s] ++ ("/src" ++ t) :: after) p).lines)) = some tree)
    (h' : xml2.read (Text.join "\n" (parsedLines (logText (before ++ [s] ++ ("/src" ++ t) :: after) q).lines)) =
      some (tree.mapText (movePath p q) [])) :
    deepstateReadValgrindXml xml2 (logText (before ++ [s] ++ ("/src" ++ t) :: after) q) =
      deepstateReadValgrindXml xml2 (logText (before ++ [s] ++ ("/src" ++ t) :: after) p) := by
  apply read_eq_of_readAlike hlog hplaces hp.oneLine hq.oneLine h h'
  refine ⟨by rw [reading_of_plain hp, reading_of_plain hq], fun _ hquote => ?_⟩
  exact absurd hquote (not_or.mpr ⟨hp.no_quote, hq.no_quote⟩)

/-! ## A path with parentheses -/

theorem movePath_of_ne {n : Text} (hd : n ≠ "dir") (ha : n ≠ "arg") (t : Text) : movePath p q n t = t := by
  simp [movePath, hd, ha]

/-- Elements that have only texts are not touched. -/
theorem keepsQuoted_of_leaves (h : ∀ n ∈ quotedNames, ∀ e ∈ tree.findAll n, ∀ c ∈ e.children, c.name? = none) :
    KeepsQuoted (movePath p q) tree := by
  have hnames : ∀ n ∈ quotedNames, n ≠ "dir" ∧ n ≠ "arg" := by with_unfolding_all decide
  intro n hn e he
  obtain ⟨-, hname⟩ := Xml.mem_findAll.mp he
  cases e with
  | text t => cases hname
  | elem m cs =>
      cases hname
      have hsame : ∀ c ∈ cs, c.mapText (movePath p q) n = c := by
        intro c hc
        cases c with
        | text t => rw [Xml.mapText_text, movePath_of_ne (hnames n hn).1 (hnames n hn).2]
        | elem m ds => cases h n hn _ he _ hc
      rw [Xml.mapText_elem, List.map_congr_left hsame, List.map_id']

/-- The segments of a log with one invalid read in the sources of the package. -/
def findingSegments : List Text :=
  [("<valgrindoutput>" : Text) ++ "<arg>--xml-file=",
    ("/inst/testfiles/" : Text) ++ "f/log" ++ "</arg>" ++ "<error><kind>" ++ "InvalidRead" ++ "</kind>" ++
      "<stack><frame>" ++ "<dir>",
    ("/src" : Text) ++ "</dir>" ++ "<file>f.cpp</file>" ++ "<line>7</line>" ++ "</frame></stack>" ++ "</error>" ++
      closingTag]

def findingLog : Xml :=
  .elem "valgrindoutput" [
    .elem "arg" [.text ("--xml-file=" ++ "/home/pkg" ++ ("/inst/testfiles/" ++ ("f/log" : Text)))],
    .elem "error" [.elem "kind" [.text "InvalidRead"],
      .elem "stack" [.elem "frame" [.elem "dir" [.text ("/home/pkg" ++ ("/src" : Text))],
        .elem "file" [.text "f.cpp"], .elem "line" [.text "7"]]]]]

/-- A parser of the log under its path and under `q`. -/
def readFinding (q : Text) : Xml2 := .ofParser fun t =>
  [(logText findingSegments "/home/pkg", findingLog),
    (logText findingSegments q, findingLog.mapText (movePath "/home/pkg" q) [])].lookup t

theorem packageLog_finding (q : Text) :
    PackageLog "/home/pkg" q "f/log" findingLog where
  named := by with_unfolding_all rfl
  once := by with_unfolding_all decide
  dirs := by
    have hdirs : ∀ d ∈ findingLog.findAll "dir", ∀ t ∈ d.textChildren, ("/home/pkg" : Text) <+: t := by
      with_unfolding_all decide
    exact fun d hd t ht => Or.inl (hdirs d hd t ht)
  quoted := by
    apply keepsQuoted_of_leaves
    with_unfolding_all decide

theorem pathPlaces_finding : PathPlaces findingSegments := by
  unfold PathPlaces
  decide +kernel

/-- The log is one line. -/
theorem join_parsedLines_finding {q : Text} (hq : q.OneLine) :
    Text.join "\n" (parsedLines (logText findingSegments q).lines) = logText findingSegments q := by
  have hsegments : ∀ s ∈ findingSegments, s.OneLine := by decide +kernel
  have honeLine : (logText findingSegments q).OneLine := by
    refine ⟨fun h => ?_, fun h => ?_⟩
    · rcases Text.mem_join h with h | ⟨s, hs, h⟩
      · exact (Xml.oneLine_escape hq).1 h
      · exact (hsegments s hs).1 h
    · rcases Text.mem_join h with h | ⟨s, hs, h⟩
      · exact (Xml.oneLine_escape hq).2 h
      · exact (hsegments s hs).2 h
  have hne : logText findingSegments q ≠ [] := by
    intro h
    rw [logText, findingSegments, Text.join_cons _ (List.cons_ne_nil _ _), List.append_assoc] at h
    exact absurd (List.append_eq_nil_iff.mp h).1 (by with_unfolding_all decide)
  exact join_parsedLines_line honeLine hne

theorem readFinding_parsed (q : Text) :
    (readFinding q).read (Text.join "\n" (parsedLines (logText findingSegments "/home/pkg").lines)) =
      some findingLog := by
  rw [join_parsedLines_finding (by with_unfolding_all decide)]
  exact List.lookup_cons_self

theorem readFinding_moved {q : Text} (hq : q.OneLine)
    (hne : logText findingSegments q ≠ logText findingSegments "/home/pkg") :
    (readFinding q).read (Text.join "\n" (parsedLines (logText findingSegments q).lines)) =
      some (findingLog.mapText (movePath "/home/pkg" q) []) := by
  have hbeq : (logText findingSegments q == logText findingSegments "/home/pkg") = false := by simpa using hne
  rw [join_parsedLines_finding hq]
  show List.lookup _ _ = _
  rw [List.lookup_cons, hbeq, List.lookup_cons_self]

theorem hasFindings_finding : HasFindings (.dir ("/home/pkg" ++ "/src" : Text)) findingLog := by
  constructor
  · with_unfolding_all decide
  · rw [locates_iff]
    decide +kernel

theorem quoteBreaks_finding (q p : Text) : QuoteBreaks (readFinding q) p := fun _ _ => rfl

theorem read_relocated_sample :
    deepstateReadValgrindXml (readFinding "/opt/pkg") (logText findingSegments "/opt/pkg") =
        deepstateReadValgrindXml (readFinding "/opt/pkg") (logText findingSegments "/home/pkg") ∧
      (deepstateReadValgrindXml (readFinding "/home/o'neil/pkg") (logText findingSegments "/home/o'neil/pkg") =
          deepstateReadValgrindXml (readFinding "/home/o'neil/pkg") (logText findingSegments "/home/pkg") ↔
        ReadAlike (readFinding "/home/o'neil/pkg") "/home/pkg" "/home/o'neil/pkg" findingLog findingSegments) := by
  constructor
  · have hiff := read_relocated_iff (packageLog_finding "/opt/pkg") pathPlaces_finding (by with_unfolding_all decide)
      (by with_unfolding_all decide) (readFinding_parsed "/opt/pkg")
      (readFinding_moved (by with_unfolding_all decide) (by decide +kernel))
    refine hiff.1 ⟨by decide +kernel, fun _ hquote => ?_⟩
    exact absurd hquote (by with_unfolding_all decide)
  · have hiff := read_relocated_iff (packageLog_finding "/home/o'neil/pkg") pathPlaces_finding
      (by with_unfolding_all decide) (by with_unfolding_all decide) (readFinding_parsed "/home/o'neil/pkg")
      (readFinding_moved (by with_unfolding_all decide) (by decide +kernel))
    exact hiff.2 hasFindings_finding (by decide +kernel) (quoteBreaks_finding _ _) (quoteBreaks_finding _ _)

/-- A path with parentheses loses the finding. -/
theorem read_relocated_fails : ¬ ∀ (xml2 : Xml2) (p q rest : Text) (tree : Xml)
    (segments : List Text), PackageLog p q rest tree → PathPlaces segments →
      xml2.read (Text.join "\n" (parsedLines (logText segments p).lines)) = some tree →
      xml2.read (Text.join "\n" (parsedLines (logText segments q).lines)) = some (tree.mapText (movePath p q) []) →
      deepstateReadValgrindXml xml2 (logText segments q) =
        deepstateReadValgrindXml xml2 (logText segments p) := by
  intro hall
  have hlog := packageLog_finding "/home/pkg (1)"
  have hparsed := readFinding_parsed "/home/pkg (1)"
  have hmoved := @readFinding_moved "/home/pkg (1)" (by with_unfolding_all decide) (by decide +kernel)
  have heq := hall _ _ _ _ _ _ hlog pathPlaces_finding hparsed hmoved
  have halike := readAlike_of_read_eq hlog pathPlaces_finding (by with_unfolding_all decide)
    (by with_unfolding_all decide) hparsed hmoved hasFindings_finding (by decide +kernel) (quoteBreaks_finding _ _)
    (quoteBreaks_finding _ _) heq
  exact absurd halike.1 (by decide +kernel)

end RcppDeepState
