import RcppDeepState.Library.Dedup
import RcppDeepState.Valgrind.Memcheck
import RcppDeepState.Valgrind.Relocation

/-!
# Errors and the stacks they are attributed to

An error belongs to the first frame of its primary stack that lies in the sources. The reader drops the last stack
of an error only, and takes the trace of the address from it, whichever text on the address it stands behind.
-/

namespace RcppDeepState

/-! ## What an error should give -/

/-- The trace of the address: the first frame in the sources of the stack behind the first text. -/
def MemError.expectedTrace (src : Text) (e : MemError) : Option Text :=
  match e.addressStack with
  | none => some noAddressTrace
  | some s => sourceTrace src s

/-- One row for an error whose primary stack has a frame in the sources. -/
def MemError.expectedRows (src : Text) (e : MemError) : List LogRow :=
  (sourceTrace src e.primary).toList.map (e.row (e.expectedTrace src))

/-- What all rows of an error share, but for the trace of its address. -/
def LogRow.key (row : LogRow) : Option Text × Option Text × Text := (row.errKind, row.message, row.addressMsg)

def MemError.key (e : MemError) : Option Text × Option Text × Text :=
  (some (Xml.escape e.kind), some e.what.message, e.addressMsg)

/-- The stacks of the address leave the row of the error as it should be. -/
structure WellAttributed (src : Text) (e : MemError) : Prop where
  searched : ∀ s ∈ e.searched, sourceTrace src s = none ∨ sourceTrace src s = sourceTrace src e.primary
  last : sourceTrace src e.primary ≠ none →
    ∀ s ∈ e.addressStack, ∀ s' ∈ e.auxStacks.getLast?, sourceTrace src s' = sourceTrace src s

section Errors

variable {src : Text} {e : MemError}

theorem recordedTrace_eq_iff : e.recordedTrace src = e.expectedTrace src ↔
    ∀ s ∈ e.addressStack, ∀ s' ∈ e.auxStacks.getLast?, sourceTrace src s' = sourceTrace src s := by
  rw [MemError.recordedTrace, MemError.expectedTrace]
  cases h : e.addressStack with
  | none => simp
  | some s =>
      have hne : e.auxStacks ≠ [] := auxStacks_ne_nil (by rw [h]; rfl)
      simp [List.getLast?_eq_getLast_of_ne_nil hne]

/-- Rows with one address differ in their places. -/
theorem row_injective {trace trace' : Option Text} {t t' : Text} (h : e.row trace t = e.row trace' t') :
    t = t' ∧ trace = trace' := by
  cases h
  exact ⟨rfl, rfl⟩

theorem mem_expectedRows {row : LogRow} : row ∈ e.expectedRows src ↔
    ∃ t, sourceTrace src e.primary = some t ∧ e.row (e.expectedTrace src) t = row := by
  rw [MemError.expectedRows, List.mem_map]
  simp only [Option.mem_toList]

theorem key_expectedRows {row : LogRow} (h : row ∈ e.expectedRows src) : row.key = e.key := by
  obtain ⟨t, -, rfl⟩ := mem_expectedRows.mp h
  rfl

theorem eraseDups_expectedRows : (e.expectedRows src).eraseDups = e.expectedRows src := by
  rw [MemError.expectedRows]
  cases sourceTrace src e.primary with
  | none => rfl
  | some t => rfl

section Placed

variable (hplaces : ∀ s ∈ e.stacks, ∀ f ∈ s, f.LiesIn src → f.HasPlace)
include hplaces

theorem mem_rowsOf_error {row : LogRow} : row ∈ rowsOf (.dir src) e.toXml ↔
    ∃ s ∈ e.primary :: e.searched, ∃ t, sourceTrace src s = some t ∧ e.row (e.recordedTrace src) t = row := by
  simp only [rowsOf_error hplaces, List.mem_map, List.mem_filterMap]
  constructor
  · rintro ⟨t, ⟨s, hs, ht⟩, hrow⟩
    exact ⟨s, hs, t, ht, hrow⟩
  · rintro ⟨s, hs, t, ht, hrow⟩
    exact ⟨t, ⟨s, hs, ht⟩, hrow⟩

theorem key_rowsOf {row : LogRow} (h : row ∈ rowsOf (.dir src) e.toXml) : row.key = e.key := by
  obtain ⟨s, -, t, -, rfl⟩ := (mem_rowsOf_error hplaces).mp h
  rfl

theorem wellAttributed_of_mem_iff (h : ∀ row, row ∈ rowsOf (.dir src) e.toXml ↔ row ∈ e.expectedRows src) :
    WellAttributed src e := by
  -- Any place of the error is in an expected row.
  have hplace : ∀ s ∈ e.primary :: e.searched, ∀ t, sourceTrace src s = some t →
      sourceTrace src e.primary = some t ∧ e.expectedTrace src = e.recordedTrace src := by
    intro s hs t ht
    have hrow := (h _).mp ((mem_rowsOf_error hplaces).mpr ⟨s, hs, t, ht, rfl⟩)
    obtain ⟨t', ht', heq⟩ := mem_expectedRows.mp hrow
    obtain ⟨rfl, htrace⟩ := row_injective heq
    exact ⟨ht', htrace⟩
  constructor
  · intro s hs
    cases ht : sourceTrace src s with
    | none => exact Or.inl rfl
    | some t => exact Or.inr (hplace s (by simp [hs]) t ht).1.symm
  · intro hne
    obtain ⟨t, ht⟩ := Option.ne_none_iff_exists'.mp hne
    exact recordedTrace_eq_iff.mp (hplace e.primary (by simp) t ht).2.symm

/-- The rows of an error are its expected ones exactly when it is attributed well. -/
theorem eraseDups_rows_iff : (rowsOf (.dir src) e.toXml).eraseDups = e.expectedRows src ↔ WellAttributed src e := by
  constructor
  · intro h
    apply wellAttributed_of_mem_iff hplaces
    intro row
    rw [← h, List.mem_eraseDups]
  · intro h
    rw [rowsOf_error hplaces, MemError.expectedRows, List.filterMap_cons]
    cases hp : sourceTrace src e.primary with
    | none =>
        have hnil : e.searched.filterMap (sourceTrace src) = [] := by
          rw [List.filterMap_eq_nil_iff]
          intro s hs
          cases h.searched s hs with
          | inl hnone => exact hnone
          | inr hsame => rw [hsame, hp]
        rw [hnil]
        rfl
    | some t =>
        have hall : ∀ u ∈ e.searched.filterMap (sourceTrace src), u = t := by
          intro u hu
          obtain ⟨s, hs, hsu⟩ := List.mem_filterMap.mp hu
          cases h.searched s hs with
          | inl hnone =>
              rw [hnone] at hsu
              cases hsu
          | inr hsame =>
              rw [hsu, hp] at hsame
              exact Option.some.inj hsame
        have hrows : ∀ row ∈ (e.searched.filterMap (sourceTrace src)).map (e.row (e.recordedTrace src)),
            row = e.row (e.recordedTrace src) t := by
          intro row hrow
          obtain ⟨u, hu, rfl⟩ := List.mem_map.mp hrow
          rw [hall u hu]
        have htrace : e.recordedTrace src = e.expectedTrace src :=
          recordedTrace_eq_iff.mpr (h.last (by rw [hp]; exact Option.some_ne_none t))
        rw [List.map_cons, Dedup.eraseDups_cons_of_forall_eq hrows, htrace]
        rfl

end Placed

end Errors

/-! ## The table of a log -/

/-- A log of memcheck with the errors `errs`, which names its file in a directory of the package `p`. -/
structure MemcheckLog (p rest : Text) (errs : List MemError) (tree : Xml) : Prop where
  named : ((tree.findAll "arg").filter fun a => decide (("--xml-file" : Text) <:+: (a.textChildren.headD []))).head? =
    some (.elem "arg" [.text ("--xml-file=" ++ p ++ ("/inst/testfiles/" ++ rest))])
  once : ¬ ("/inst/testfiles/" : Text) <:+: "inst/testfiles/" ++ rest
  errors : tree.findAll "error" = errs.map MemError.toXml
  placed : ∀ e ∈ errs, ∀ s ∈ e.stacks, ∀ f ∈ s, f.LiesIn (p ++ "/src") → f.HasPlace

/-- Some line has the directory. -/
def Mentioned (src log : Text) : Prop := ∃ l ∈ log.lines, src <:+: l

/-- The table has the expected rows in the order of the log. No table counts as one without rows. -/
def Attributed (xml2 : Xml2) (src log : Text) (errs : List MemError) : Prop :=
  ∃ table, deepstateReadValgrindXml xml2 log = .ok table ∧
    table.getD [] = (errs.flatMap (MemError.expectedRows src)).eraseDups

section Logs

variable {xml2 : Xml2} {p rest log : Text} {errs : List MemError} {tree : Xml}

theorem getD_boundRows (rss : List (List LogRow)) : (boundRows rss).getD [] = rss.flatten.eraseDups := by
  rw [boundRows]
  split
  · rename_i hnil
    rw [hnil]
    rfl
  · rfl

theorem sourceXPath_of_ordinary {src : Text} (hsrc : ∀ c ∈ src, c ∉ Ere.special ∧ c ≠ '\'') :
    sourceXPath xml2 src log.lines =
      if log.lines.filter (fun l => decide (src <:+: l)) ≠ [] then .ok (some (.dir src))
      else if log.lines.any fun l => decide (("<file>src/" : Text) <:+: l) then .ok (some .file) else .ok none := by
  have hdir : xml2.dirXPath src = .dir src := if_neg fun hq => (hsrc _ hq).2 rfl
  rw [sourceXPath, Ere.grep_ordinary fun c hc => (hsrc c hc).1, hdir]

theorem mentioned_iff {src : Text} : log.lines.filter (fun l => decide (src <:+: l)) ≠ [] ↔ Mentioned src log := by
  simp [Mentioned, List.filter_eq_nil_iff]

theorem Mentioned.no_newline {src : Text} (h : Mentioned src log) : '\n' ∉ src := by
  obtain ⟨l, hl, hin⟩ := h
  exact fun hn => (Text.oneLine_of_mem_lines hl).1 (hin.subset hn)

variable (hlog : MemcheckLog p rest errs tree) (hsrc : ∀ c ∈ p ++ "/src", c ∉ Ere.special ∧ c ≠ '\'')
  (hparse : xml2.read (Text.join "\n" (parsedLines log.lines)) = some tree)
include hlog hsrc hparse

/-- A log with a line on the directory gives the rows of its errors. -/
theorem read_of_mentioned (h : Mentioned (p ++ "/src") log) : deepstateReadValgrindXml xml2 log =
    .ok (boundRows (errs.map fun e => rowsOf (.dir (p ++ "/src")) e.toXml)) := by
  have hp : '\n' ∉ p := fun hn => h.no_newline (List.mem_append_left _ hn)
  have hreads : ∀ err ∈ errs.map MemError.toXml, Reads (.dir (p ++ "/src")) err := by
    intro err herr
    obtain ⟨e, -, rfl⟩ := List.mem_map.mp herr
    exact ⟨auxIsChild_error e, fun stack _ => evaluates_dir _ stack⟩
  rw [read_of_parsed hparse, sourceDir_of_named hp hlog.once hlog.named]
  simp only [bind, Except.bind, sourceXPath_of_ordinary hsrc, if_pos (mentioned_iff.mpr h),
    hlog.errors, mapM_errorRows hreads, List.map_map]
  rfl

theorem attributed_iff_of_mentioned (h : Mentioned (p ++ "/src") log) :
    Attributed xml2 (p ++ "/src") log errs ↔
      (errs.flatMap fun e => rowsOf (.dir (p ++ "/src")) e.toXml).eraseDups =
        (errs.flatMap (MemError.expectedRows (p ++ "/src"))).eraseDups := by
  rw [Attributed, read_of_mentioned hlog hsrc hparse h]
  constructor
  · rintro ⟨table, htable, hrows⟩
    cases htable
    rw [← hrows, getD_boundRows]
    rfl
  · intro hrows
    refine ⟨_, rfl, ?_⟩
    rw [← hrows, getD_boundRows]
    rfl

/-- Without the directory in its lines a log gives no rows. -/
theorem read_of_not_mentioned (hp : '\n' ∉ p) (h : ¬ Mentioned (p ++ "/src") log)
    (hfile : ∀ l ∈ log.lines, ¬ ("<file>src/" : Text) <:+: l) : deepstateReadValgrindXml xml2 log = .ok (some []) := by
  have hany : (log.lines.any fun l => decide (("<file>src/" : Text) <:+: l)) = false := by simpa using hfile
  rw [read_of_parsed hparse, sourceDir_of_named hp hlog.once hlog.named]
  simp only [bind, Except.bind, sourceXPath_of_ordinary hsrc, if_neg (mentioned_iff.not.mpr h), hany]
  rfl

/-- The errors of a log are reported as they should be exactly when the directory is in a line and every error is
attributed well. Errors with equal texts may stand in for one another. -/
theorem read_attributed_iff :
    (Mentioned (p ++ "/src") log → (∀ e ∈ errs, WellAttributed (p ++ "/src") e) →
      Attributed xml2 (p ++ "/src") log errs) ∧
    (Mentioned (p ++ "/src") log → (errs.map MemError.key).Nodup →
      (Attributed xml2 (p ++ "/src") log errs ↔ ∀ e ∈ errs, WellAttributed (p ++ "/src") e)) ∧
    ('\n' ∉ p → ¬ Mentioned (p ++ "/src") log → (∀ l ∈ log.lines, ¬ ("<file>src/" : Text) <:+: l) →
      (∃ e ∈ errs, sourceTrace (p ++ "/src") e.primary ≠ none) → ¬ Attributed xml2 (p ++ "/src") log errs) := by
  have hall (h : Mentioned (p ++ "/src") log) (hwell : ∀ e ∈ errs, WellAttributed (p ++ "/src") e) :
      Attributed xml2 (p ++ "/src") log errs := by
    apply (attributed_iff_of_mentioned hlog hsrc hparse h).mpr
    apply Dedup.eraseDups_flatMap_congr
    intro e he
    rw [(eraseDups_rows_iff (hlog.placed e he)).mpr (hwell e he), eraseDups_expectedRows]
  refine ⟨hall, fun h hnodup => ⟨?_, hall h⟩, ?_⟩
  · intro hattr e he
    have heq := (attributed_iff_of_mentioned hlog hsrc hparse h).mp hattr
    have hrows := Dedup.eraseDups_of_flatMap (fun e he _ hrow => key_rowsOf (hlog.placed e he) hrow)
      (fun e _ _ hrow => key_expectedRows hrow) hnodup heq e he
    rw [eraseDups_expectedRows] at hrows
    exact (eraseDups_rows_iff (hlog.placed e he)).mp hrows
  · rintro hp h hfile ⟨e, he, hne⟩ ⟨table, htable, hrows⟩
    rw [read_of_not_mentioned hlog hsrc hparse hp h hfile] at htable
    cases htable
    have hnil := List.flatMap_eq_nil_iff.mp (Dedup.eraseDups_eq_nil_iff.mp hrows.symm) e he
    rw [MemError.expectedRows, List.map_eq_nil_iff, Option.toList_eq_nil_iff] at hnil
    exact hne hnil

end Logs

/-! ## A block that was freed -/

def sampleFrame (line : Text) : StackFrame where
  fields := [("dir", "/home/pkg/src"), ("file", "f.cpp"), ("line", line)]
  names_ok := by simp [frameNames]

/-- The stacks of the release and of the allocation of a block. -/
def releaseText : AuxText := ⟨"Address 0x4d8a040 is 0 bytes inside a block of size 4 free'd", some [sampleFrame "6"]⟩

def allocationText : AuxText := ⟨"Block was alloc'd at", some [sampleFrame "5"]⟩

def sampleError (aux : List AuxText) : MemError where
  unique := "0x0"
  tid := "1"
  kind := "InvalidRead"
  what := .what "Invalid read of size 4"
  primary := [sampleFrame "7"]
  aux := aux

def errorLog (aux : List AuxText) : Xml := .elem "valgrindoutput"
  [Xml.leaf "arg" "--xml-file=/home/pkg/inst/testfiles/f/log", (sampleError aux).toXml]

def readErrorLog (aux : List AuxText) : Xml2 :=
  .ofParser fun t => [((errorLog aux).serialize, errorLog aux)].lookup t

theorem hasPlace_sampleFrame (line : Text) : (sampleFrame line).HasPlace := by
  have hfile : (sampleFrame line).field "file" = some "f.cpp" := by with_unfolding_all rfl
  have hline : (sampleFrame line).field "line" = some line := by with_unfolding_all rfl
  exact ⟨by simp [hfile], by simp [hline]⟩

theorem serialize_ne_nil (aux : List AuxText) : (errorLog aux).serialize ≠ [] := by
  have hopen : ("<" : Text) ≠ [] := by with_unfolding_all decide
  rw [errorLog, Xml.serialize]
  simp [hopen]

section Sample

variable {aux : List AuxText} (haux : aux = [releaseText] ∨ aux = [releaseText, allocationText])
include haux

theorem memcheckLog_sample :
    MemcheckLog "/home/pkg" "f/log" [sampleError aux] (errorLog aux) where
  named := by rcases haux with rfl | rfl <;> with_unfolding_all rfl
  once := by with_unfolding_all decide
  errors := by rcases haux with rfl | rfl <;> with_unfolding_all rfl
  placed := by
    have hframes : ∀ s ∈ (sampleError aux).stacks, ∀ f ∈ s, ∃ line, f = sampleFrame line := by
      rcases haux with rfl | rfl <;>
        simp [sampleError, releaseText, allocationText, MemError.stacks, MemError.auxStacks]
    intro e he s hs f hf _
    rw [List.mem_singleton.mp he] at hs
    obtain ⟨line, rfl⟩ := hframes s hs f hf
    exact hasPlace_sampleFrame line

theorem serialize_sample : (errorLog aux).serialize.OneLine ∧
    ("/home/pkg" ++ "/src" : Text) <:+: (errorLog aux).serialize := by
  rcases haux with rfl | rfl <;> decide +kernel

theorem readErrorLog_parsed :
    (readErrorLog aux).read (Text.join "\n" (parsedLines (errorLog aux).serialize.lines)) = some (errorLog aux) := by
  rw [join_parsedLines_line (serialize_sample haux).1 (serialize_ne_nil aux)]
  exact List.lookup_cons_self

theorem mentioned_sample : Mentioned ("/home/pkg" ++ "/src" : Text) (errorLog aux).serialize := by
  rw [Mentioned, Text.lines_of_not_mem (serialize_sample haux).1 (serialize_ne_nil aux)]
  exact ⟨_, List.mem_singleton_self _, (serialize_sample haux).2⟩

end Sample

theorem ordinary_sampleDir : ∀ c ∈ ("/home/pkg" : Text) ++ "/src", c ∉ Ere.special ∧ c ≠ '\'' := by
  decide +kernel

/-- With the release alone the error is attributed well. -/
theorem wellAttributed_release : WellAttributed ("/home/pkg" ++ "/src") (sampleError [releaseText]) := by
  have hstack : (sampleError [releaseText]).addressStack = some [sampleFrame "6"] := rfl
  have haux : (sampleError [releaseText]).auxStacks = [[sampleFrame "6"]] := rfl
  constructor
  · rw [MemError.searched, hstack, haux]
    simp
  · rw [hstack, haux]
    simp

theorem read_attributed_sample :
    Attributed (readErrorLog [releaseText]) ("/home/pkg" ++ "/src") (errorLog [releaseText]).serialize
      [sampleError [releaseText]] ∧
    (Attributed (readErrorLog [releaseText, allocationText]) ("/home/pkg" ++ "/src")
        (errorLog [releaseText, allocationText]).serialize [sampleError [releaseText, allocationText]] ↔
      ∀ e ∈ [sampleError [releaseText, allocationText]], WellAttributed ("/home/pkg" ++ "/src") e) := by
  constructor
  · have hiff := read_attributed_iff (memcheckLog_sample (Or.inl rfl)) ordinary_sampleDir
      (readErrorLog_parsed (Or.inl rfl))
    exact hiff.1 (mentioned_sample (Or.inl rfl)) (by simpa using wellAttributed_release)
  · have hiff := read_attributed_iff (memcheckLog_sample (Or.inr rfl)) ordinary_sampleDir
      (readErrorLog_parsed (Or.inr rfl))
    exact hiff.2.1 (mentioned_sample (Or.inr rfl)) (by simp)

/-- The release of a block is reported as a place of the error, with the trace of the allocation. -/
theorem read_attributed_fails : ¬ ∀ (xml2 : Xml2) (p rest log : Text) (errs : List MemError)
    (tree : Xml), MemcheckLog p rest errs tree → (∀ c ∈ p ++ "/src", c ∉ Ere.special ∧ c ≠ '\'') →
      xml2.read (Text.join "\n" (parsedLines log.lines)) = some tree →
      (∃ e ∈ errs, ∃ s ∈ e.stacks, ∃ f ∈ s, f.LiesIn (p ++ "/src")) →
      Attributed xml2 (p ++ "/src") log errs := by
  intro hall
  have hlog := memcheckLog_sample (Or.inr rfl)
  have hparsed := readErrorLog_parsed (Or.inr rfl)
  have hlies : (sampleFrame "7").LiesIn ("/home/pkg" ++ "/src") := by decide +kernel
  have hattr := hall _ _ _ _ _ _ hlog ordinary_sampleDir hparsed
    ⟨_, List.mem_singleton_self _, [sampleFrame "7"], by simp [sampleError, MemError.stacks], sampleFrame "7", by simp,
      hlies⟩
  have hrows := (attributed_iff_of_mentioned hlog ordinary_sampleDir hparsed (mentioned_sample (Or.inr rfl))).mp hattr
  exact absurd hrows (by decide +kernel)

end RcppDeepState
