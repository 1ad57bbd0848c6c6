import Mathlib.Algebra.Order.BigOperators.Group.List
import Mathlib.Algebra.Order.Group.Nat
import Mathlib.Data.List.Perm.Basic
import RcppDeepState.Analysis.Inputs

/-!
# Reading the arguments back

The harness saves an argument under its name, with a suffix when `qs` writes it. Both analyses tell the
writer from the path of the file, and take the suffix off with a pattern whose dot stands for any character.
-/

namespace RcppDeepState

open Command FileSystem Overlay

/-! ## What the harness saves -/

/-- What the harness saves for an argument with that value. -/
def dumpContent (value : Argument → Text) (a : Argument) : Content :=
  if a.key = "mat" then .text (value a) else .qs (value a)

/-- The files a run leaves that has saved all its arguments. -/
def dumpedFiles (value : Argument → Text) (args : List Argument) : List (Text × Content) :=
  args.map fun a => (dumpFile a, dumpContent value a)

/-- The argument under its own name, from the reader that belongs to its writer. -/
def recovered (value : Argument → Text) (a : Argument) : Text × InputValue :=
  (a.name, if a.key = "mat" then .scan (value a) else .qread (value a))

/-- There is one entry for each argument, and no other. -/
def Recovers (value : Argument → Text) (args : List Argument) (inputs : List (Text × InputValue)) : Prop :=
  inputs.Perm (args.map (recovered value))

/-- The file of the argument is read as it was written: a matrix when no directory above it has `.qs` in its
name, everything else when no character in the name of the argument is followed by `qs`. -/
def ReadAsWritten (h : Host) (fn : Text) (a : Argument) : Prop :=
  if a.key = "mat" then ¬ (".qs" : Text) <:+: h.file (inputsPath fn) else ¬ ("qs" : Text) <:+: a.name.tail

/-- The statements of the harness call the writer of the type on the path of the file. -/
def SavesTo (h : Host) (fn : Text) (a : Argument) : Prop :=
  ∃ s t, saveInputs (h.file (inputsPath fn)) a =
      s ++ ("\"" ++ h.file (inputsPath fn ++ [dumpFile a]) ++ "\"") ++ t ∧
    (if a.key = "mat" then ("std::ofstream" : Text) else "qs::c_qsave") <+: s

section Files

variable {h : Host} {fn : Text} {a b : Argument} {value : Argument → Text} {args : List Argument}

theorem saveInputs_savesTo (h : Host) (fn : Text) (a : Argument) : SavesTo h fn a := by
  unfold SavesTo
  have hpath : h.file (inputsPath fn ++ [dumpFile a]) = h.file (inputsPath fn) ++ "/" ++ dumpFile a := by
    simp [Host.file]
  rw [hpath]
  unfold saveInputs dumpFile
  split
  · exact ⟨"std::ofstream " ++ a.name ++ "_stream;\n  " ++ a.name ++ "_stream.open(", _,
      by simp [Text.ofString_eq]; rfl, by simp [Text.ofString_eq]⟩
  · exact ⟨"qs::c_qsave(" ++ a.name ++ ",", _, by simp [Text.ofString_eq]; rfl, by simp [Text.ofString_eq]⟩

theorem stem_dumpFile (ha : Identifier a.name) : stem (dumpFile a) = a.name := by
  have hplain : ∀ c ∈ a.name, decide (c ≠ '.') = true := by
    intro c hc
    rw [decide_eq_true_eq]
    rintro rfl
    exact ha.not_mem (by decide) hc
  have hdot : (".qs" : Text) = ['.', 'q', 's'] := by with_unfolding_all decide
  unfold stem dumpFile
  split
  · exact List.takeWhile_eq_self_iff.mpr hplain
  · rw [List.takeWhile_append_of_pos hplain, hdot]
    simp

theorem visible_dumpFile (ha : Identifier a.name) : visible (dumpFile a) := by
  obtain ⟨c, s, hcs, hc⟩ := ha.exists_cons
  have hne : c ≠ '.' := by
    rintro rfl
    cases hc
  unfold visible dumpFile
  rw [hcs]
  split <;> simpa using hne

/-- Different arguments are saved in different files. -/
theorem nodup_dumpFiles (hident : ∀ a ∈ args, Identifier a.name) (hnodup : (args.map (·.name)).Nodup) :
    (args.map dumpFile).Nodup := by
  refine List.Nodup.map_on ?_ (List.Nodup.of_map _ hnodup)
  intro a ha b hb hab
  refine List.inj_on_of_nodup_map hnodup ha hb ?_
  rw [← stem_dumpFile (hident a ha), hab, stem_dumpFile (hident b hb)]

end Files

/-! ## Reading them -/

section Read

variable {h : Host} {fn : Text} {a : Argument} {value : Argument → Text} {args : List Argument}

/-- The path of an argument file shows the suffix when the file has it, or a directory above. -/
theorem qs_infix_file (ha : Identifier a.name) : (".qs" : Text) <:+: h.file (inputsPath fn ++ [dumpFile a]) ↔
    a.key ≠ "mat" ∨ (".qs" : Text) <:+: h.file (inputsPath fn) := by
  have hpath : h.file (inputsPath fn ++ [dumpFile a]) = h.file (inputsPath fn) ++ '/' :: dumpFile a := by
    simp [Host.file, Text.ofString_eq]
  have hname : ¬ (".qs" : Text) <:+: a.name := fun hi =>
    ha.not_mem (c := '.') (by decide) (hi.subset (by with_unfolding_all decide))
  rw [hpath, Text.infix_append_cons_of_not_mem (by with_unfolding_all decide), dumpFile]
  by_cases hmat : a.key = "mat"
  · simp [hmat, hname]
  · simp [hmat, (List.suffix_append a.name (".qs" : Text)).isInfix]

/-- A matrix below a directory with the suffix in its name is taken for a `qs` file. -/
theorem inputValue_dumpFile (ha : Identifier a.name) :
    inputValue h fn (dumpFile a) (some (dumpContent value a)) =
      if a.key = "mat" ∧ (".qs" : Text) <:+: h.file (inputsPath fn) then .error "QS format not detected"
      else .ok (reportedName h fn (dumpFile a), (recovered value a).2) := by
  have hname : fileName (inputsPath fn ++ [dumpFile a]) = dumpFile a := by simp [fileName]
  unfold inputValue readInput reportedName dumpContent recovered
  rw [hname]
  simp only [qs_infix_file ha]
  by_cases hmat : a.key = "mat"
  · by_cases hqs : (".qs" : Text) <:+: h.file (inputsPath fn) <;> simp [hmat, hqs]
  · simp [hmat]

theorem reportedName_eq (ha : Identifier a.name) : reportedName h fn (dumpFile a) =
    if a.key = "mat" ∧ ¬ (".qs" : Text) <:+: h.file (inputsPath fn) then a.name else stripQs a.name := by
  unfold reportedName
  simp only [qs_infix_file ha]
  unfold dumpFile
  by_cases hmat : a.key = "mat"
  · by_cases hqs : (".qs" : Text) <:+: h.file (inputsPath fn) <;> simp [hmat, hqs]
  · simp [hmat, stripQs_append_suffix]

theorem length_reportedName_le (ha : Identifier a.name) :
    (reportedName h fn (dumpFile a)).length ≤ a.name.length := by
  rw [reportedName_eq ha]
  split
  · exact Nat.le_refl _
  · exact length_stripQs_le _

theorem reportedName_eq_of_length (ha : Identifier a.name)
    (hlen : (reportedName h fn (dumpFile a)).length = a.name.length) : reportedName h fn (dumpFile a) = a.name := by
  rw [reportedName_eq ha] at hlen ⊢
  split
  · rfl
  · rename_i hmat
    rw [if_neg hmat] at hlen
    exact length_stripQs_eq hlen

/-- An argument that can be read is read as it was written when its name comes back whole. -/
theorem readAsWritten_iff (ha : Identifier a.name) : ReadAsWritten h fn a ↔
    ¬ (a.key = "mat" ∧ (".qs" : Text) <:+: h.file (inputsPath fn)) ∧
      reportedName h fn (dumpFile a) = a.name := by
  rw [reportedName_eq ha]
  unfold ReadAsWritten
  by_cases hmat : a.key = "mat"
  · by_cases hqs : (".qs" : Text) <:+: h.file (inputsPath fn) <;> simp [hmat, hqs]
  · simp [hmat, stripQs_eq_self_iff]

/-- Two lists of names that agree up to order, one name never longer than the other, agree. -/
theorem length_eq_of_perm {α β : Type} {f g : α → List β} {xs : List α} (hperm : (xs.map f).Perm (xs.map g))
    (hle : ∀ x ∈ xs, (f x).length ≤ (g x).length) : ∀ x ∈ xs, (f x).length = (g x).length := by
  intro x hx
  by_contra hne
  have hlt := List.sum_lt_sum (fun x => (f x).length) (fun x => (g x).length) hle
    ⟨x, hx, Nat.lt_of_le_of_ne (hle x hx) hne⟩
  have hsum := (hperm.map List.length).sum_eq
  rw [List.map_map, List.map_map] at hsum
  exact absurd hsum (Nat.ne_of_lt hlt)

section Collected

variable {names : List Text} {m : Text → Option Content} {values : List (Text × InputValue)}

/-- All the files together are read into the values of the arguments, each under the name that is reported. -/
theorem values_of_dumped (hident : ∀ a ∈ args, Identifier a.name) (hperm : names.Perm (args.map dumpFile))
    (hm : ∀ a ∈ args, m (dumpFile a) = some (dumpContent value a))
    (hvalues : (names.mapM fun n => inputValue h fn n (m n)) = .ok values) :
    (∀ a ∈ args, ¬ (a.key = "mat" ∧ (".qs" : Text) <:+: h.file (inputsPath fn))) ∧
      values.Perm (args.map fun a => (reportedName h fn (dumpFile a), (recovered value a).2)) := by
  obtain ⟨values', hall, hperm'⟩ := List.perm_comp_forall₂ hperm.symm (mapM_eq_ok.mp hvalues)
  rw [List.forall₂_map_left_iff] at hall
  have hone : ∀ a ∈ args, ∀ v, inputValue h fn (dumpFile a) (m (dumpFile a)) = .ok v →
      ¬ (a.key = "mat" ∧ (".qs" : Text) <:+: h.file (inputsPath fn)) ∧
        v = (reportedName h fn (dumpFile a), (recovered value a).2) := by
    intro a ha v hv
    rw [hm a ha, inputValue_dumpFile (hident a ha)] at hv
    split at hv
    · cases hv
    · rename_i hread
      cases hv
      exact ⟨hread, rfl⟩
  have hboth : List.Forall₂ (fun (a : Argument) v => ¬ (a.key = "mat" ∧ (".qs" : Text) <:+: h.file (inputsPath fn)) ∧
      v = (reportedName h fn (dumpFile a), (recovered value a).2)) args values' :=
    ((List.forall₂_and_left _ _).mpr ⟨fun _ ha => ha, hall⟩).imp fun a v hav => hone a hav.1 v hav.2
  refine ⟨fun a ha => ?_, hperm'.symm.trans (List.Perm.of_eq ?_)⟩
  · obtain ⟨v, -, hv⟩ := exists_of_mem_left hboth ha
    exact hv.1
  · refine Eq.symm (List.forall₂_eq_eq_eq ▸ ?_)
    rw [List.forall₂_map_left_iff]
    exact hboth.imp fun a v hav => hav.2.symm

/-- Reading some of the argument files gives the arguments exactly when all of them are read, and each as it was
written. -/
theorem collected_recovers_iff (hident : ∀ a ∈ args, Identifier a.name) (hnodup : (args.map (·.name)).Nodup)
    (hnames : names.Nodup) (hsub : ∀ n ∈ names, ∃ a ∈ args, n = dumpFile a)
    (hm : ∀ a ∈ args, m (dumpFile a) = some (dumpContent value a)) :
    (∃ values, (names.mapM fun n => inputValue h fn n (m n)) = .ok values ∧
        Recovers value args (values.foldl assignInput [])) ↔
      (∀ a ∈ args, ReadAsWritten h fn a) ∧ ∀ a ∈ args, dumpFile a ∈ names := by
  have hfiles := nodup_dumpFiles hident hnodup
  have hsubset : names ⊆ args.map dumpFile := by
    intro n hn
    obtain ⟨a, ha, rfl⟩ := hsub n hn
    exact List.mem_map_of_mem ha
  have hfst : (args.map (recovered value)).map (·.1) = args.map (·.name) := by
    rw [List.map_map]
    rfl
  constructor
  · rintro ⟨values, hvalues, hrec⟩
    -- No value is lost, so there are as many files as arguments.
    have hin : args.map (recovered value) ⊆ values := fun e he =>
      (mem_foldl_assignInput (hrec.mem_iff.mpr he)).resolve_left (by simp)
    have hsubperm := List.subperm_of_subset (List.Nodup.of_map _ (hfst.symm ▸ hnodup)) hin
    have hlen : values.length = names.length := (List.Forall₂.length_eq (mapM_eq_ok.mp hvalues)).symm
    have hle := hsubperm.length_le
    rw [List.length_map, hlen] at hle
    have hperm : names.Perm (args.map dumpFile) :=
      (List.subperm_of_subset hnames hsubset).perm_of_length_le (by rw [List.length_map]; exact hle)
    obtain ⟨hread, hvals⟩ := values_of_dumped hident hperm hm hvalues
    have hsame : (args.map fun a => reportedName h fn (dumpFile a)).Perm (args.map (·.name)) := by
      have hall := hsubperm.perm_of_length_le (by rw [hlen, hperm.length_eq, List.length_map, List.length_map])
      have hmap := (hvals.symm.trans hall.symm).map (·.1)
      rw [hfst, List.map_map] at hmap
      exact hmap
    have hwhole := length_eq_of_perm hsame fun a ha => length_reportedName_le (hident a ha)
    refine ⟨fun a ha => (readAsWritten_iff (hident a ha)).mpr ⟨hread a ha, ?_⟩,
      fun a ha => hperm.mem_iff.mpr (List.mem_map_of_mem ha)⟩
    exact reportedName_eq_of_length (hident a ha) (hwhole a ha)
  · rintro ⟨hwritten, hall⟩
    have hperm : names.Perm (args.map dumpFile) :=
      (List.perm_ext_iff_of_nodup hnames hfiles).mpr fun n => ⟨fun hn => hsubset hn, fun hn => by
        obtain ⟨a, ha, rfl⟩ := List.mem_map.mp hn
        exact hall a ha⟩
    have hread : ∀ n ∈ names, ∃ v, inputValue h fn n (m n) = .ok v := by
      intro n hn
      obtain ⟨a, ha, rfl⟩ := hsub n hn
      rw [hm a ha, inputValue_dumpFile (hident a ha),
        if_neg ((readAsWritten_iff (hident a ha)).mp (hwritten a ha)).1]
      exact ⟨_, rfl⟩
    obtain ⟨values, hvalues⟩ := exists_mapM_eq_ok.mpr hread
    obtain ⟨-, hvals⟩ := values_of_dumped hident hperm hm hvalues
    have hrecovered : values.Perm (args.map (recovered value)) := by
      refine hvals.trans (List.Perm.of_eq (List.map_congr_left fun a ha => ?_))
      rw [((readAsWritten_iff (hident a ha)).mp (hwritten a ha)).2]
      rfl
    refine ⟨values, hvalues, ?_⟩
    have hdistinct : (values.map (·.1)).Nodup := by
      rw [(hrecovered.map _).nodup_iff, hfst]
      exact hnodup
    rw [Recovers, foldl_assignInput_of_nodup (by rw [List.nil_append]; exact hdistinct), List.nil_append]
    exact hrecovered

end Collected

end Read

/-! ## The inputs directory after a run -/

section Dumped

variable {h : Host} {fn : Text} {value : Argument → Text} {args : List Argument} {o : ReplayOutcome} {m : Inputs}

theorem lookup_eq_some_of_mem {k : Text} {c : Content} {entries : List (Text × Content)}
    (hnodup : (entries.map (·.1)).Nodup) (hmem : (k, c) ∈ entries) : entries.lookup k = some c := by
  induction entries with
  | nil => cases hmem
  | cons e es ih =>
      rw [List.map_cons, List.nodup_cons] at hnodup
      rw [List.lookup_cons]
      rcases List.mem_cons.mp hmem with rfl | hes
      · rw [beq_self_eq_true]
      · have hne : k ≠ e.1 := by
          rintro rfl
          exact hnodup.1 (List.mem_map.mpr ⟨_, hes, rfl⟩)
        rw [beq_eq_false_iff_ne.mpr hne]
        exact ih hnodup.2 hes

/-- A run that saves all its arguments leaves the file of each with its value. -/
theorem overlay_dumped (hident : ∀ a ∈ args, Identifier a.name) (hnodup : (args.map (·.name)).Nodup)
    (hdumps : o.dumped = dumpedFiles value args) {a : Argument} (ha : a ∈ args) :
    overlay (dumpedInto true o) m (dumpFile a) = some (some (dumpContent value a)) := by
  refine overlay_of_some ?_
  have hkeys : (o.dumped.reverse.map (·.1)).Nodup := by
    rw [List.map_reverse, List.nodup_reverse, hdumps, dumpedFiles, List.map_map]
    exact nodup_dumpFiles hident hnodup
  have hmem : (dumpFile a, dumpContent value a) ∈ o.dumped.reverse := by
    rw [List.mem_reverse, hdumps]
    exact List.mem_map_of_mem ha
  rw [dumpedInto, if_pos ⟨rfl, visible_dumpFile (hident a ha)⟩, lookup_eq_some_of_mem hkeys hmem]
  rfl

/-- Where only arguments lay before, only arguments lie afterwards. -/
theorem exists_of_overlay_dumped (hdumps : o.dumped = dumpedFiles value args)
    (honly : ∀ x, (m x).isSome → ∃ a ∈ args, x = dumpFile a) {x : Text}
    (hx : (overlay (dumpedInto true o) m x).isSome) : ∃ a ∈ args, x = dumpFile a := by
  obtain ⟨c, hc⟩ := Option.isSome_iff_exists.mp hx
  rcases overlay_eq_some hc with hd | ⟨-, hm⟩
  · unfold dumpedInto at hd
    split at hd
    · obtain ⟨e, he, -⟩ := Option.map_eq_some_iff.mp hd
      obtain ⟨l₁, l₂, hl, -⟩ := List.lookup_eq_some_iff.mp he
      have hmem : (x, e) ∈ o.dumped := by
        rw [← List.mem_reverse, hl]
        simp
      rw [hdumps] at hmem
      obtain ⟨a, ha, hae⟩ := List.mem_map.mp hmem
      exact ⟨a, ha, (congrArg Prod.fst hae).symm⟩
    · cases hd
  · exact honly x (by rw [hm]; rfl)

end Dumped

/-! ## The two analyses -/

section Analyses

variable {xml2 : Xml2} {h : Host} {fn n : Text} {sep : Sep} {value : Argument → Text}
  {args : List Argument} {w : World}

/-- A replay under valgrind that saves all its arguments, over an inputs directory with no other files. -/
structure DumpingReplay (xml2 : Xml2) (fn : Text) (sep : Sep) (n : Text) (o : ReplayOutcome)
    (value : Argument → Text) (args : List Argument) (fs : FileSystem Content) : Prop where
  file : fs.fileExists (outputDir fn sep ++ [n]) = true
  folder : (fs.mkdir (logFolder (outputDir fn sep ++ [n]))).dirExists (logFolder (outputDir fn sep ++ [n])) = true
  inputs : fs.dirExists (inputsPath fn) = true
  only : ∀ x, (inputsIn fn fs x).isSome → ∃ a ∈ args, x = dumpFile a
  dumps : o.dumped = dumpedFiles value args
  sound : SoundRun xml2 o

/-- Both halves of a pair about every argument. -/
theorem forall_and_mem {p q : Argument → Prop} : ((∀ a ∈ args, p a) ∧ ∀ a ∈ args, q a) ↔ ∀ a ∈ args, p a ∧ q a :=
  ⟨fun hpq a ha => ⟨hpq.1 a ha, hpq.2 a ha⟩, fun hpq => ⟨fun a ha => (hpq a ha).1, fun a ha => (hpq a ha).2⟩⟩

/-- A replay gives its arguments back exactly when the path of its inputs directory, taken as a pattern, stands
for itself, and each argument is read as it was written. -/
theorem analyzeFile_recovers_iff {o : ReplayOutcome} {packageName : Option Text}
    (hident : ∀ a ∈ args, Identifier a.name) (hnodup : (args.map (·.name)).Nodup)
    (hr : DumpingReplay xml2 fn sep n o value args w.fs) :
    (∃ row w', deepstateAnalyzeFile xml2 h o packageName (outputDir fn sep ++ [n]) w = .ok (some row) w' ∧
        Recovers value args row.inputs) ↔ ∀ a ∈ args, ReadAsWritten h fn a ∧ h.globs (inputsPath fn) = true := by
  rcases @analyzeFile_run xml2 h fn n sep o packageName w hr.file with ⟨hfolder, -⟩ | ⟨w', hreplayed, hres⟩
  · rw [hr.folder] at hfolder
    cases hfolder
  · have hin := hreplayed.inputs
    rw [hr.inputs] at hin
    have hnames : ∀ x ∈ sysGlob h w'.fs (inputsPath fn), ∃ a ∈ args, x = dumpFile a := by
      intro x hx
      rw [mem_sysGlob_inputs, hin] at hx
      exact exists_of_overlay_dumped hr.dumps hr.only hx.2
    have hdumped : ∀ a ∈ args, inputsIn fn w'.fs (dumpFile a) = some (some (dumpContent value a)) := by
      intro a ha
      rw [hin]
      exact overlay_dumped hident hnodup hr.dumps ha
    have hlisted : (∀ a ∈ args, dumpFile a ∈ sysGlob h w'.fs (inputsPath fn)) ↔
        ∀ a ∈ args, h.globs (inputsPath fn) = true := by
      refine forall₂_congr fun a ha => ?_
      rw [mem_sysGlob_inputs, hdumped a ha]
      exact and_iff_left rfl
    have hiff := @collected_recovers_iff h fn value args _ (fun x => w'.fs.read (inputsPath fn ++ [x])) hident hnodup
      (nodup_sysGlob h w'.fs (inputsPath fn)) hnames fun a ha => inputsIn_eq_some (hdumped a ha)
    rw [hlisted, forall_and_mem] at hiff
    rw [← hiff]
    constructor
    · rintro ⟨row, w₁, hok, hrec⟩
      rw [hok] at hres
      cases hres with
      | returns values logtable hgood hvalues => exact ⟨values, hvalues, hrec⟩
    · rintro ⟨values, hvalues, hrec⟩
      generalize deepstateAnalyzeFile xml2 h o packageName (outputDir fn sep ++ [n]) w = r at hres
      cases hres with
      | stops e hbad => exact absurd ⟨hr.sound, readInputs_isOk.mp ⟨values, hvalues⟩⟩ hbad
      | returns values' logtable hgood hvalues' =>
          have hsame : values' = values := Except.ok.inj (hvalues'.symm.trans hvalues)
          exact ⟨_, _, rfl, hsame ▸ hrec⟩

/-! ### Fuzzing under valgrind -/

theorem fuzzFolder_ne_inputs (fn : Text) (seed timeLimit : Int) : fuzzFolder fn seed timeLimit ≠ inputsPath fn := by
  intro hp
  have hmem : '_' ∈ pastedInt timeLimit ++ ("_" : Text) ++ pastedInt seed :=
    List.mem_append_left _ (List.mem_append_right _ (by with_unfolding_all decide))
  have hname : pastedInt timeLimit ++ ("_" : Text) ++ pastedInt seed = "inputs" := by
    simpa [fuzzFolder, inputsPath] using hp
  rw [hname] at hmem
  exact absurd hmem (by with_unfolding_all decide)

theorem fuzzFolder_append_ne (fn x y : Text) (seed timeLimit : Int) :
    fuzzFolder fn seed timeLimit ++ [x] ≠ inputsPath fn ++ [y] :=
  fun hp => fuzzFolder_ne_inputs fn seed timeLimit (List.append_inj_left' hp rfl)

theorem not_compileTouches_inputs : ¬ CompileTouches fn sep (inputsPath fn) := by
  rintro (⟨x, hx, ho⟩ | hx)
  · obtain ⟨-, rfl⟩ := funPath_append_inj.mp hx
    exact absurd ho (by with_unfolding_all decide)
  · rw [executablePath_eq] at hx
    exact buildPath_ne_inputsPath _ _ _ _ hx.symm

theorem not_compileTouches_input (x : Text) : ¬ CompileTouches fn sep (inputsPath fn ++ [x]) := by
  rintro (⟨y, hy, -⟩ | hy)
  · simp [inputsPath] at hy
  · simp [inputsPath, executablePath] at hy

/-- A run under valgrind that saves all its arguments: it is compiled, finds the test in the harness, comes to
its end and leaves a log that can be read. -/
structure DumpingFuzz (xml2 : Xml2) (fn : Text) (seed timeLimit : Int) (o : ReplayOutcome)
    (value : Argument → Text) (args : List Argument) (fs : FileSystem Content) : Prop where
  directory : fs.fileExists (funPath fn) = true
  fuzzable : Fuzzable fs fn
  time : 0 < timeLimit
  runner : ((readText fs (harnessPath fn .infun)).bind runnerName).isSome
  inputs : fs.dirExists (inputsPath fn) = true
  only : ∀ x, (inputsIn fn fs x).isSome → ∃ a ∈ args, x = dumpFile a
  dumps : o.dumped = dumpedFiles value args
  ends : ¬ o.fuzzingStops
  log : ∃ t, deepstateReadValgrindXml xml2 o.xml = .ok t

section Fuzz

variable {seed timeLimit : Int} {o : ReplayOutcome} {runner : Text} {names : List Text}

/-- A run that comes to its end reads the named files out of what it leaves. -/
theorem runFuzzAnalysis_ok_iff {P : List (Text × InputValue) → Prop} (hends : ¬ o.fuzzingStops)
    (hlog : ∃ t, deepstateReadValgrindXml xml2 o.xml = .ok t) :
    (∃ inputs logtable w', runFuzzAnalysis xml2 h o fn runner seed timeLimit names w =
        .ok (inputs, logtable) w' ∧ P inputs) ↔
      ∃ values, (names.mapM fun x => inputValue h fn x
        ((fuzzAnalyzeEffects o fn seed timeLimit w.fs).read (inputsPath fn ++ [x]))) = .ok values ∧
          P (values.foldl assignInput []) := by
  obtain ⟨t, ht⟩ := hlog
  have hrun : ∃ log, runFuzzAnalysis xml2 h o fn runner seed timeLimit names w =
      (collectInputs h (inputsPath fn) (fuzzFolder fn seed timeLimit) names >>= fun inputs =>
        (pure (inputs, t) : Program _)) ⟨fuzzAnalyzeEffects o fn seed timeLimit w.fs, log⟩ := by
    unfold runFuzzAnalysis
    rw [ite_apply]
    simp only [message_bind_apply, record_bind_apply, files_bind_apply, onFiles_bind_apply, if_neg hends, ht]
    split
    · exact ⟨_, rfl⟩
    · exact ⟨_, rfl⟩
  obtain ⟨log, hrun⟩ := hrun
  obtain ⟨w', -, hcollect⟩ := foldlM_collectInput (h := h) (fuzzFolder_append_ne fn · · seed timeLimit) names []
    ⟨fuzzAnalyzeEffects o fn seed timeLimit w.fs, log⟩
  rw [hrun, bind_apply, collectInputs, hcollect]
  unfold inputValue
  cases names.mapM fun x => readInput h (inputsPath fn ++ [x])
      ((fuzzAnalyzeEffects o fn seed timeLimit w.fs).read (inputsPath fn ++ [x])) with
  | error e =>
      constructor
      · rintro ⟨_, _, _, hok, _⟩
        cases hok
      · rintro ⟨_, hok, _⟩
        cases hok
  | ok values =>
      constructor
      · rintro ⟨_, _, _, hok, hp⟩
        cases hok
        exact ⟨values, rfl, hp⟩
      · rintro ⟨_, hok, hp⟩
        cases hok
        exact ⟨_, t, w', rfl, hp⟩

/-- What the run leaves in the inputs directory. -/
theorem inputsIn_fuzzAnalyzeEffects (fs : FileSystem Content) :
    inputsIn fn (fuzzAnalyzeEffects o fn seed timeLimit fs) =
      overlay (dumpedInto (fs.dirExists (inputsPath fn)) o) (inputsIn fn fs) := by
  have hlogs : Frame (fun p => ∃ x, p = fuzzFolder fn seed timeLimit ++ [x]) fs
      (writeInto (fuzzFolder fn seed timeLimit)
        [(pastedInt seed ++ "_log", .text o.xml), ("valgrind_log_text", .text o.printed)] fs) :=
    frame_writeInto (fun x => ⟨x, rfl⟩) _
  have hin := @inputsIn_congr fn _ _ fun x => hlogs (inputsPath fn ++ [x]) (by
    rintro ⟨y, hy⟩
    exact fuzzFolder_append_ne _ _ _ _ _ hy.symm)
  have hdir := hlogs.dirExists (p := inputsPath fn) (by
    rintro ⟨y, hy⟩
    have hlen := congrArg List.length hy
    simp [fuzzFolder, inputsPath] at hlen)
  rw [fuzzAnalyzeEffects, inputsIn_writeInto, hin, hdir]

variable {out : FuzzAnalyzeOutcome}

/-- The run starts from the inputs directory as it was, with the names that were in it. -/
theorem fuzzFunAnalyze_apply (hr : DumpingFuzz xml2 fn seed timeLimit out.run value args w.fs) :
    ∃ runner names w₁, deepstateFuzzFunAnalyze xml2 h out fn seed timeLimit w =
        runFuzzAnalysis xml2 h out.run fn runner seed timeLimit names w₁ ∧
      names.Nodup ∧ (∀ x, x ∈ names ↔ h.globs (inputsPath fn) = true ∧ (inputsIn fn w.fs x).isSome) ∧
      inputsIn fn w₁.fs = inputsIn fn w.fs ∧ w₁.fs.dirExists (inputsPath fn) = true := by
  let w₀ : World := { w with fs := w.fs.mkdir (fuzzFolder fn seed timeLimit) }
  have hmk : Frame (· = fuzzFolder fn seed timeLimit) w.fs w₀.fs := frame_mkdir rfl
  have hfuzzable : Fuzzable w₀.fs fn := by
    have hkeeps : ∀ p, w.fs.fileExists p = true → w₀.fs.fileExists p = true := by
      intro p hp
      rw [fileExists_mkdir, hp, Bool.or_true]
    exact hr.fuzzable.imp (hkeeps _) fun hf => ⟨hkeeps _ hf.1, hkeeps _ hf.2⟩
  obtain ⟨-, w₁, hcompile⟩ | ⟨hnot, -⟩ := ensureCompiled_cases h out.build fn w₀
  · have heff := @effects_ensureCompiled h fn .infun out.build w₀
    rw [final_of_ok hcompile] at heff
    have hin₀ : inputsIn fn w₀.fs = inputsIn fn w.fs := inputsIn_congr fun x => hmk _ fun hx => by
      have hlen := congrArg List.length hx
      simp [fuzzFolder, inputsPath] at hlen
    have hin₁ : inputsIn fn w₁.fs = inputsIn fn w₀.fs :=
      inputsIn_congr fun x => heff.frame _ (not_compileTouches_input x)
    have hdir : w₁.fs.dirExists (inputsPath fn) = true := by
      rw [heff.frame.dirExists not_compileTouches_inputs, hmk.dirExists (fuzzFolder_ne_inputs fn _ _).symm]
      exact hr.inputs
    have htext : readText w₁.fs (harnessPath fn .infun) = readText w.fs (harnessPath fn .infun) := by
      have hnot : ¬ CompileTouches fn .infun (harnessPath fn .infun) := fun hp => not_fuzzTouches_harness (Or.inl hp)
      unfold readText
      rw [heff.frame.read hnot, read_mkdir]
    obtain ⟨runner, hrunner⟩ := Option.isSome_iff_exists.mp hr.runner
    refine ⟨runner, sysGlob h w₀.fs (inputsPath fn), w₁, ?_, nodup_sysGlob _ _ _, fun x => ?_, hin₁.trans hin₀, hdir⟩
    · have ht := hr.time
      rw [deepstateFuzzFunAnalyze, files_bind_apply, if_pos hr.directory]
      show (ensureCompiled h out.build fn .infun >>= _ : Program _) w₀ = _
      rw [bind_of_ok hcompile, if_neg (by omega), files_bind_apply, htext, hrunner]
    · rw [mem_sysGlob_inputs, hin₀]
  · exact absurd hfuzzable hnot

/-- Fuzzing under valgrind gives the arguments back exactly when each is read as it was written, out of a directory
whose path stands for itself, and its file was there before the run. -/
theorem fuzzFunAnalyze_recovers_iff (hident : ∀ a ∈ args, Identifier a.name) (hnodup : (args.map (·.name)).Nodup)
    (hr : DumpingFuzz xml2 fn seed timeLimit out.run value args w.fs) :
    (∃ inputs logtable w', deepstateFuzzFunAnalyze xml2 h out fn seed timeLimit w = .ok (inputs, logtable) w' ∧
        Recovers value args inputs) ↔
      (∀ a ∈ args, ReadAsWritten h fn a ∧ h.globs (inputsPath fn) = true) ∧
        ∀ a ∈ args, (inputsIn fn w.fs (dumpFile a)).isSome := by
  obtain ⟨runner, names, w₁, hrun, hnames, hmem, hin, hdir⟩ := fuzzFunAnalyze_apply (h := h) hr
  have hdumped : ∀ a ∈ args, inputsIn fn (fuzzAnalyzeEffects out.run fn seed timeLimit w₁.fs) (dumpFile a) =
      some (some (dumpContent value a)) := by
    intro a ha
    rw [inputsIn_fuzzAnalyzeEffects, hdir]
    exact overlay_dumped hident hnodup hr.dumps ha
  rw [hrun, runFuzzAnalysis_ok_iff hr.ends hr.log,
    collected_recovers_iff hident hnodup hnames (fun x hx => hr.only x ((hmem x).mp hx).2)
      fun a ha => inputsIn_eq_some (hdumped a ha)]
  rw [forall₂_congr fun a _ => hmem (dumpFile a), ← forall_and_mem, ← forall_and_mem, and_assoc]

end Fuzz

/-- The harness saves every argument under the path of its file, and both analyses give the arguments of a run back
exactly when each argument is read as it was written, out of a directory whose path stands for itself as a
pattern; fuzzing under valgrind also asks for every file to have been there before the run. -/
theorem inputs_read_back_iff {o : ReplayOutcome} {packageName : Option Text} {seed timeLimit : Int}
    {out : FuzzAnalyzeOutcome} {v : World} (hident : ∀ a ∈ args, Identifier a.name)
    (hnodup : (args.map (·.name)).Nodup) (hreplay : DumpingReplay xml2 fn sep n o value args w.fs)
    (hfuzz : DumpingFuzz xml2 fn seed timeLimit out.run value args v.fs) :
    (∀ a ∈ args, SavesTo h fn a) ∧
    ((∃ row w', deepstateAnalyzeFile xml2 h o packageName (outputDir fn sep ++ [n]) w = .ok (some row) w' ∧
        Recovers value args row.inputs) ↔ ∀ a ∈ args, ReadAsWritten h fn a ∧ h.globs (inputsPath fn) = true) ∧
      ((∃ inputs logtable v', deepstateFuzzFunAnalyze xml2 h out fn seed timeLimit v =
          .ok (inputs, logtable) v' ∧ Recovers value args inputs) ↔
        (∀ a ∈ args, ReadAsWritten h fn a ∧ h.globs (inputsPath fn) = true) ∧
          ∀ a ∈ args, (inputsIn fn v.fs (dumpFile a)).isSome) :=
  ⟨fun a _ => saveInputs_savesTo h fn a, analyzeFile_recovers_iff hident hnodup hreplay,
    fuzzFunAnalyze_recovers_iff hident hnodup hfuzz⟩

end Analyses

/-! ## A name with `qs` inside -/

/-- A compiled function whose argument an earlier run has dumped. -/
def compiledWorld : World :=
  ⟨(fuzzedWorld.fs.write (harnessPath "f" .infun) (.text "TEST(pkg, runner)\x7b")).write (objectPath "f" .infun)
    (.object []), []⟩

def argumentX : Argument := ⟨"NumericVector", "x"⟩

def argumentReqs : Argument := ⟨"NumericVector", "reqs"⟩

def argumentM : Argument := ⟨"mat", "m"⟩

/-- A run that saves these arguments, all with one value. -/
def savingRun (args : List Argument) : ReplayOutcome := ⟨dumpedFiles (fun _ => "2") args, 0, [], []⟩

theorem inputsIn_compiledWorld {x : Text} (hx : (inputsIn "f" compiledWorld.fs x).isSome) :
    x = dumpFile argumentX := by
  have hin := (mem_listFiles.mp (mem_listFiles_inputs.mpr hx)).1
  have hfile : dumpFile argumentX = "x.qs" := by with_unfolding_all decide
  have hnames : ("inputs" : Text) ≠ "f" ++ ("_output" ++ Sep.infun.suffix) := by with_unfolding_all decide
  rw [hfile]
  simpa [compiledWorld, fuzzedWorld, fileExists_write, fileExists_mkdirs, inputsPath, outputDir, funPath, testPath,
    harnessPath, objectPath, hnames] using hin

/-- The same function with a second saved file and the matrix of a second argument. -/
def matrixWorld : World :=
  ⟨(compiledWorld.fs.write (inputsPath "f" ++ [("m" : Text)]) (.text "0 0")).write
    (outputDir "f" .infun ++ [("1b.pass" : Text)]) (.testCase "0"), []⟩

def matrixValue (a : Argument) : Text := if a.key = "mat" then "1 0" else "2"

/-- A run that saves a vector and a matrix. -/
def matrixRun : ReplayOutcome := ⟨dumpedFiles matrixValue [argumentX, argumentM], 0, [], []⟩

theorem exists_of_inputsIn_matrixWorld {x : Text} (hx : (inputsIn "f" matrixWorld.fs x).isSome) :
    ∃ a ∈ [argumentX, argumentM], x = dumpFile a := by
  have hin := (mem_listFiles.mp (mem_listFiles_inputs.mpr hx)).1
  have hnames : ("inputs" : Text) ≠ "f" ++ ("_output" ++ Sep.infun.suffix) := by with_unfolding_all decide
  have hfile : dumpFile argumentM = "m" := by with_unfolding_all decide
  have hcases : x = "m" ∨ compiledWorld.fs.fileExists (inputsPath "f" ++ [x]) = true := by
    simpa [matrixWorld, fileExists_write, inputsPath, outputDir, funPath, testPath, hnames] using hin
  rcases hcases with rfl | hold
  · exact ⟨argumentM, by simp, hfile.symm⟩
  · have hvis := (mem_listFiles.mp (mem_listFiles_inputs.mpr hx)).2
    exact ⟨argumentX, by simp, inputsIn_compiledWorld (mem_listFiles_inputs.mp (mem_listFiles.mpr ⟨hold, hvis⟩))⟩

theorem sampleLog_read : deepstateReadValgrindXml (.ofParser fun _ => some sampleLog) [] = .ok (some []) := by
  decide +kernel

theorem dumpingReplay_sample {args : List Argument} (hx : argumentX ∈ args) :
    DumpingReplay (.ofParser fun _ => some sampleLog) "f" .infun "0a.crash" (savingRun args) (fun _ => "2") args
      compiledWorld.fs where
  file := by with_unfolding_all decide
  folder := by with_unfolding_all decide
  inputs := by with_unfolding_all decide
  only _ hin := ⟨argumentX, hx, inputsIn_compiledWorld hin⟩
  dumps := rfl
  sound := ⟨fun hs => hs.1 rfl, some [], sampleLog_read⟩

theorem inputs_read_back_sample :
    ((∃ row w', deepstateAnalyzeFile (.ofParser fun _ => some sampleLog) sampleHost matrixRun (some "pkg")
          (outputDir "f" .infun ++ [("1b.pass" : Text)]) matrixWorld = .ok (some row) w' ∧
        Recovers matrixValue [argumentX, argumentM] row.inputs) ↔
          ∀ a ∈ [argumentX, argumentM], ReadAsWritten sampleHost "f" a ∧ sampleHost.globs (inputsPath "f") = true) ∧
      ((∃ inputs logtable v', deepstateFuzzFunAnalyze (.ofParser fun _ => some sampleLog) sampleHost
          ⟨⟨true, true, .keeps⟩, matrixRun⟩ "f" 7 5 matrixWorld = .ok (inputs, logtable) v' ∧
          Recovers matrixValue [argumentX, argumentM] inputs) ↔
        (∀ a ∈ [argumentX, argumentM],
            ReadAsWritten sampleHost "f" a ∧ sampleHost.globs (inputsPath "f") = true) ∧
          ∀ a ∈ [argumentX, argumentM], (inputsIn "f" matrixWorld.fs (dumpFile a)).isSome) := by
  have hident : ∀ a ∈ [argumentX, argumentM], Identifier a.name := by
    intro a ha
    rcases List.mem_pair.mp ha with rfl | rfl
    · exact identifier_of_decide (by with_unfolding_all decide)
    · exact identifier_of_decide (by with_unfolding_all decide)
  refine (inputs_read_back_iff hident (by with_unfolding_all decide) ?_ ?_).2
  · exact
      { file := by with_unfolding_all decide
        folder := by with_unfolding_all decide
        inputs := by with_unfolding_all decide
        only := fun _ => exists_of_inputsIn_matrixWorld
        dumps := rfl
        sound := ⟨fun hs => hs.1 rfl, some [], sampleLog_read⟩ }
  · exact
      { directory := by with_unfolding_all decide
        fuzzable := Or.inl (by with_unfolding_all decide)
        time := by decide
        runner := by with_unfolding_all decide
        inputs := by with_unfolding_all decide
        only := fun _ => exists_of_inputsIn_matrixWorld
        dumps := rfl
        ends := fun hs => hs.1 rfl
        log := ⟨some [], sampleLog_read⟩ }

/-- The values of `x` and `reqs` come back under the names `x` and `r`. -/
theorem inputs_not_read_back : ¬ ∀ (xml2 : Xml2) (h : Host) (fn n : Text) (sep : Sep)
    (o : ReplayOutcome) (packageName : Option Text) (value : Argument → Text) (args : List Argument) (w : World),
    (∀ a ∈ args, Identifier a.name) → (args.map (·.name)).Nodup →
      DumpingReplay xml2 fn sep n o value args w.fs →
        ∃ row w', deepstateAnalyzeFile xml2 h o packageName (outputDir fn sep ++ [n]) w = .ok (some row) w' ∧
          Recovers value args row.inputs := by
  intro hall
  have hident : ∀ a ∈ [argumentX, argumentReqs], Identifier a.name := by
    intro a ha
    rcases List.mem_pair.mp ha with rfl | rfl
    · exact identifier_of_decide (by with_unfolding_all decide)
    · exact identifier_of_decide (by with_unfolding_all decide)
  have hnodup : ([argumentX, argumentReqs].map (·.name)).Nodup := by with_unfolding_all decide
  have hreplay := @dumpingReplay_sample [argumentX, argumentReqs] (by simp)
  have hwritten := (analyzeFile_recovers_iff hident hnodup hreplay).mp
    (hall _ sampleHost _ _ _ _ (some "pkg") _ _ _ hident hnodup hreplay)
  have hreqs := (hwritten argumentReqs (by simp)).1
  rw [ReadAsWritten, if_neg (by with_unfolding_all decide)] at hreqs
  exact hreqs (by with_unfolding_all decide)

end RcppDeepState
