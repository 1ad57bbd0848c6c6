import RcppDeepState.Analysis.Lemmas.RangeFile

/-!
# The ranges that are reported as missing

The harness is searched for the types that take a range, and of each type the first declaration without one is
reported, as often as the type occurs.
-/

namespace RcppDeepState

open Command

/-! ## Looking a harness through -/

/-- What is reported of a harness with those lines, in order. -/
def rangeReports (harnessLines : List Text) : List (Text × Text) :=
  (rangeElements harnessLines).filterMap fun c => (missingRange harnessLines c).map rangeVariable

def reportEvent (r : Text × Text) : Event := .message (.missingRange r.1 r.2)

section Check

variable {ls : List Text} {w : World}

theorem checkRanges_continue : checkRanges true ls w =
    .ok () { w with log := w.log ++ (rangeReports ls).map reportEvent } := by
  unfold checkRanges rangeReports
  generalize rangeElements ls = calls
  induction calls generalizing w with
  | nil => simp
  | cons c cs ih =>
    show (checkRange true ls c >>= fun _ => cs.forM (checkRange true ls)) w = _
    cases hmissing : missingRange ls c with
    | none =>
      have hone : checkRange true ls c w = .ok () w := by
        unfold checkRange
        rw [hmissing]
        rfl
      rw [bind_of_ok hone, ih, List.filterMap_cons_none (by rw [hmissing]; rfl)]
    | some l =>
      have hone : checkRange true ls c w = .ok () { w with log := w.log ++ [reportEvent (rangeVariable l)] } := by
        unfold checkRange
        rw [hmissing]
        rfl
      rw [bind_of_ok hone, ih, List.filterMap_cons_some (by rw [hmissing]; rfl), List.map_cons, List.append_assoc]
      rfl

theorem checkRanges_stop : checkRanges false ls w =
    match rangeReports ls with
    | [] => .ok () w
    | r :: _ => .error (rangeError r) { w with log := w.log ++ [reportEvent r] } := by
  unfold checkRanges rangeReports
  generalize rangeElements ls = calls
  induction calls with
  | nil => rfl
  | cons c cs ih =>
    show (checkRange false ls c >>= fun _ => cs.forM (checkRange false ls)) w = _
    cases hmissing : missingRange ls c with
    | none =>
      have hone : checkRange false ls c w = .ok () w := by
        unfold checkRange
        rw [hmissing]
        rfl
      rw [bind_of_ok hone, ih, List.filterMap_cons_none (by rw [hmissing]; rfl)]
    | some l =>
      have hone : checkRange false ls c w =
          .error (rangeError (rangeVariable l)) { w with log := w.log ++ [reportEvent (rangeVariable l)] } := by
        unfold checkRange
        rw [hmissing]
        rfl
      rw [bind_apply, hone, List.filterMap_cons_some (by rw [hmissing]; rfl)]

end Check

/-! ## The first line with a call -/

theorem missingRange_map (ls : List Text) (c : Text) :
    (missingRange ls c).map rangeVariable = (ls.filterMap (reportOf c)).head? := by
  unfold missingRange
  induction ls with
  | nil => rfl
  | cons l ls ih =>
    by_cases h : c ++ ("();" : Text) <:+: l
    · simp [reportOf, h]
    · rw [List.find?_cons_of_neg (by simpa using h), List.filterMap_cons_none (by rw [reportOf, if_neg h]), ih]

/-! ## What should be reported -/

/-- The parameters of a type that takes a range to which the user has given none. -/
def missingRanges (ranges : Ranges) (args : List Argument) : List Argument :=
  args.filter fun a => a.ranged && (ranges a).isNone

/-- What is declared under the parameter's own name. -/
def ownAssigned (a : Argument) : Text :=
  match rtypeOf a.key with
  | some _ => "  " ++ (a.name ++ "[0]")
  | none => "  " ++ (a.declaredType ++ (" " ++ a.name))

/-- The report of a parameter. -/
def ownReport (a : Argument) : Text × Text := (ownAssigned a, a.key)

/-- The harness lets every parameter without a range be reported once: no such parameter shares its type with
another or has `const` in its name, and the path of the inputs contains no call. -/
structure RangesTold (ranges : Ranges) (inputs : Text) (args : List Argument) (harnessLines : List Text) : Prop where
  own : ∀ a ∈ missingRanges ranges args, ¬ ("const" : Text) <:+: a.name
  alone : ∀ a ∈ missingRanges ranges args, ∀ b ∈ args, b.key = a.key → b = a
  path : ∀ a ∈ args, a.ranged = true → (∀ b ∈ missingRanges ranges args, b.key ≠ a.key) →
    ¬ generatorCall a.key <:+: inputs
  extra : ∀ c, lineCall inputs = some c → ∀ l ∈ harnessLines, ¬ c ++ ("();" : Text) <:+: l

section Reports

variable {ranges : Ranges} {args : List Argument} {inputs unittest fn prototype : Text} {a b : Argument}

theorem mem_missingRanges : a ∈ missingRanges ranges args ↔ a ∈ args ∧ a.ranged = true ∧ ranges a = none := by
  simp [missingRanges]

theorem ranged_congr (h : a.key = b.key) : a.ranged = b.ranged := by
  rw [Argument.ranged, Argument.ranged, h]

theorem assigned_eq_iff : assigned a = ownAssigned a ↔ ¬ ("const" : Text) <:+: a.name := by
  have hdrop : Text.gsub "const" [] a.name = a.name ↔ ¬ ("const" : Text) <:+: a.name :=
    Text.gsub_eq_self_iff (by with_unfolding_all decide) (by with_unfolding_all decide)
  rw [← hdrop]
  unfold assigned ownAssigned
  cases rtypeOf a.key with
  | none => simp [Argument.declared]
  | some r => simp [Argument.declared]

theorem ownReport_inj (ha : Declarable a) (h : ownReport a = ownReport b) : a.name = b.name := by
  obtain ⟨hassigned, hkey⟩ := Prod.mk.inj h
  unfold ownAssigned at hassigned
  rw [← hkey] at hassigned
  cases hr : rtypeOf a.key with
  | some r => simpa [hr] using hassigned
  | none =>
    have hblank : (" " : Text) = [' '] := by with_unfolding_all decide
    have hword (t : Text) (ht : ∀ c ∈ t, Cpp.isWordChar c = true) : ' ' ∉ t := fun hm => by
      have := ht ' ' hm
      exact absurd this (by decide)
    simp only [hr, hblank, List.append_cancel_left_eq] at hassigned
    exact ((List.append_cons_inj_of_notMem (hword _ ha.type) (hword _ ha.name.wordChars)).mp hassigned).2.2

/-- The first report of a type, wherever it comes from. -/
def typeReport (ranges : Ranges) (inputs : Text) (args : List Argument) (key : Text) : Option (Text × Text) :=
  (args.filterMap (declaredReport ranges key) ++
    (args.flatMap (dumpLines inputs)).filterMap (reportOf (" RcppDeepState_" ++ key))).head?

/-- The reports are those of the types, and those of the calls in the path. -/
theorem rangeReports_eq (h : PlainHarness unittest fn args prototype) (hinputs : inputs.OneLine) :
    rangeReports (generationLines ranges inputs unittest fn args prototype ++ [closingLine]) =
      (args.filterMap fun a => if a.ranged then typeReport ranges inputs args a.key else none) ++
        (args.flatMap fun _ => (lineCall inputs).toList).filterMap fun c =>
          ((generationLines ranges inputs unittest fn args prototype ++ [closingLine]).filterMap (reportOf c)).head? := by
  rw [rangeReports, rangeElements_generationLines h (fun l hl => (oneLine_generationLines h hinputs l hl).1),
    List.filterMap_append]
  simp only [missingRange_map]
  congr 1
  rw [List.filterMap_filterMap]
  refine List.filterMap_congr fun a ha => ?_
  cases hranged : a.ranged with
  | false => rfl
  | true =>
    obtain ⟨d, hd, hkey⟩ := (h.declarable a ha).key
    simp only [if_true, Option.bind_some, hkey, typeReport]
    rw [filterMap_generationLines h hd]

theorem eq_of_nodup_filterMap {α β : Type} {f : α → Option β} {xs : List α} (h : (xs.filterMap f).Nodup) {x y : α}
    (hx : x ∈ xs) (hy : y ∈ xs) {v : β} (hfx : f x = some v) (hfy : f y = some v) : x = y := by
  induction xs with
  | nil => cases hx
  | cons z zs ih =>
    have hin {u : α} (hu : u ∈ zs) (hfu : f u = some v) : v ∈ zs.filterMap f := List.mem_filterMap.mpr ⟨u, hu, hfu⟩
    rcases List.mem_cons.mp hx with hxz | hx
    · rcases List.mem_cons.mp hy with hyz | hy
      · rw [hxz, hyz]
      · rw [hxz] at hfx
        rw [List.filterMap_cons_some hfx, List.nodup_cons] at h
        exact absurd (hin hy hfy) h.1
    · rcases List.mem_cons.mp hy with hyz | hy
      · rw [hyz] at hfy
        rw [List.filterMap_cons_some hfy, List.nodup_cons] at h
        exact absurd (hin hx hfx) h.1
      · refine ih ?_ hx hy
        cases hz : f z with
        | none => rwa [List.filterMap_cons_none hz] at h
        | some u =>
          rw [List.filterMap_cons_some hz] at h
          exact h.of_cons

/-- A declaration is reported when it is of the type and its range is missing. -/
theorem declaredReport_eq_some {r : Text × Text} (hranged : a.ranged = true) {key : Text} (ha : a ∈ args) :
    declaredReport ranges key a = some r ↔
      a.key = key ∧ a ∈ missingRanges ranges args ∧ r = (assigned a, a.key) := by
  simp only [declaredReport, mem_missingRanges, rangeText_eq_nil hranged]
  by_cases hc : a.key = key ∧ ranges a = none
  · rw [if_pos hc, Option.some.injEq]
    exact ⟨fun hr => ⟨hc.1, ⟨ha, hranged, hc.2⟩, hr.symm⟩, fun hr => hr.2.2.symm⟩
  · rw [if_neg hc]
    exact iff_of_false (by simp) fun hr => hc ⟨hr.1, hr.2.1.2.2⟩

theorem typeReport_isSome_of_missing (ha : a ∈ missingRanges ranges args) :
    (typeReport ranges inputs args a.key).isSome := by
  obtain ⟨hmem, hranged, -⟩ := mem_missingRanges.mp ha
  have hin : (assigned a, a.key) ∈ args.filterMap (declaredReport ranges a.key) :=
    List.mem_filterMap.mpr ⟨a, hmem, (declaredReport_eq_some hranged hmem).mpr ⟨rfl, ha, rfl⟩⟩
  rw [typeReport, List.isSome_head?]
  simp [List.ne_nil_of_mem hin]

/-- A missing range that is alone in its type is reported as it is declared. -/
theorem typeReport_of_alone (ha : a ∈ missingRanges ranges args) (halone : ∀ b ∈ args, b.key = a.key → b = a) :
    typeReport ranges inputs args a.key = some (assigned a, a.key) := by
  obtain ⟨hmem, hranged, -⟩ := mem_missingRanges.mp ha
  have hall : ∀ r ∈ args.filterMap (declaredReport ranges a.key), r = (assigned a, a.key) := by
    intro r hr
    obtain ⟨b, hb, hbr⟩ := List.mem_filterMap.mp hr
    have hkey : b.key = a.key := by
      unfold declaredReport at hbr
      split at hbr
      · rename_i hc
        exact hc.1
      · cases hbr
    rw [halone b hb hkey] at hbr
    exact ((declaredReport_eq_some hranged hmem).mp hbr).2.2
  have hin : (assigned a, a.key) ∈ args.filterMap (declaredReport ranges a.key) :=
    List.mem_filterMap.mpr ⟨a, hmem, (declaredReport_eq_some hranged hmem).mpr ⟨rfl, ha, rfl⟩⟩
  obtain ⟨r, rs, hrs⟩ := List.exists_cons_of_ne_nil (List.ne_nil_of_mem hin)
  rw [typeReport, hrs, hall r (by rw [hrs]; simp)]
  rfl

/-- Where every missing range is alone, the types report just these, by their own names. -/
theorem typeReport_of_told {ls : List Text} (h : RangesTold ranges inputs args ls) (hargs : ∀ a ∈ args, Declarable a)
    (hne : args ≠ []) (ha : a ∈ args) (hranged : a.ranged = true) :
    typeReport ranges inputs args a.key = if (ranges a).isNone then some (ownReport a) else none := by
  by_cases hmissing : ranges a = none
  · have hmem : a ∈ missingRanges ranges args := mem_missingRanges.mpr ⟨ha, hranged, hmissing⟩
    rw [typeReport_of_alone hmem (h.alone a hmem), assigned_eq_iff.mpr (h.own a hmem), hmissing]
    rfl
  · have hno : ∀ b ∈ missingRanges ranges args, b.key ≠ a.key := by
      intro b hb hkey
      have hab := h.alone b hb a ha hkey.symm
      rw [hab] at hmissing
      exact hmissing (mem_missingRanges.mp hb).2.2
    have hnil : args.filterMap (declaredReport ranges a.key) = [] := by
      refine List.filterMap_eq_nil_iff.mpr fun b hb => ?_
      rw [Option.eq_none_iff_forall_not_mem]
      intro r hr
      by_cases hkey : b.key = a.key
      · exact hno b ((declaredReport_eq_some ((ranged_congr hkey).trans hranged) hb).mp hr).2.1 hkey
      · rw [declaredReport, if_neg fun hc => hkey hc.1] at hr
        cases hr
    obtain ⟨d, hd, hkey⟩ := (hargs a ha).key
    have hpath := h.path a ha hranged hno
    rw [hkey] at hpath
    rw [typeReport, hnil, List.nil_append, hkey,
      (filterMap_dumpLines_eq_nil_iff (fun b hb => (hargs b hb).name) hne hd).mpr hpath, if_neg]
    · rfl
    · simpa using hmissing

theorem map_missingRanges (ranges : Ranges) (args : List Argument) :
    (missingRanges ranges args).map ownReport =
      args.filterMap fun a => if a.ranged then if (ranges a).isNone then some (ownReport a) else none else none := by
  rw [missingRanges, ← List.filterMap_eq_map, List.filterMap_filter]
  refine List.filterMap_congr fun a _ => ?_
  cases a.ranged with
  | false => rfl
  | true => cases (ranges a).isNone with
    | false => rfl
    | true => rfl

theorem rangeReports_of_told (h : PlainHarness unittest fn args prototype) (hinputs : inputs.OneLine)
    (htold : RangesTold ranges inputs args (generationLines ranges inputs unittest fn args prototype ++ [closingLine])) :
    rangeReports (generationLines ranges inputs unittest fn args prototype ++ [closingLine]) =
      (missingRanges ranges args).map ownReport := by
  have hextra : ((args.flatMap fun _ => (lineCall inputs).toList).filterMap fun c =>
      ((generationLines ranges inputs unittest fn args prototype ++ [closingLine]).filterMap (reportOf c)).head?) = [] := by
    refine List.filterMap_eq_nil_iff.mpr fun c hc => ?_
    obtain ⟨_, _, hc⟩ := List.mem_flatMap.mp hc
    have hcall : lineCall inputs = some c := Option.mem_toList.mp hc
    rw [List.filterMap_eq_nil_iff.mpr]
    · rfl
    · intro l hl
      rw [reportOf, if_neg (htold.extra c hcall l hl)]
  rw [rangeReports_eq h hinputs, hextra, List.append_nil, map_missingRanges]
  refine List.filterMap_congr fun a ha => ?_
  cases hranged : a.ranged with
  | false => rfl
  | true => exact typeReport_of_told htold h.declarable h.ne_nil ha hranged

/-- When the reports are those of the missing ranges, no other type is reported, and nothing else. -/
theorem reported_of_perm (h : PlainHarness unittest fn args prototype) (hinputs : inputs.OneLine)
    (hperm : (rangeReports (generationLines ranges inputs unittest fn args prototype ++ [closingLine])).Perm
      ((missingRanges ranges args).map ownReport)) :
    (∀ a ∈ args, a.ranged = true → (typeReport ranges inputs args a.key).isSome → a ∈ missingRanges ranges args) ∧
      ∀ c, lineCall inputs = some c →
        (generationLines ranges inputs unittest fn args prototype ++ [closingLine]).filterMap (reportOf c) = [] := by
  rw [rangeReports_eq h hinputs] at hperm
  generalize hextra : ((args.flatMap fun _ => (lineCall inputs).toList).filterMap fun c =>
    ((generationLines ranges inputs unittest fn args prototype ++ [closingLine]).filterMap (reportOf c)).head?) = extra
    at hperm
  let reported : Argument → Bool := fun a => (if a.ranged then typeReport ranges inputs args a.key else none).isSome
  have hreported {a : Argument} (ha : a ∈ missingRanges ranges args) : reported a = true := by
    show (if a.ranged then typeReport ranges inputs args a.key else none).isSome = true
    rw [(mem_missingRanges.mp ha).2.1]
    exact typeReport_isSome_of_missing ha
  have hsub : (missingRanges ranges args).Sublist (args.filter reported) := by
    have hself : missingRanges ranges args = (missingRanges ranges args).filter reported :=
      (List.filter_eq_self.mpr fun a ha => hreported ha).symm
    rw [hself, missingRanges]
    exact List.filter_sublist.filter reported
  have hlength : (args.filter reported).length + extra.length = (missingRanges ranges args).length := by
    have hlen := hperm.length_eq
    rw [List.length_append, List.length_map, List.length_filterMap_eq_countP, List.countP_eq_length_filter] at hlen
    exact hlen
  have hle := hsub.length_le
  have heq : missingRanges ranges args = args.filter reported := hsub.eq_of_length (by omega)
  constructor
  · intro a ha hranged hsome
    rw [heq, List.mem_filter]
    refine ⟨ha, ?_⟩
    show (if a.ranged then typeReport ranges inputs args a.key else none).isSome = true
    rw [hranged]
    exact hsome
  · intro c hc
    have hnil : extra = [] := List.length_eq_zero_iff.mp (by omega)
    rw [hnil, List.filterMap_eq_nil_iff] at hextra
    obtain ⟨a, as, has⟩ := List.exists_cons_of_ne_nil h.ne_nil
    refine List.head?_eq_none_iff.mp (hextra c (List.mem_flatMap.mpr ⟨a, by rw [has]; simp, ?_⟩))
    rw [hc]
    simp

theorem told_of_perm (h : PlainHarness unittest fn args prototype) (hinputs : inputs.OneLine)
    (hnodup : (args.map (·.name)).Nodup)
    (hperm : (rangeReports (generationLines ranges inputs unittest fn args prototype ++ [closingLine])).Perm
      ((missingRanges ranges args).map ownReport)) :
    RangesTold ranges inputs args (generationLines ranges inputs unittest fn args prototype ++ [closingLine]) := by
  obtain ⟨hmissing, hextra⟩ := reported_of_perm h hinputs hperm
  -- The reports of the missing ranges differ, so each type is reported once.
  have hown : ((missingRanges ranges args).map ownReport).Nodup := by
    have hnames : ((missingRanges ranges args).map (·.name)).Nodup := hnodup.sublist (List.filter_sublist.map _)
    refine List.Nodup.map_on (fun a ha b hb hab => ?_) hnames.of_map
    exact List.inj_on_of_nodup_map hnames ha hb
      (ownReport_inj (h.declarable a (mem_missingRanges.mp ha).1) hab)
  have hreports := (hperm.nodup_iff).mpr hown
  rw [rangeReports_eq h hinputs] at hreports hperm
  have halone : ∀ a ∈ missingRanges ranges args, ∀ b ∈ args, b.key = a.key → b = a := by
    intro a ha b hb hkey
    obtain ⟨hmem, hranged, -⟩ := mem_missingRanges.mp ha
    have hsome : (typeReport ranges inputs args a.key).isSome := typeReport_isSome_of_missing ha
    obtain ⟨r, hr⟩ := Option.isSome_iff_exists.mp hsome
    refine eq_of_nodup_filterMap hreports.of_append_left hb hmem (v := r) ?_ ?_
    · rw [ranged_congr hkey, hranged, hkey]
      exact hr
    · rw [hranged]
      exact hr
  refine ⟨fun a ha => ?_, halone, fun a ha hranged hno hinfix => ?_, fun c hc l hl hinfix => ?_⟩
  · obtain ⟨hmem, hranged, -⟩ := mem_missingRanges.mp ha
    have hin : (assigned a, a.key) ∈ (missingRanges ranges args).map ownReport := by
      refine hperm.subset (List.mem_append_left _ (List.mem_filterMap.mpr ⟨a, hmem, ?_⟩))
      rw [hranged]
      exact typeReport_of_alone ha (halone a ha)
    obtain ⟨b, hb, hba⟩ := List.mem_map.mp hin
    obtain ⟨hassigned, hkey⟩ := Prod.mk.inj hba
    rw [halone a ha b (mem_missingRanges.mp hb).1 hkey] at hassigned
    exact assigned_eq_iff.mp hassigned.symm
  · -- The call in the path would be reported, so the range of the parameter would be missing.
    obtain ⟨d, hd, hkey⟩ := (h.declarable a ha).key
    refine hno a (hmissing a ha hranged ?_) rfl
    have hne := mt (filterMap_dumpLines_eq_nil_iff h.names h.ne_nil hd).mp (not_not_intro (hkey ▸ hinfix))
    rw [typeReport, List.isSome_head?, hkey]
    simpa using fun _ => hne
  · have hnone := List.filterMap_eq_nil_iff.mp (hextra c hc) l hl
    rw [reportOf, if_pos hinfix] at hnone
    cases hnone

end Reports

/-! ## The check of an edited harness -/

/-- The first part of `deepstate_compile_generate_fun`: find the harness and look it through. -/
def lookThrough (fn : Text) (continueOnMissing : Bool) : Program Unit :=
  compileEditable (checkRanges continueOnMissing) (pure ()) fn .generation

theorem lookThrough_of_text {fn t : Text} {cont : Bool} {w : World} (hfun : w.fs.fileExists (funPath fn) = true)
    (hread : readText w.fs (harnessPath fn .generation) = some t) :
    lookThrough fn cont w = checkRanges cont t.lines w := by
  rw [lookThrough, compileEditable, files_bind_apply, if_pos hfun, files_bind_apply, hread]
  show (checkRanges cont t.lines >>= fun _ => pure ()) w = _
  rw [bind_apply]
  cases checkRanges cont t.lines w with
  | ok a w' => rfl
  | error e w' => rfl

/-- What is fuzzed and analysed comes after the harness has been looked through. -/
theorem compileGenerateFun_eq (h : Host) (o : PipelineOutcome) (globals : Environment) (fn : Text) (cont : Bool)
    (w : World) : deepstateCompileGenerateFun h o globals fn cont w =
      (lookThrough fn cont >>= fun _ => fuzzAndAnalyzeNamed h o (funName (generateFrame h fn) globals) .generation) w := by
  generalize hnext : fuzzAndAnalyzeNamed h o (funName (generateFrame h fn) globals) .generation = next
  rw [deepstateCompileGenerateFun, hnext, bind_apply]
  by_cases hfun : w.fs.fileExists (funPath fn) = true
  · cases hread : readText w.fs (harnessPath fn .generation) with
    | none =>
      simp only [lookThrough, compileEditable, files_bind_apply, hfun, if_true, hread]
      rfl
    | some t =>
      rw [lookThrough_of_text hfun hread, compileEditable, files_bind_apply, if_pos hfun, files_bind_apply, hread]
      rfl
  · simp only [lookThrough, compileEditable, files_bind_apply, hfun]
    rfl

/-- Of these parameters each is reported once, and the call stops when it is told to and there is one. -/
structure ReportsMissing (fn : Text) (missing : List (Text × Text)) (w : World) : Prop where
  reports : ∃ rs : List (Text × Text), rs.Perm missing ∧
    lookThrough fn true w = .ok () { w with log := w.log ++ rs.map reportEvent }
  stops : (∃ t w', lookThrough fn false w = .error t w') ↔ missing ≠ []

section Edited

variable {ranges : Ranges} {args : List Argument} {inputs unittest fn prototype : Text} {w : World}

theorem reportEvent_injective : Function.Injective reportEvent := by
  rintro ⟨v, t⟩ ⟨v', t'⟩ h
  cases h
  rfl

theorem reportsMissing_iff (h : PlainHarness unittest fn args prototype) (hinputs : inputs.OneLine)
    (hnodup : (args.map (·.name)).Nodup) (hfun : w.fs.fileExists (funPath fn) = true)
    (hread : readText w.fs (harnessPath fn .generation) = some (editedHarness ranges inputs unittest fn args prototype)) :
    ReportsMissing fn ((missingRanges ranges args).map ownReport) w ↔
      RangesTold ranges inputs args (generationLines ranges inputs unittest fn args prototype ++ [closingLine]) := by
  have hlines : (editedHarness ranges inputs unittest fn args prototype).lines =
      generationLines ranges inputs unittest fn args prototype ++ [closingLine] := by
    refine Text.lines_unlines fun l hl => ?_
    rcases List.mem_append.mp hl with hl | hl
    · exact oneLine_generationLines h hinputs l hl
    · rw [List.mem_singleton.mp hl]
      with_unfolding_all decide
  have hlook (cont : Bool) : lookThrough fn cont w =
      checkRanges cont (editedHarness ranges inputs unittest fn args prototype).lines w :=
    lookThrough_of_text hfun hread
  rw [hlines] at hlook
  constructor
  · rintro ⟨⟨rs, hperm, hrs⟩, -⟩
    rw [hlook, checkRanges_continue] at hrs
    injection hrs with _ hworld
    have hsame := List.append_cancel_left (congrArg World.log hworld)
    rw [← reportEvent_injective.list_map hsame] at hperm
    exact told_of_perm h hinputs hnodup hperm
  · intro htold
    have hreports := rangeReports_of_told h hinputs htold
    refine ⟨⟨_, .refl _, ?_⟩, ?_⟩
    · rw [hlook, checkRanges_continue, hreports]
    · rw [hlook, checkRanges_stop, hreports]
      cases (missingRanges ranges args).map ownReport with
      | nil => simp
      | cons r rs => simp

end Edited

/-! ## Functions of supported types -/

section Signature

variable {e : Export} {name : Text} {ranges : Ranges} {w : World}

theorem unittest_alphanum (hname : ∀ c ∈ name, c.isAlphanum = true ∨ c = '.') :
    ∀ c ∈ unittest (some name), c.isAlphanum = true := by
  intro c hc
  rw [unittest_eq, List.mem_filter] at hc
  exact (hname c hc.1).resolve_right (by simpa using hc.2)

/-- The harness of a function with supported types, in a package with a legal name. -/
theorem plainHarness_export (hne : e.params ≠ []) (htypes : ∀ p ∈ e.params, QualifiedType p.type)
    (hreturn : '/' ∉ e.returnType) (hname : ∀ c ∈ name, c.isAlphanum = true ∨ c = '.') :
    PlainHarness (unittest (some name)) e.name e.args e.prototype :=
  ⟨quiet_prototype hreturn hne htypes, Export.oneLine_prototype, unittest_alphanum hname, e.name_ok,
    declarable_args htypes, mt args_eq_nil.mp hne⟩

theorem nodup_args (hnodup : (e.params.map (·.name)).Nodup) : (e.args.map (·.name)).Nodup := by
  have hnames : e.args.map (·.name) = e.params.map (·.name) := by
    rw [args_eq, List.map_map]
    exact List.map_congr_left fun p _ => p.argument_name
  rwa [hnames]

/-- The lines of the harness of a function. -/
def exportLines (h : Host) (name : Text) (e : Export) (ranges : Ranges) : List Text :=
  generationLines ranges (h.file (inputsPath e.name)) (unittest (some name)) e.name e.args e.prototype ++ [closingLine]

/-- The harness as it is written is the one without ranges, and a call looks it through before it fuzzes. Whatever
ranges have been given, each missing one is reported once and by the name of its parameter exactly when no
parameter without a range shares its type with another or has `const` in its name, and the path of the inputs
contains no call. -/
theorem compileGenerateFun_reports_iff (h : PlainHost) (hne : e.params ≠ []) (hnodup : (e.params.map (·.name)).Nodup)
    (htypes : ∀ p ∈ e.params, QualifiedType p.type) (hreturn : '/' ∉ e.returnType)
    (hname : ∀ c ∈ name, c.isAlphanum = true ∨ c = '.') :
    Text.unlines (exportLines h name e fun _ => none) =
        harnessText (h.file (inputsPath e.name)) (some name) e.name .generation e.args e.prototype ++ ['\n'] ∧
      (∀ (o : PipelineOutcome) (globals : Environment) (cont : Bool),
        deepstateCompileGenerateFun h o globals e.name cont w = (lookThrough e.name cont >>= fun _ =>
          fuzzAndAnalyzeNamed h o (funName (generateFrame h e.name) globals) .generation) w) ∧
      (w.fs.fileExists (funPath e.name) = true →
        readText w.fs (harnessPath e.name .generation) = some (Text.unlines (exportLines h name e ranges)) →
        (ReportsMissing e.name ((missingRanges ranges e.args).map ownReport) w ↔
          RangesTold ranges (h.file (inputsPath e.name)) e.args (exportLines h name e ranges))) := by
  have hplain := plainHarness_export hne htypes hreturn hname
  refine ⟨editedHarness_none (fun a ha => (declarable_args htypes a ha).key) _ _ _ _,
    fun o globals cont => compileGenerateFun_eq h o globals e.name cont w, fun hfun hread => ?_⟩
  exact reportsMissing_iff hplain (oneLine_inputs h e.name_ok.oneLine) (nodup_args hnodup) hfun hread

/-- The package in which the harness has been edited. -/
def rangesWorld (e : Export) (ranges : Ranges) : World :=
  ⟨(FileSystem.empty.mkdirs (funPath e.name)).write (harnessPath e.name .generation)
    (.text (Text.unlines (exportLines sampleHost "pkg" e ranges))), []⟩

theorem rangesWorld_reads (e : Export) (ranges : Ranges) :
    readText (rangesWorld e ranges).fs (harnessPath e.name .generation) =
      some (Text.unlines (exportLines sampleHost "pkg" e ranges)) := by
  rw [readText, rangesWorld, FileSystem.read_write_self]

theorem typeText_constNumericVector : TypeText "const Rcpp::NumericVector" := typeText_of_decide (by with_unfolding_all decide)

theorem identifier_a : Identifier "a" := identifier_of_decide (by with_unfolding_all decide)

theorem identifier_b : Identifier "b" := identifier_of_decide (by with_unfolding_all decide)

theorem identifier_d : Identifier "d" := identifier_of_decide (by with_unfolding_all decide)

/-- `int f(int a, int b, const Rcpp::NumericVector v, std::string s, double d)` -/
def rangedExport : Export where
  returnType := "int"
  name := "f"
  params := [⟨"int", "a", typeText_int, identifier_a⟩, ⟨"int", "b", typeText_int, identifier_b⟩,
    ⟨"const Rcpp::NumericVector", "v", typeText_constNumericVector, identifier_v⟩,
    ⟨"std::string", "s", typeText_string, identifier_s⟩, ⟨"double", "d", typeText_double, identifier_d⟩]
  rng := true
  returnType_ok := typeText_int
  name_ok := identifier_f

def zeroToNine : RangeText where
  text := "0,9"
  line := by with_unfolding_all decide
  slashes := by with_unfolding_all decide
  call := by with_unfolding_all decide

/-- Ranges for the two integers. -/
def integerRanges : Ranges := fun a => if a.key = "int" then some zeroToNine else none

theorem compileGenerateFun_reports_sample :
    ReportsMissing "f" [(("  NumericVector v" : Text), ("NumericVector" : Text)), ("  d[0]", "double")]
      (rangesWorld rangedExport integerRanges) := by
  have hmissing : (missingRanges integerRanges rangedExport.args).map ownReport =
      [(("  NumericVector v" : Text), ("NumericVector" : Text)), ("  d[0]", "double")] := by with_unfolding_all decide
  have hall := @compileGenerateFun_reports_iff rangedExport "pkg" integerRanges
    (rangesWorld rangedExport integerRanges) plainSampleHost (by simp [rangedExport]) (by with_unfolding_all decide)
    (by unfold QualifiedType; with_unfolding_all decide) (by with_unfolding_all decide) (by with_unfolding_all decide)
  have hcall : lineCall (sampleHost.file (inputsPath "f")) = none := by with_unfolding_all decide
  rw [← hmissing]
  refine (hall.2.2 (by with_unfolding_all decide) (rangesWorld_reads _ _)).mpr ⟨?_, ?_, ?_, ?_⟩
  · with_unfolding_all decide
  · with_unfolding_all decide
  · with_unfolding_all decide
  · intro c hc
    exact absurd (hcall.symm.trans hc) (by simp)

/-- `int f(int a, int b)` -/
def twoIntsExport : Export where
  returnType := "int"
  name := "f"
  params := [⟨"int", "a", typeText_int, identifier_a⟩, ⟨"int", "b", typeText_int, identifier_b⟩]
  rng := true
  returnType_ok := typeText_int
  name_ok := identifier_f

/-- The range of `a` is reported twice, that of `b` never. -/
theorem compileGenerateFun_reports_fail : ¬ ∀ (h : Host) (e : Export) (name : Text) (ranges : Ranges) (w : World),
    e.params ≠ [] → (e.params.map (·.name)).Nodup → (∀ p ∈ e.params, QualifiedType p.type) → '/' ∉ e.returnType →
      (∀ c ∈ name, c.isAlphanum = true ∨ c = '.') → w.fs.fileExists (funPath e.name) = true →
        readText w.fs (harnessPath e.name .generation) = some (Text.unlines (exportLines h name e ranges)) →
          ReportsMissing e.name ((missingRanges ranges e.args).map ownReport) w := by
  intro hall
  have htypes : ∀ p ∈ twoIntsExport.params, QualifiedType p.type := by
    simp only [twoIntsExport, List.forall_mem_cons, List.not_mem_nil, false_imp_iff, implies_true, and_true]
    unfold QualifiedType
    with_unfolding_all decide
  have hne : twoIntsExport.params ≠ [] := by simp [twoIntsExport]
  have hnodup : (twoIntsExport.params.map (·.name)).Nodup := by with_unfolding_all decide
  have hreturn : '/' ∉ twoIntsExport.returnType := by with_unfolding_all decide
  have hname : ∀ c ∈ ("pkg" : Text), c.isAlphanum = true ∨ c = '.' := by with_unfolding_all decide
  have hfun : (rangesWorld twoIntsExport fun _ => none).fs.fileExists (funPath twoIntsExport.name) = true := by
    with_unfolding_all decide
  have hread := rangesWorld_reads twoIntsExport fun _ => none
  have hreports := hall sampleHost _ "pkg" _ _ hne hnodup htypes hreturn hname hfun hread
  have htold := (reportsMissing_iff (plainHarness_export hne htypes hreturn hname)
    (oneLine_inputs plainSampleHost twoIntsExport.name_ok.oneLine) (nodup_args hnodup) hfun hread).mp hreports
  have hsame := htold.alone ⟨"int", "a"⟩ (by with_unfolding_all decide) ⟨"int", "b"⟩ (by with_unfolding_all decide)
    (by with_unfolding_all decide)
  exact absurd hsame (by with_unfolding_all decide)

end Signature

end RcppDeepState
