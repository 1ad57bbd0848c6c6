import RcppDeepState.Package.Atomicity

/-!
# The loop of deepstate_pkg_create

The loop sorts the functions of the argument table into created and failed ones, and what the call
returns and reports is computed from the two lists.
-/

namespace RcppDeepState

open Command FileSystem

/-! ## The functions of the table -/

/-- The arguments of an exported function. -/
def Export.args (e : Export) : List Argument := e.argRows.map Argument.ofRow

theorem filter_argRows {es : List Export} (hn : (es.map (·.name)).Nodup) {e : Export} (he : e ∈ es) :
    (es.flatMap Export.argRows).filter (·.funName = e.name) = e.argRows := by
  have hself : ∀ a : Export, a.argRows.filter (·.funName = a.name) = a.argRows := by
    intro a
    rw [List.filter_eq_self]
    intro r hr
    obtain ⟨p, _, rfl⟩ := List.mem_map.mp hr
    simp
  have hother : ∀ a b : Export, a.name ≠ b.name → a.argRows.filter (·.funName = b.name) = [] := by
    intro a b hab
    rw [List.filter_eq_nil_iff]
    intro r hr
    obtain ⟨p, _, rfl⟩ := List.mem_map.mp hr
    simpa using hab
  induction es with
  | nil => cases he
  | cons a es ih =>
      rw [List.map_cons, List.nodup_cons] at hn
      rw [List.flatMap_cons, List.filter_append]
      rcases List.mem_cons.mp he with rfl | he
      · have hnil : (es.flatMap Export.argRows).filter (·.funName = e.name) = [] := by
          rw [List.filter_flatMap, List.flatMap_eq_nil_iff]
          intro b hb
          exact hother b e (fun hbe => hn.1 (List.mem_map.mpr ⟨b, hb, hbe⟩))
        rw [hself, hnil, List.append_nil]
      · rw [hother a e (fun hae => hn.1 (List.mem_map.mpr ⟨e, he, hae.symm⟩)), List.nil_append]
        exact ih hn.2 he

theorem argumentsOf_exports {es : List Export} (hn : (es.map (·.name)).Nodup) {e : Export}
    (he : e ∈ es) : argumentsOf (es.flatMap Export.argRows) e.name = e.args := by
  rw [argumentsOf, filter_argRows hn he]
  rfl

theorem args_eq_nil {e : Export} : e.args = [] ↔ e.params = [] := by
  simp [Export.args, Export.argRows]

theorem eraseDups_replicate (t : Text) (n : Nat) :
    (List.replicate n t).eraseDups = if n = 0 then [] else [t] := by
  cases n with
  | zero => rfl
  | succ n =>
      have hnil : (List.replicate n t).filter (fun x => !(x == t)) = [] := by
        rw [List.filter_eq_nil_iff]
        intro x hx
        simp [List.eq_of_mem_replicate hx]
      rw [List.replicate_succ, List.eraseDups_cons, hnil]
      rfl

/-- The table names the functions that have a parameter. -/
theorem tableNames_exports {es : List Export} (hn : (es.map (·.name)).Nodup) :
    tableNames (es.flatMap Export.argRows) = (es.filter (·.params ≠ [])).map (·.name) := by
  induction es with
  | nil => rfl
  | cons e es ih =>
      rw [List.map_cons, List.nodup_cons] at hn
      have hrows : e.argRows.map (·.funName) = List.replicate e.params.length e.name := by
        simp [Export.argRows, List.map_map, Function.comp_def, List.map_const']
      have hnot : ((es.flatMap Export.argRows).map (·.funName)).removeAll
          (List.replicate e.params.length e.name) = (es.flatMap Export.argRows).map (·.funName) := by
        rw [List.removeAll, List.filter_eq_self]
        intro x hx
        obtain ⟨r, hr, rfl⟩ := List.mem_map.mp hx
        obtain ⟨a, ha, hra⟩ := List.mem_flatMap.mp hr
        obtain ⟨p, _, rfl⟩ := List.mem_map.mp hra
        have hne : a.name ≠ e.name := fun hae => hn.1 (List.mem_map.mpr ⟨a, ha, hae⟩)
        simp [hne]
      rw [tableNames, List.flatMap_cons, List.map_append, hrows, List.eraseDups_append, hnot,
        eraseDups_replicate]
      have ih' := ih hn.2
      rw [tableNames] at ih'
      rw [ih']
      by_cases hp : e.params = []
      · simp [hp]
      · simp [hp]

/-! ## The loop -/

section Loop

variable {h : Host} {installed : Text → Installation}

/-- The tally after more functions. -/
def Tally.add (t : Tally) (created failed : List Text) : Tally where
  matchCount := t.matchCount + created.length
  mismatchCount := t.mismatchCount + failed.length
  harness := t.harness ++ created.map (harnessFile · .infun)
  failedHarness := t.failedHarness ++ failed

theorem createOne_ok {t t' : Tally} {fn : Text} {w w' : World}
    (hok : createOne h installed t fn w = .ok t' w') : t' = t.add [fn] [] ∨ t' = t.add [] [fn] := by
  obtain ⟨filepath, w₁, _, hend⟩ := bind_eq_ok.mp hok
  split at hend
  · cases hend
    exact Or.inl (by simp [Tally.add])
  · cases hend
    exact Or.inr (by simp [Tally.add])

theorem Tally.add_add (t : Tally) (a b c d : List Text) :
    (t.add a b).add c d = t.add (a ++ c) (b ++ d) := by
  simp [Tally.add, Nat.add_assoc]

/-- The loop counts and lists every function once. -/
theorem createLoop_ok {fns : List Text} {t t' : Tally} {w w' : World}
    (hok : fns.foldlM (createOne h installed) t w = .ok t' w') :
    ∃ created failed, t' = t.add created failed ∧ created.Sublist fns ∧
      (created ++ failed).Perm fns := by
  induction fns generalizing t w with
  | nil =>
      cases hok
      exact ⟨[], [], by simp [Tally.add], List.Sublist.slnil, List.Perm.nil⟩
  | cons fn fns ih =>
      rw [List.foldlM_cons] at hok
      obtain ⟨t₁, w₁, hone, hrest⟩ := bind_eq_ok.mp hok
      obtain ⟨created, failed, ht', hsub, hperm⟩ := ih hrest
      rcases createOne_ok hone with rfl | rfl
      · exact ⟨fn :: created, failed, by rw [ht', Tally.add_add]; rfl, hsub.cons_cons fn,
          hperm.cons fn⟩
      · refine ⟨created, fn :: failed, by rw [ht', Tally.add_add]; rfl, hsub.cons fn, ?_⟩
        exact List.perm_middle.trans (hperm.cons fn)

theorem effects_createOne {fn : Text} {t : Tally} :
    Within (Effects (CreateTouches h fn .infun) CreateEvents) (createOne h installed t fn) :=
  effects_bind effects_funCreate (fun _ => effects_ite (effects_pure _) (effects_pure _))

/-- What creating harnesses of any functions may change. -/
def LoopTouches (h : Host) (p : Pathname) : Prop := ∃ fn, CreateTouches h fn .infun p

theorem effects_createLoop {fns : List Text} {t : Tally} :
    Within (Effects (LoopTouches h) CreateEvents) (fns.foldlM (createOne h installed) t) :=
  effects_foldlM (fun _ fn _ => effects_mono (fun _ hp => ⟨fn, hp⟩) (fun _ => id) effects_createOne) t

end Loop

/-! ## The report -/

/-- The list of failed functions an event reports, with the count that goes with it. -/
def Event.failures : Event → Option (Nat × List Text)
  | .message (.failed count functions) => some (count, functions)
  | _ => none

def Event.createdCount : Event → Option Nat
  | .message (.created count) => some count
  | _ => none

def reportedFailures (es : List Event) : List (Nat × List Text) := es.filterMap Event.failures

def reportedCreated (es : List Event) : List Nat := es.filterMap Event.createdCount

/-- The event is no part of the report. -/
def NoReport (e : Event) : Prop := e.failures = none ∧ e.createdCount = none

theorem noReport_of_createEvents {e : Event} (he : CreateEvents e) : NoReport e := by
  unfold CreateEvents at he
  split at he
  all_goals first | exact ⟨rfl, rfl⟩ | exact he.elim

theorem reported_of_noReport {es : List Event} (hes : ∀ e ∈ es, NoReport e) :
    reportedFailures es = [] ∧ reportedCreated es = [] :=
  ⟨List.filterMap_eq_nil_iff.mpr fun e he => (hes e he).1,
    List.filterMap_eq_nil_iff.mpr fun e he => (hes e he).2⟩

/-- The report of a tally that counts all the functions. -/
theorem reportTally_ok {fns created failed harness : List Text} {w w' : World}
    (hperm : (created ++ failed).Perm fns)
    (hok : reportTally fns.length (Tally.empty.add created failed) w = .ok harness w') :
    harness = created.map (harnessFile · .infun) ∧ ∃ es, w'.log = w.log ++ es ∧
      reportedCreated es = [created.length] ∧
      reportedFailures es = if failed = [] then [] else [(failed.length, failed)] := by
  have hlen : created.length + failed.length = fns.length := by
    rw [← hperm.length_eq, List.length_append]
  have htally : Tally.empty.add created failed =
      ⟨created.length, failed.length, created.map (harnessFile · .infun), failed⟩ := by
    simp [Tally.add, Tally.empty]
  rw [htally, reportTally] at hok
  simp only at hok
  split at hok
  · -- Every function was created.
    rename_i hall
    cases hok
    have hnil : failed = [] := List.length_eq_zero_iff.mp (by omega)
    exact ⟨rfl, [.message (.created created.length)], rfl, rfl, by simp [hnil, reportedFailures, Event.failures]⟩
  · rename_i hnall
    split at hok
    · -- Some failed.
      rename_i hsome
      cases hok
      refine ⟨rfl, [.message (.failed failed.length failed), .message (.created created.length)], ?_, rfl, ?_⟩
      · simp
      · rw [if_neg hsome.2.1]
        rfl
    · rename_i hnsome
      split at hok
      · cases hok
      · -- The counts leave no other case.
        rename_i hnone
        exfalso
        have hf : failed ≠ [] := by
          rintro rfl
          simp only [List.length_nil] at *
          omega
        have := List.length_pos_iff.mpr hf
        exact hnsome ⟨by omega, hf, by omega⟩

end RcppDeepState
