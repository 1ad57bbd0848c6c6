import RcppDeepState.Library.Unwinding
import RcppDeepState.Runs.Lemmas.Views
import RcppDeepState.Runs.Leftovers
import RcppDeepState.Runs.Footprint

/-!
# Functions side by side

In a package whose shared object is built, the calls on one function neither see nor touch the directory of
another one. However the calls on several functions are interleaved, every call returns and records the same, and
the same files are there in the end.
-/

namespace RcppDeepState

open Command FileSystem

/-! ## Calls on a function -/

/-- A call, with what the rest of the machine does during it. -/
inductive FunctionCall
  | funCreate (installed : Installation) (sep : Sep)
  | editableFun (installed installed' : Installation)
  | compileFun (b : BuildOutcome) (sep : Sep)
  | fuzzFun (o : FuzzOutcome) (seed timeLimit : Int) (sep : Sep)
  | analyzeFile (o : ReplayOutcome) (packageName : Option Text) (sep : Sep) (name : Text)
  | analyzeFun (replay : Text → ReplayOutcome) (maxInputs : MaxInputs) (sep : Sep)
  | fuzzFunAnalyze (o : FuzzAnalyzeOutcome) (seed timeLimit : Int)

inductive Returned
  | created (harness : Option Text)
  | editable (generation checks : Option Text)
  | compiled
  | fuzzed (fn : Option Text)
  | row (row : Option AnalysisRow)
  | rows (rows : Option (List AnalysisRow))
  | analyzed (inputs : List (Text × InputValue)) (logtable : Option (List LogRow))

section Calls

variable (xml2 : Xml2) (h : Host)

def FunctionCall.program (fn : Text) : FunctionCall → Program Returned
  | .funCreate installed sep => Returned.created <$> deepstateFunCreate h installed fn sep
  | .editableFun installed installed' => (fun p => .editable p.1 p.2) <$> deepstateEditableFun h installed installed' fn
  | .compileFun b sep => (fun _ => .compiled) <$> deepstateCompileFun h b fn sep
  | .fuzzFun o seed timeLimit sep => Returned.fuzzed <$> deepstateFuzzFun h o fn seed timeLimit sep
  | .analyzeFile o packageName sep name =>
      Returned.row <$> deepstateAnalyzeFile xml2 h o packageName (outputDir fn sep ++ [name])
  | .analyzeFun replay maxInputs sep => Returned.rows <$> deepstateAnalyzeFun xml2 h replay fn maxInputs sep
  | .fuzzFunAnalyze o seed timeLimit =>
      (fun p => .analyzed p.1 p.2) <$> deepstateFuzzFunAnalyze xml2 h o fn seed timeLimit

/-- A call and the function it is on. -/
structure Call where
  fn : Text
  call : FunctionCall

def Call.apply (c : Call) : World → World := final (c.call.program xml2 h c.fn)

/-- What a call returns, or the message it stops with, and the events it records. -/
structure Report where
  result : Except Text Returned
  events : List Event

def Call.report (c : Call) (w : World) : Report where
  result := match c.call.program xml2 h c.fn w with
    | .ok a _ => .ok a
    | .error e _ => .error e
  events := eventsSince w (c.apply xml2 h w)

/-- The world after a sequence of calls. -/
def callAll (calls : List Call) (w : World) : World := Run.run (Call.apply xml2 h) calls w

/-- The calls of a sequence with their reports. -/
def reports (calls : List Call) (w : World) : List (Call × Report) :=
  Run.answers (Call.apply xml2 h) (Call.report xml2 h) calls w

end Calls

/-! ## Calls stay in the directory of their function -/

/-- The directory of the harnesses is there, and the shared object, where R lists it. -/
structure Prepared (h : Host) (fs : FileSystem Content) : Prop where
  inst : fs.fileExists [("inst" : Text)] = true
  testfiles : fs.fileExists testPath = true
  built : sharedObjects h fs ≠ []

/-- In a prepared package nothing but the directory of the function changes. -/
def StaysInside (h : Host) (fn : Text) (w w' : World) : Prop := Prepared h w.fs → Frame (funPath fn <+: ·) w.fs w'.fs

theorem not_below_of_short {fn : Text} {p : Pathname} (hp : p.length < 3) : ¬ funPath fn <+: p := by
  intro h
  have hlen := h.length_le
  simp [funPath, testPath] at hlen
  omega

theorem Prepared.of_frame {host : Host} {fn : Text} {fs fs' : FileSystem Content} (h : Prepared host fs)
    (hframe : Frame (funPath fn <+: ·) fs fs') : Prepared host fs' where
  inst := by
    rw [hframe.fileExists (not_below_of_short (by simp))]
    exact h.inst
  testfiles := by
    rw [hframe.fileExists (not_below_of_short (by simp [testPath]))]
    exact h.testfiles
  built := by
    have hlist : sharedObjects host fs' = sharedObjects host fs := by
      unfold sharedObjects
      rw [sysGlob_congr fun n => hframe.fileExists (not_below_of_short (by simp))]
    rw [hlist]
    exact h.built

section Inside

variable {h : Host} {fn : Text} {α β : Type}

theorem StaysInside.refl (w : World) : StaysInside h fn w w := fun _ => Frame.refl _

theorem StaysInside.trans (w w' w'' : World) (hfirst : StaysInside h fn w w') (hthen : StaysInside h fn w' w'') :
    StaysInside h fn w w'' := by
  intro hw
  exact (hfirst hw).trans (hthen (hw.of_frame (hfirst hw)))

theorem inside_pure (a : α) : Within (StaysInside h fn) (pure a : Program α) := Within.pure StaysInside.refl a

theorem inside_bind {m : Program α} {f : α → Program β} (hm : Within (StaysInside h fn) m)
    (hf : ∀ a, Within (StaysInside h fn) (f a)) : Within (StaysInside h fn) (m >>= f) :=
  Within.bind StaysInside.trans hm hf

theorem inside_of_effects {T : Pathname → Prop} {P : Event → Prop} {m : Program α}
    (hm : Within (Effects T P) m) (hT : ∀ p, T p → funPath fn <+: p) : Within (StaysInside h fn) m :=
  fun w _ => (hm w).frame.mono hT

theorem inside_onFiles {f : FileSystem Content → FileSystem Content}
    (hf : ∀ fs, Prepared h fs → Frame (funPath fn <+: ·) fs (f fs)) : Within (StaysInside h fn) (onFiles f) :=
  fun w hw => hf w.fs hw

theorem inside_files {f : FileSystem Content → Program α} (hf : ∀ fs, Within (StaysInside h fn) (f fs)) :
    Within (StaysInside h fn) (files >>= f) := fun w => hf w.fs w

theorem inside_message (m : Message) : Within (StaysInside h fn) (message m) := fun w _ => Frame.refl w.fs

theorem inside_stop (t : Text) : Within (StaysInside h fn) (stop t : Program α) := Within.throw StaysInside.refl t

/-- Of the directories on the way to a path in the directory of a function, the ones above are there already. -/
theorem frame_mkdirs_inside {fs : FileSystem Content} (hw : Prepared h fs) {p : Pathname} (hp : funPath fn <+: p) :
    Frame (funPath fn <+: ·) fs (fs.mkdirs p) := by
  intro q hq
  by_cases hpre : q <+: p ∧ q ≠ []
  · have hshort : q <+: testPath := by
      have hle : q.length ≤ testPath.length := by
        by_contra hlong
        refine hq (List.prefix_of_prefix_length_le hp hpre.1 ?_)
        simp [funPath] at hlong ⊢
        omega
      exact List.prefix_of_prefix_length_le hpre.1 ((List.prefix_append _ _).trans hp) hle
    have hthere : fs.fileExists q = true := by
      have hinits : q ∈ [[], [("inst" : Text)], testPath] := (List.mem_inits q testPath).mpr hshort
      rw [List.mem_cons, List.mem_cons, List.mem_singleton] at hinits
      rcases hinits with rfl | rfl | rfl
      · exact absurd rfl hpre.2
      · exact hw.inst
      · exact hw.testfiles
    exact node?_mkdirs_of_exists hthere
  · exact node?_mkdirs fs p q hpre

end Inside

section Create

variable {fn : Text} {h : Host} {installed : Installation} {sep : Sep}

theorem inside_createMakefile : Within (StaysInside h fn) (deepstateCreateMakefile h installed fn) := by
  apply inside_bind
  · intro w hw
    rw [final_of_ok (ensureSharedObject_of_ne hw.built)]
    exact Frame.refl _
  · intro _
    apply inside_bind (inside_onFiles fun fs hfs => frame_mkdirs_inside hfs (List.prefix_append _ _))
    intro _
    apply inside_bind (inside_onFiles fun fs _ => frame_mkdir (List.prefix_append _ _))
    intro _
    exact inside_onFiles fun fs _ => frame_write (T := (funPath fn <+: ·)) (List.prefix_append _ _) _

theorem inside_deriveMakefile : Within (StaysInside h fn) (deriveMakefile h installed fn sep) := by
  have hend : Within (StaysInside h fn) (do
      let makefile := (readText (← files) (makefilePath fn .infun)).getD []
      onFiles (·.write (makefilePath fn sep) (.text (Text.unlines (makefileLines h fn sep makefile))))
      onFiles (·.unlink (makefilePath fn .infun))
      onFiles (·.mkdir (outputDir fn sep))) := by
    apply inside_files
    intro fs
    apply inside_bind (inside_onFiles fun fs _ => frame_write (T := (funPath fn <+: ·)) (List.prefix_append _ _) _)
    intro _
    apply inside_bind (inside_onFiles fun fs _ => frame_unlink fun q hq => (List.prefix_append _ _).trans hq)
    intro _
    exact inside_onFiles fun fs _ => frame_mkdir (List.prefix_append _ _)
  apply inside_files
  intro fs
  apply Within.ite
  · exact inside_bind (inside_onFiles fun fs _ => frame_copyFile (List.prefix_append _ _)) fun _ => hend
  · exact inside_bind inside_createMakefile fun _ => hend

theorem inside_funCreate : Within (StaysInside h fn) (deepstateFunCreate h installed fn sep) := by
  have hname : Within (StaysInside h fn) (getPackageName h) :=
    inside_of_effects (effects_getPackageName (T := fun _ => False) (P := CreateEvents) trivial) fun _ hp => hp.elim
  have hexports : Within (StaysInside h fn) readExports :=
    inside_of_effects (effects_readExports (T := fun _ => False)) fun _ hp => hp.elim
  apply inside_bind hname
  intro packagename
  apply inside_bind hexports
  intro tables
  apply inside_files
  intro fs
  apply Within.ite
  · apply inside_bind inside_createMakefile
    intro _
    exact inside_bind (inside_message _) fun _ => inside_pure _
  · apply Within.ite
    · exact inside_bind (inside_message _) fun _ => inside_pure _
    · apply inside_bind (inside_onFiles fun fs hfs => frame_mkdirs_inside hfs (List.prefix_refl _))
      intro _
      apply inside_bind (inside_onFiles fun fs _ => frame_write (T := (funPath fn <+: ·)) (List.prefix_append _ _) _)
      intro _
      apply inside_bind (Within.ite inside_deriveMakefile inside_createMakefile)
      intro _
      apply inside_bind (inside_onFiles fun fs _ => frame_mkdir (List.prefix_append _ _))
      intro _
      apply Within.ite (inside_stop _)
      apply inside_bind (inside_onFiles fun fs _ => frame_appendText (List.prefix_append _ _) _)
      intro _
      exact inside_pure _

end Create

section Call

variable {xml2 : Xml2} {h : Host}

theorem inside_fuzzFunAnalyze {fn : Text} (o : FuzzAnalyzeOutcome) (seed timeLimit : Int) :
    Within (StaysInside h fn) (deepstateFuzzFunAnalyze xml2 h o fn seed timeLimit) := by
  have hrun : ∀ runner names, Within (StaysInside h fn)
      (runFuzzAnalysis xml2 h o.run fn runner seed timeLimit names) := by
    intro runner names
    apply inside_of_effects (effects_runFuzzAnalysis o.run fn runner seed timeLimit names)
    rintro p (hp | ⟨d, n, rfl⟩)
    · exact below_of_fuzzTouches (.inl hp)
    · exact (List.prefix_append _ _).trans (List.prefix_append _ _)
  apply inside_files
  intro fs
  apply Within.ite
  · apply inside_bind (inside_onFiles fun fs _ => frame_mkdir (List.prefix_append _ _))
    intro _
    apply inside_files
    intro fs
    apply inside_bind (inside_of_effects (effects_ensureCompiled o.build) fun p hp => below_of_fuzzTouches (.inl hp))
    intro _
    apply Within.ite (inside_stop _)
    apply inside_files
    intro fs
    split
    · exact inside_stop _
    · exact hrun _ _
  · exact inside_stop _

theorem inside_map {fn : Text} {α β : Type} {m : Program α} (f : α → β) (hm : Within (StaysInside h fn) m) :
    Within (StaysInside h fn) (f <$> m) := by
  rw [map_eq_pure_bind]
  exact inside_bind hm fun a => inside_pure (f a)

theorem inside_apply (c : Call) (w : World) : StaysInside h c.fn w (c.apply xml2 h w) := by
  obtain ⟨fn, call⟩ := c
  cases call with
  | funCreate installed sep => exact inside_map _ inside_funCreate w
  | editableFun installed installed' =>
      refine inside_map _ (inside_bind inside_funCreate fun _ => inside_bind inside_funCreate fun _ => ?_) w
      exact inside_pure _
  | compileFun b sep =>
      exact inside_map _ (inside_of_effects (effects_compileFun b) fun _ hp => below_of_fuzzTouches (.inl hp)) w
  | fuzzFun o seed timeLimit sep =>
      exact inside_map _ (inside_of_effects (effects_fuzzFun o seed timeLimit) fun _ hp => below_of_fuzzTouches hp) w
  | analyzeFile o packageName sep name =>
      refine inside_map _ (inside_of_effects (effects_analyzeFile o packageName _ name) fun _ hp => ?_) w
      exact below_of_analyzeTouches hp
  | analyzeFun replay maxInputs sep =>
      refine inside_map _ (inside_of_effects (effects_analyzeFun replay fn maxInputs sep) fun _ hp => ?_) w
      exact below_of_analyzeTouches hp
  | fuzzFunAnalyze o seed timeLimit => exact inside_map _ (inside_fuzzFunAnalyze o seed timeLimit) w

/-! ## A call in packages that look alike -/

theorem alike_map {fn : Text} {l l' : List Event} {α β : Type} {m : Program α} (f : α → β)
    (hm : Related (Alike (Seen fn) l l') m m) : Related (Alike (Seen fn) l l') (f <$> m) (f <$> m) := by
  rw [map_eq_pure_bind]
  exact alike_bind hm fun a => alike_pure (f a)

theorem alike_program (fn : Text) (call : FunctionCall) (l l' : List Event) :
    Related (Alike (Seen fn) l l') (call.program xml2 h fn) (call.program xml2 h fn) := by
  cases call with
  | funCreate installed sep => exact alike_map _ alike_funCreate
  | editableFun installed installed' =>
      refine alike_map _ (alike_bind alike_funCreate fun _ => alike_bind alike_funCreate fun _ => ?_)
      exact alike_pure _
  | compileFun b sep => exact alike_map _ (alike_compileFun b)
  | fuzzFun o seed timeLimit sep => exact alike_map _ (alike_fuzzFun o seed timeLimit)
  | analyzeFile o packageName sep name => exact alike_map _ (alike_analyzeFile o packageName name)
  | analyzeFun replay maxInputs sep => exact alike_map _ (alike_analyzeFun replay maxInputs)
  | fuzzFunAnalyze o seed timeLimit => exact alike_map _ (alike_fuzzFunAnalyze o seed timeLimit)

/-- Two worlds look alike to the calls on a function. -/
def LooksAlike (fn : Text) (w w' : World) : Prop := SameView (Seen fn) w.fs w'.fs

theorem call_alike {c : Call} {w w' : World} (hw : LooksAlike c.fn w w') :
    c.report xml2 h w = c.report xml2 h w' ∧
      LooksAlike c.fn (c.apply xml2 h w) (c.apply xml2 h w') := by
  have hagree := @alike_program xml2 h c.fn c.call w.log w'.log w w'
    ⟨hw, [], (List.append_nil _).symm, (List.append_nil _).symm⟩
  have hafter : Alike (Seen c.fn) w.log w'.log (c.apply xml2 h w) (c.apply xml2 h w') := hagree.final
  refine ⟨?_, hafter.files⟩
  obtain ⟨es, hes, hes'⟩ := hafter.events
  have hevents : eventsSince w (c.apply xml2 h w) = eventsSince w' (c.apply xml2 h w') := by
    unfold eventsSince
    rw [hes, hes', List.drop_left, List.drop_left]
  unfold Call.report
  rw [hevents]
  generalize c.call.program xml2 h c.fn w = r at hagree
  generalize c.call.program xml2 h c.fn w' = r' at hagree
  cases hagree with
  | ok _ => rfl
  | error _ => rfl

end Call

/-! ## Interleavings -/

section Runs

variable {xml2 : Xml2} {h : Host} {w : World}

/-- To the calls on one function those on others go unseen. -/
theorem calls_unwind (fn : Text) : Run.Unwinds (Call.apply xml2 h) (Call.report xml2 h)
    (fun c => decide (c.fn = fn)) (fun w => Prepared h w.fs) (LooksAlike fn) where
  invariant c w hw := hw.of_frame (inside_apply c w hw)
  answers c w w' hown halike := by
    cases of_decide_eq_true hown
    exact (call_alike halike).1
  steps c w w' hown halike := by
    cases of_decide_eq_true hown
    exact (call_alike halike).2
  unseen c w w' hown hw halike := by
    have hne : c.fn ≠ fn := of_decide_eq_false hown
    have hunseen : LooksAlike fn w (c.apply xml2 h w) :=
      SameView.of_frame (inside_apply c w hw) fun p hseen hp => hne (hseen c.fn hp)
    exact hunseen.symm.trans halike

/-- Of all calls those on one function report what they report without the others, and leave the same behind. -/
theorem calls_isolated (hw : Prepared h w.fs) (calls : List Call) (fn : Text) :
    (reports xml2 h calls w).filter (fun r => decide (r.1.fn = fn)) =
        reports xml2 h (calls.filter fun c => decide (c.fn = fn)) w ∧
      LooksAlike fn (callAll xml2 h calls w) (callAll xml2 h (calls.filter fun c => decide (c.fn = fn)) w) :=
  (calls_unwind fn).run calls hw (SameView.refl _)

/-- Every path is seen by the calls on some function. -/
theorem exists_seen (p : Pathname) : ∃ fn, Seen fn p := by
  by_cases h : ∃ fn, funPath fn <+: p
  · obtain ⟨fn, hp⟩ := h
    exact ⟨fn, seen_own hp⟩
  · exact ⟨[], fun fn' hp => absurd ⟨fn', hp⟩ h⟩

/-- Two sequences with the same calls on every function, however interleaved, give the same reports and leave the
same files. -/
theorem calls_interleave (hw : Prepared h w.fs) {calls calls' : List Call}
    (hsame : ∀ fn, (calls.filter fun c => decide (c.fn = fn)) = calls'.filter fun c => decide (c.fn = fn)) :
    (∀ fn, (reports xml2 h calls w).filter (fun r => decide (r.1.fn = fn)) =
        (reports xml2 h calls' w).filter fun r => decide (r.1.fn = fn)) ∧
      ∀ p, (callAll xml2 h calls w).fs.read p = (callAll xml2 h calls' w).fs.read p ∧
        (callAll xml2 h calls w).fs.dirExists p = (callAll xml2 h calls' w).fs.dirExists p := by
  refine ⟨fun fn => ?_, fun p => ?_⟩
  · rw [(calls_isolated hw calls fn).1, (calls_isolated hw calls' fn).1, hsame fn]
  · obtain ⟨fn, hseen⟩ := exists_seen p
    have hleft := (@calls_isolated xml2 h w hw calls fn).2
    have hright := (@calls_isolated xml2 h w hw calls' fn).2
    rw [hsame fn] at hleft
    exact ⟨(hleft.read hseen).symm.trans (hright.read hseen), (hleft.dirExists hseen).symm.trans (hright.dirExists hseen)⟩

end Runs

/-- A package with its shared object, a harness of `g` that is not compiled, and none of `f`. -/
def builtPackage : World where
  fs := (((((FileSystem.empty.mkdirs (funPath "g")).mkdir ["src"]).write ["src", "pkg.so"] .sharedObject).write
    rcppExportsPath (.text sampleExports.text)).write (harnessPath "g" .infun) (.text "int y;")).write
      (makefilePath "g" .infun) (.text [])
  log := []

theorem prepared_builtPackage : Prepared sampleHost builtPackage.fs where
  inst := by with_unfolding_all decide
  testfiles := by with_unfolding_all decide
  built := by with_unfolding_all decide

def createF : Call := ⟨"f", .funCreate (sampleInstallation true) .infun⟩

def compileF : Call := ⟨"f", .compileFun ⟨true, false, .removes⟩ .infun⟩

def compileG : Call := ⟨"g", .compileFun ⟨true, true, .keeps⟩ .infun⟩

theorem calls_interleave_builtPackage :
    (∀ fn, (reports (.ofParser fun _ => none) sampleHost [createF, compileG, compileF] builtPackage).filter
        (fun r => decide (r.1.fn = fn)) =
      (reports (.ofParser fun _ => none) sampleHost [compileG, createF, compileF] builtPackage).filter
        fun r => decide (r.1.fn = fn)) ∧
    ∀ p, (callAll (.ofParser fun _ => none) sampleHost [createF, compileG, compileF] builtPackage).fs.read p =
        (callAll (.ofParser fun _ => none) sampleHost [compileG, createF, compileF] builtPackage).fs.read p ∧
      (callAll (.ofParser fun _ => none) sampleHost [createF, compileG, compileF] builtPackage).fs.dirExists p =
        (callAll (.ofParser fun _ => none) sampleHost [compileG, createF, compileF] builtPackage).fs.dirExists p := by
  refine calls_interleave prepared_builtPackage fun fn => ?_
  have hne : ("g" : Text) ≠ "f" := by with_unfolding_all decide
  by_cases hf : ("f" : Text) = fn
  · subst hf
    simp [createF, compileF, compileG, hne]
  · simp [createF, compileF, compileG, List.filter_cons, hf]

end RcppDeepState
