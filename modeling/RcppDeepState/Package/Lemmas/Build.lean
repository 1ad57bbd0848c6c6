import RcppDeepState.Package.Lemmas.FunCreate

/-!
# What compiling and fuzzing touch

Both leave the harness files alone.
-/

namespace RcppDeepState

open Command FileSystem

/-! ## make -/

/-- Object files of a function. -/
def ObjectTouches (fn : Text) (p : Pathname) : Prop := ∃ n, p = funPath fn ++ [n] ∧ (".o" : Text) <:+ n

/-- Object files of a function, and the executable of one harness. -/
def CompileTouches (fn : Text) (sep : Sep) (p : Pathname) : Prop :=
  ObjectTouches fn p ∨ p = executablePath fn sep

section Make

variable {fn : Text} {sep : Sep} {fs : FileSystem Content}

theorem objectTouches_object : ObjectTouches fn (objectPath fn sep) :=
  ⟨_, rfl, List.suffix_append _ _⟩

theorem frame_makeObject (compiles : Bool) :
    Frame (ObjectTouches fn) fs (makeObject compiles fs fn sep).1 := by
  unfold makeObject
  split
  · exact Frame.refl _
  · split
    · split
      · exact frame_write objectTouches_object _
      · exact Frame.refl _
    · exact Frame.refl _

theorem frame_failedLink (f : FailedLink) {p : Pathname} : Frame (· = p) fs (f.apply p fs) := by
  cases f with
  | keeps => exact Frame.refl fs
  | removes => exact frame_remove fun _ hq => of_decide_eq_true hq
  | leaves c => exact frame_write (T := (· = p)) rfl c

theorem frame_makeExecutable (b : BuildOutcome) :
    Frame (CompileTouches fn sep) fs (makeExecutable b fs fn sep) := by
  unfold makeExecutable
  split
  · split
    · split
      · exact frame_write (Or.inr rfl) _
      · exact (frame_failedLink b.failed).mono fun _ hp => Or.inr hp
    · exact Frame.refl _
  · exact Frame.refl _

theorem frame_make (b : BuildOutcome) : Frame (CompileTouches fn sep) fs (make b fn sep fs) := by
  have hobj := @Frame.mono _ _ (CompileTouches fn sep) _ _ (@frame_makeObject fn sep fs b.compiles) fun _ => Or.inl
  unfold make
  split
  · rename_i fs' heq
    rw [heq] at hobj
    exact Frame.trans hobj (frame_makeExecutable b)
  · rename_i fs' heq
    rw [heq] at hobj
    exact hobj

theorem frame_removeObjects : Frame (ObjectTouches fn) fs (removeObjects fn fs) := by
  refine frame_remove (fun p hp => ?_)
  split at hp
  · rename_i n hn
    exact ⟨n, (nameIn_eq_some.mp hn).1, by simpa using hp⟩
  · cases hp

end Make

/-! ## Compiling and fuzzing -/

/-- What compiling may record. -/
def CompileEvents : Event → Prop
  | .system _ | .message (.compiling _) => True
  | _ => False

/-- What compiling and fuzzing may record. -/
def BuildEvents : Event → Prop
  | .system _ | .run _ | .message (.compiling _) | .message (.running _)
  | .message (.noDescription _) => True
  | _ => False

theorem buildEvents_of_compileEvents {e : Event} (he : CompileEvents e) : BuildEvents e := by
  unfold CompileEvents at he
  split at he <;> trivial

/-- What running the fuzzer may change. -/
def RunTouches (fn : Text) (sep : Sep) (p : Pathname) : Prop :=
  p = logFile fn sep ∨ (∃ n, p = outputDir fn sep ++ [n]) ∨ ∃ n, p = inputsPath fn ++ [n]

/-- What fuzzing may change. -/
def FuzzTouches (fn : Text) (sep : Sep) (p : Pathname) : Prop := CompileTouches fn sep p ∨ RunTouches fn sep p

section Programs

variable {h : Host} {fn : Text} {sep : Sep}

theorem effects_runMake (b : BuildOutcome) :
    Within (Effects (CompileTouches fn sep) CompileEvents) (runMake h b fn sep) := by
  have hmake : Within (Effects (CompileTouches fn sep) CompileEvents) (do
      record (.system (compileLine h fn sep))
      onFiles fun fs => make b fn sep (removeObjects fn fs)) :=
    effects_bind (effects_record trivial) (fun _ =>
      effects_onFiles fun _ => Frame.trans (frame_removeObjects.mono fun _ => Or.inl) (frame_make b))
  exact effects_ite (effects_bind (effects_message trivial) fun _ => hmake) hmake

theorem effects_compileFun (b : BuildOutcome) :
    Within (Effects (CompileTouches fn sep) CompileEvents) (deepstateCompileFun h b fn sep) :=
  effects_files fun _ => effects_ite (effects_stop _)
    (effects_ite (effects_runMake b) (effects_stop _))

theorem frame_fuzzEffects (o : FuzzOutcome) {fs : FileSystem Content} :
    Frame (RunTouches fn sep) fs (fuzzEffects o fn sep fs) := by
  have hlog : Frame (RunTouches fn sep) fs
      (writeInto (funPath fn) [(fn ++ sep.suffix ++ "_log_text", .text o.log)] fs) := by
    unfold writeInto
    split
    · exact frame_write (Or.inl rfl) _
    · exact Frame.refl _
  unfold fuzzEffects
  simp only
  split
  · exact Frame.trans hlog (Frame.trans
      (frame_writeInto (fun n => Or.inr (Or.inl ⟨n, rfl⟩)) _)
      (frame_writeInto (fun n => Or.inr (Or.inr ⟨n, rfl⟩)) _))
  · exact hlog

theorem effects_runFuzzer (o : FuzzOutcome) (name : Option Text) (seed timeLimit : Int) :
    Within (Effects (RunTouches fn sep) BuildEvents) (runFuzzer h o name fn seed timeLimit sep) := by
  have hrun : Within (Effects (RunTouches fn sep) BuildEvents) (do
      record (.system (runExecutable h name fn seed timeLimit sep))
      record (.run (executableSource (← files) fn sep))
      onFiles (fuzzEffects o fn sep)
      let fs ← files
      if fs.fileExists (objectPath fn sep) && fs.fileExists (executablePath fn sep) then
        return some fn
      else
        return none) := by
    refine effects_bind (effects_record trivial) (fun _ => effects_files fun _ => ?_)
    refine effects_bind (effects_record trivial) (fun _ => ?_)
    refine effects_bind (effects_onFiles fun _ => frame_fuzzEffects o) (fun _ => effects_files fun _ => ?_)
    exact effects_ite (effects_pure _) (effects_pure _)
  exact effects_ite (effects_bind (effects_message trivial) fun _ => hrun) hrun

theorem effects_ensureCompiled (b : BuildOutcome) :
    Within (Effects (CompileTouches fn sep) CompileEvents) (ensureCompiled h b fn sep) :=
  effects_files fun _ => effects_ite (effects_pure _) (effects_compileFun b)

theorem effects_fuzzFun (o : FuzzOutcome) (seed timeLimit : Int) :
    Within (Effects (FuzzTouches fn sep) BuildEvents) (deepstateFuzzFun h o fn seed timeLimit sep) := by
  refine effects_bind (effects_getPackageName trivial) (fun name => effects_files fun fs => ?_)
  refine effects_ite (effects_bind ?_ fun _ => effects_ite (effects_stop _) ?_) (effects_stop _)
  · exact effects_mono (fun _ => Or.inl) (fun _ => buildEvents_of_compileEvents)
      (effects_ensureCompiled o.build)
  · exact effects_mono (fun _ => Or.inr) (fun _ => id) (effects_runFuzzer o name seed timeLimit)

end Programs

/-! ## Pasted numbers -/

theorem mem_pastedInt {i : Int} {c : Char} (hc : c ∈ pastedInt i) : c.isDigit = true ∨ c = '-' := by
  have hnat {n : Nat} (hc : c ∈ (toString n).toList) : c.isDigit = true :=
    Nat.isDigit_of_mem_toDigits (by decide) (by decide) (Nat.toList_repr ▸ hc)
  cases i with
  | ofNat n => exact .inl (hnat hc)
  | negSucc n =>
      have hminus : pastedInt (Int.negSucc n) = '-' :: (toString (n + 1)).toList := by
        rw [pastedInt]
        show ("-" ++ toString (n + 1)).toList = _
        simp
      rw [hminus, List.mem_cons] at hc
      exact hc.symm.imp_left hnat

/-! ## When compiling stops -/

/-- Compiling runs make, or stops and leaves everything as it was. -/
theorem compileFun_cases (h : Host) (b : BuildOutcome) (fn : Text) (sep : Sep) (w : World) :
    (sep ≠ .other ∧ w.fs.fileExists (harnessPath fn sep) = true ∧
      w.fs.fileExists (makefilePath fn sep) = true ∧
      ∃ w', deepstateCompileFun h b fn sep w = .ok () w' ∧ w'.fs = make b fn sep (removeObjects fn w.fs)) ∨
    (¬ (sep ≠ .other ∧ w.fs.fileExists (harnessPath fn sep) = true ∧
      w.fs.fileExists (makefilePath fn sep) = true) ∧
      ∃ e, deepstateCompileFun h b fn sep w = .error e w) := by
  unfold deepstateCompileFun
  rw [files_bind_apply]
  by_cases hsep : sep = .other
  · rw [if_pos hsep]
    exact Or.inr ⟨fun hc => hc.1 hsep, _, rfl⟩
  · rw [if_neg hsep]
    by_cases hfiles : (w.fs.fileExists (harnessPath fn sep) && w.fs.fileExists (makefilePath fn sep)) = true
    · rw [if_pos hfiles]
      rw [Bool.and_eq_true] at hfiles
      refine Or.inl ⟨hsep, hfiles.1, hfiles.2, ?_⟩
      unfold runMake
      split <;> exact ⟨_, rfl, rfl⟩
    · rw [if_neg hfiles]
      rw [Bool.and_eq_true] at hfiles
      exact Or.inr ⟨fun hc => hfiles hc.2, _, rfl⟩

/-- Fuzzing does not stop over a missing file: there is an object file, or a harness with its makefile. -/
def Fuzzable (fs : FileSystem Content) (fn : Text) : Prop :=
  fs.fileExists (objectPath fn .infun) = true ∨
    fs.fileExists (harnessPath fn .infun) = true ∧ fs.fileExists (makefilePath fn .infun) = true

theorem ensureCompiled_cases (h : Host) (b : BuildOutcome) (fn : Text) (w : World) :
    (Fuzzable w.fs fn ∧ ∃ w', ensureCompiled h b fn .infun w = .ok () w') ∨
      (¬ Fuzzable w.fs fn ∧ ∃ e, ensureCompiled h b fn .infun w = .error e w) := by
  unfold ensureCompiled
  rw [files_bind_apply]
  cases hobj : w.fs.fileExists (objectPath fn .infun) with
  | true => exact Or.inl ⟨Or.inl hobj, w, rfl⟩
  | false =>
      rw [if_neg (by simp)]
      obtain ⟨_, hharness, hmake, w', hok, _⟩ | ⟨hnot, e, he⟩ := compileFun_cases h b fn .infun w
      · exact Or.inl ⟨Or.inr ⟨hharness, hmake⟩, w', hok⟩
      · refine Or.inr ⟨?_, e, he⟩
        rintro (hthere | hfiles)
        · rw [hobj] at hthere
          cases hthere
        · exact hnot ⟨by decide, hfiles⟩

/-! ## Harness files stay -/

theorem harnessPath_not_object {fn fn' n : Text} {sep : Sep} (hn : (".o" : Text) <:+ n) :
    harnessPath fn sep ≠ funPath fn' ++ [n] := by
  intro hp
  obtain ⟨rfl, rfl⟩ := funPath_append_inj.mp hp
  have hcpp : (".cpp" : Text) <:+ harnessFile fn sep := List.suffix_append _ _
  have hsuf : (".o" : Text) <:+ (".cpp" : Text) :=
    List.suffix_of_suffix_length_le hn hcpp (by with_unfolding_all decide)
  exact absurd hsuf (by with_unfolding_all decide)

theorem executablePath_not_object {fn fn' n : Text} {sep : Sep} (hn : (".o" : Text) <:+ n) :
    executablePath fn sep ≠ funPath fn' ++ [n] := by
  intro hp
  obtain ⟨rfl, rfl⟩ := funPath_append_inj.mp hp
  have hend : ∃ t : Text, t <:+ ("_DeepState_TestHarness" : Text) ++ sep.suffix ∧ t.length = 2 ∧
      t ≠ (".o" : Text) := by
    cases sep with
    | generation => exact ⟨"on", by with_unfolding_all decide⟩
    | checks => exact ⟨"ks", by with_unfolding_all decide⟩
    | infun => exact ⟨"ss", by with_unfolding_all decide⟩
    | other => exact ⟨"ss", by with_unfolding_all decide⟩
  obtain ⟨t, ht, hlen, hne⟩ := hend
  have htail : t <:+ testHarness fn sep := by
    rw [testHarness, List.append_assoc]
    exact ht.trans (List.suffix_append _ _)
  have hlen' : (".o" : Text).length = 2 := by with_unfolding_all decide
  have hsuf : t <:+ (".o" : Text) := List.suffix_of_suffix_length_le htail hn (by rw [hlen, hlen'])
  exact hne (hsuf.eq_of_length (by rw [hlen, hlen']))

theorem harnessPath_ne_executablePath (fn fn' : Text) (sep sep' : Sep) :
    harnessPath fn sep ≠ executablePath fn' sep' := by
  rw [harnessPath_eq, executablePath_eq]
  intro hp
  have := (buildPath_inj (by simp [buildExtensions]) (by simp [buildExtensions]) hp).2.2
  exact absurd this (by with_unfolding_all decide)

/-- Running the fuzzer touches no file of a build. -/
theorem not_runTouches {fn fn' : Text} {sep sep' : Sep} {ext : Text} (he : ext ∈ buildExtensions) :
    ¬ RunTouches fn' sep' (buildPath fn sep ext) := by
  rintro (hp | ⟨n, hp⟩ | ⟨n, hp⟩)
  · exact buildPath_ne_logFile fn fn' sep sep' he hp
  · have := congrArg List.length hp
    simp [buildPath, outputDir, funPath, testPath] at this
  · have := congrArg List.length hp
    simp [buildPath, inputsPath, funPath, testPath] at this

theorem not_fuzzTouches_harness {fn fn' : Text} {sep sep' : Sep} :
    ¬ FuzzTouches fn' sep' (harnessPath fn sep) := by
  rintro ((⟨n, hp, hn⟩ | hp) | hp)
  · exact harnessPath_not_object hn hp
  · exact harnessPath_ne_executablePath fn fn' sep sep' hp
  · exact @not_runTouches _ _ _ _ ".cpp" (by simp [buildExtensions]) hp

end RcppDeepState
