import RcppDeepState.Package.Lemmas.Frames

/-!
# Cleaning the function directories

`deepstate_pkg_create` empties the directories that hold a default harness, of everything but it and what
is hidden.
-/

namespace RcppDeepState

open FileSystem

/-- The function directories that cleaning empties: those with a default harness. -/
def Cleaned (fs : FileSystem Content) (fn : Text) : Prop :=
  fs.dirExists testPath = true ∧ fn ∈ fs.listFiles testPath ∧
    fs.fileExists (harnessPath fn .infun) = true

instance (fs : FileSystem Content) (fn : Text) : Decidable (Cleaned fs fn) :=
  inferInstanceAs (Decidable (_ ∧ _))

section Clean

variable {fs : FileSystem Content} {fn fn' n : Text} {sep : Sep}

theorem harnessPath_infun (hsep : sep.editable = false) : harnessPath fn sep = harnessPath fn .infun := by
  cases sep with
  | infun => rfl
  | other => rfl
  | generation => cases hsep
  | checks => cases hsep

theorem harnessFile_ne (hsep : sep.editable = true) : harnessFile fn sep ≠ harnessFile fn .infun := by
  intro hp
  have := (testHarness_append_inj (by simp [buildExtensions]) (by simp [buildExtensions]) hp).1
  cases sep with
  | infun => cases hsep
  | other => cases hsep
  | generation => exact absurd this (by with_unfolding_all decide)
  | checks => exact absurd this (by with_unfolding_all decide)

theorem hidden_harnessFile : (harnessFile fn sep).head? = some '.' ↔ fn.head? = some '.' := by
  cases fn with
  | nil => cases sep <;> with_unfolding_all decide
  | cons c fn => simp [harnessFile, testHarness]

theorem prefix_funPath_append {m : Text} : funPath fn' ++ [m] <+: funPath fn ++ [n] ↔ fn' = fn ∧ m = n := by
  constructor
  · intro hp
    exact funPath_append_inj.mp (hp.eq_of_length (by simp [funPath, testPath]))
  · rintro ⟨rfl, rfl⟩
    exact List.prefix_rfl

/-- What cleaning a directory deletes, when it finds a default harness. -/
theorem gone_iff : (((fs.listFiles (funPath fn')).filter (· ≠ harnessFile fn' .infun)).any fun m =>
      (funPath fn' ++ [m]).isPrefixOf (funPath fn ++ [n])) = true ↔
    fn' = fn ∧ n ≠ harnessFile fn .infun ∧ n.head? ≠ some '.' ∧ fs.fileExists (funPath fn ++ [n]) = true := by
  simp only [List.any_eq_true, List.mem_filter, List.isPrefixOf_iff_prefix, prefix_funPath_append,
    decide_eq_true_eq, mem_listFiles]
  constructor
  · rintro ⟨m, ⟨⟨hex, hdot⟩, hne⟩, rfl, rfl⟩
    exact ⟨rfl, hne, hdot, hex⟩
  · rintro ⟨rfl, hne, hdot, hex⟩
    exact ⟨n, ⟨⟨hex, hdot⟩, hne⟩, rfl, rfl⟩

/-- Cleaning one directory deletes what is beside a default harness. -/
theorem node?_cleanFunction : (cleanFunction fs fn').node? (funPath fn ++ [n]) =
    if fn' = fn ∧ n ≠ harnessFile fn .infun ∧ n.head? ≠ some '.' ∧
      fs.fileExists (harnessPath fn .infun) = true then none
    else fs.node? (funPath fn ++ [n]) := by
  unfold cleanFunction
  by_cases hex : fs.fileExists (harnessPath fn' .infun) = true
  · rw [if_pos hex, node?_remove]
    by_cases hc : fn' = fn ∧ n ≠ harnessFile fn .infun ∧ n.head? ≠ some '.' ∧
        fs.fileExists (harnessPath fn .infun) = true
    · rw [if_pos hc]
      split
      · rfl
      · rename_i hgone
        cases hn : fs.node? (funPath fn ++ [n]) with
        | none => rfl
        | some x => exact absurd (gone_iff.mpr ⟨hc.1, hc.2.1, hc.2.2.1, by rw [fileExists, hn]; rfl⟩) hgone
    · rw [if_neg hc, if_neg]
      intro hgone
      obtain ⟨rfl, hne, hdot, _⟩ := gone_iff.mp hgone
      exact hc ⟨rfl, hne, hdot, hex⟩
  · rw [if_neg hex, if_neg]
    rintro ⟨rfl, _, _, hex'⟩
    exact hex hex'

theorem node?_cleanFunctions (fns : List Text) :
    (fns.foldl cleanFunction fs).node? (funPath fn ++ [n]) =
      if fn ∈ fns ∧ n ≠ harnessFile fn .infun ∧ n.head? ≠ some '.' ∧
        fs.fileExists (harnessPath fn .infun) = true then none
      else fs.node? (funPath fn ++ [n]) := by
  induction fns generalizing fs with
  | nil => simp
  | cons fn' fns ih =>
      have hdefault : (cleanFunction fs fn').fileExists (harnessPath fn .infun) =
          fs.fileExists (harnessPath fn .infun) := by
        rw [fileExists, harnessPath, node?_cleanFunction, if_neg (by simp), fileExists]
      rw [List.foldl_cons, ih, hdefault, node?_cleanFunction]
      by_cases hfn : fn' = fn
      · subst hfn
        simp only [List.mem_cons, true_or, true_and]
        split
        · rename_i h
          rw [if_pos h.2]
        · rfl
      · have hne : ¬ fn = fn' := fun he => hfn he.symm
        simp [hfn, hne]

/-- What preparing the test files does to what lies in the directory of a function. -/
theorem node?_prepareTestfiles : (prepareTestfiles fs).node? (funPath fn ++ [n]) =
    if n ≠ harnessFile fn .infun ∧ n.head? ≠ some '.' ∧ Cleaned fs fn then none
    else fs.node? (funPath fn ++ [n]) := by
  unfold prepareTestfiles
  split
  · rename_i hdir
    rw [node?_cleanFunctions]
    refine if_congr ?_ rfl rfl
    constructor
    · rintro ⟨hfn, hne, hdot, hex⟩
      exact ⟨hne, hdot, hdir, hfn, hex⟩
    · rintro ⟨hne, hdot, _, hfn, hex⟩
      exact ⟨hfn, hne, hdot, hex⟩
  · rename_i hdir
    rw [if_neg (fun hc => hdir hc.2.2.1)]
    refine node?_mkdirs _ _ _ (fun hp => ?_)
    have := hp.1.length_le
    simp [funPath, testPath] at this

/-- Cleaning a directory deletes nothing but what lies below it. -/
theorem frame_cleanFunction : Frame (fun p => ∃ n, funPath fn ++ [n] <+: p) fs (cleanFunction fs fn) := by
  unfold cleanFunction
  split
  · refine frame_remove (fun p hp => ?_)
    obtain ⟨n, _, hn⟩ := List.any_eq_true.mp hp
    exact ⟨n, List.isPrefixOf_iff_prefix.mp hn⟩
  · exact Frame.refl _

/-- Cleaning keeps the function directories. -/
theorem frame_cleanFunctions (fns : List Text) :
    Frame (fun p => ∃ fn n, funPath fn ++ [n] <+: p) fs (fns.foldl cleanFunction fs) := by
  induction fns generalizing fs with
  | nil => exact Frame.refl _
  | cons fn fns ih => exact Frame.trans (frame_cleanFunction.mono fun _ hp => ⟨fn, hp⟩) ih

end Clean

end RcppDeepState
