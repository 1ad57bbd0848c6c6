import RcppDeepState.Library.FileSystem

/-!
# Trees that look alike

Two trees look alike on a set of paths when these hold the same and their files have been written in the same
order. The times themselves may differ.
-/

/-- What a node holds, whenever it was written; `none` is a directory. -/
def Node.content {γ : Type} : Node γ → Option γ
  | .dir => none
  | .file c _ => some c

namespace FileSystem

variable {γ : Type}

def kind? (fs : FileSystem γ) (p : Pathname) : Option (Option γ) := (fs.node? p).map Node.content

/-- Both are files, and `p` was written first. -/
def isOlder (fs : FileSystem γ) (p q : Pathname) : Bool :=
  match fs.mtime p, fs.mtime q with
  | some t, some u => decide (t < u)
  | _, _ => false

structure SameView (V : Pathname → Prop) (fs fs' : FileSystem γ) : Prop where
  kind : ∀ p, V p → fs'.kind? p = fs.kind? p
  order : ∀ p q, V p → V q → fs'.isOlder p q = fs.isOlder p q

/-! ## What is read of a node -/

section Observe

variable {fs : FileSystem γ} {p q : Pathname}

theorem read_eq_kind : fs.read p = (fs.kind? p).bind id := by
  unfold read kind?
  cases fs.node? p with
  | none => rfl
  | some n => cases n <;> rfl

theorem fileExists_eq_kind : fs.fileExists p = (fs.kind? p).isSome := by
  unfold fileExists kind?
  cases fs.node? p <;> rfl

theorem dirExists_eq_kind : fs.dirExists p = decide ((fs.kind? p).map Option.isNone = some true) := by
  unfold dirExists kind?
  cases fs.node? p with
  | none => rfl
  | some n => cases n <;> rfl

theorem isSome_mtime : (fs.mtime p).isSome = (fs.read p).isSome := by
  unfold mtime read
  cases fs.node? p with
  | none => rfl
  | some n => cases n <;> rfl

end Observe

/-! ## After each operation -/

section Operations

variable {fs : FileSystem γ} {p q r : Pathname} {c : γ}

theorem kind?_write : (fs.write p c).kind? q = if q = p then some (some c) else fs.kind? q := by
  unfold kind?
  rw [node?_write]
  split <;> rfl

theorem kind?_mkdir : (fs.mkdir p).kind? q = if q = p then (fs.kind? p).or (some none) else fs.kind? q := by
  unfold kind?
  rw [node?_mkdir]
  by_cases hq : q = p
  · subst hq
    cases fs.node? q with
    | none => simp [Node.content]
    | some n => simp
  · rw [if_neg (fun h => hq h.1), if_neg hq]

theorem kind?_mkdirs :
    (fs.mkdirs p).kind? q = if q ∈ p.inits.tail then (fs.kind? q).or (some none) else fs.kind? q := by
  unfold mkdirs
  induction p.inits.tail generalizing fs with
  | nil => rfl
  | cons r rs ih =>
      rw [List.foldl_cons, ih, kind?_mkdir]
      by_cases hq : q = r
      · subst hq
        rw [if_pos rfl, if_pos List.mem_cons_self]
        cases fs.kind? q with
        | none => split <;> rfl
        | some k => split <;> rfl
      · simp only [List.mem_cons, hq, false_or, ↓reduceIte]

theorem kind?_remove {gone : Pathname → Bool} :
    (fs.remove gone).kind? q = if gone q then none else fs.kind? q := by
  unfold kind?
  rw [node?_remove]
  split <;> rfl

/-! ### Doing it twice -/

/-- What writing files and making directories does to what stands at a path. -/
inductive Settles : (Option (Option γ) → Option (Option γ)) → Prop
  | stays : Settles fun k => k
  | dir : Settles fun k => k.or (some none)
  | file (c : γ) : Settles fun _ => some (some c)

theorem Settles.comp {f g : Option (Option γ) → Option (Option γ)} (hf : Settles f) (hg : Settles g) :
    Settles fun k => g (f k) := by
  cases hg with
  | stays => exact hf
  | file c => exact .file c
  | dir =>
    cases hf with
    | stays => exact .dir
    | file c => exact .file c
    | dir =>
      simp only [Option.or_assoc, Option.or_self]
      exact .dir

theorem Settles.again {f : Option (Option γ) → Option (Option γ)} (hf : Settles f) (k : Option (Option γ)) :
    f (f k) = f k := by
  cases hf with
  | stays => rfl
  | file c => rfl
  | dir => exact (Option.or_assoc ..).trans (by rw [Option.or_self])

/-- The operation does to a path what writing files and making directories does. -/
def SettlesAt (p : Pathname) (op : FileSystem γ → FileSystem γ) : Prop :=
  ∃ f, Settles f ∧ ∀ fs, (op fs).kind? p = f (fs.kind? p)

theorem settlesAt_id : SettlesAt q fun fs : FileSystem γ => fs := ⟨_, .stays, fun _ => rfl⟩

theorem settlesAt_write (p : Pathname) (c : γ) : SettlesAt q (·.write p c) := by
  by_cases hq : q = p
  · exact ⟨_, .file c, fun fs => by rw [kind?_write, if_pos hq]⟩
  · exact ⟨_, .stays, fun fs => by rw [kind?_write, if_neg hq]⟩

theorem settlesAt_mkdir (p : Pathname) : SettlesAt q fun fs : FileSystem γ => fs.mkdir p := by
  by_cases hq : q = p
  · subst hq
    exact ⟨_, .dir, fun fs => by rw [kind?_mkdir, if_pos rfl]⟩
  · exact ⟨_, .stays, fun fs => by rw [kind?_mkdir, if_neg hq]⟩

theorem settlesAt_mkdirs (p : Pathname) : SettlesAt q fun fs : FileSystem γ => fs.mkdirs p := by
  by_cases hq : q ∈ p.inits.tail
  · exact ⟨_, .dir, fun fs => by rw [kind?_mkdirs, if_pos hq]⟩
  · exact ⟨_, .stays, fun fs => by rw [kind?_mkdirs, if_neg hq]⟩

theorem SettlesAt.comp {op op' : FileSystem γ → FileSystem γ} (h : SettlesAt q op) (h' : SettlesAt q op') :
    SettlesAt q fun fs => op' (op fs) := by
  obtain ⟨f, hf, hop⟩ := h
  obtain ⟨g, hg, hop'⟩ := h'
  exact ⟨_, hf.comp hg, fun fs => by rw [hop', hop]⟩

theorem SettlesAt.foldl {α : Type} {op : FileSystem γ → α → FileSystem γ} (h : ∀ a, SettlesAt q (op · a))
    (as : List α) : SettlesAt q fun fs => as.foldl op fs := by
  induction as with
  | nil => exact settlesAt_id
  | cons a as ih => exact (h a).comp ih

/-- A file that is written is the newest one. -/
theorem isOlder_write : (fs.write p c).isOlder q r =
    if q = p then false else if r = p then (fs.read q).isSome else fs.isOlder q r := by
  unfold isOlder
  by_cases hq : q = p
  · subst hq
    rw [if_pos rfl, mtime_write_self]
    by_cases hr : r = q
    · subst hr
      rw [mtime_write_self]
      exact decide_eq_false (Nat.lt_irrefl _)
    · rw [mtime_write_ne hr]
      cases hu : fs.mtime r with
      | none => rfl
      | some u => exact decide_eq_false (Nat.not_lt_of_lt (mtime_lt_clock hu))
  · rw [if_neg hq, mtime_write_ne hq]
    by_cases hr : r = p
    · subst hr
      rw [if_pos rfl, mtime_write_self, ← isSome_mtime]
      cases ht : fs.mtime q with
      | none => rfl
      | some t => exact decide_eq_true (mtime_lt_clock ht)
    · rw [if_neg hr, mtime_write_ne hr]

theorem isOlder_mkdir : (fs.mkdir p).isOlder q r = fs.isOlder q r := by
  unfold isOlder
  rw [mtime_mkdir, mtime_mkdir]

theorem isOlder_remove {gone : Pathname → Bool} :
    (fs.remove gone).isOlder q r = (!gone q && !gone r && fs.isOlder q r) := by
  have hmtime : ∀ s, (fs.remove gone).mtime s = if gone s then none else fs.mtime s := by
    intro s
    unfold mtime
    rw [node?_remove]
    cases gone s <;> rfl
  unfold isOlder
  rw [hmtime, hmtime]
  cases gone q with
  | true => rfl
  | false =>
      cases gone r with
      | true => cases fs.mtime q <;> rfl
      | false => rfl

end Operations

/-! ## Trees that look alike stay alike -/

namespace SameView

variable {V : Pathname → Prop} {fs fs' : FileSystem γ}

theorem refl (fs : FileSystem γ) : SameView V fs fs := ⟨fun _ _ => rfl, fun _ _ _ _ => rfl⟩

theorem symm (h : SameView V fs fs') : SameView V fs' fs :=
  ⟨fun p hp => (h.kind p hp).symm, fun p q hp hq => (h.order p q hp hq).symm⟩

theorem trans {fs'' : FileSystem γ} (h : SameView V fs fs') (h' : SameView V fs' fs'') : SameView V fs fs'' :=
  ⟨fun p hp => (h'.kind p hp).trans (h.kind p hp), fun p q hp hq => (h'.order p q hp hq).trans (h.order p q hp hq)⟩

/-- A change of other paths is not seen. -/
theorem of_frame {T : Pathname → Prop} (h : Frame T fs fs') (hT : ∀ p, V p → ¬ T p) : SameView V fs fs' := by
  refine ⟨fun p hp => ?_, fun p q hp hq => ?_⟩
  · unfold kind?
    rw [h p (hT p hp)]
  · unfold isOlder
    rw [h.mtime (hT p hp), h.mtime (hT q hq)]

section Observe

variable {p d : Pathname}

theorem read (h : SameView V fs fs') (hp : V p) : fs'.read p = fs.read p := by
  rw [read_eq_kind, read_eq_kind, h.kind p hp]

theorem fileExists (h : SameView V fs fs') (hp : V p) : fs'.fileExists p = fs.fileExists p := by
  rw [fileExists_eq_kind, fileExists_eq_kind, h.kind p hp]

theorem dirExists (h : SameView V fs fs') (hp : V p) : fs'.dirExists p = fs.dirExists p := by
  rw [dirExists_eq_kind, dirExists_eq_kind, h.kind p hp]

theorem listFiles (h : SameView V fs fs') (hd : ∀ n, V (d ++ [n])) : fs'.listFiles d = fs.listFiles d :=
  listFiles_congr fun n => h.fileExists (hd n)

end Observe

section Operations

variable (h : SameView V fs fs')

include h

theorem write (p : Pathname) (c : γ) : SameView V (fs.write p c) (fs'.write p c) := by
  refine ⟨fun q hq => ?_, fun q r hq hr => ?_⟩
  · rw [kind?_write, kind?_write, h.kind q hq]
  · rw [isOlder_write, isOlder_write, h.read hq, h.order q r hq hr]

theorem mkdir (p : Pathname) : SameView V (fs.mkdir p) (fs'.mkdir p) := by
  refine ⟨fun q hq => ?_, fun q r hq hr => ?_⟩
  · rw [kind?_mkdir, kind?_mkdir]
    by_cases hqp : q = p
    · subst hqp
      rw [if_pos rfl, if_pos rfl, h.kind q hq]
    · rw [if_neg hqp, if_neg hqp, h.kind q hq]
  · rw [isOlder_mkdir, isOlder_mkdir, h.order q r hq hr]

theorem mkdirs (p : Pathname) : SameView V (fs.mkdirs p) (fs'.mkdirs p) := by
  unfold FileSystem.mkdirs
  induction p.inits.tail generalizing fs fs' with
  | nil => exact h
  | cons r rs ih => exact ih (h.mkdir r)

theorem remove (gone : Pathname → Bool) : SameView V (fs.remove gone) (fs'.remove gone) := by
  refine ⟨fun q hq => ?_, fun q r hq hr => ?_⟩
  · rw [kind?_remove, kind?_remove, h.kind q hq]
  · rw [isOlder_remove, isOlder_remove, h.order q r hq hr]

theorem unlink (p : Pathname) : SameView V (fs.unlink p) (fs'.unlink p) := h.remove _

end Operations

end SameView

end FileSystem
