import Mathlib.Data.List.AList
import RcppDeepState.Library.Text

/-!
# A file tree with modification times

A path is the list of its components. A tree maps paths to directories and files; every write gives the
file a later modification time than any file written before.
-/

abbrev Pathname := List Text

inductive Node (γ : Type)
  | dir
  | file (content : γ) (mtime : Nat)
  deriving DecidableEq

/-- No file is as new as the next one written. -/
structure FileSystem (γ : Type) where
  nodes : AList fun _ : Pathname => Node γ
  clock : Nat
  older : ∀ p c t, nodes.lookup p = some (.file c t) → t < clock

namespace FileSystem

variable {γ : Type}

/-! ## Operations -/

def empty : FileSystem γ := ⟨∅, 0, fun p c t h => by simp at h⟩

def node? (fs : FileSystem γ) (p : Pathname) : Option (Node γ) := fs.nodes.lookup p

def fileExists (fs : FileSystem γ) (p : Pathname) : Bool := (fs.node? p).isSome

def dirExists (fs : FileSystem γ) (p : Pathname) : Bool :=
  match fs.node? p with
  | some .dir => true
  | _ => false

def read (fs : FileSystem γ) (p : Pathname) : Option γ :=
  match fs.node? p with
  | some (.file c _) => some c
  | _ => none

def mtime (fs : FileSystem γ) (p : Pathname) : Option Nat :=
  match fs.node? p with
  | some (.file _ t) => some t
  | _ => none

/-- Write a file, in place of what was there. -/
def write (fs : FileSystem γ) (p : Pathname) (c : γ) : FileSystem γ where
  nodes := fs.nodes.insert p (.file c fs.clock)
  clock := fs.clock + 1
  older := by
    intro q c' t hq
    by_cases h : q = p
    · subst h
      rw [AList.lookup_insert] at hq
      cases hq
      exact Nat.lt_succ_self _
    · rw [AList.lookup_insert_ne h] at hq
      exact Nat.lt_succ_of_lt (fs.older q c' t hq)

def insertDir (fs : FileSystem γ) (p : Pathname) : FileSystem γ where
  nodes := fs.nodes.insert p .dir
  clock := fs.clock
  older := by
    intro q c t hq
    by_cases h : q = p
    · subst h
      rw [AList.lookup_insert] at hq
      cases hq
    · rw [AList.lookup_insert_ne h] at hq
      exact fs.older q c t hq

/-- Make one directory, unless the path exists. -/
def mkdir (fs : FileSystem γ) (p : Pathname) : FileSystem γ := if fs.fileExists p then fs else fs.insertDir p

/-- Make a directory and those above it. -/
def mkdirs (fs : FileSystem γ) (p : Pathname) : FileSystem γ :=
  p.inits.tail.foldl mkdir fs

theorem dlookup_filter (keep : Pathname → Bool) (l : List (Σ _ : Pathname, Node γ)) (q : Pathname) :
    List.dlookup q (l.filter fun e => keep e.1) = if keep q then List.dlookup q l else none := by
  induction l with
  | nil => simp
  | cons e l ih =>
      obtain ⟨r, n⟩ := e
      by_cases hr : r = q
      · subst hr
        by_cases hk : keep r
        · simp [hk]
        · simp only [List.filter_cons, hk]
          simpa [hk] using ih
      · have hne : q ≠ r := Ne.symm hr
        by_cases hk : keep r
        · rw [List.filter_cons_of_pos (by simpa using hk), List.dlookup_cons_ne _ _ hne, ih,
            List.dlookup_cons_ne _ _ hne]
        · rw [List.filter_cons_of_neg (by simpa using hk), ih, List.dlookup_cons_ne _ _ hne]

/-- Drop every path that `gone` holds of. -/
def remove (fs : FileSystem γ) (gone : Pathname → Bool) : FileSystem γ where
  nodes := ⟨fs.nodes.entries.filter fun e => !gone e.1, fs.nodes.nodupKeys.sublist List.filter_sublist⟩
  clock := fs.clock
  older := by
    intro q c t hq
    rw [AList.lookup, dlookup_filter (fun r => !gone r) fs.nodes.entries q] at hq
    split at hq
    · exact fs.older q c t hq
    · cases hq

/-- Delete a file, or a directory with everything below it. -/
def unlink (fs : FileSystem γ) (p : Pathname) : FileSystem γ := fs.remove (p.isPrefixOf ·)

/-- The name of a path that lies directly in `d`. -/
def nameIn (d p : Pathname) : Option Text :=
  match p.getLast? with
  | some n => if p.dropLast = d ∧ n.head? ≠ some '.' then some n else none
  | none => none

/-- The names in a directory, sorted; names that start with a dot are not listed. -/
def listFiles (fs : FileSystem γ) (d : Pathname) : List Text :=
  (fs.nodes.keys.filterMap (nameIn d)).insertionSort (· ≤ ·)

/-! ## Observations after each operation -/

variable {fs : FileSystem γ} {p q d : Pathname} {c : γ}

theorem node?_write (fs : FileSystem γ) (p q : Pathname) (c : γ) :
    (fs.write p c).node? q = if q = p then some (.file c fs.clock) else fs.node? q := by
  unfold node? write
  by_cases h : q = p
  · subst h; simp
  · rw [if_neg h]; exact AList.lookup_insert_ne h

theorem node?_mkdir (fs : FileSystem γ) (p q : Pathname) :
    (fs.mkdir p).node? q = if q = p ∧ fs.node? p = none then some .dir else fs.node? q := by
  unfold mkdir fileExists insertDir
  cases hp : fs.node? p with
  | some n => simp
  | none =>
      simp only [Option.isSome_none, Bool.false_eq_true, ↓reduceIte, and_true]
      unfold node?
      by_cases h : q = p
      · subst h; simp
      · rw [if_neg h]; exact AList.lookup_insert_ne h

theorem node?_remove (fs : FileSystem γ) (gone : Pathname → Bool) (q : Pathname) :
    (fs.remove gone).node? q = if gone q then none else fs.node? q := by
  have h := dlookup_filter (fun r => !gone r) fs.nodes.entries q
  unfold node? remove AList.lookup
  rw [h]
  cases gone q <;> simp

@[simp] theorem read_write_self (fs : FileSystem γ) (p : Pathname) (c : γ) :
    (fs.write p c).read p = some c := by
  simp [read, node?_write]

theorem read_write_ne (h : q ≠ p) : (fs.write p c).read q = fs.read q := by
  simp [read, node?_write, h]

theorem fileExists_write (fs : FileSystem γ) (p q : Pathname) (c : γ) :
    (fs.write p c).fileExists q = (decide (q = p) || fs.fileExists q) := by
  unfold fileExists
  rw [node?_write]
  by_cases h : q = p <;> simp [h]

@[simp] theorem read_mkdir (fs : FileSystem γ) (p q : Pathname) : (fs.mkdir p).read q = fs.read q := by
  unfold read
  rw [node?_mkdir]
  by_cases h : q = p ∧ fs.node? p = none
  · obtain ⟨rfl, hn⟩ := h; simp [hn]
  · rw [if_neg h]

@[simp] theorem mtime_mkdir (fs : FileSystem γ) (p q : Pathname) : (fs.mkdir p).mtime q = fs.mtime q := by
  unfold mtime
  rw [node?_mkdir]
  by_cases h : q = p ∧ fs.node? p = none
  · obtain ⟨rfl, hn⟩ := h; simp [hn]
  · rw [if_neg h]

@[simp] theorem fileExists_empty (p : Pathname) : (empty : FileSystem γ).fileExists p = false := rfl

theorem fileExists_mkdir (fs : FileSystem γ) (p q : Pathname) :
    (fs.mkdir p).fileExists q = (decide (q = p) || fs.fileExists q) := by
  unfold fileExists
  rw [node?_mkdir]
  by_cases h : q = p
  · subst h
    cases fs.node? q <;> simp
  · simp [h]

@[simp] theorem read_mkdirs (fs : FileSystem γ) (p q : Pathname) : (fs.mkdirs p).read q = fs.read q := by
  unfold mkdirs
  induction p.inits.tail generalizing fs with
  | nil => rfl
  | cons r rs ih => rw [List.foldl_cons, ih, read_mkdir]

theorem fileExists_mkdirs (fs : FileSystem γ) (p q : Pathname) :
    (fs.mkdirs p).fileExists q = (decide (q ∈ p.inits.tail) || fs.fileExists q) := by
  unfold mkdirs
  induction p.inits.tail generalizing fs with
  | nil => simp
  | cons r rs ih =>
      rw [List.foldl_cons, ih, fileExists_mkdir]
      by_cases h : q = r <;> simp [h]

theorem read_remove (fs : FileSystem γ) (gone : Pathname → Bool) (q : Pathname) :
    (fs.remove gone).read q = if gone q then none else fs.read q := by
  unfold read
  rw [node?_remove]
  cases gone q <;> simp

theorem fileExists_remove (fs : FileSystem γ) (gone : Pathname → Bool) (q : Pathname) :
    (fs.remove gone).fileExists q = (!gone q && fs.fileExists q) := by
  unfold fileExists
  rw [node?_remove]
  cases gone q <;> simp

/-- A file is older than the next one written. -/
theorem mtime_lt_clock {t : Nat} (h : fs.mtime p = some t) : t < fs.clock := by
  unfold mtime at h
  split at h
  · rename_i c t' hn
    cases h
    exact fs.older p c _ hn
  · cases h

@[simp] theorem mtime_write_self (fs : FileSystem γ) (p : Pathname) (c : γ) :
    (fs.write p c).mtime p = some fs.clock := by
  simp [mtime, node?_write]

theorem mtime_write_ne (h : q ≠ p) : (fs.write p c).mtime q = fs.mtime q := by
  simp [mtime, node?_write, h]

theorem fileExists_of_read (h : fs.read p = some c) : fs.fileExists p = true := by
  unfold read at h
  unfold fileExists
  cases hn : fs.node? p with
  | none => rw [hn] at h; cases h
  | some n => rfl

@[simp] theorem node?_mkdirs (fs : FileSystem γ) (p q : Pathname) (h : ¬ (q <+: p ∧ q ≠ [])) :
    (fs.mkdirs p).node? q = fs.node? q := by
  unfold mkdirs
  have hmem : ∀ r ∈ p.inits.tail, r ≠ q := by
    rintro r hr rfl
    refine h ⟨(List.mem_inits _ _).mp (List.mem_of_mem_tail hr), ?_⟩
    rintro rfl
    cases p with
    | nil => simp at hr
    | cons x p => simp at hr
  generalize p.inits.tail = rs at hmem ⊢
  induction rs generalizing fs with
  | nil => rfl
  | cons r rs ih =>
      rw [List.foldl_cons, ih _ (fun x hx => hmem x (by simp [hx])), node?_mkdir,
        if_neg (fun hq => hmem r (by simp) hq.1.symm)]

/-! ## What an operation leaves alone -/

/-- Nothing but the paths of `T` differs between two trees. -/
def Frame (T : Pathname → Prop) (fs fs' : FileSystem γ) : Prop := ∀ p, ¬ T p → fs'.node? p = fs.node? p

section Frame

variable {T T' : Pathname → Prop} {fs fs' fs'' : FileSystem γ}

theorem Frame.refl (fs : FileSystem γ) : Frame T fs fs := fun _ _ => rfl

theorem Frame.trans (h : Frame T fs fs') (h' : Frame T fs' fs'') : Frame T fs fs'' :=
  fun p hp => (h' p hp).trans (h p hp)

theorem Frame.mono (h : Frame T fs fs') (hT : ∀ p, T p → T' p) : Frame T' fs fs' :=
  fun p hp => h p (fun ht => hp (hT p ht))

theorem Frame.read (h : Frame T fs fs') (hp : ¬ T p) : fs'.read p = fs.read p := by
  simp only [FileSystem.read, h p hp]

theorem Frame.mtime (h : Frame T fs fs') (hp : ¬ T p) : fs'.mtime p = fs.mtime p := by
  simp only [FileSystem.mtime, h p hp]

theorem Frame.fileExists (h : Frame T fs fs') (hp : ¬ T p) : fs'.fileExists p = fs.fileExists p := by
  simp only [FileSystem.fileExists, h p hp]

theorem Frame.dirExists (h : Frame T fs fs') (hp : ¬ T p) : fs'.dirExists p = fs.dirExists p := by
  simp only [FileSystem.dirExists, h p hp]

theorem frame_write (hp : T p) (c : γ) : Frame T fs (fs.write p c) := by
  intro q hq
  rw [node?_write, if_neg]
  rintro rfl
  exact hq hp

theorem frame_mkdir (hp : T p) : Frame T fs (fs.mkdir p) := by
  intro q hq
  rw [node?_mkdir, if_neg]
  rintro ⟨rfl, _⟩
  exact hq hp

theorem frame_mkdirs (hp : ∀ q, q <+: p → q ≠ [] → T q) : Frame T fs (fs.mkdirs p) :=
  fun _ hq => node?_mkdirs _ _ _ (fun h => hq (hp _ h.1 h.2))

theorem frame_remove {gone : Pathname → Bool} (hg : ∀ q, gone q = true → T q) :
    Frame T fs (fs.remove gone) := by
  intro q hq
  rw [node?_remove, if_neg]
  exact fun h => hq (hg q h)

theorem frame_unlink (hp : ∀ q, p <+: q → T q) : Frame T fs (fs.unlink p) :=
  frame_remove (fun q hq => hp q (by simpa using hq))

end Frame

/-! ## Listing a directory -/

theorem nameIn_eq_some {n : Text} : nameIn d p = some n ↔ p = d ++ [n] ∧ n.head? ≠ some '.' := by
  unfold nameIn
  constructor
  · intro h
    split at h
    · rename_i m hm
      split at h
      · rename_i hd
        cases h
        refine ⟨?_, hd.2⟩
        rw [← hd.1, List.dropLast_append_getLast?]
        exact hm
      · cases h
    · cases h
  · rintro ⟨rfl, hn⟩
    simp [hn]

theorem mem_listFiles {n : Text} :
    n ∈ fs.listFiles d ↔ fs.fileExists (d ++ [n]) = true ∧ n.head? ≠ some '.' := by
  unfold listFiles
  rw [(List.perm_insertionSort _ _).mem_iff, List.mem_filterMap]
  have hkey : ∀ r, r ∈ fs.nodes.keys ↔ fs.fileExists r = true := by
    intro r
    rw [← AList.mem_keys, ← AList.lookup_isSome]
    rfl
  constructor
  · rintro ⟨r, hr, hn⟩
    obtain ⟨rfl, hdot⟩ := nameIn_eq_some.mp hn
    exact ⟨(hkey _).mp hr, hdot⟩
  · rintro ⟨he, hdot⟩
    exact ⟨d ++ [n], (hkey _).mpr he, nameIn_eq_some.mpr ⟨rfl, hdot⟩⟩

theorem nodup_listFiles (fs : FileSystem γ) (d : Pathname) : (fs.listFiles d).Nodup := by
  unfold listFiles
  rw [(List.perm_insertionSort _ _).nodup_iff]
  refine List.Nodup.filterMap ?_ fs.nodes.keys_nodup
  intro p q n hp hq
  rw [(nameIn_eq_some.mp hp).1, (nameIn_eq_some.mp hq).1]

theorem sorted_listFiles (fs : FileSystem γ) (d : Pathname) : (fs.listFiles d).Pairwise (· ≤ ·) :=
  List.pairwise_insertionSort _ _

/-- A sorted list without repetitions that has the names of a directory is its listing. -/
theorem listFiles_eq {l : List Text} (hs : l.Pairwise (· ≤ ·)) (hn : l.Nodup)
    (hmem : ∀ n, n ∈ l ↔ fs.fileExists (d ++ [n]) = true ∧ n.head? ≠ some '.') :
    fs.listFiles d = l := by
  refine List.Perm.eq_of_pairwise (fun _ _ _ _ => le_antisymm)
    (sorted_listFiles fs d) hs ?_
  rw [List.perm_ext_iff_of_nodup (nodup_listFiles fs d) hn]
  intro n
  rw [mem_listFiles, hmem]

theorem listFiles_congr {fs' : FileSystem γ}
    (h : ∀ n, fs'.fileExists (d ++ [n]) = fs.fileExists (d ++ [n])) : fs'.listFiles d = fs.listFiles d := by
  refine listFiles_eq (sorted_listFiles fs d) (nodup_listFiles fs d) ?_
  intro n
  rw [mem_listFiles, h]

end FileSystem
