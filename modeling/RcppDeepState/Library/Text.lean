import Mathlib.Data.List.Infix
import Mathlib.Data.List.Lex
import Mathlib.Data.List.Sort
import Mathlib.Data.Char

/-!
# Text and literal substitution

A text is its list of characters. `gsub` replaces the successive occurrences of a literal pattern from
left to right, and `lines` splits a text the way a line reader does: a line ends at a line feed, at a
carriage return, or at both.
-/

abbrev Text := List Char

/-- The text of a literal. It is irreducible so that a literal stays one term until a proof needs its
characters. -/
@[irreducible] def Text.ofString (s : String) : Text := s.toList

instance : Coe String Text := ⟨Text.ofString⟩

-- Deciding over the characters of a text must not turn into deciding over all characters.
instance Text.decidableForallMem (t : Text) (p : Char → Prop) [DecidablePred p] : Decidable (∀ c ∈ t, p c) :=
  List.decidableBAll p t

instance Text.decidableForallMemOption (o : Option Char) (p : Char → Prop) [DecidablePred p] :
    Decidable (∀ c ∈ o, p c) := Option.decidableForallMem o

instance Text.decidableMem (t : Text) (ts : List Text) : Decidable (t ∈ ts) :=
  List.instDecidableMemOfLawfulBEq t ts

namespace Text

theorem ofString_eq (s : String) : ofString s = s.toList := by rw [ofString]

/-! ## Substitution -/

/-- The substitution with `k` characters still to drop, those of the occurrence just replaced. -/
def gsubFrom (pat rep : Text) : Nat → Text → Text
  | _, [] => []
  | 0, c :: s =>
      if pat <+: c :: s then rep ++ gsubFrom pat rep (pat.length - 1) s else c :: gsubFrom pat rep 0 s
  | k + 1, _ :: s => gsubFrom pat rep k s

/-- Replace every occurrence of the literal `pat` by `rep`, from left to right. -/
def gsub (pat rep s : Text) : Text := gsubFrom pat rep 0 s

variable {pat rep s : Text}

theorem gsubFrom_drop (k : Nat) (s : Text) : gsubFrom pat rep k s = gsub pat rep (s.drop k) := by
  induction k generalizing s with
  | zero => rfl
  | succ k ih =>
      cases s with
      | nil => rfl
      | cons c s => simpa only [gsubFrom, List.drop_succ_cons] using ih s

@[simp] theorem gsub_nil : gsub pat rep [] = [] := rfl

theorem gsub_cons_of_no_match {c : Char} (h : ¬ pat <+: c :: s) :
    gsub pat rep (c :: s) = c :: gsub pat rep s := by
  simp only [gsub, gsubFrom, h, ↓reduceIte]

theorem gsub_prefix (hp : pat ≠ []) : gsub pat rep (pat ++ s) = rep ++ gsub pat rep s := by
  obtain ⟨c, p, rfl⟩ := List.exists_cons_of_ne_nil hp
  have hpre : c :: p <+: c :: (p ++ s) := List.prefix_append (c :: p) s
  have hdrop : (p ++ s).drop ((c :: p).length - 1) = s := by simp
  rw [gsub, List.cons_append, gsubFrom, if_pos hpre, gsubFrom_drop, hdrop]

theorem gsub_of_not_infix (h : ¬ pat <:+: s) : gsub pat rep s = s := by
  induction s with
  | nil => rfl
  | cons c s ih =>
      rw [gsub_cons_of_no_match (fun hp => h hp.isInfix),
        ih (fun hi => h (List.infix_cons hi))]

/-- An occurrence of the pattern cannot reach over a character the pattern does not have. -/
theorem prefix_append_cons_of_not_mem {a b : Text} {c : Char} (hc : c ∉ pat) :
    pat <+: a ++ c :: b ↔ pat <+: a := by
  constructor
  · intro h
    induction a generalizing pat with
    | nil =>
        cases pat with
        | nil => exact List.nil_prefix
        | cons p ps =>
            obtain ⟨rfl, _⟩ := List.cons_prefix_cons.mp h
            simp at hc
    | cons x a ih =>
        cases pat with
        | nil => exact List.nil_prefix
        | cons p ps =>
            obtain ⟨rfl, hps⟩ := List.cons_prefix_cons.mp h
            exact List.cons_prefix_cons.mpr ⟨rfl, ih (fun hm => hc (by simp [hm])) hps⟩
  · intro h
    exact h.trans (List.prefix_append _ _)

theorem infix_append_cons_of_not_mem {a b : Text} {c : Char} (hc : c ∉ pat) :
    pat <:+: a ++ c :: b ↔ pat <:+: a ∨ pat <:+: b := by
  induction a with
  | nil =>
      have hp := @prefix_append_cons_of_not_mem pat [] b c hc
      rw [List.nil_append, List.prefix_nil] at hp
      rw [List.nil_append, List.infix_cons_iff, List.infix_nil, hp]
  | cons x a ih =>
      rw [List.cons_append, List.infix_cons_iff, List.infix_cons_iff, ih, ← List.cons_append,
        prefix_append_cons_of_not_mem hc, or_assoc]

/-- A pattern does not reach over the start of a text whose characters it does not start with. -/
theorem infix_append_of_head_not_mem {c : Char} {p a b : Text} (hc : c ∉ a) :
    c :: p <:+: a ++ b ↔ c :: p <:+: b := by
  induction a with
  | nil => rfl
  | cons x a ih =>
      simp only [List.mem_cons, not_or] at hc
      have hx : ¬ c :: p <+: x :: (a ++ b) := fun h => hc.1 (List.cons_prefix_cons.mp h).1
      rw [List.cons_append, List.infix_cons_iff, ih hc.2]
      simp [hx]

theorem gsub_append_cons {a b : Text} {c : Char} (hp : pat ≠ []) (hc : c ∉ pat) :
    gsub pat rep (a ++ c :: b) = gsub pat rep a ++ c :: gsub pat rep b := by
  induction ha : a.length using Nat.strong_induction_on generalizing a with
  | _ n ih =>
      cases a with
      | nil =>
          have hn : ¬ pat <+: c :: b := by
            intro h
            obtain ⟨p, ps, rfl⟩ := List.exists_cons_of_ne_nil hp
            obtain ⟨rfl, _⟩ := List.cons_prefix_cons.mp h
            simp at hc
          simpa using gsub_cons_of_no_match hn
      | cons x a =>
          by_cases h : pat <+: x :: a
          · obtain ⟨t, ht⟩ := h
            have hlen : t.length < n := by
              rw [← ha, ← ht, List.length_append]
              have := List.length_pos_iff.mpr hp
              omega
            rw [← ht, List.append_assoc, gsub_prefix hp, ih _ hlen rfl, gsub_prefix hp,
              List.append_assoc]
          · have h' : ¬ pat <+: x :: (a ++ c :: b) := by
              rwa [← List.cons_append, prefix_append_cons_of_not_mem hc]
            rw [List.cons_append, gsub_cons_of_no_match h', gsub_cons_of_no_match h,
              ih a.length (by simp [← ha]) rfl, List.cons_append]

/-- A pattern whose first character does not come again cannot overlap with itself. -/
theorem gsub_append_self {a b p : Text} {c : Char} (hc : c ∉ p) :
    gsub (c :: p) rep (a ++ (c :: p ++ b)) = gsub (c :: p) rep a ++ (rep ++ gsub (c :: p) rep b) := by
  induction ha : a.length using Nat.strong_induction_on generalizing a with
  | _ n ih =>
      cases a with
      | nil =>
          rw [List.nil_append, gsub_prefix (List.cons_ne_nil c p)]
          rfl
      | cons x a =>
          by_cases h : c :: p <+: x :: a
          · obtain ⟨t, ht⟩ := h
            have hlen : t.length < n := by
              rw [← ha, ← ht, List.length_append, List.length_cons]
              omega
            rw [← ht, List.append_assoc, gsub_prefix (List.cons_ne_nil c p), ih _ hlen rfl,
              gsub_prefix (List.cons_ne_nil c p), List.append_assoc]
          · have h' : ¬ c :: p <+: x :: (a ++ (c :: p ++ b)) := by
              intro hp
              obtain ⟨rfl, hp'⟩ := List.cons_prefix_cons.mp hp
              refine h (List.cons_prefix_cons.mpr ⟨rfl, ?_⟩)
              rwa [List.cons_append, prefix_append_cons_of_not_mem hc] at hp'
            rw [List.cons_append, gsub_cons_of_no_match h', gsub_cons_of_no_match h,
              ih a.length (by simp [← ha]) rfl, List.cons_append]

/-- What stands before the first occurrence stays. -/
theorem gsub_append_first (hp : pat ≠ []) {u t : Text} (hu : ∀ v, v <:+ u → v ≠ [] → ¬ pat <+: v ++ (pat ++ t)) :
    gsub pat rep (u ++ (pat ++ t)) = u ++ (rep ++ gsub pat rep t) := by
  induction u with
  | nil => exact gsub_prefix hp
  | cons x u ih =>
      have hx : ¬ pat <+: x :: (u ++ (pat ++ t)) := hu (x :: u) List.suffix_rfl (List.cons_ne_nil x u)
      rw [List.cons_append, gsub_cons_of_no_match hx, ih fun v hv => hu v (hv.trans (List.suffix_cons x u)),
        List.cons_append]

/-- A text that goes on with `c` is not found again behind a few characters other than `c`. -/
theorem not_prefix_shift {c : Char} {p v t : Text} (hv : v ≠ []) (hc : c ∉ v) : ¬ p ++ [c] <+: v ++ (p ++ t) := by
  intro h
  have hpos := List.length_pos_iff.mpr hv
  have hshort : p ++ [c] <+: v ++ p := by
    refine List.prefix_of_prefix_length_le h ?_ ?_
    · rw [← List.append_assoc]
      exact List.prefix_append _ _
    · simp only [List.length_append, List.length_singleton]
      omega
  -- `c` occurs once more on the left than on the right.
  have hcount := hshort.sublist.count_le c
  rw [List.count_append, List.count_append, List.count_eq_zero_of_not_mem hc, List.count_singleton_self] at hcount
  omega

/-- A text with more of a character than what stands in its place is not found again behind its last part. -/
theorem not_prefix_rotation {c : Char} {p s t v u : Text} (hl : t.length = v.length) (hc : v.count c < t.count c) :
    ¬ (p ++ s) ++ t <+: (s ++ v) ++ (p ++ u) := by
  intro h
  have hother : (s ++ v) ++ p <+: (s ++ v) ++ (p ++ u) := by
    rw [← List.append_assoc]
    exact List.prefix_append _ _
  have heq : (p ++ s) ++ t = (s ++ v) ++ p := by
    refine (List.prefix_of_prefix_length_le h hother ?_).eq_of_length ?_ <;> simp only [List.length_append] <;> omega
  have hcount := congrArg (List.count c) heq
  simp only [List.count_append] at hcount
  omega

/-- An end of two texts lies in the second, or begins in the first. -/
theorem suffix_append_cases {a b v : Text} (h : v <:+ a ++ b) : v <:+ b ∨ ∃ z, z ≠ [] ∧ z <:+ a ∧ v = z ++ b := by
  obtain ⟨w, hw⟩ := h
  cases List.append_eq_append_iff.mp hw with
  | inr hsecond =>
      obtain ⟨z, -, hb⟩ := hsecond
      exact .inl ⟨z, hb.symm⟩
  | inl hfirst =>
      obtain ⟨z, ha, hv⟩ := hfirst
      by_cases hz : z = []
      · rw [hz, List.nil_append] at hv
        exact .inl (hv ▸ List.suffix_rfl)
      · exact .inr ⟨z, hz, ⟨w, ha.symm⟩, hv⟩

/-- Characters that the pattern does not consist of alone stay before an occurrence. -/
theorem gsub_append_of_not_mem {c : Char} {u t : Text} (hc : c ∈ pat) (hu : c ∉ u) :
    gsub pat rep (u ++ (pat ++ t)) = u ++ (rep ++ gsub pat rep t) := by
  refine gsub_append_first (List.ne_nil_of_mem hc) fun v hv hne h => ?_
  obtain ⟨p, q, hpat⟩ := List.append_of_mem hc
  have hstart : p ++ [c] <+: pat := ⟨q, by simp [hpat]⟩
  refine not_prefix_shift hne (fun hm => hu (hv.subset hm)) ((hstart.trans h).trans (?_ : _ <+: v ++ (p ++ (c :: q ++ t))))
  rw [hpat, List.append_assoc]

/-- Every occurrence that is replaced changes the length by the same amount. -/
theorem length_gsub (hp : pat ≠ []) (rep s : Text) :
    ∃ n, (gsub pat rep s).length + n * pat.length = s.length + n * rep.length ∧ (pat <:+: s → 0 < n) := by
  induction hs : s.length using Nat.strong_induction_on generalizing s with
  | _ m ih =>
      cases s with
      | nil => exact ⟨0, by simp [← hs], fun h => absurd (List.infix_nil.mp h) hp⟩
      | cons c s =>
          by_cases h : pat <+: c :: s
          · obtain ⟨t, ht⟩ := h
            have hpos := List.length_pos_iff.mpr hp
            have hl : pat.length + t.length = m := by rw [← hs, ← ht, List.length_append]
            obtain ⟨n, hn, _⟩ := ih t.length (by omega) t rfl
            refine ⟨n + 1, ?_, fun _ => Nat.succ_pos n⟩
            rw [← ht, gsub_prefix hp, List.length_append, Nat.succ_mul, Nat.succ_mul]
            omega
          · obtain ⟨n, hn, hpos⟩ := ih s.length (by simp [← hs]) s rfl
            refine ⟨n, ?_, fun hi => ?_⟩
            · rw [gsub_cons_of_no_match h, List.length_cons]
              rw [List.length_cons] at hs
              omega
            · rcases List.infix_cons_iff.mp hi with hi | hi
              · exact absurd hi h
              · exact hpos hi

/-- A substitution by a text of another length leaves a text alone exactly when the pattern does not occur. -/
theorem gsub_eq_self_iff (hp : pat ≠ []) (hl : pat.length ≠ rep.length) :
    gsub pat rep s = s ↔ ¬ pat <:+: s := by
  refine ⟨fun h hi => ?_, gsub_of_not_infix⟩
  obtain ⟨n, hn, hpos⟩ := length_gsub hp rep s
  rw [h] at hn
  exact hl (Nat.eq_of_mul_eq_mul_left (hpos hi) (by omega))

theorem gsub_singleton_nil (x : Char) (s : Text) : gsub [x] [] s = s.filter (· ≠ x) := by
  induction s with
  | nil => rfl
  | cons c s ih =>
      by_cases h : x = c
      · subst h
        have hx : gsub [x] [] ([x] ++ s) = [] ++ gsub [x] [] s := gsub_prefix (by simp)
        simpa [ih] using hx
      · rw [gsub_cons_of_no_match (by simpa using h), ih]
        simp [Ne.symm h]

/-- What `gsub` returns is made of the characters of the text and of the replacement. -/
theorem mem_gsub {c : Char} (h : c ∈ gsub pat rep s) : c ∈ s ∨ c ∈ rep := by
  have hk : ∀ k, c ∈ gsubFrom pat rep k s → c ∈ s ∨ c ∈ rep := by
    clear h
    induction s with
    | nil => intro k h; cases k <;> cases h
    | cons x s ih =>
        intro k h
        cases k with
        | zero =>
            simp only [gsubFrom] at h
            split at h
            · rcases List.mem_append.mp h with h | h
              · exact Or.inr h
              · exact (ih _ h).imp_left (List.mem_cons_of_mem _)
            · rcases List.mem_cons.mp h with rfl | h
              · exact Or.inl (by simp)
              · exact (ih _ h).imp_left (List.mem_cons_of_mem _)
        | succ k => exact (ih _ h).imp_left (List.mem_cons_of_mem _)
  exact hk 0 h

/-- A character of neither the pattern nor the replacement comes as often as before. -/
theorem count_gsub {c : Char} (hp : pat ≠ []) (hc : c ∉ pat) (hr : c ∉ rep) :
    (gsub pat rep s).count c = s.count c := by
  induction hs : s.length using Nat.strong_induction_on generalizing s with
  | _ n ih =>
      cases s with
      | nil => rfl
      | cons x s =>
          by_cases h : pat <+: x :: s
          · obtain ⟨t, ht⟩ := h
            have hlen : t.length < n := by
              rw [← hs, ← ht, List.length_append]
              have := List.length_pos_iff.mpr hp
              omega
            rw [← ht, gsub_prefix hp, List.count_append, List.count_append, ih _ hlen rfl, List.count_eq_zero.mpr hr,
              List.count_eq_zero.mpr hc]
          · rw [gsub_cons_of_no_match h, List.count_cons, List.count_cons, ih s.length (by simp [← hs]) rfl]

/-- A split of `x ++ c :: y` whose first part does not have `c` lies inside `x`. -/
theorem append_eq_append_cons {a b x y : Text} {c : Char} (h : a ++ b = x ++ c :: y) (hc : c ∉ a) :
    ∃ z, x = a ++ z ∧ b = z ++ c :: y := by
  rcases List.append_eq_append_iff.mp h with ⟨z, hx, hb⟩ | ⟨z, ha, hy⟩
  · exact ⟨z, hx, hb⟩
  · cases z with
    | nil => exact ⟨[], by simpa using ha.symm, by simpa using hy.symm⟩
    | cons d z =>
        obtain ⟨rfl, _⟩ := List.cons.inj hy
        exact absurd (by simp [ha]) hc

/-! ## Lines -/

/-- The text with a line feed at every end of a line. -/
def newlines : Text → Text
  | [] => []
  | c :: s =>
      if c = '\r' then if s.head? = some '\n' then newlines s else '\n' :: newlines s else c :: newlines s

/-- The pieces of a text between line feeds; the last one need not end in one. -/
def splitLines : Text → List Text
  | [] => []
  | c :: s =>
      if c = '\n' then [] :: splitLines s else
        match splitLines s with
        | [] => [[c]]
        | l :: ls => (c :: l) :: ls

/-- The lines of a text; the last one need not end. -/
def lines (s : Text) : List Text := splitLines (newlines s)

/-- A text that stands on one line. -/
def OneLine (l : Text) : Prop := '\n' ∉ l ∧ '\r' ∉ l

instance (l : Text) : Decidable (OneLine l) := inferInstanceAs (Decidable (_ ∧ _))

@[simp] theorem oneLine_nil : OneLine [] := ⟨List.not_mem_nil, List.not_mem_nil⟩

@[simp] theorem oneLine_cons {c : Char} {l : Text} : OneLine (c :: l) ↔ c ≠ '\n' ∧ c ≠ '\r' ∧ OneLine l := by
  simp only [OneLine, List.mem_cons, not_or, ne_eq, @eq_comm _ c]
  tauto

@[simp] theorem oneLine_append {a b : Text} : OneLine (a ++ b) ↔ OneLine a ∧ OneLine b := by
  simp only [OneLine, List.mem_append, not_or]
  tauto

theorem OneLine.of_subset {a b : Text} (hb : OneLine b) (h : a ⊆ b) : OneLine a :=
  ⟨fun hn => hb.1 (h hn), fun hr => hb.2 (h hr)⟩

theorem oneLine_flatMap {α : Type} {xs : List α} {f : α → Text} (hf : ∀ x ∈ xs, OneLine (f x)) :
    OneLine (xs.flatMap f) := by
  induction xs with
  | nil => exact oneLine_nil
  | cons x xs ih =>
    rw [List.flatMap_cons, oneLine_append]
    exact ⟨hf x (by simp), ih fun y hy => hf y (by simp [hy])⟩

theorem newlines_of_not_mem {s : Text} (h : '\r' ∉ s) : newlines s = s := by
  induction s with
  | nil => rfl
  | cons c s ih =>
      simp only [List.mem_cons, not_or] at h
      rw [newlines, if_neg (Ne.symm h.1), ih h.2]

/-- A line feed stays one, whatever ends before it. -/
theorem newlines_append_newline (a : Text) : ∃ b, ∀ s, newlines (a ++ '\n' :: s) = b ++ '\n' :: newlines s := by
  induction a with
  | nil => exact ⟨[], fun s => by simp [newlines]⟩
  | cons c a ih =>
      obtain ⟨b, hb⟩ := ih
      by_cases hc : c = '\r'
      · have hhead (s : Text) : (a ++ '\n' :: s).head? = (a ++ ['\n']).head? := by cases a <;> rfl
        by_cases hn : (a ++ ['\n']).head? = some '\n'
        · exact ⟨b, fun s => by rw [List.cons_append, newlines, if_pos hc, hhead, if_pos hn, hb]⟩
        · exact ⟨'\n' :: b, fun s => by rw [List.cons_append, newlines, if_pos hc, hhead, if_neg hn, hb]; rfl⟩
      · exact ⟨c :: b, fun s => by rw [List.cons_append, newlines, if_neg hc, hb]; rfl⟩

theorem return_not_mem_newlines (s : Text) : '\r' ∉ newlines s := by
  induction s with
  | nil => exact List.not_mem_nil
  | cons c s ih =>
      rw [newlines]
      split
      · split
        · exact ih
        · simp [ih]
      · rename_i hc
        simp [ih, Ne.symm hc]

/-! ### Pieces -/

theorem splitLines_append_newline {l : Text} (hl : '\n' ∉ l) (s : Text) :
    splitLines (l ++ '\n' :: s) = l :: splitLines s := by
  induction l with
  | nil => simp [splitLines]
  | cons c l ih =>
      simp only [List.mem_cons, not_or] at hl
      simp [splitLines, ih hl.2, Ne.symm hl.1]

theorem splitLines_concat_ne_nil (s : Text) : splitLines (s ++ ['\n']) ≠ [] := by
  cases s with
  | nil => simp [splitLines]
  | cons c s => simp only [List.cons_append, splitLines]; split <;> (try split) <;> simp

theorem splitLines_append (a s : Text) :
    splitLines (a ++ '\n' :: s) = splitLines (a ++ ['\n']) ++ splitLines s := by
  induction a with
  | nil => simp [splitLines]
  | cons c a ih =>
      by_cases hc : c = '\n'
      · simp [splitLines, hc, ih]
      · obtain ⟨l, ls, hl⟩ := List.exists_cons_of_ne_nil (splitLines_concat_ne_nil a)
        simp only [List.cons_append, splitLines, if_neg hc, ih, hl]

theorem splitLines_of_not_mem {l : Text} (hl : '\n' ∉ l) (hne : l ≠ []) : splitLines l = [l] := by
  induction l with
  | nil => exact absurd rfl hne
  | cons c l ih =>
      simp only [List.mem_cons, not_or] at hl
      rw [splitLines, if_neg (Ne.symm hl.1)]
      by_cases hnil : l = []
      · rw [hnil]
        rfl
      · rw [ih hl.2 hnil]

theorem mem_of_mem_splitLines {s l : Text} {c : Char} (h : l ∈ splitLines s) (hc : c ∈ l) : c ∈ s ∧ c ≠ '\n' := by
  induction hs : s.length using Nat.strong_induction_on generalizing s with
  | _ n ih =>
      by_cases hn : '\n' ∈ s
      · obtain ⟨a, b, rfl, ha⟩ := List.eq_append_cons_of_mem hn
        rw [splitLines_append_newline ha] at h
        cases List.mem_cons.mp h with
        | inl hl =>
            subst hl
            exact ⟨by simp [hc], fun he => ha (he ▸ hc)⟩
        | inr hl =>
            obtain ⟨hb, hne⟩ := ih b.length (by rw [← hs]; simp; omega) hl rfl
            exact ⟨by simp [hb], hne⟩
      · by_cases hnil : s = []
        · rw [hnil] at h
          cases h
        · rw [splitLines_of_not_mem hn hnil] at h
          rw [List.mem_singleton.mp h] at hc
          exact ⟨hc, fun he => hn (he ▸ hc)⟩

/-! ### Lines of a text -/

theorem lines_of_no_return {s : Text} (h : '\r' ∉ s) : lines s = splitLines s := by
  rw [lines, newlines_of_not_mem h]

/-- The lines of a text that starts with whole lines. -/
theorem lines_append_lines (a s : Text) : lines (a ++ '\n' :: s) = lines (a ++ ['\n']) ++ lines s := by
  obtain ⟨b, hb⟩ := newlines_append_newline a
  have hnil : newlines [] = [] := rfl
  rw [lines, lines, lines, hb, hb, hnil, splitLines_append]

theorem lines_append_newline {l : Text} (hl : OneLine l) (s : Text) : lines (l ++ '\n' :: s) = l :: lines s := by
  rw [lines_append_lines, lines_of_no_return (by simp [hl.2]), splitLines_append_newline hl.1]
  rfl

theorem lines_of_not_mem {l : Text} (hl : OneLine l) (hne : l ≠ []) : lines l = [l] := by
  rw [lines_of_no_return hl.2, splitLines_of_not_mem hl.1 hne]

theorem oneLine_of_mem_lines {s l : Text} (h : l ∈ lines s) : OneLine l :=
  ⟨fun hn => (mem_of_mem_splitLines h hn).2 rfl, fun hr => return_not_mem_newlines s (mem_of_mem_splitLines h hr).1⟩

/-- A pattern without a line feed occurs in a text when it occurs in one of its pieces. -/
theorem exists_piece_infix_iff (hn : '\n' ∉ pat) (hp : pat ≠ []) :
    (∃ l ∈ splitLines s, pat <:+: l) ↔ pat <:+: s := by
  induction hs : s.length using Nat.strong_induction_on generalizing s with
  | _ n ih =>
      by_cases h : '\n' ∈ s
      · obtain ⟨a, b, rfl, ha⟩ := List.eq_append_cons_of_mem h
        have hb := @ih b.length (by rw [← hs]; simp; omega) b rfl
        rw [splitLines_append_newline ha, infix_append_cons_of_not_mem hn, ← hb]
        simp only [List.mem_cons, exists_eq_or_imp]
      · by_cases hnil : s = []
        · rw [hnil, List.infix_nil]
          simp [splitLines, hp]
        · rw [splitLines_of_not_mem h hnil]
          simp

theorem prefix_newlines_iff (hl : OneLine pat) : pat <+: newlines s ↔ pat <+: s := by
  induction s generalizing pat with
  | nil => rfl
  | cons c s ih =>
      cases pat with
      | nil => simp
      | cons p pat =>
          obtain ⟨hn, hr, hl⟩ := oneLine_cons.mp hl
          by_cases hc : c = '\r'
          · have hright : ¬ p :: pat <+: c :: s := fun h => hr ((List.cons_prefix_cons.mp h).1.trans hc)
            have hleft : ¬ p :: pat <+: newlines (c :: s) := by
              rw [newlines, if_pos hc]
              split
              · rename_i hhead
                cases s with
                | nil => cases hhead
                | cons d s =>
                    cases hhead
                    rw [newlines, if_neg (by decide)]
                    exact fun h => hn (List.cons_prefix_cons.mp h).1
              · exact fun h => hn (List.cons_prefix_cons.mp h).1
            exact iff_of_false hleft hright
          · rw [newlines, if_neg hc, List.cons_prefix_cons, List.cons_prefix_cons, ih hl]

theorem infix_newlines_iff (hl : OneLine pat) : pat <:+: newlines s ↔ pat <:+: s := by
  induction s with
  | nil => rfl
  | cons c s ih =>
      have hpre := @prefix_newlines_iff pat (c :: s) hl
      rw [List.infix_cons_iff, ← hpre, ← ih]
      by_cases hc : c = '\r'
      · rw [newlines, if_pos hc]
        split
        · rw [or_iff_right_of_imp fun h => h.isInfix]
        · rw [List.infix_cons_iff]
      · rw [newlines, if_neg hc, List.infix_cons_iff]

/-- A pattern on one line occurs in a text when it occurs in one of its lines. -/
theorem exists_line_infix_iff (hl : OneLine pat) (hp : pat ≠ []) : (∃ l ∈ lines s, pat <:+: l) ↔ pat <:+: s := by
  rw [lines, exists_piece_infix_iff hl.1 hp, infix_newlines_iff hl]

/-- The lines of a list, each with its line feed. -/
def unlines (ls : List Text) : Text := ls.flatMap (· ++ ['\n'])

@[simp] theorem unlines_nil : unlines [] = [] := rfl

@[simp] theorem unlines_cons (l : Text) (ls : List Text) :
    unlines (l :: ls) = l ++ '\n' :: unlines ls := by
  simp [unlines]

theorem lines_unlines {ls : List Text} (h : ∀ l ∈ ls, OneLine l) : lines (unlines ls) = ls := by
  induction ls with
  | nil => rfl
  | cons l ls ih =>
      rw [unlines_cons, lines_append_newline (h l (by simp)), ih fun l' hl' => h l' (by simp [hl'])]

@[simp] theorem unlines_append (ls ls' : List Text) : unlines (ls ++ ls') = unlines ls ++ unlines ls' := by
  simp [unlines]

theorem unlines_splitLines (t : Text) : unlines (splitLines (t ++ ['\n'])) = t ++ ['\n'] := by
  induction t with
  | nil => rfl
  | cons c t ih =>
      by_cases hc : c = '\n'
      · simp [splitLines, hc, ih]
      · obtain ⟨l, ls, hl⟩ := List.exists_cons_of_ne_nil (splitLines_concat_ne_nil t)
        rw [hl, unlines_cons] at ih
        simp only [List.cons_append, splitLines, if_neg hc, hl, unlines_cons, ih]

theorem unlines_lines {t : Text} (ht : '\r' ∉ t) : unlines (lines (t ++ ['\n'])) = t ++ ['\n'] := by
  rw [lines_of_no_return (by simp [ht]), unlines_splitLines]

theorem not_mem_unlines {c : Char} {ls : List Text} (hc : c ≠ '\n') (h : ∀ l ∈ ls, c ∉ l) : c ∉ unlines ls := by
  intro hm
  obtain ⟨l, hl, hm⟩ := List.mem_flatMap.mp hm
  rcases List.mem_append.mp hm with hm | hm
  · exact h l hl hm
  · exact hc (List.mem_singleton.mp hm)

theorem length_le_unlines (ls : List Text) : ls.length ≤ (unlines ls).length := by
  induction ls with
  | nil => simp
  | cons l ls ih =>
      simp only [unlines_cons, List.length_append, List.length_cons]
      omega

theorem gsub_unlines (hp : pat ≠ []) (hn : '\n' ∉ pat) (ls : List Text) :
    gsub pat rep (unlines ls) = unlines (ls.map (gsub pat rep)) := by
  induction ls with
  | nil => rfl
  | cons l ls ih => rw [unlines_cons, gsub_append_cons hp hn, ih, List.map_cons, unlines_cons]

/-- The lines of a list, each after a line feed. -/
def newLines (ls : List Text) : Text := ls.flatMap ('\n' :: ·)

@[simp] theorem newLines_nil : newLines [] = [] := rfl

@[simp] theorem newLines_cons (l : Text) (ls : List Text) :
    newLines (l :: ls) = '\n' :: (l ++ newLines ls) := by
  simp [newLines]

@[simp] theorem newLines_append (ls ls' : List Text) :
    newLines (ls ++ ls') = newLines ls ++ newLines ls' := by
  simp [newLines]

theorem unlines_eq_newLines (l : Text) (ls : List Text) :
    unlines (l :: ls) = l ++ newLines ls ++ ['\n'] := by
  induction ls generalizing l with
  | nil => simp
  | cons l' ls ih => simpa using ih l'

theorem newLines_append_cons (ls : List Text) (l : Text) (ls' : List Text) :
    newLines (ls ++ l :: ls') = '\n' :: (unlines ls ++ (l ++ newLines ls')) := by
  induction ls with
  | nil => simp
  | cons l' ls ih => simp only [List.cons_append, newLines_cons, ih, unlines_cons, List.append_assoc]

/-- Put a separator between texts. -/
def join (sep : Text) : List Text → Text
  | [] => []
  | [t] => t
  | t :: ts => t ++ sep ++ join sep ts

theorem join_cons {sep : Text} (t : Text) {ts : List Text} (h : ts ≠ []) :
    join sep (t :: ts) = t ++ sep ++ join sep ts := by
  cases ts with
  | nil => exact absurd rfl h
  | cons t' ts => rfl

theorem join_append {sep : Text} {ts ts' : List Text} (h : ts ≠ []) (h' : ts' ≠ []) :
    join sep (ts ++ ts') = join sep ts ++ sep ++ join sep ts' := by
  induction ts with
  | nil => exact absurd rfl h
  | cons t ts ih =>
      rw [List.cons_append, join_cons t (List.append_ne_nil_of_right_ne_nil ts h')]
      by_cases hts : ts = []
      · rw [hts, List.nil_append]
        rfl
      · rw [ih hts, join_cons t hts, List.append_assoc, List.append_assoc, List.append_assoc, List.append_assoc,
          List.append_assoc]

theorem mem_join {sep : Text} {ts : List Text} {c : Char} (h : c ∈ join sep ts) : c ∈ sep ∨ ∃ t ∈ ts, c ∈ t := by
  induction ts with
  | nil => cases h
  | cons t ts ih =>
      by_cases hts : ts = []
      · rw [hts] at h
        exact Or.inr ⟨t, by simp, h⟩
      · rw [join_cons t hts, List.mem_append, List.mem_append] at h
        rcases h with (h | h) | h
        · exact Or.inr ⟨t, by simp, h⟩
        · exact Or.inl h
        · exact (ih h).imp_right fun ⟨u, hu, hc⟩ => ⟨u, by simp [hu], hc⟩

theorem join_splitLines_newline (t : Text) : join ['\n'] (splitLines (t ++ ['\n'])) = t := by
  induction t with
  | nil => rfl
  | cons c t ih =>
      obtain ⟨l, ls, hl⟩ := List.exists_cons_of_ne_nil (splitLines_concat_ne_nil t)
      by_cases hc : c = '\n'
      · subst hc
        simp only [List.cons_append, splitLines, ↓reduceIte, hl, join]
        rw [← hl, ih]
        rfl
      · simp only [List.cons_append, splitLines, hc, ↓reduceIte, hl]
        rw [hl] at ih
        cases ls with
        | nil => simpa [join] using ih
        | cons l' ls => simpa [join] using ih

/-- The lines of a text that ends in a line feed, put together again, are the text without it. -/
theorem join_lines_newline {t : Text} (ht : '\r' ∉ t) : join ['\n'] (lines (t ++ ['\n'])) = t := by
  rw [lines_of_no_return (by simp [ht]), join_splitLines_newline]

/-- The text without the blanks around it. -/
def strip (s : Text) : Text := ((s.dropWhile (· = ' ')).reverse.dropWhile (· = ' ')).reverse

theorem strip_blank_cons (s : Text) : strip (' ' :: s) = strip s := by simp [strip]

theorem strip_append_blank (s : Text) : strip (s ++ [' ']) = strip s := by
  unfold strip
  rw [List.dropWhile_append]
  split
  · rename_i hnil
    have hs : s.dropWhile (· = ' ') = [] := List.isEmpty_iff.mp hnil
    simp [hs]
  · simp

/-- The decimal digits of a number. -/
def ofNat (n : Nat) : Text := (toString n).toList

end Text
