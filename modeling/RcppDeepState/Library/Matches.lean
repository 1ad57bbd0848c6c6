import RcppDeepState.Library.Regex

/-!
# What a pattern matches

The texts that a pattern matches, by its shape alone. The matcher finds one of them whenever there is one at the
start of the text that lets the rest of the match succeed, and a search finds them wherever they start.
-/

namespace Regex

/-- The text as a whole is a match, with those captures. -/
inductive Matches : Regex → Text → Captures → Prop
  | eps : Matches .eps [] []
  | set {p c} : p c = true → Matches (.set p) [c] []
  | seq {r t a b c d} : Matches r a c → Matches t b d → Matches (.seq r t) (a ++ b) (c ++ d)
  | altLeft {r t a c} : Matches r a c → Matches (.alt r t) a c
  | altRight {r t a c} : Matches t a c → Matches (.alt r t) a c
  | starNil {g r} : Matches (.star g r) [] []
  | starCons {g r a b c d} : Matches r a c → a ≠ [] → Matches (.star g r) b d →
      Matches (.star g r) (a ++ b) (c ++ d)
  | group {n r a c} : Matches r a c → Matches (.group n r) a ((n, a) :: c)

variable {β : Type} {k : Captures → Text → Option β} {v : β}

theorem orElse_eq_some {x y : Option β} (h : (x <|> y) = some v) : x = some v ∨ y = some v := by
  cases x with
  | none => exact .inr h
  | some w => exact .inl h

theorem orElse_isSome {x y : Option β} : (x <|> y).isSome ↔ x.isSome ∨ y.isSome := by
  cases x <;> simp

/-- What the matcher goes on from lies behind a match. -/
theorem run_sound {r : Regex} {s : Text} (h : r.run s k = some v) :
    ∃ a s' c, s = a ++ s' ∧ Matches r a c ∧ k c s' = some v := by
  induction r generalizing s k with
  | eps => exact ⟨[], s, [], rfl, .eps, h⟩
  | set p =>
      cases s with
      | nil => cases h
      | cons x s =>
          rw [run_set_cons] at h
          split at h
          · rename_i hp
            exact ⟨[x], s, [], rfl, .set hp, h⟩
          · cases h
  | seq r t ihr iht =>
      obtain ⟨a, s₁, c, rfl, hr, h₁⟩ := ihr h
      obtain ⟨b, s₂, d, rfl, ht, h₂⟩ := iht h₁
      exact ⟨a ++ b, s₂, c ++ d, by rw [List.append_assoc], .seq hr ht, h₂⟩
  | alt r t ihr iht =>
      cases orElse_eq_some h with
      | inl hl =>
          obtain ⟨a, s', c, hs, hr, hk⟩ := ihr hl
          exact ⟨a, s', c, hs, .altLeft hr, hk⟩
      | inr hl =>
          obtain ⟨a, s', c, hs, ht, hk⟩ := iht hl
          exact ⟨a, s', c, hs, .altRight ht, hk⟩
  | star g r ih =>
      induction hn : s.length using Nat.strong_induction_on generalizing s k with
      | _ n ihn =>
          -- The loop stops here, or takes a turn and goes on in a shorter text.
          have hcases : k [] s = some v ∨ (r.run s fun c s' =>
              if s'.length < s.length then (star g r).run s' fun d s'' => k (c ++ d) s'' else none) = some v := by
            rw [run_star] at h
            cases g with
            | true => exact (orElse_eq_some h).symm
            | false => exact orElse_eq_some h
          cases hcases with
          | inl hk => exact ⟨[], s, [], rfl, .starNil, hk⟩
          | inr hturn =>
              obtain ⟨a, s₁, c, rfl, hr, h₁⟩ := ih hturn
              split at h₁
              · rename_i hlt
                obtain ⟨b, s₂, d, rfl, hstar, h₂⟩ := ihn _ (hn ▸ hlt) h₁ rfl
                have hne : a ≠ [] := by
                  rintro rfl
                  exact Nat.lt_irrefl _ hlt
                exact ⟨a ++ b, s₂, c ++ d, by rw [List.append_assoc], .starCons hr hne hstar, h₂⟩
              · cases h₁
  | group n r ih =>
      obtain ⟨a, s', c, rfl, hr, hk⟩ := ih h
      rw [take_matched] at hk
      exact ⟨a, s', (n, a) :: c, rfl, .group hr, hk⟩

/-- A match from which the rest succeeds is not missed, though another one may come first. -/
theorem run_complete {r : Regex} {a s : Text} {c : Captures} (h : Matches r a c) (hk : (k c s).isSome) :
    (r.run (a ++ s) k).isSome := by
  induction h generalizing s k with
  | eps => exact hk
  | set hp => simpa [hp] using hk
  | seq hr ht ihr iht =>
      rw [List.append_assoc, run_seq]
      exact ihr (iht hk)
  | altLeft hr ih => exact orElse_isSome.mpr (.inl (ih hk))
  | altRight ht ih => exact orElse_isSome.mpr (.inr (ih hk))
  | starNil =>
      rename_i g r
      rw [List.nil_append, run_star]
      cases g with
      | true => exact orElse_isSome.mpr (.inr hk)
      | false => exact orElse_isSome.mpr (.inl hk)
  | starCons hr hne hstar ihr ihstar =>
      rename_i g r a b c d
      have hlt : (b ++ s).length < (a ++ (b ++ s)).length := by
        have hpos := List.length_pos_iff.mpr hne
        simp only [List.length_append]
        omega
      have hturn : (r.run (a ++ (b ++ s)) fun c s' => if s'.length < (a ++ (b ++ s)).length then
          (star g r).run s' fun d s'' => k (c ++ d) s'' else none).isSome := by
        apply ihr
        rw [if_pos hlt]
        exact ihstar hk
      rw [List.append_assoc, run_star]
      cases g with
      | true => exact orElse_isSome.mpr (.inl hturn)
      | false => exact orElse_isSome.mpr (.inr hturn)
  | group hr ih =>
      rename_i n r a c
      rw [run_group]
      apply ih
      rw [take_matched]
      exact hk

/-- The matcher succeeds on the texts that begin with a match from which the rest succeeds. -/
theorem run_isSome_iff {r : Regex} {s : Text} :
    (r.run s k).isSome ↔ ∃ a s' c, s = a ++ s' ∧ Matches r a c ∧ (k c s').isSome := by
  constructor
  · intro h
    obtain ⟨v, hv⟩ := Option.isSome_iff_exists.mp h
    obtain ⟨a, s', c, hs, hr, hk⟩ := run_sound hv
    exact ⟨a, s', c, hs, hr, by rw [hk]; rfl⟩
  · rintro ⟨a, s', c, rfl, hr, hk⟩
    exact run_complete hr hk

/-- Whether the matcher succeeds depends only on where the rest of the match succeeds. -/
theorem run_isSome_mono {k' : Captures → Text → Option β} {r : Regex} {s : Text}
    (h : ∀ c s', (k c s').isSome → (k' c s').isSome) (hrun : (r.run s k).isSome) : (r.run s k').isSome := by
  obtain ⟨a, s', c, rfl, hr, hk⟩ := run_isSome_iff.mp hrun
  exact run_complete hr (h c s' hk)

/-! ## Shapes -/

section Shapes

variable {a : Text} {c : Captures} {g : Bool} {p : Char → Bool}

theorem matches_lit_iff {t : Text} : Matches (lit t) a c ↔ a = t ∧ c = [] := by
  constructor
  · intro h
    induction t generalizing a c with
    | nil =>
        cases h
        exact ⟨rfl, rfl⟩
    | cons x t ih =>
        cases h with
        | seq hx ht =>
            cases hx with
            | set hp =>
                obtain ⟨rfl, rfl⟩ := ih ht
                simp only [beq_iff_eq] at hp
                subst hp
                exact ⟨rfl, rfl⟩
  · rintro ⟨rfl, rfl⟩
    induction a with
    | nil => exact .eps
    | cons x a ih => exact .seq (a := [x]) (c := []) (.set (by simp)) ih

theorem matches_star_set_iff : Matches (.star g (.set p)) a c ↔ (∀ x ∈ a, p x = true) ∧ c = [] := by
  constructor
  · intro h
    generalize hr : Regex.star g (.set p) = r at h
    induction h with
    | starNil => simp
    | starCons hx _ _ _ ih =>
        cases hr
        cases hx with
        | set hp =>
            obtain ⟨hb, rfl⟩ := ih rfl
            simpa [hp] using hb
    | _ => cases hr
  · rintro ⟨ha, rfl⟩
    induction a with
    | nil => exact .starNil
    | cons x a ih =>
        have hrest := ih fun y hy => ha y (List.mem_cons_of_mem x hy)
        exact .starCons (a := [x]) (c := []) (.set (ha x List.mem_cons_self)) (List.cons_ne_nil x []) hrest

theorem matches_dots_iff : Matches (.star g dot) a c ↔ '\n' ∉ a ∧ c = [] := by
  unfold dot
  rw [matches_star_set_iff]
  constructor
  · rintro ⟨ha, hc⟩
    exact ⟨fun hmem => by simpa using ha _ hmem, hc⟩
  · rintro ⟨ha, hc⟩
    exact ⟨mem_dot ha, hc⟩

theorem matches_cat_cons {r : Regex} {rs : List Regex} :
    Matches (cat (r :: rs)) a c ↔
      ∃ a₁ a₂ c₁ c₂, a = a₁ ++ a₂ ∧ c = c₁ ++ c₂ ∧ Matches r a₁ c₁ ∧ Matches (cat rs) a₂ c₂ := by
  constructor
  · intro h
    cases h with
    | seq hr hrs => exact ⟨_, _, _, _, rfl, rfl, hr, hrs⟩
  · rintro ⟨a₁, a₂, c₁, c₂, rfl, rfl, hr, hrs⟩
    exact .seq hr hrs

theorem matches_cat_nil : Matches (cat []) a c ↔ a = [] ∧ c = [] := by
  constructor
  · intro h
    cases h
    exact ⟨rfl, rfl⟩
  · rintro ⟨rfl, rfl⟩
    exact .eps

theorem matches_group_iff {n : Text} {r : Regex} :
    Matches (.group n r) a c ↔ ∃ d, c = (n, a) :: d ∧ Matches r a d := by
  constructor
  · intro h
    cases h with
    | group hr => exact ⟨_, rfl, hr⟩
  · rintro ⟨d, rfl, hr⟩
    exact .group hr

/-- A set with a plus. -/
theorem matches_plus_set_iff :
    Matches (cat [.set p, .star g (.set p)]) a c ↔ (a ≠ [] ∧ ∀ x ∈ a, p x = true) ∧ c = [] := by
  simp only [matches_cat_cons, matches_star_set_iff, matches_cat_nil]
  constructor
  · rintro ⟨_, _, _, _, rfl, rfl, hx, w, _, _, _, rfl, rfl, ⟨hw, rfl⟩, rfl, rfl⟩
    cases hx with
    | set hx => simpa using ⟨hx, hw⟩
  · rintro ⟨⟨hne, ha⟩, rfl⟩
    obtain ⟨x, w, rfl⟩ := List.exists_cons_of_ne_nil hne
    have hw := fun y hy => ha y (List.mem_cons_of_mem x hy)
    exact ⟨[x], w, [], [], rfl, rfl, .set (ha x List.mem_cons_self), w, [], [], [], by rw [List.append_nil], rfl,
      ⟨hw, rfl⟩, rfl, rfl⟩

/-- `.*` and a line feed. -/
theorem matches_line_iff :
    Matches (cat [star true dot, lit "\n"]) a c ↔ (∃ l, '\n' ∉ l ∧ a = l ++ "\n") ∧ c = [] := by
  simp only [matches_cat_cons, matches_dots_iff, matches_lit_iff, matches_cat_nil]
  constructor
  · rintro ⟨l, _, _, _, rfl, rfl, ⟨hl, rfl⟩, _, _, _, _, rfl, rfl, ⟨rfl, rfl⟩, rfl, rfl⟩
    exact ⟨⟨l, hl, by rw [List.append_nil]⟩, rfl⟩
  · rintro ⟨⟨l, hl, rfl⟩, rfl⟩
    exact ⟨l, "\n", [], [], rfl, rfl, ⟨hl, rfl⟩, "\n", [], [], [], by rw [List.append_nil], rfl, ⟨rfl, rfl⟩, rfl, rfl⟩

theorem matches_lines_iff :
    Matches (.star g (cat [star true dot, lit "\n"])) a c ↔
      (∃ ls, (∀ l ∈ ls, '\n' ∉ l) ∧ a = Text.unlines ls) ∧ c = [] := by
  constructor
  · intro h
    generalize hr : Regex.star g (cat [star true dot, lit "\n"]) = r at h
    induction h with
    | starNil => exact ⟨⟨[], by simp, rfl⟩, rfl⟩
    | starCons hx _ _ _ ih =>
        cases hr
        obtain ⟨⟨l, hl, rfl⟩, rfl⟩ := matches_line_iff.mp hx
        obtain ⟨⟨ls, hls, rfl⟩, rfl⟩ := ih rfl
        exact ⟨⟨l :: ls, by simpa using ⟨hl, hls⟩, by simp [Text.ofString_eq]⟩, rfl⟩
    | _ => cases hr
  · rintro ⟨⟨ls, hls, rfl⟩, rfl⟩
    induction ls with
    | nil => exact .starNil
    | cons l ls ih =>
        have hline := matches_line_iff.mpr ⟨⟨l, hls l List.mem_cons_self, rfl⟩, rfl⟩
        have hrest := ih fun l' hl' => hls l' (List.mem_cons_of_mem l hl')
        have hall := Matches.starCons (g := g) hline (by simp [Text.ofString_eq]) hrest
        simpa [Text.ofString_eq] using hall

end Shapes

/-! ## Sequences -/

theorem matches_cat_lit {t a : Text} {rs : List Regex} {c : Captures} :
    Matches (cat (lit t :: rs)) a c ↔ ∃ b, a = t ++ b ∧ Matches (cat rs) b c := by
  rw [matches_cat_cons]
  simp only [matches_lit_iff]
  constructor
  · rintro ⟨_, b, _, c, rfl, rfl, ⟨rfl, rfl⟩, hrs⟩
    exact ⟨b, rfl, hrs⟩
  · rintro ⟨b, rfl, hrs⟩
    exact ⟨t, b, [], c, rfl, rfl, ⟨rfl, rfl⟩, hrs⟩

theorem matches_cat_star_set {g : Bool} {p : Char → Bool} {a : Text} {rs : List Regex} {c : Captures} :
    Matches (cat (star g (set p) :: rs)) a c ↔
      ∃ w b, (∀ x ∈ w, p x = true) ∧ a = w ++ b ∧ Matches (cat rs) b c := by
  rw [matches_cat_cons]
  simp only [matches_star_set_iff]
  constructor
  · rintro ⟨w, b, _, c, rfl, rfl, ⟨hw, rfl⟩, hrs⟩
    exact ⟨w, b, hw, rfl, hrs⟩
  · rintro ⟨w, b, hw, rfl, hrs⟩
    exact ⟨w, b, [], c, rfl, rfl, ⟨hw, rfl⟩, hrs⟩

/-- A group of a pattern that has no groups of its own. -/
theorem matches_cat_group {n : Text} {r : Regex} {P : Text → Prop} (hr : ∀ a c, Matches r a c ↔ P a ∧ c = [])
    {a : Text} {rs : List Regex} {c : Captures} :
    Matches (cat (group n r :: rs)) a c ↔ ∃ w b d, P w ∧ a = w ++ b ∧ c = (n, w) :: d ∧ Matches (cat rs) b d := by
  rw [matches_cat_cons]
  simp only [matches_group_iff, hr]
  constructor
  · rintro ⟨w, b, _, d, rfl, rfl, ⟨_, rfl, hw, rfl⟩, hrs⟩
    exact ⟨w, b, d, hw, rfl, rfl, hrs⟩
  · rintro ⟨w, b, d, hw, rfl, rfl, hrs⟩
    exact ⟨w, b, [(n, w)], d, rfl, rfl, ⟨[], rfl, hw, rfl⟩, hrs⟩

theorem run_cat_append (rs ts : List Regex) (s : Text) :
    (cat (rs ++ ts)).run s k = (cat rs).run s fun c s' => (cat ts).run s' fun d s'' => k (c ++ d) s'' := by
  induction rs generalizing s k with
  | nil => rfl
  | cons r rs ih =>
      rw [List.cons_append, run_cat_cons, run_cat_cons]
      congr 1
      funext c s'
      rw [ih]
      simp only [List.append_assoc]

theorem matches_cat_append {rs ts : List Regex} {a b : Text} {c d : Captures} (hrs : Matches (cat rs) a c)
    (hts : Matches (cat ts) b d) : Matches (cat (rs ++ ts)) (a ++ b) (c ++ d) := by
  induction rs generalizing a c with
  | nil =>
      obtain ⟨rfl, rfl⟩ := matches_cat_nil.mp hrs
      exact hts
  | cons r rs ih =>
      obtain ⟨a₁, a₂, c₁, c₂, rfl, rfl, hr, hrest⟩ := matches_cat_cons.mp hrs
      rw [List.append_assoc, List.append_assoc]
      exact .seq hr (ih hrest)

/-! ## What a loop prefers -/

/-- A greedy loop stops where no further turns would let the rest of the match succeed. -/
theorem run_greedy_longest {r : Regex} {s : Text} (h : (star true r).run s k = some v) :
    ∃ a s' c, s = a ++ s' ∧ Matches (.star true r) a c ∧ k c s' = some v ∧
      ∀ b d s'', s' = b ++ s'' → b ≠ [] → Matches (.star true r) b d → k (c ++ d) s'' = none := by
  induction hn : s.length using Nat.strong_induction_on generalizing s k with
  | _ n ih =>
      rw [run_star] at h
      cases hturn : (r.run s fun c s' =>
          if s'.length < s.length then (star true r).run s' fun d s'' => k (c ++ d) s'' else none) with
      | some w =>
          simp only [hturn, if_true] at h
          cases h
          obtain ⟨a, s₁, c, rfl, hr, h₁⟩ := run_sound hturn
          split at h₁
          · rename_i hlt
            obtain ⟨b, s₂, d, rfl, hstar, hk, hlong⟩ := ih _ (hn ▸ hlt) h₁ rfl
            have hne : a ≠ [] := by
              rintro rfl
              exact Nat.lt_irrefl _ hlt
            refine ⟨a ++ b, s₂, c ++ d, by rw [List.append_assoc], .starCons hr hne hstar, hk, ?_⟩
            intro b' d' s'' hs hb hm
            rw [List.append_assoc]
            exact hlong b' d' s'' hs hb hm
          · cases h₁
      | none =>
          simp only [hturn, if_true] at h
          refine ⟨[], s, [], rfl, .starNil, h, ?_⟩
          intro b d s'' hs hb hm
          subst hs
          cases hm with
          | starNil => exact absurd rfl hb
          | starCons hr hne hstar =>
              rename_i a b c d
              -- These turns would have been taken.
              by_contra hk
              have hlt : (b ++ s'').length < (a ++ b ++ s'').length := by
                have hpos := List.length_pos_iff.mpr hne
                simp only [List.length_append]
                omega
              have hrest := run_complete (k := fun d s'' => k (c ++ d) s'') hstar (Option.isSome_iff_ne_none.mpr hk)
              have hsome := run_complete (s := b ++ s'') (k := fun c s' => if s'.length < (a ++ b ++ s'').length then
                (star true r).run s' fun d s'' => k (c ++ d) s'' else none) hr (by rw [if_pos hlt]; exact hrest)
              rw [← List.append_assoc, hturn] at hsome
              cases hsome

/-- A lazy loop takes no turn once the rest of the match succeeds. -/
theorem run_lazy_shortest {r : Regex} {s : Text} (hr : ∀ a c, Matches r a c → c = [])
    (h : (star false r).run s k = some v) :
    ∃ (turns : List Text) (s' : Text), s = turns.flatten ++ s' ∧ (∀ a ∈ turns, Matches r a []) ∧ k [] s' = some v ∧
      ∀ ts₁ ts₂, turns = ts₁ ++ ts₂ → ts₂ ≠ [] → k [] (ts₂.flatten ++ s') = none := by
  induction hn : s.length using Nat.strong_induction_on generalizing s k with
  | _ n ih =>
      rw [run_star] at h
      cases hk : k [] s with
      | some w =>
          rw [hk] at h
          cases h
          refine ⟨[], s, rfl, by simp, hk, ?_⟩
          intro ts₁ ts₂ hts hne
          exact absurd (List.append_eq_nil_iff.mp hts.symm).2 hne
      | none =>
          rw [hk] at h
          obtain ⟨a, s₁, c, rfl, hm, h₁⟩ := run_sound h
          split at h₁
          · rename_i hlt
            obtain ⟨turns, s', rfl, hturns, hk', hshort⟩ := ih _ (hn ▸ hlt) h₁ rfl
            have hc := hr a c hm
            subst hc
            refine ⟨a :: turns, s', by simp, by simpa using ⟨hm, hturns⟩, hk', ?_⟩
            intro ts₁ ts₂ hts hne
            cases ts₁ with
            | nil =>
                rw [List.nil_append] at hts
                subst hts
                simpa using hk
            | cons t ts₁ =>
                obtain ⟨rfl, rfl⟩ := List.cons.inj hts
                exact hshort ts₁ ts₂ rfl hne
          · cases h₁

/-- A lazy loop over characters takes as few of them as the rest of the match lets it. -/
theorem run_lazy_set_shortest {s : Text} {p : Char → Bool} (h : (star false (set p)).run s k = some v) :
    ∃ w s', s = w ++ s' ∧ (∀ x ∈ w, p x = true) ∧ k [] s' = some v ∧
      ∀ u w', w = u ++ w' → w' ≠ [] → k [] (w' ++ s') = none := by
  obtain ⟨turns, s', rfl, hturns, hk, hshort⟩ := run_lazy_shortest (fun a c hm => by cases hm; rfl) h
  have hchars : ∃ w : Text, turns = w.map (fun x => [x]) ∧ ∀ x ∈ w, p x = true := by
    clear hk hshort h
    induction turns with
    | nil => exact ⟨[], rfl, by simp⟩
    | cons a turns ih =>
        obtain ⟨w, hw, hp⟩ := ih fun b hb => hturns b (List.mem_cons_of_mem a hb)
        cases hturns a List.mem_cons_self with
        | set hx => exact ⟨_ :: w, by rw [hw, List.map_cons], by simpa using ⟨hx, hp⟩⟩
  obtain ⟨w, rfl, hp⟩ := hchars
  have hflat : ∀ t : Text, (t.map fun x => [x]).flatten = t := by
    intro t
    induction t with
    | nil => rfl
    | cons x t ih => exact congrArg (x :: ·) ih
  rw [hflat]
  refine ⟨w, s', rfl, hp, hk, ?_⟩
  intro u w' hw hne
  have hnone := hshort (u.map fun x => [x]) (w'.map fun x => [x]) (by rw [hw, List.map_append]) (by simpa using hne)
  rw [hflat] at hnone
  exact hnone

/-- A lazy loop over lines takes as few of them as the rest of the match lets it. -/
theorem run_lazy_lines_shortest {s : Text} (h : (star false (cat [star true dot, lit "\n"])).run s k = some v) :
    ∃ ls s', s = Text.unlines ls ++ s' ∧ (∀ l ∈ ls, '\n' ∉ l) ∧ k [] s' = some v ∧
      ∀ ls₁ ls₂, ls = ls₁ ++ ls₂ → ls₂ ≠ [] → k [] (Text.unlines ls₂ ++ s') = none := by
  obtain ⟨turns, s', rfl, hturns, hk, hshort⟩ := run_lazy_shortest (fun a c hm => (matches_line_iff.mp hm).2) h
  have hlines : ∃ ls : List Text, turns = ls.map (· ++ ['\n']) ∧ ∀ l ∈ ls, '\n' ∉ l := by
    clear hk hshort h
    induction turns with
    | nil => exact ⟨[], rfl, by simp⟩
    | cons a turns ih =>
        obtain ⟨ls, hls, hline⟩ := ih fun b hb => hturns b (List.mem_cons_of_mem a hb)
        obtain ⟨⟨l, hl, rfl⟩, -⟩ := matches_line_iff.mp (hturns a List.mem_cons_self)
        exact ⟨l :: ls, by rw [hls, List.map_cons, Text.ofString_eq]; rfl, by simpa using ⟨hl, hline⟩⟩
  obtain ⟨ls, rfl, hline⟩ := hlines
  have hflat : ∀ ts : List Text, (ts.map (· ++ ['\n'])).flatten = Text.unlines ts := fun _ => rfl
  rw [hflat]
  refine ⟨ls, s', rfl, hline, hk, ?_⟩
  intro ls₁ ls₂ hls hne
  exact hshort (ls₁.map (· ++ ['\n'])) (ls₂.map (· ++ ['\n'])) (by rw [hls, List.map_append]) (by simpa using hne)

/-! ## Searching -/

/-- A match begins at the start of the text. -/
def Begins (r : Regex) (s : Text) : Prop := ∃ a s' c, s = a ++ s' ∧ Matches r a c

variable {r : Regex}

theorem matchAt_isSome_iff {s : Text} : (r.matchAt s).isSome ↔ r.Begins s := by
  unfold matchAt Begins
  rw [run_isSome_iff]
  simp

theorem search_eq_none {s : Text} (h : r.search s = none) : ∀ u v, s = u ++ v → ¬ r.Begins v := by
  intro u v hs hbegins
  obtain ⟨w, hw⟩ := Option.isSome_iff_exists.mp (matchAt_isSome_iff.mpr hbegins)
  induction u generalizing s with
  | nil =>
      subst hs
      rw [search_of_matchAt hw] at h
      cases h
  | cons x u ih =>
      subst hs
      cases hm : r.matchAt (x :: (u ++ v)) with
      | some w' =>
          rw [List.cons_append, search_of_matchAt hm] at h
          cases h
      | none =>
          rw [List.cons_append, search_cons hm] at h
          exact ih h rfl

theorem search_eq_some {s s' : Text} {c : Captures} (h : r.search s = some (c, s')) :
    ∃ gap t, s = gap ++ t ∧ (∀ u v, gap = u ++ v → v ≠ [] → ¬ r.Begins (v ++ t)) ∧ r.matchAt t = some (c, s') := by
  have hnil : ∀ t : Text, ∀ u v, ([] : Text) = u ++ v → v ≠ [] → ¬ r.Begins (v ++ t) := by
    intro t u v hu hne
    exact absurd (List.append_eq_nil_iff.mp hu.symm).2 hne
  induction s with
  | nil => exact ⟨[], [], rfl, hnil [], h⟩
  | cons x s ih =>
      cases hm : r.matchAt (x :: s) with
      | some w =>
          rw [search_of_matchAt hm] at h
          exact ⟨[], x :: s, rfl, hnil _, hm.trans h⟩
      | none =>
          rw [search_cons hm] at h
          obtain ⟨gap, t, rfl, hgap, ht⟩ := ih h
          refine ⟨x :: gap, t, rfl, ?_, ht⟩
          intro u v huv hne
          cases u with
          | nil =>
              rw [List.nil_append] at huv
              subst huv
              rw [← matchAt_isSome_iff, List.cons_append, hm]
              decide
          | cons y u =>
              obtain ⟨rfl, rfl⟩ := List.cons.inj huv
              exact hgap u v rfl hne

/-! ## Pieces -/

section Pieces

variable {B : Type} {text : B → Text} {captures : B → Captures} {tight : B → Text → Prop}

/-- The pieces of a text, from its start. None begins in what lies between them or behind the last, and each is
`tight` before what follows it. -/
inductive Pieces (text : B → Text) (tight : B → Text → Prop) : Text → List B → Prop
  | done {s} : (∀ u v, s = u ++ v → ∀ b, ¬ text b <+: v) → Pieces text tight s []
  | piece {gap s b bs} : (∀ u v, gap = u ++ v → v ≠ [] → ∀ b', ¬ text b' <+: v ++ (text b ++ s)) → tight b s →
      Pieces text tight s bs → Pieces text tight (gap ++ (text b ++ s)) (b :: bs)

theorem not_prefix_of_not_begins (hmatches : ∀ b, Matches r (text b) (captures b)) {s : Text} (h : ¬ r.Begins s)
    (b : B) : ¬ text b <+: s := by
  rintro ⟨s', rfl⟩
  exact h ⟨text b, s', captures b, rfl, hmatches b⟩

/-- A search lists the pieces of the text, when the first match at a start is always a tight piece. -/
theorem findAll_pieces (hne : ∀ b, text b ≠ []) (hmatches : ∀ b, Matches r (text b) (captures b))
    (hfirst : ∀ {s c s'}, r.matchAt s = some (c, s') → ∃ b, s = text b ++ s' ∧ c = captures b ∧ tight b s') (s : Text) :
    ∃ bs, Pieces text tight s bs ∧ r.findAll s = bs.map captures := by
  suffices hfuel : ∀ n s, s.length < n → ∃ bs, Pieces text tight s bs ∧ r.findAllFrom n s = bs.map captures from
    hfuel _ s (Nat.lt_succ_self _)
  intro n
  induction n with
  | zero => intro s hs; omega
  | succ n ih =>
      intro s hs
      cases h : r.search s with
      | none =>
          refine ⟨[], .done ?_, findAllFrom_of_search_none h⟩
          exact fun u v huv => not_prefix_of_not_begins hmatches (search_eq_none h u v huv)
      | some w =>
          obtain ⟨c, s'⟩ := w
          obtain ⟨gap, t, rfl, hgap, ht⟩ := search_eq_some h
          obtain ⟨b, rfl, rfl, htight⟩ := hfirst ht
          have hpos := List.length_pos_iff.mpr (hne b)
          simp only [List.length_append] at hs
          obtain ⟨bs, hbs, hfind⟩ := ih s' (by omega)
          refine ⟨b :: bs, .piece ?_ htight hbs, ?_⟩
          · exact fun u v huv hv => not_prefix_of_not_begins hmatches (hgap u v huv hv)
          · rw [findAllFrom_of_search h, hfind, List.map_cons]

/-- Where a tight piece can be read in one way only, so can a text. -/
theorem Pieces.unique {γ : Type} {row : B → γ}
    (huniq : ∀ {b b' s s'}, text b ++ s = text b' ++ s' → tight b s → tight b' s' → row b = row b' ∧ s = s')
    {s : Text} {bs bs' : List B} (h : Pieces text tight s bs) (h' : Pieces text tight s bs') :
    bs.map row = bs'.map row := by
  induction h generalizing bs' with
  | done hno =>
      cases h' with
      | done => rfl
      | piece => exact absurd ⟨_, rfl⟩ (hno _ _ rfl _)
  | @piece gap s b bs hgap htight hrest ih =>
      generalize hs : gap ++ (text b ++ s) = t at h'
      cases h' with
      | done hno => exact absurd ⟨s, rfl⟩ (hno gap _ hs.symm b)
      | @piece gap' s' b' bs' hgap' htight' hrest' =>
          -- A piece that begins later would have the other one begin before it.
          have htext : text b ++ s = text b' ++ s' := by
            cases List.append_eq_append_iff.mp hs with
            | inl h =>
                obtain ⟨v, rfl, heq⟩ := h
                cases v with
                | nil => exact heq
                | cons c v => exact absurd ⟨s, heq⟩ (hgap' gap (c :: v) rfl (List.cons_ne_nil c v) b)
            | inr h =>
                obtain ⟨v, rfl, heq⟩ := h
                cases v with
                | nil => exact heq.symm
                | cons c v => exact absurd ⟨s', heq⟩ (hgap gap' (c :: v) rfl (List.cons_ne_nil c v) b')
          obtain ⟨hrow, rfl⟩ := huniq htext htight htight'
          rw [List.map_cons, List.map_cons, hrow, ih hrest']

end Pieces

end Regex
