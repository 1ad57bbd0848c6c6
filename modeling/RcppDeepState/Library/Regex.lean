import RcppDeepState.Library.Text

/-!
# Backtracking regular expressions

The matcher takes the rest of the match as a continuation, so that the first success found is the one a
backtracking engine returns: greedy loops try one more turn first, lazy loops try to go on first.
-/

inductive Regex
  | eps
  | set (p : Char → Bool)
  | seq (r t : Regex)
  | alt (r t : Regex)
  | star (greedy : Bool) (r : Regex)
  | group (name : Text) (r : Regex)

namespace Regex

/-- The named groups of a match, with the text each has matched. -/
abbrev Captures := List (Text × Text)

/-- Turns of a loop. A turn must consume something, so `fuel` never runs out before the text does. -/
def loop {β : Type} (turn : Text → (Captures → Text → Option β) → Option β) (greedy : Bool) :
    Nat → Text → (Captures → Text → Option β) → Option β
  | 0, s, k => k [] s
  | fuel + 1, s, k =>
      let again := turn s fun c s' =>
        if s'.length < s.length then loop turn greedy fuel s' fun d s'' => k (c ++ d) s'' else none
      if greedy then again <|> k [] s else k [] s <|> again

/-- Match at the start of the text and go on with `k`; the first success in backtracking order. -/
def run {β : Type} : Regex → Text → (Captures → Text → Option β) → Option β
  | .eps, s, k => k [] s
  | .set _, [], _ => none
  | .set p, c :: s, k => if p c then k [] s else none
  | .seq r t, s, k => r.run s fun c s' => t.run s' fun d s'' => k (c ++ d) s''
  | .alt r t, s, k => r.run s k <|> t.run s k
  | .star greedy r, s, k => loop r.run greedy s.length s k
  | .group n r, s, k => r.run s fun c s' => k ((n, s.take (s.length - s'.length)) :: c) s'

/-! ## Searching -/

/-- A match at the start of the text: its captures and the text behind it. -/
def matchAt (r : Regex) (s : Text) : Option (Captures × Text) := r.run s fun c s' => some (c, s')

/-- The leftmost match. -/
def search (r : Regex) : Text → Option (Captures × Text)
  | [] => r.matchAt []
  | c :: s => r.matchAt (c :: s) <|> search r s

def findAllFrom (r : Regex) : Nat → Text → List Captures
  | 0, _ => []
  | n + 1, s =>
      match r.search s with
      | none => []
      | some (c, s') => c :: findAllFrom r n s'

/-- The captures of the successive leftmost matches that do not overlap. -/
def findAll (r : Regex) (s : Text) : List Captures := findAllFrom r (s.length + 1) s

/-! ## Patterns -/

def lit : Text → Regex
  | [] => .eps
  | c :: t => .seq (.set (· == c)) (lit t)

def dot : Regex := .set (· != '\n')

def cat : List Regex → Regex
  | [] => .eps
  | r :: rs => .seq r (cat rs)

/-! ## Equations of the matcher -/

variable {β : Type} {k : Captures → Text → Option β}

@[simp] theorem run_eps (s : Text) : eps.run s k = k [] s := rfl

@[simp] theorem run_set_nil (p : Char → Bool) : (set p).run [] k = none := rfl

@[simp] theorem run_set_cons (p : Char → Bool) (c : Char) (s : Text) :
    (set p).run (c :: s) k = if p c then k [] s else none := rfl

@[simp] theorem run_seq (r t : Regex) (s : Text) :
    (seq r t).run s k = r.run s fun c s' => t.run s' fun d s'' => k (c ++ d) s'' := rfl

@[simp] theorem run_cat_nil (s : Text) : (cat []).run s k = k [] s := rfl

@[simp] theorem run_cat_cons (r : Regex) (rs : List Regex) (s : Text) :
    (cat (r :: rs)).run s k = r.run s fun c s' => (cat rs).run s' fun d s'' => k (c ++ d) s'' := rfl

theorem run_group (n : Text) (r : Regex) (s : Text) :
    (group n r).run s k =
      r.run s fun c s' => k ((n, s.take (s.length - s'.length)) :: c) s' := rfl

theorem loop_none {turn : Text → (Captures → Text → Option β) → Option β} {g : Bool}
    (ht : ∀ s, turn s (fun _ _ => none) = none) (n : Nat) (s : Text) :
    loop turn g n s (fun _ _ => none) = none := by
  induction n generalizing s with
  | zero => rfl
  | succ n ih => cases g <;> simp [loop, ih, ht]

theorem run_none (r : Regex) (s : Text) : r.run s (fun _ _ => (none : Option β)) = none := by
  induction r generalizing s with
  | eps => rfl
  | set p => cases s <;> simp
  | seq r t ihr iht => simp only [run_seq, iht, ihr]
  | alt r t ihr iht => simp [run, ihr, iht]
  | star g r ih => exact loop_none ih _ _
  | group n r ih => exact ih s

theorem loop_fuel {turn : Text → (Captures → Text → Option β) → Option β} {g : Bool}
    (ht : ∀ s, turn s (fun _ _ => none) = none) {n : Nat} {s : Text} (hn : s.length ≤ n) :
    loop turn g n s k = loop turn g s.length s k := by
  induction n using Nat.strong_induction_on generalizing s k with
  | _ n ih =>
      cases n with
      | zero => rw [Nat.le_zero.mp hn]
      | succ n =>
          -- Both sides take the same first turn, and every later text is shorter.
          have hturn : ∀ m, m ≤ n → s.length ≤ m + 1 →
              (turn s fun c s' => if s'.length < s.length then
                loop turn g m s' fun d s'' => k (c ++ d) s'' else none) =
              turn s fun c s' => if s'.length < s.length then
                loop turn g s'.length s' fun d s'' => k (c ++ d) s'' else none := by
            intro m hm hs
            congr 1
            funext c s'
            split
            · rename_i h
              exact ih m (by omega) (by omega)
            · rfl
          cases hs : s.length with
          | zero =>
              have hnil : s = [] := List.length_eq_zero_iff.mp hs
              subst hnil
              simp [loop, ht]
          | succ m =>
              have h1 := hturn n (Nat.le_refl _) hn
              have h2 := hturn m (by omega) (by omega)
              simp only [loop, h1, h2]

/-- One turn of a loop, or none. -/
theorem run_star (g : Bool) (r : Regex) (s : Text) :
    (star g r).run s k =
      let again := r.run s fun c s' =>
        if s'.length < s.length then (star g r).run s' fun d s'' => k (c ++ d) s'' else none
      if g then again <|> k [] s else k [] s <|> again := by
  have hfuel : (star g r).run s k = loop r.run g (s.length + 1) s k :=
    (loop_fuel (run_none r) (Nat.le_succ _)).symm
  rw [hfuel]
  simp only [loop]
  have hturn : (r.run s fun c s' => if s'.length < s.length then
        loop r.run g s.length s' fun d s'' => k (c ++ d) s'' else none) =
      r.run s fun c s' => if s'.length < s.length then
        (star g r).run s' fun d s'' => k (c ++ d) s'' else none := by
    congr 1
    funext c s'
    split
    · rename_i h
      exact loop_fuel (run_none r) h.le
    · rfl
  rw [hturn]

theorem run_lit (t s : Text) :
    (lit t).run s k = if t <+: s then k [] (s.drop t.length) else none := by
  induction t generalizing s k with
  | nil => simp [lit]
  | cons c t ih =>
      cases s with
      | nil => simp [lit]
      | cons x s =>
          by_cases h : x = c
          · subst h; simp [lit, ih]
          · simp [lit, h, Ne.symm h]

@[simp] theorem run_lit_append (t s : Text) : (lit t).run (t ++ s) k = k [] s := by
  simp [run_lit]

theorem run_lit_newline (s : Text) : (lit "\n").run ('\n' :: s) k = k [] s := by
  simp [Text.ofString_eq, lit]

theorem run_lit_of_not_prefix {t s : Text} (h : ¬ t <+: s) : (lit t).run s k = none := by
  simp [run_lit, h]

/-! ## Loops over a set of characters -/

theorem run_greedy_nil (p : Char → Bool) : (star true (set p)).run [] k = k [] [] := by
  simp [run_star]

theorem run_greedy_cons (p : Char → Bool) (c : Char) (s : Text) :
    (star true (set p)).run (c :: s) k =
      ((if p c then (star true (set p)).run s k else none) <|> k [] (c :: s)) := by
  rw [run_star]
  simp

theorem run_lazy_nil (p : Char → Bool) : (star false (set p)).run [] k = k [] [] := by
  simp [run_star]

theorem run_lazy_cons (p : Char → Bool) (c : Char) (s : Text) :
    (star false (set p)).run (c :: s) k =
      (k [] (c :: s) <|> if p c then (star false (set p)).run s k else none) := by
  rw [run_star]
  simp

/-- A greedy loop takes the longest run of characters from which the rest of the match succeeds. -/
theorem run_greedy_eq_some {p : Char → Bool} {a s : Text} {v : β} (ha : ∀ c ∈ a, p c = true)
    (hlong : ∀ b s', s = b ++ s' → b ≠ [] → (∀ c ∈ b, p c = true) → k [] s' = none)
    (hk : k [] s = some v) : (star true (set p)).run (a ++ s) k = some v := by
  induction a with
  | nil =>
      rw [List.nil_append]
      cases s with
      | nil => rw [run_greedy_nil, hk]
      | cons c s =>
          rw [run_greedy_cons]
          have hrun : (if p c then (star true (set p)).run s k else none) = none := by
            split
            · rename_i hc
              have hnone : ∀ (b s' : Text), s = b ++ s' → (∀ x ∈ b, p x = true) → k [] s' = none := by
                intro b s' hs hb
                refine hlong (c :: b) s' (by rw [hs, List.cons_append]) (by simp) ?_
                simpa using And.intro hc hb
              clear hlong hk
              induction s with
              | nil => rw [run_greedy_nil]; exact hnone [] [] rfl (by simp)
              | cons d s ih =>
                  rw [run_greedy_cons, hnone [] _ rfl (by simp)]
                  split
                  · rename_i hd
                    rw [ih (fun b s' hs hb => hnone (d :: b) s' (by rw [hs, List.cons_append])
                      (by simpa using And.intro hd hb))]
                    rfl
                  · rfl
            · rfl
          rw [hrun, hk]
          rfl
  | cons c a ih =>
      have hc : p c = true := ha c (by simp)
      have := ih (fun x hx => ha x (by simp [hx]))
      rw [List.cons_append, run_greedy_cons, if_pos hc, this]
      rfl

theorem run_greedy_eq_none {p : Char → Bool} {s : Text}
    (h : ∀ b s', s = b ++ s' → (∀ c ∈ b, p c = true) → k [] s' = none) :
    (star true (set p)).run s k = none := by
  induction s with
  | nil => rw [run_greedy_nil]; exact h [] [] rfl (by simp)
  | cons d s ih =>
      rw [run_greedy_cons, h [] _ rfl (by simp)]
      split
      · rename_i hd
        rw [ih (fun b s' hs hb => h (d :: b) s' (by rw [hs, List.cons_append])
          (by simpa using And.intro hd hb))]
        rfl
      · rfl

/-- A lazy loop takes the shortest run of characters from which the rest of the match succeeds. -/
theorem run_lazy_eq_some {p : Char → Bool} {a s : Text} {v : β} (ha : ∀ c ∈ a, p c = true)
    (hshort : ∀ b b', a = b ++ b' → b' ≠ [] → k [] (b' ++ s) = none)
    (hk : k [] s = some v) : (star false (set p)).run (a ++ s) k = some v := by
  induction a with
  | nil =>
      rw [List.nil_append]
      cases s with
      | nil => rw [run_lazy_nil, hk]
      | cons c s => rw [run_lazy_cons, hk]; rfl
  | cons c a ih =>
      have hc : p c = true := ha c (by simp)
      have hno : k [] (c :: (a ++ s)) = none := hshort [] (c :: a) rfl (by simp)
      have := ih (fun x hx => ha x (by simp [hx]))
        (fun b b' hb hne => hshort (c :: b) b' (by rw [hb, List.cons_append]) hne)
      rw [List.cons_append, run_lazy_cons, hno, if_pos hc, this]
      rfl

theorem run_lazy_eq_none {p : Char → Bool} {s : Text}
    (h : ∀ b s', s = b ++ s' → (∀ c ∈ b, p c = true) → k [] s' = none) :
    (star false (set p)).run s k = none := by
  induction s with
  | nil => rw [run_lazy_nil]; exact h [] [] rfl (by simp)
  | cons d s ih =>
      rw [run_lazy_cons, h [] _ rfl (by simp)]
      split
      · rename_i hd
        rw [ih (fun b s' hs hb => h (d :: b) s' (by rw [hs, List.cons_append])
          (by simpa using And.intro hd hb))]
        rfl
      · rfl

theorem run_greedy_of_not {p : Char → Bool} {c : Char} {s : Text} (hc : p c = false) :
    (star true (set p)).run (c :: s) k = k [] (c :: s) := by
  rw [run_greedy_cons]
  simp [hc]

/-- A loop over `p` that the rest of the match cannot start inside of takes every `p`. -/
theorem run_loop_dropWhile {g : Bool} {p : Char → Bool} {s : Text}
    (hk : ∀ c s', p c = true → k [] (c :: s') = none) :
    (star g (set p)).run s k = k [] (s.dropWhile p) := by
  induction s with
  | nil => cases g <;> simp [run_greedy_nil, run_lazy_nil]
  | cons c s ih =>
      cases hc : p c with
      | true => cases g <;> simp [run_greedy_cons, run_lazy_cons, hc, ih, hk _ _ hc]
      | false => cases g <;> simp [run_greedy_cons, run_lazy_cons, hc]

/-! ## Lines -/

theorem mem_dot {l : Text} (hl : '\n' ∉ l) : ∀ c ∈ l, (c != '\n') = true := by
  intro c hc
  simp only [bne_iff_ne, ne_eq]
  rintro rfl
  exact hl hc

/-- A loop over `.` that a line feed has to follow matches the rest of the line. -/
theorem run_dots_line {g : Bool} {l s : Text} (hl : '\n' ∉ l)
    (hk : ∀ c s', c ≠ '\n' → k [] (c :: s') = none) :
    (star g dot).run (l ++ '\n' :: s) k = k [] ('\n' :: s) := by
  induction l with
  | nil => cases g <;> simp [dot, run_greedy_cons, run_lazy_cons]
  | cons c l ih =>
      simp only [List.mem_cons, not_or] at hl
      have hc : c ≠ '\n' := Ne.symm hl.1
      have hrec := ih hl.2
      unfold dot at hrec ⊢
      cases g <;>
        simp only [List.cons_append, run_greedy_cons, run_lazy_cons, hrec, hk _ _ hc] <;> simp [hc]

/-- `.*` and a line feed match one line. -/
theorem run_line {l s : Text} (hl : '\n' ∉ l) :
    (cat [star true dot, lit "\n"]).run (l ++ '\n' :: s) k = k [] s := by
  rw [run_cat_cons, run_dots_line hl]
  · simp [Text.ofString_eq, lit]
  · intro c s' hc; simp [Text.ofString_eq, lit, hc]

/-- A lazy loop over lines takes the fewest lines from which the rest of the match succeeds. -/
theorem run_lazy_lines {ls : List Text} {s : Text} {v : β} (hls : ∀ l ∈ ls, '\n' ∉ l)
    (hshort : ∀ ls₁ ls₂, ls = ls₁ ++ ls₂ → ls₂ ≠ [] → k [] (Text.unlines ls₂ ++ s) = none)
    (hk : k [] s = some v) :
    (star false (cat [star true dot, lit "\n"])).run (Text.unlines ls ++ s) k = some v := by
  induction ls with
  | nil =>
      rw [Text.unlines_nil, List.nil_append, run_star, hk]
      rfl
  | cons l ls ih =>
      have hl : '\n' ∉ l := hls l (by simp)
      have hno : k [] (l ++ '\n' :: (Text.unlines ls ++ s)) = none := by
        simpa using hshort [] (l :: ls) rfl (by simp)
      have hrec := ih (fun x hx => hls x (by simp [hx]))
        (fun a b hab hb => hshort (l :: a) b (by rw [hab, List.cons_append]) hb)
      have hlen : (Text.unlines ls ++ s).length < (l ++ '\n' :: (Text.unlines ls ++ s)).length := by
        simp only [List.length_append, List.length_cons]; omega
      rw [Text.unlines_cons, List.append_assoc, List.cons_append, run_star]
      simp only [run_line hl, hno, if_pos hlen, List.nil_append, hrec]
      rfl

/-! ## Searching -/

theorem search_of_matchAt {r : Regex} {s : Text} {v : Captures × Text} (h : r.matchAt s = some v) :
    r.search s = some v := by
  cases s with
  | nil => exact h
  | cons c s => rw [search, h]; rfl

theorem search_cons {r : Regex} {c : Char} {s : Text} (h : r.matchAt (c :: s) = none) :
    r.search (c :: s) = r.search s := by
  rw [search, h]; rfl

/-- No match starts inside `a`. -/
theorem search_append {r : Regex} {a s : Text}
    (h : ∀ a₁ a₂, a = a₁ ++ a₂ → a₂ ≠ [] → r.matchAt (a₂ ++ s) = none) :
    r.search (a ++ s) = r.search s := by
  induction a with
  | nil => rfl
  | cons c a ih =>
      have hno : r.matchAt (c :: (a ++ s)) = none := h [] (c :: a) rfl (by simp)
      rw [List.cons_append, search_cons hno]
      exact ih (fun a₁ a₂ ha hne => h (c :: a₁) a₂ (by rw [ha, List.cons_append]) hne)

theorem findAllFrom_of_search {r : Regex} {n : Nat} {s s' : Text} {c : Captures}
    (h : r.search s = some (c, s')) : r.findAllFrom (n + 1) s = c :: r.findAllFrom n s' := by
  rw [findAllFrom, h]

theorem findAllFrom_of_search_none {r : Regex} {n : Nat} {s : Text} (h : r.search s = none) :
    r.findAllFrom n s = [] := by
  cases n with
  | zero => rfl
  | succ n => rw [findAllFrom, h]

theorem matchAt_lit_none {t : Text} {rs : List Regex} {s : Text} (h : ¬ t <+: s) :
    (cat (lit t :: rs)).matchAt s = none := by
  unfold matchAt
  rw [run_cat_cons, run_lit_of_not_prefix h]

/-! ## Captures -/

@[simp] theorem take_matched (a s : Text) : (a ++ s).take ((a ++ s).length - s.length) = a := by
  simp

end Regex
