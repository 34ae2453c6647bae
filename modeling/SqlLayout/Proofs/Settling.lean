import SqlLayout.Proofs.Characters
import SqlLayout.Proofs.Gaps

/-! # The rule of the first stage

Each pass of the first stage is a rule for gaps. In a row they come to a table: what a gap becomes
depends on whether there was a blank, and on which of the two characters around it are commas,
parentheses or operator characters. The last pass, which closes calls, finds nothing to do.
-/

namespace SqlLayout

namespace Gaps

/-- What a test says of a character, if there is one. -/
def holds (p : Char → Bool) (x : Option Char) : Bool :=
  x.elim false p

@[simp] theorem holds_none (p : Char → Bool) : holds p none = false := rfl

@[simp] theorem holds_some (p : Char → Bool) (c : Char) : holds p (some c) = p c := rfl

namespace Rule

/-- One space for a gap that is not empty. -/
def single : Rule :=
  fun _ g _ => if g.isEmpty then [] else [' ']

/-- No blanks at the ends. -/
def trimmed : Rule :=
  fun x g y => if x.isNone || y.isNone then [] else g

/-- A space more at either end of a run of operator characters. -/
def padded : Rule :=
  fun x g y =>
    (if holds isOperator x && !(g.isEmpty && holds isOperator y) then [' '] else []) ++ g ++
      (if holds isOperator y && !(g.isEmpty && holds isOperator x) then [' '] else [])

/-- Fixed texts before and after a mark. -/
def marked (mark : Char) (before after : Text) : Rule :=
  fun x g y =>
    (if x = some mark then after else []) ++ (if x = some mark ∨ y = some mark then [] else g) ++
      (if y = some mark then before else [])

/-- No gap between a word and an opening parenthesis. -/
def called : Rule :=
  fun x g y => if holds isWord x && y == some '(' then [] else g

theorem single_blank : single.Blank := by
  intro x g y _
  unfold single
  split <;> rfl

theorem trimmed_blank : trimmed.Blank := by
  intro x g y hg
  unfold trimmed
  split
  · rfl
  · exact hg

theorem padded_blank : padded.Blank := by
  intro x g y hg
  unfold padded
  split <;> split <;> simp [hg, show isBlank ' ' = true from rfl]

theorem marked_blank (mark : Char) (before after : Text) (hb : before.isAllBlank = true)
    (ha : after.isAllBlank = true) : (marked mark before after).Blank := by
  intro x g y hg
  unfold marked
  split <;> split <;> split <;> simp [hb, ha, hg]

theorem after_blank {second first : Rule} (hs : second.Blank) (hf : first.Blank) :
    (second.after first).Blank :=
  fun x g y hg => hs x _ y (hf x g y hg)

end Rule

/-! ## The passes -/

theorem collapse_cons_blank {b : Char} (hb : isBlank b = true) (s : Text) :
    Spacing.collapse (b :: s)
      = if (Spacing.collapse s).head? = some ' ' then Spacing.collapse s
        else ' ' :: Spacing.collapse s :=
  if_pos hb

theorem collapse_cons {c : Char} (hc : isBlank c = false) (s : Text) :
    Spacing.collapse (c :: s) = c :: Spacing.collapse s := by
  simp [Spacing.collapse, hc]

theorem collapse_blank {g : Text} (hg : g.isAllBlank = true) :
    Spacing.collapse g = if g.isEmpty then [] else [' '] := by
  induction g with
  | nil => rfl
  | cons b g ih =>
      simp only [Text.isAllBlank_cons, Bool.and_eq_true] at hg
      rw [collapse_cons_blank hg.1, ih hg.2]
      cases g <;> rfl

theorem collapse_append_cons {g : Text} (hg : g.isAllBlank = true) {c : Char}
    (hc : isBlank c = false) (s : Text) :
    Spacing.collapse (g ++ c :: s) = (if g.isEmpty then [] else [' ']) ++ c :: Spacing.collapse s := by
  have hne : c ≠ ' ' := by
    rintro rfl
    exact absurd hc (by decide)
  induction g with
  | nil => exact collapse_cons hc s
  | cons b g ih =>
      simp only [Text.isAllBlank_cons, Bool.and_eq_true] at hg
      rw [List.cons_append, collapse_cons_blank hg.1, ih hg.2]
      cases g <;> simp [hne]

theorem collapse_eq (s : Text) : Spacing.collapse s = respace .single s :=
  eq_respace (fun _ => Spacing.collapse) (fun _ _ hg => collapse_blank hg)
    (fun _ _ _ s hg hc => collapse_append_cons hg hc s) s

theorem trim_eq (s : Text) : s.trim = respace .trimmed s := by
  refine eq_respace (fun x t => if x.isNone then t.trim else t.trimRight)
    (fun x g hg => ?_) (fun x g c s hg hc => ?_) s
  · have ht : g.trim = [] := by
      have h := Text.trim_append hg []
      rwa [List.append_nil] at h
    cases x <;> simp [Rule.trimmed, ht, Text.trimRight_blank hg]
  · cases x with
    | none =>
        simp [Rule.trimmed, Text.trim, Text.trimLeft, Text.dropWhile_isBlank_append hg,
          Text.dropWhile_isBlank_cons hc, Text.trimRight_cons hc]
    | some x => simp [Rule.trimmed, Text.trimRight_append_cons hc]

theorem not_isOperator_of_isBlank {c : Char} (hc : isBlank c = true) : isOperator c = false := by
  by_contra h
  simp only [isOperator, Bool.not_eq_false, Bool.or_eq_true, beq_iff_eq] at h
  rcases h with ((rfl | rfl) | rfl) | rfl <;> exact absurd hc (by decide)

theorem padOperatorsFrom_blank {g : Text} (hg : g.isAllBlank = true) (inside : Bool) (s : Text) :
    Spacing.padOperatorsFrom inside (g ++ s)
      = (if inside && !g.isEmpty then [' '] else []) ++ g
        ++ Spacing.padOperatorsFrom (inside && g.isEmpty) s := by
  induction g generalizing inside with
  | nil => cases inside <;> rfl
  | cons c g ih =>
      simp only [Text.isAllBlank_cons, Bool.and_eq_true] at hg
      have hc := not_isOperator_of_isBlank hg.1
      cases inside <;> simp [Spacing.padOperatorsFrom, hc, ih hg.2]

theorem padOperators_eq (s : Text) : Spacing.padOperators s = respace .padded s := by
  refine eq_respace (fun x => Spacing.padOperatorsFrom (holds isOperator x))
    (fun x g hg => ?_) (fun x g c s hg hc => ?_) s
  · have h := padOperatorsFrom_blank hg (holds isOperator x) []
    rw [List.append_nil] at h
    rw [h]
    cases hx : holds isOperator x <;> cases g <;> simp [Rule.padded, hx, Spacing.padOperatorsFrom]
  · rw [padOperatorsFrom_blank hg]
    cases hx : holds isOperator x <;> cases hy : isOperator c <;> cases g <;>
      simp [Rule.padded, hx, hy, Spacing.padOperatorsFrom]

theorem dropBefore_cons (mark b : Char) (s : Text) :
    Spacing.dropBefore mark (b :: s)
      = if isBlank b && (Spacing.dropBefore mark s).head? == some mark then
          Spacing.dropBefore mark s
        else b :: Spacing.dropBefore mark s := rfl

/-- Blanks that no mark follows are kept. -/
theorem dropBefore_append {mark : Char} (hm : isBlank mark = false) {g : Text}
    (hg : g.isAllBlank = true) {s : Text} (hs : (Spacing.dropBefore mark s).head? ≠ some mark) :
    Spacing.dropBefore mark (g ++ s) = g ++ Spacing.dropBefore mark s := by
  induction g with
  | nil => rfl
  | cons b g ih =>
      simp only [Text.isAllBlank_cons, Bool.and_eq_true] at hg
      have hne : (g ++ Spacing.dropBefore mark s).head? ≠ some mark := by
        cases g with
        | nil => exact hs
        | cons b' g =>
            simp only [Text.isAllBlank_cons, Bool.and_eq_true] at hg
            intro h
            simp only [List.cons_append, List.head?_cons, Option.some.injEq] at h
            simp [← h, hg.2.1] at hm
      rw [List.cons_append, dropBefore_cons, ih hg.2, beq_eq_false_iff_ne.mpr hne]
      simp

/-- Blanks that a mark follows are dropped. -/
theorem dropBefore_append_mark {mark : Char} (hm : isBlank mark = false) {g : Text}
    (hg : g.isAllBlank = true) (s : Text) :
    Spacing.dropBefore mark (g ++ mark :: s) = mark :: Spacing.dropBefore mark s := by
  induction g with
  | nil => simp [dropBefore_cons, hm]
  | cons b g ih =>
      simp only [Text.isAllBlank_cons, Bool.and_eq_true] at hg
      rw [List.cons_append, dropBefore_cons, ih hg.2]
      simp [hg.1]

theorem dropBefore_cons_of_shows {mark c : Char} (hc : isBlank c = false) (s : Text) :
    Spacing.dropBefore mark (c :: s) = c :: Spacing.dropBefore mark s := by
  simp [dropBefore_cons, hc]

theorem dropAfterFrom_append {mark : Char} (hm : isBlank mark = false) {g : Text}
    (hg : g.isAllBlank = true) (after : Bool) {c : Char} (hc : isBlank c = false) (s : Text) :
    Spacing.dropAfterFrom mark after (g ++ c :: s)
      = (if after then [] else g) ++ c :: Spacing.dropAfterFrom mark (c == mark) s := by
  induction g generalizing after with
  | nil => cases after <;> simp [Spacing.dropAfterFrom, hc]
  | cons b g ih =>
      simp only [Text.isAllBlank_cons, Bool.and_eq_true] at hg
      have hne : (b == mark) = false := by
        rw [beq_eq_false_iff_ne]
        rintro rfl
        simp [hm] at hg
      cases after <;> simp [Spacing.dropAfterFrom, hg.1, hne, ih hg.2]

theorem dropAfterFrom_blank {mark : Char} (hm : isBlank mark = false) {g : Text}
    (hg : g.isAllBlank = true) (after : Bool) :
    Spacing.dropAfterFrom mark after g = if after then [] else g := by
  induction g generalizing after with
  | nil => cases after <;> rfl
  | cons b g ih =>
      simp only [Text.isAllBlank_cons, Bool.and_eq_true] at hg
      have hne : (b == mark) = false := by
        rw [beq_eq_false_iff_ne]
        rintro rfl
        simp [hm] at hg
      cases after <;> simp [Spacing.dropAfterFrom, hg.1, hne, ih hg.2]

theorem flatMap_blank {mark : Char} (hm : isBlank mark = false) (written : Text) {g : Text}
    (hg : g.isAllBlank = true) :
    (g.flatMap fun c => if c = mark then written else [c]) = g := by
  induction g with
  | nil => rfl
  | cons b g ih =>
      simp only [Text.isAllBlank_cons, Bool.and_eq_true] at hg
      have hne : b ≠ mark := by
        rintro rfl
        simp [hm] at hg
      simp [hne, ih hg.2]

theorem respellMark_eq {mark : Char} (hm : isBlank mark = false) (before after : Text) (s : Text) :
    Spacing.respellMark mark (before ++ mark :: after) s = respace (.marked mark before after) s := by
  refine eq_respace
    (fun x t => (if x = some mark then after else []) ++
      (Spacing.dropAfterFrom mark (x == some mark) (Spacing.dropBefore mark t)).flatMap
        fun c => if c = mark then before ++ mark :: after else [c])
    (fun x g hg => ?_) (fun x g c s hg hc => ?_) s
  · have hd : Spacing.dropBefore mark g = g := by
      have h := dropBefore_append hm hg (s := []) (by simp [Spacing.dropBefore])
      simpa only [List.append_nil, show Spacing.dropBefore mark [] = [] from rfl] using h
    by_cases hx : x = some mark <;>
      simp [Rule.marked, hd, dropAfterFrom_blank hm hg, flatMap_blank hm _ hg, hx]
  · by_cases hcm : c = mark
    · subst hcm
      have hd := dropAfterFrom_append hm (g := []) rfl (x == some c) hc (Spacing.dropBefore c s)
      rw [List.nil_append] at hd
      simp [Rule.marked, dropBefore_append_mark hm hg, hd]
    · have hs : (Spacing.dropBefore mark (c :: s)).head? ≠ some mark := by
        simpa [dropBefore_cons_of_shows hc] using hcm
      rw [dropBefore_append hm hg hs, dropBefore_cons_of_shows hc,
        dropAfterFrom_append hm hg _ hc]
      by_cases hx : x = some mark <;> simp [Rule.marked, hx, hcm, flatMap_blank hm _ hg]

theorem closeCalls_cons (c : Char) (s : Text) :
    Spacing.closeCalls (c :: s)
      = if isWord c && ((Spacing.closeCalls s).dropWhile isBlank).head? == some '(' then
          c :: (Spacing.closeCalls s).dropWhile isBlank
        else c :: Spacing.closeCalls s := rfl

theorem closeCalls_append {g : Text} (hg : ∀ b ∈ g, isWord b = false) (s : Text) :
    Spacing.closeCalls (g ++ s) = g ++ Spacing.closeCalls s := by
  induction g with
  | nil => rfl
  | cons b g ih =>
      rw [List.cons_append, closeCalls_cons, hg b (by simp), ih fun c hc => hg c (by simp [hc])]
      simp

theorem closeCalls_eq (s : Text) : Spacing.closeCalls s = respace .called s := by
  have hw : ∀ {b : Char}, isBlank b = true → isWord b = false := by
    intro b hb
    rw [Bool.eq_false_iff]
    intro h
    simp [isBlank_of_isWord h] at hb
  have happ : ∀ {g : Text}, g.isAllBlank = true → ∀ t,
      Spacing.closeCalls (g ++ t) = g ++ Spacing.closeCalls t :=
    fun hg t => closeCalls_append (fun b hb => hw (Text.isBlank_of_mem hg hb)) t
  refine eq_respace
    (fun x t =>
      if holds isWord x && ((Spacing.closeCalls t).dropWhile isBlank).head? == some '(' then
        (Spacing.closeCalls t).dropWhile isBlank
      else Spacing.closeCalls t)
    (fun x g hg => ?_) (fun x g c s hg hc => ?_) s
  · have h := happ hg []
    rw [List.append_nil] at h
    have hd := Text.dropWhile_isBlank_append hg []
    rw [List.append_nil] at hd
    simp [h, hd, Rule.called, show Spacing.closeCalls [] = [] from rfl]
  · have hcons : Spacing.closeCalls (c :: s)
        = c :: (if isWord c && ((Spacing.closeCalls s).dropWhile isBlank).head? == some '(' then
            (Spacing.closeCalls s).dropWhile isBlank else Spacing.closeCalls s) := by
      rw [closeCalls_cons]
      split <;> rfl
    simp only [happ hg, hcons, Text.dropWhile_isBlank_append hg, Text.dropWhile_isBlank_cons hc,
      List.head?_cons, Rule.called, holds_some]
    split <;> simp

/-! ## The stage -/

/-- Whether a space is put between two characters, or at an end of the text, where `gap` says
    whether a blank was there. -/
def spaced (commas : CommaStyle) : (x : Option Char) → (gap : Bool) → (y : Option Char) → Bool
  | none, _, none => false
  | none, _, some y => isOperator y || (y == ',' && commas == .before)
  | some x, _, none => isOperator x || x == ',' || x == ')'
  | some x, gap, some y =>
    if x = ')' then true
    else if y = ')' then false
    else if x = '(' ∨ y = '(' then false
    else if y = ',' then commas == .before || x == ','
    else if x = ',' then true
    else if isOperator x != isOperator y then true
    else gap

/-- The rule of the first stage. -/
def Rule.settled (commas : CommaStyle) : Rule :=
  fun x g y => if spaced commas x (!g.isEmpty) y then [' '] else []

/-- The text right before a comma. -/
def commaSide : CommaStyle → Text
  | .before => [' ']
  | .after => []

/-- The passes before the last one as one rule. -/
def Rule.passes (commas : CommaStyle) : Rule :=
  single.after <| (marked ')' [] [' ']).after <| (marked '(' [] []).after <|
    (marked ',' (commaSide commas) [' ']).after <| padded.after <| trimmed.after single

theorem beforeCalls_eq_passes (commas : CommaStyle) (s : Text) :
    Spacing.beforeCalls commas s = respace (.passes commas) s := by
  have hcomma : ∀ t, Spacing.respellMark ',' (Spacing.comma commas) t
      = respace (.marked ',' (commaSide commas) [' ']) t := by
    intro t
    rw [← respellMark_eq rfl]
    cases commas <;> rfl
  have hopen : ∀ t, Spacing.respellMark '(' "(".toList t = respace (.marked '(' [] []) t :=
    respellMark_eq (show isBlank '(' = false from rfl) [] []
  have hclose : ∀ t, Spacing.respellMark ')' ") ".toList t = respace (.marked ')' [] [' ']) t :=
    respellMark_eq (show isBlank ')' = false from rfl) [] [' ']
  have b₁ := Rule.after_blank Rule.trimmed_blank Rule.single_blank
  have b₂ := Rule.after_blank Rule.padded_blank b₁
  have b₃ := Rule.after_blank (Rule.marked_blank ',' (commaSide commas) [' ']
    (by cases commas <;> rfl) rfl) b₂
  have b₄ := Rule.after_blank (Rule.marked_blank '(' [] [] rfl rfl) b₃
  have b₅ := Rule.after_blank (Rule.marked_blank ')' [] [' '] rfl rfl) b₄
  rw [Spacing.beforeCalls, collapse_eq s, trim_eq, respace_respace _ _ Rule.single_blank,
    padOperators_eq, respace_respace _ _ b₁, hcomma, respace_respace _ _ b₂, hopen,
    respace_respace _ _ b₃, hclose, respace_respace _ _ b₄, collapse_eq, respace_respace _ _ b₅]
  rfl

/-- The kinds of characters that the first stage tells apart. -/
theorem kinds (c : Char) : c = ')' ∨ c = '(' ∨ c = ',' ∨
    ((c ≠ ')' ∧ c ≠ '(' ∧ c ≠ ',') ∧ (isOperator c = true ∨ isOperator c = false)) := by
  by_cases h₁ : c = ')' <;> by_cases h₂ : c = '(' <;> by_cases h₃ : c = ',' <;>
    cases isOperator c <;> simp_all

theorem passes_eq_settled (commas : CommaStyle) : Rule.passes commas = .settled commas := by
  have close : isOperator ')' = false := rfl
  have opens : isOperator '(' = false := rfl
  have comma : isOperator ',' = false := rfl
  funext x g y
  simp only [Rule.passes, Rule.after, Rule.single, Rule.marked, Rule.padded, Rule.trimmed,
    Rule.settled]
  cases x with
  | none =>
      cases y with
      | none => simp [spaced]
      | some y =>
          rcases kinds y with rfl | rfl | rfl | ⟨hy, ho | ho⟩ <;> cases commas <;>
            simp_all [spaced, commaSide]
  | some x =>
      cases y with
      | none =>
          rcases kinds x with rfl | rfl | rfl | ⟨hx, ho | ho⟩ <;> cases commas <;>
            simp_all [spaced]
      | some y =>
          rcases kinds x with rfl | rfl | rfl | ⟨hx, ho | ho⟩ <;>
            rcases kinds y with rfl | rfl | rfl | ⟨hy, ho' | ho'⟩ <;> cases commas <;> cases g <;>
            simp_all [spaced, commaSide]

/-- Without its last pass the first stage is one rule for gaps. -/
theorem beforeCalls_eq (commas : CommaStyle) (s : Text) :
    Spacing.beforeCalls commas s = respace (.settled commas) s := by
  rw [beforeCalls_eq_passes, passes_eq_settled]

theorem Rule.settled_blank (commas : CommaStyle) : (Rule.settled commas).Blank := by
  intro x g y _
  unfold settled
  split <;> rfl

/-- The last pass changes nothing: parentheses already have no gap before them. -/
theorem closeCalls_beforeCalls (commas : CommaStyle) (s : Text) :
    Spacing.closeCalls (Spacing.beforeCalls commas s) = Spacing.beforeCalls commas s := by
  rw [beforeCalls_eq, closeCalls_eq, respace_respace _ _ (Rule.settled_blank commas)]
  refine respace_congr (fun x g y _ _ _ => ?_) s
  simp only [Rule.after, Rule.called]
  split
  · rename_i h
    simp only [Bool.and_eq_true, beq_iff_eq] at h
    obtain ⟨hx, rfl⟩ := h
    cases x with
    | none => cases commas <;> simp [Rule.settled, spaced, isOperator]
    | some x =>
        have hx' : x ≠ ')' := by
          rintro rfl
          exact absurd hx (by decide)
        simp [Rule.settled, spaced, hx']
  · rfl

/-- The first stage is one rule for gaps. -/
theorem normalize_eq (commas : CommaStyle) (s : Text) :
    Spacing.normalize commas s = respace (.settled commas) s := by
  rw [Spacing.normalize, closeCalls_beforeCalls, beforeCalls_eq]

end Gaps

end SqlLayout
