import SqlLayout.Proofs.Spots

/-! # Gaps between spots

A rule for gaps that neither parts a word nor joins two acts on spots: the pieces stay, and each
gap is rewritten by the last character before it and the first one after it. The rule of the first
stage is one of these, and forgets what it did before.
-/

namespace SqlLayout

namespace Gaps

/-- The rule leaves words whole and apart. -/
structure Rule.KeepsWords (rule : Rule) : Prop where
  blank : rule.Blank
  whole : ∀ x y, isWord x = true → isWord y = true → rule (some x) [] (some y) = []
  apart : ∀ x g y, isWord x = true → isWord y = true → g ≠ [] → rule (some x) g (some y) ≠ []

/-- A character that is no comma, parenthesis or operator character. -/
def isPlain (c : Char) : Bool :=
  !(isOperator c || c == ',' || c == '(' || c == ')')

theorem isPlain_of_isWord {c : Char} (h : isWord c = true) : isPlain c = true := by
  have ho := isOperator_of_isWord h
  have hne : ∀ d ∈ [',', '(', ')'], c ≠ d := by
    rintro d hd rfl
    simp only [List.mem_cons, List.not_mem_nil, or_false] at hd
    rcases hd with rfl | rfl | rfl <;> exact absurd h (by decide)
  simp [isPlain, ho, hne]

theorem spaced_plain (commas : CommaStyle) {x y : Char} (hx : isPlain x = true)
    (hy : isPlain y = true) (gap : Bool) : spaced commas (some x) gap (some y) = gap := by
  simp only [isPlain, Bool.not_eq_true', Bool.or_eq_false_iff, beq_eq_false_iff_ne] at hx hy
  simp [spaced, hx, hy]

theorem settled_keepsWords (commas : CommaStyle) : (Rule.settled commas).KeepsWords where
  blank := Rule.settled_blank commas
  whole x y hx hy := by
    simp [Rule.settled, spaced_plain commas (isPlain_of_isWord hx) (isPlain_of_isWord hy)]
  apart x g y hx hy hg := by
    simp [Rule.settled, spaced_plain commas (isPlain_of_isWord hx) (isPlain_of_isWord hy), hg]

/-- Only a gap between two characters that the rule passes over is kept, and a second time too. -/
theorem settled_after_settled (commas commas' : CommaStyle) :
    (Rule.settled commas).after (Rule.settled commas') = .settled commas := by
  funext x g y
  cases x with
  | none => cases y <;> rfl
  | some x =>
      cases y with
      | none => rfl
      | some y =>
          rcases kinds x with rfl | rfl | rfl | ⟨hx, hx' | hx'⟩ <;>
            rcases kinds y with rfl | rfl | rfl | ⟨hy, hy' | hy'⟩ <;>
            cases g <;> simp_all [Rule.after, Rule.settled, spaced]

end Gaps

open Gaps

namespace Spot

/-- The first character of the piece. -/
def first (a : Spot) : Option Char :=
  a.piece.text.head?

/-- The last character of the piece. -/
def last (a : Spot) : Option Char :=
  a.piece.text.getLast?

/-- Rewrites the gaps of spots, given the character before them. -/
def regap (rule : Rule) : (x : Option Char) → List Spot → List Spot
  | _, [] => []
  | x, a :: as => ⟨rule x a.gap a.first, a.piece⟩ :: regap rule a.last as

/-- The last character of spots, or else the one before them. -/
def lastChar : (x : Option Char) → List Spot → Option Char
  | x, [] => x
  | _, a :: as => lastChar a.last as

theorem respaceFrom_word {rule : Rule} (hr : rule.KeepsWords) (x : Option Char) (g : Text)
    {w : Text} (hne : w ≠ []) (hw : ∀ c ∈ w, isWord c = true) (s : Text) :
    respaceFrom rule x g (w ++ s) = rule x g w.head? ++ w ++ respaceFrom rule w.getLast? [] s := by
  induction w generalizing x g with
  | nil => exact absurd rfl hne
  | cons c w ih =>
      have hc := hw c (by simp)
      simp only [List.cons_append, respaceFrom, isBlank_of_isWord hc, Bool.false_eq_true, if_false]
      cases w with
      | nil => simp
      | cons d w =>
          rw [ih (some c) [] (by simp) fun b hb => hw b (by simp [hb])]
          simp [hr.whole c d hc (hw d (by simp))]

/-- Rewriting the gaps of a text is rewriting those of its spots. -/
theorem respaceFrom_write {rule : Rule} (hr : rule.KeepsWords) (x : Option Char) {as : List Spot}
    (h : ∀ a ∈ as, a.Solid) {tail : Text} (ht : tail.isAllBlank = true) :
    respaceFrom rule x [] (write as ++ tail)
      = write (regap rule x as) ++ rule (lastChar x as) tail none := by
  induction as generalizing x with
  | nil =>
      have hb := respaceFrom_append rule x [] ht []
      simpa only [List.append_nil, List.nil_append, respaceFrom, write_nil, regap, lastChar] using hb
  | cons a as ih =>
      obtain ⟨hgap, hpiece⟩ := h a (by simp)
      have ih := fun x => ih x fun b hb => h b (by simp [hb])
      obtain ⟨gap, piece⟩ := a
      simp only [write_cons, text, List.append_assoc, respaceFrom_append rule x [] hgap,
        List.nil_append, regap, lastChar]
      cases piece with
      | word w =>
          simp only [Piece.text, respaceFrom_word hr x gap hpiece.1 hpiece.2, ih, first, last,
            List.append_assoc]
      | mark c =>
          simp only [Piece.text, List.cons_append, List.nil_append, respaceFrom, hpiece.2,
            Bool.false_eq_true, if_false, ih, first, last, List.head?_cons, List.getLast?_singleton]

theorem respace_write {rule : Rule} (hr : rule.KeepsWords) {as : List Spot} (h : Sound as)
    {tail : Text} (ht : tail.isAllBlank = true) :
    respace rule (write as ++ tail)
      = write (regap rule none as) ++ rule (lastChar none as) tail none :=
  respaceFrom_write hr none h.solid ht

theorem regap_regap (second first : Rule) (x : Option Char) (as : List Spot) :
    regap second x (regap first x as) = regap (second.after first) x as := by
  induction as generalizing x with
  | nil => rfl
  | cons a as ih => simp only [regap, Spot.first, last, Rule.after, ih]

@[simp] theorem map_piece_regap (rule : Rule) (x : Option Char) (as : List Spot) :
    (regap rule x as).map piece = as.map piece := by
  induction as generalizing x with
  | nil => rfl
  | cons a as ih => simp only [regap, List.map_cons, ih]

theorem text_ne_nil {a : Spot} (h : a.Solid) : a.piece.text ≠ [] := by
  obtain ⟨g, piece⟩ := a
  cases piece with
  | word w => exact h.2.1
  | mark c => simp [Piece.text]

theorem isBlank_of_mem_text {a : Spot} (h : a.Solid) {c : Char} (hc : c ∈ a.piece.text) :
    isBlank c = false := by
  obtain ⟨g, piece⟩ := a
  cases piece with
  | word w => exact isBlank_of_isWord (h.2.2 c hc)
  | mark d =>
      simp only [Piece.text, List.mem_singleton] at hc
      exact hc ▸ h.2.2

theorem isSome_of_isWord {a : Spot} (h : a.Solid) {c : Char} (hc : c ∈ a.piece.text)
    (hw : isWord c = true) : a.word?.isSome = true := by
  obtain ⟨gap, piece⟩ := a
  cases piece with
  | word w => rfl
  | mark d =>
      simp only [Piece.text, List.mem_singleton] at hc
      rw [hc, h.2.1] at hw
      exact absurd hw (by simp)

theorem isWord_first {a : Spot} (h : a.Solid) (hw : a.word?.isSome = true) :
    ∃ c, a.first = some c ∧ isWord c = true := by
  obtain ⟨gap, piece⟩ := a
  cases piece with
  | mark c => simp at hw
  | word w =>
      obtain ⟨-, hne, hall⟩ := h
      exact ⟨w.head hne, List.head?_eq_some_head hne, hall _ (List.head_mem hne)⟩

theorem isWord_last {a : Spot} (h : a.Solid) (hw : a.word?.isSome = true) :
    ∃ c, a.last = some c ∧ isWord c = true := by
  obtain ⟨gap, piece⟩ := a
  cases piece with
  | mark c => simp at hw
  | word w =>
      obtain ⟨-, hne, hall⟩ := h
      exact ⟨w.getLast hne, List.getLast?_eq_some_getLast hne, hall _ (List.getLast_mem hne)⟩

theorem Sound.regap {rule : Rule} (hr : rule.KeepsWords) (x : Option Char) {as : List Spot}
    (h : Sound as) : Sound (regap rule x as) := by
  induction as generalizing x with
  | nil => exact .nil
  | cons a as ih =>
      refine .cons ⟨hr.blank x a.gap a.first h.head.1, h.head.2⟩ ?_ (ih a.last h.tail)
      cases as with
      | nil => simp [Spot.regap]
      | cons b as =>
          intro b' hb' hwa hwb
          simp only [Spot.regap, List.head?_cons, Option.mem_def, Option.some.injEq] at hb'
          subst hb'
          obtain ⟨x, hx, hxw⟩ := isWord_last h.head hwa
          obtain ⟨y, hy, hyw⟩ := isWord_first h.tail.head hwb
          rw [hx, hy]
          exact hr.apart x b.gap y hxw hyw (h.next hwa hwb)

/-- Spots with the gaps of the first stage. -/
def settle (commas : CommaStyle) (as : List Spot) : List Spot :=
  regap (.settled commas) none as

theorem settle_settle (commas commas' : CommaStyle) (as : List Spot) :
    settle commas (settle commas' as) = settle commas as := by
  rw [settle, settle, regap_regap, settled_after_settled, settle]

theorem Sound.settle (commas : CommaStyle) {as : List Spot} (h : Sound as) :
    Sound (settle commas as) :=
  h.regap (settled_keepsWords commas) none

/-- The first stage settles the gaps of spots. -/
theorem normalize_write (commas : CommaStyle) {as : List Spot} (h : Sound as) {tail : Text}
    (ht : tail.isAllBlank = true) : ∃ tail', tail'.isAllBlank = true ∧
      Spacing.normalize commas (write as ++ tail) = write (settle commas as) ++ tail' := by
  rw [normalize_eq, respace_write (settled_keepsWords commas) h ht]
  exact ⟨_, Rule.settled_blank commas _ _ _ ht, rfl⟩

end Spot

end SqlLayout
