import SqlLayout.Layout
import SqlLayout.Proofs.Settling
import SqlLayout.Text.Basic

/-! # Line ends

How the lines of a text end makes no difference to its layout: runs of blanks are written as one space
before anything else is done.
-/

namespace SqlLayout

open Gaps

/-- A blank in front of another blank makes no difference. -/
theorem collapse_cons_cons {b b' : Char} (hb : isBlank b = true) (hb' : isBlank b' = true) (s : Text) :
    Spacing.collapse (b :: b' :: s) = Spacing.collapse (b' :: s) := by
  rw [collapse_cons_blank hb, collapse_cons_blank hb']
  by_cases h : (Spacing.collapse s).head? = some ' ' <;> simp [h]

theorem collapse_cons_congr (c : Char) {s t : Text} (h : Spacing.collapse s = Spacing.collapse t) :
    Spacing.collapse (c :: s) = Spacing.collapse (c :: t) := by
  unfold Spacing.collapse at h ⊢
  rw [List.foldr_cons, List.foldr_cons, h]

/-- All blanks collapse alike. -/
theorem collapse_cons_of_blank {b b' : Char} (hb : isBlank b = true) (hb' : isBlank b' = true) (s : Text) :
    Spacing.collapse (b :: s) = Spacing.collapse (b' :: s) := by
  rw [collapse_cons_blank hb, collapse_cons_blank hb']

/-- A text collapses as it does with line feeds at the ends of its lines, also after a carriage return. -/
theorem collapse_unifyLineEndsFrom (s : Text) :
    Spacing.collapse (Text.unifyLineEndsFrom false s) = Spacing.collapse s ∧
      Spacing.collapse ('\n' :: Text.unifyLineEndsFrom true s) = Spacing.collapse ('\n' :: s) := by
  have hfeed : isBlank '\n' = true := by decide
  have hreturn : isBlank '\r' = true := by decide
  induction s with
  | nil => exact ⟨rfl, rfl⟩
  | cons c s ih =>
      obtain ⟨ih, ihReturn⟩ := ih
      simp only [Text.unifyLineEndsFrom, Bool.false_eq_true, and_false, and_true, if_false]
      by_cases hc : c = '\r'
      · subst hc
        have hahead : Spacing.collapse ('\n' :: Text.unifyLineEndsFrom true s)
            = Spacing.collapse ('\r' :: s) :=
          ihReturn.trans (collapse_cons_of_blank hfeed hreturn s)
        simp only [if_true, show ('\r' = '\n') = False by decide, if_false]
        rw [collapse_cons_cons hfeed hfeed,
          collapse_cons_cons hfeed hreturn]
        exact ⟨hahead, hahead⟩
      · simp only [hc, if_false]
        refine ⟨collapse_cons_congr c ih, ?_⟩
        split
        · rename_i hc
          subst hc
          rw [collapse_cons_cons hfeed hfeed, collapse_cons_congr '\n' ih]
        · exact collapse_cons_congr '\n' (collapse_cons_congr c ih)

theorem normalize_unifyLineEnds (commas : CommaStyle) (s : Text) :
    Spacing.normalize commas (Text.unifyLineEnds s) = Spacing.normalize commas s := by
  simp only [Spacing.normalize, Spacing.beforeCalls, Text.unifyLineEnds, (collapse_unifyLineEndsFrom s).1]

/-- A text is laid out as it is with line feeds at the ends of its lines. -/
theorem format_unifyLineEnds (o : Options) (s : Text) : format o (Text.unifyLineEnds s) = format o s := by
  simp only [format, layOut, stages, normalize_unifyLineEnds]

end SqlLayout
