import SqlLayout.Spacing
import Mathlib.Data.List.TakeWhile

/-! # Gaps

A gap is a run of blanks, maybe an empty one: between two characters that show, before the first
of them, or after the last. Each pass of the first stage leaves the characters that show and
rewrites every gap by what stands on either side of it. Passes in a row are one such pass, so the
whole stage is a single rule for gaps.
-/

namespace SqlLayout

namespace Text

@[simp] theorem isAllBlank_nil : isAllBlank [] = true := rfl

@[simp] theorem isAllBlank_cons (c : Char) (s : Text) :
    isAllBlank (c :: s) = (isBlank c && isAllBlank s) := rfl

@[simp] theorem isAllBlank_append (s t : Text) :
    isAllBlank (s ++ t) = (isAllBlank s && isAllBlank t) := by
  simp [isAllBlank]

theorem isBlank_of_mem {s : Text} (h : s.isAllBlank = true) {c : Char} (hc : c ∈ s) :
    isBlank c = true :=
  List.all_eq_true.mp h c hc

/-- Blanks before a character that shows are all that is dropped. -/
theorem dropWhile_isBlank_append {g : Text} (hg : g.isAllBlank = true) (s : Text) :
    (g ++ s).dropWhile isBlank = s.dropWhile isBlank :=
  List.dropWhile_append_of_pos fun _ hc => isBlank_of_mem hg hc

theorem dropWhile_isBlank_cons {c : Char} (hc : isBlank c = false) (s : Text) :
    (c :: s).dropWhile isBlank = c :: s :=
  List.dropWhile_cons_of_neg (by simp [hc])

theorem trimRight_blank {g : Text} (hg : g.isAllBlank = true) : trimRight g = [] := by
  have hr : g.reverse.dropWhile isBlank = [] :=
    List.dropWhile_eq_nil_iff.mpr fun c hc => isBlank_of_mem hg (List.mem_reverse.mp hc)
  simp [trimRight, hr]

theorem trimRight_cons {c : Char} (hc : isBlank c = false) (s : Text) :
    trimRight (c :: s) = c :: trimRight s := by
  have hd : (s.reverse ++ [c]).dropWhile isBlank = s.reverse.dropWhile isBlank ++ [c] := by
    rw [List.dropWhile_append]
    split
    · rename_i h
      simp [List.isEmpty_iff.mp h, List.dropWhile, hc]
    · rfl
  simp [trimRight, hd]

theorem trimRight_append_cons {c : Char} (hc : isBlank c = false) (g s : Text) :
    trimRight (g ++ c :: s) = g ++ c :: trimRight s := by
  have hd : (s.reverse ++ [c] ++ g.reverse).dropWhile isBlank
      = (s.reverse ++ [c]).dropWhile isBlank ++ g.reverse := by
    rw [List.dropWhile_append]
    split
    · rename_i h
      have hc' := List.dropWhile_eq_nil_iff.mp (List.isEmpty_iff.mp h) c (by simp)
      simp [hc] at hc'
    · rfl
  have h := trimRight_cons hc s
  simp only [trimRight, List.reverse_append, List.reverse_cons] at h hd ⊢
  rw [hd, List.reverse_append, List.reverse_reverse, h]

theorem trim_append {g : Text} (hg : g.isAllBlank = true) (s : Text) : trim (g ++ s) = trim s := by
  simp [trim, trimLeft, dropWhile_isBlank_append hg]

end Text

namespace Gaps

/-- A rule that rewrites a gap, given the characters before and after it; there are none at the
    ends of a text. -/
abbrev Rule := Option Char → Text → Option Char → Text

namespace Rule

/-- Blanks are rewritten to blanks. -/
def Blank (rule : Rule) : Prop :=
  ∀ x g y, g.isAllBlank = true → (rule x g y).isAllBlank = true

def after (second first : Rule) : Rule :=
  fun x g y => second x (first x g y) y

end Rule

/-- A character that shows, if there is one. -/
def Shows (x : Option Char) : Prop :=
  ∀ c ∈ x, isBlank c = false

/-- Rewrites the gaps of a text, given the last character that showed and the blanks since then. -/
def respaceFrom (rule : Rule) : (x : Option Char) → (g : Text) → Text → Text
  | x, g, [] => rule x g none
  | x, g, c :: s =>
    if isBlank c then respaceFrom rule x (g ++ [c]) s
    else rule x g (some c) ++ c :: respaceFrom rule (some c) [] s

/-- Rewrites the gaps of a text. -/
def respace (rule : Rule) (s : Text) : Text :=
  respaceFrom rule none [] s

theorem respaceFrom_append (rule : Rule) (x : Option Char) (g : Text) {b : Text}
    (hb : b.isAllBlank = true) (s : Text) :
    respaceFrom rule x g (b ++ s) = respaceFrom rule x (g ++ b) s := by
  induction b generalizing g with
  | nil => simp
  | cons c b ih =>
      simp only [Text.isAllBlank_cons, Bool.and_eq_true] at hb
      simp only [List.cons_append, respaceFrom, hb.1, if_true, ih _ hb.2, List.append_assoc,
        List.nil_append]

/-- Rewriting the gaps twice is rewriting them once. -/
theorem respaceFrom_respaceFrom (second first : Rule) (hf : first.Blank) (x : Option Char)
    {g : Text} (hg : g.isAllBlank = true) (s : Text) :
    respaceFrom second x [] (respaceFrom first x g s) = respaceFrom (second.after first) x g s := by
  induction s generalizing x g with
  | nil =>
      have h := respaceFrom_append second x [] (hf x g none hg) []
      simpa only [respaceFrom, Rule.after, List.append_nil, List.nil_append] using h
  | cons c s ih =>
      cases hc : isBlank c with
      | true =>
          simp only [respaceFrom, hc, if_true]
          exact ih x (by simp [hg, hc])
      | false =>
          simp only [respaceFrom, hc, Bool.false_eq_true, if_false]
          rw [respaceFrom_append second x [] (hf x g (some c) hg)]
          simp only [respaceFrom, hc, Bool.false_eq_true, if_false, List.nil_append, Rule.after,
            ih (some c) (g := []) rfl]

theorem respace_respace (second first : Rule) (hf : first.Blank) (s : Text) :
    respace second (respace first s) = respace (second.after first) s :=
  respaceFrom_respaceFrom second first hf none rfl s

/-- Only what a rule does to gaps between characters that show counts. -/
theorem respace_congr {rule rule' : Rule}
    (h : ∀ x g y, Shows x → Shows y → g.isAllBlank = true → rule x g y = rule' x g y) (s : Text) :
    respace rule s = respace rule' s := by
  have hfrom : ∀ x g, Shows x → g.isAllBlank = true →
      respaceFrom rule x g s = respaceFrom rule' x g s := by
    induction s with
    | nil => exact fun x g hx hg => h x g none hx (by simp [Shows]) hg
    | cons c s ih =>
        intro x g hx hg
        cases hc : isBlank c with
        | true =>
            simp only [respaceFrom, hc, if_true]
            exact ih x _ hx (by simp [hg, hc])
        | false =>
            have hy : Shows (some c) := by simpa [Shows] using hc
            simp only [respaceFrom, hc, Bool.false_eq_true, if_false, h x g (some c) hx hy hg,
              ih (some c) [] hy rfl]
  exact hfrom none [] (by simp [Shows]) rfl

/-- A pass, given the last character that showed, rewrites gaps by a rule if it does so with the
    blanks at the end and with the first gap of what is left. -/
theorem eq_respace {rule : Rule} (pass : Option Char → Text → Text)
    (last : ∀ x g, g.isAllBlank = true → pass x g = rule x g none)
    (step : ∀ x g c s, g.isAllBlank = true → isBlank c = false →
      pass x (g ++ c :: s) = rule x g (some c) ++ c :: pass (some c) s) (s : Text) :
    pass none s = respace rule s := by
  have hfrom : ∀ x g, g.isAllBlank = true → pass x (g ++ s) = respaceFrom rule x g s := by
    induction s with
    | nil =>
        intro x g hg
        simpa only [List.append_nil, respaceFrom] using last x g hg
    | cons c s ih =>
        intro x g hg
        cases hc : isBlank c with
        | true =>
            have h := ih x (g ++ [c]) (by simp [hg, hc])
            simpa only [respaceFrom, hc, if_true, List.append_assoc, List.cons_append,
              List.nil_append] using h
        | false =>
            simp only [respaceFrom, hc, Bool.false_eq_true, if_false, step x g c s hg hc]
            rw [← ih (some c) [] rfl, List.nil_append]
  exact hfrom none [] rfl

end Gaps

end SqlLayout
