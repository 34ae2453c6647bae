import SqlLayout.Proofs.Edges
import SqlLayout.Proofs.JoinWords
import SqlLayout.Proofs.Respacing

/-! # Lines of spots

The third stage cuts spots before every heading and puts one space after it; blanks at the ends of
a clause are lost. The last stage writes the clauses under each other, which is one more way to fill
the gaps: with a line feed before every heading that does not come first.
-/

namespace SqlLayout

namespace Gaps

theorem Rule.trimmed_keepsWords : Rule.trimmed.KeepsWords where
  blank := Rule.trimmed_blank
  whole _ _ _ _ := rfl
  apart _ _ _ _ _ hg := hg

end Gaps

namespace Keyword

theorem headings_unlinked : Phrase.Unlinked headings := by decide

theorem headings_closed : Phrase.Closed headings := by decide

end Keyword

namespace Spot

open Phrase

/-! ## Blanks at the ends -/

/-- Spots with another first gap. -/
def led (g : Text) : List Spot → List Spot
  | [] => []
  | a :: as => ⟨g, a.piece⟩ :: as

@[simp] theorem led_nil (g : Text) : led g [] = [] := rfl

@[simp] theorem led_cons (g : Text) (a : Spot) (as : List Spot) :
    led g (a :: as) = ⟨g, a.piece⟩ :: as := rfl

theorem Sound.led {g : Text} (hg : g.isAllBlank = true) {as : List Spot} (h : Sound as) :
    Sound (led g as) := by
  cases as with
  | nil => exact .nil
  | cons a as =>
      refine .cons ⟨hg, h.head.2⟩ (fun b hb ha hb' => ?_) h.tail
      cases as with
      | nil => simp at hb
      | cons d as =>
          simp only [List.head?_cons, Option.mem_def, Option.some.injEq] at hb
          exact hb ▸ h.next ha (hb.symm ▸ hb')

theorem regap_trimmed {as : List Spot} (h : ∀ a ∈ as, a.Solid) :
    regap .trimmed none as = led [] as := by
  have hinner : ∀ (bs : List Spot) (x : Char), (∀ b ∈ bs, b.Solid) →
      regap .trimmed (some x) bs = bs := by
    intro bs
    induction bs with
    | nil => exact fun _ _ => rfl
    | cons b bs ih =>
        intro x hb
        have hne := text_ne_nil (hb b (by simp))
        simp only [regap, first, last, List.head?_eq_some_head hne,
          List.getLast?_eq_some_getLast hne, ih _ fun d hd => hb d (by simp [hd])]
        rfl
  cases as with
  | nil => rfl
  | cons a as =>
      have hne := text_ne_nil (h a (by simp))
      simp only [regap, last, List.getLast?_eq_some_getLast hne,
        hinner as _ fun d hd => h d (by simp [hd])]
      rfl

/-- The blanks around spots are all that trimming drops. -/
theorem trim_write {as : List Spot} (h : ∀ a ∈ as, a.Solid) {tail : Text}
    (ht : tail.isAllBlank = true) : (write as ++ tail).trim = write (led [] as) := by
  rw [Gaps.trim_eq, Gaps.respace, respaceFrom_write Gaps.Rule.trimmed_keepsWords none h ht,
    regap_trimmed h]
  simp [Gaps.Rule.trimmed]

theorem isAllBlank_write {as : List Spot} (h : ∀ a ∈ as, a.Solid) {tail : Text}
    (ht : tail.isAllBlank = true) : (write as ++ tail).isAllBlank = as.isEmpty := by
  cases as with
  | nil => simpa using ht
  | cons a as =>
      obtain ⟨c, hc⟩ := List.exists_mem_of_ne_nil _ (text_ne_nil (h a (by simp)))
      rw [List.isEmpty_cons, Bool.eq_false_iff]
      intro hb
      have hshow := isBlank_of_mem_text (h a (by simp)) hc
      rw [Text.isBlank_of_mem hb (by simp [text, hc])] at hshow
      exact absurd hshow (by simp)

/-! ## Cutting -/

/-- Spots cut before every heading: those before the first one, and the headings with what follows
    them. After a heading comes one space. -/
def cut : List Edges → List Spot → List Spot × List (List Spot)
  | e :: es, a :: as =>
    let rest := cut es as
    let next := if e.closes then led [' '] rest.1 else rest.1
    if e.opens then ([], (a :: next) :: rest.2) else (a :: next, rest.2)
  | _, _ => ([], [])

/-- Spots cut into lines. -/
def lines (es : List Edges) (as : List Spot) : List (List Spot) :=
  if (cut es as).1.isEmpty then (cut es as).2 else (cut es as).1 :: (cut es as).2

theorem sound_cut (es : List Edges) {as : List Spot} (h : Sound as) :
    Sound (cut es as).1 ∧ (∀ b ∈ (cut es as).1.head?, b ∈ as.head?) ∧
      ∀ l ∈ (cut es as).2, l ≠ [] ∧ Sound l := by
  induction as generalizing es with
  | nil => cases es <;> simp [cut, Sound.nil]
  | cons a as ih =>
      cases es with
      | nil => simp [cut, Sound.nil]
      | cons e es =>
          obtain ⟨hlead, hhead, hsections⟩ := ih es h.tail
          have hline : Sound (a :: if e.closes then led [' '] (cut es as).1 else (cut es as).1) := by
            split
            · refine .cons h.head (fun b hb _ _ => ?_) (hlead.led rfl)
              cases hc : (cut es as).1 with
              | nil => simp [hc] at hb
              | cons d ds =>
                  simp only [hc, led_cons, List.head?_cons, Option.mem_def, Option.some.injEq] at hb
                  simp [← hb]
            · refine .cons h.head (fun b hb => ?_) hlead
              have hb' := hhead b hb
              cases as with
              | nil => simp at hb'
              | cons d as =>
                  simp only [List.head?_cons, Option.mem_def, Option.some.injEq] at hb'
                  exact hb' ▸ h.next
          simp only [cut]
          split
          · refine ⟨.nil, by simp, fun l hl => ?_⟩
            rcases List.mem_cons.mp hl with rfl | hl
            · exact ⟨by simp, hline⟩
            · exact hsections l hl
          · exact ⟨hline, by simp, hsections⟩

theorem sound_of_mem_lines {es : List Edges} {as l : List Spot} (h : Sound as)
    (hl : l ∈ lines es as) : l ≠ [] ∧ Sound l := by
  obtain ⟨hlead, -, hsections⟩ := sound_cut es h
  unfold lines at hl
  split at hl
  · exact hsections l hl
  · rename_i hne
    rcases List.mem_cons.mp hl with rfl | hl
    · exact ⟨by simpa using hne, hlead⟩
    · exact hsections l hl

theorem clause_write (heading : Text) {as : List Spot} (h : ∀ a ∈ as, a.Solid) {tail : Text}
    (ht : tail.isAllBlank = true) :
    Section.clause ⟨heading, write as ++ tail⟩ = heading ++ write (led [' '] as) := by
  rw [Section.clause, isAllBlank_write h ht, trim_write h ht]
  cases as <;> simp [text]

theorem foldr_marks (g : Text) (o : Outline) :
    (marks g).foldr Outline.consPart o = ⟨g ++ o.lead, o.sections⟩ := by
  induction g with
  | nil => rfl
  | cons c g ih =>
      rw [show marks (c :: g) = .plain (.mark c) :: marks g from rfl, List.foldr_cons, ih]
      rfl

theorem outline_write {as : List Spot} (h : Sound as) {tail : Text} (ht : tail.isAllBlank = true) :
    ∃ tail', tail'.isAllBlank = true ∧
      (Outline.ofText (write as ++ tail)).lead
        = write (cut (edges Keyword.headings none as) as).1 ++ tail' ∧
      (Outline.ofText (write as ++ tail)).sections.map Section.clause
        = (cut (edges Keyword.headings none as) as).2.map fun l => write (led [] l) := by
  rw [Outline.ofText, parts_write _ h ht]
  have hs := scan Keyword.headings_unlinked as none (by simp [reach])
  revert hs
  generalize (none : Option Text) = before
  intro hs
  induction hs with
  | nil => exact ⟨tail, ht, by simp [parts_nil, foldr_marks, cut, edges]⟩
  | @step before a as free loose rest ih =>
      obtain ⟨tail', ht', hlead, hsections⟩ := ih h.tail
      have hsolid := (sound_cut (edges Keyword.headings a.word? as) h.tail).1.solid
      rw [edges, Edges.ofWords_loose free loose]
      obtain ⟨g, piece⟩ := a
      cases piece with
      | mark c =>
          refine ⟨tail', ht', ?_⟩
          rw [parts_mark, List.foldr_append, foldr_marks, List.foldr_cons, cut]
          simp [Outline.consPart, hlead, hsections, text, Piece.text]
      | word w =>
          rw [parts_word _ _ h loose, List.foldr_append, foldr_marks, List.foldr_cons, ofWord_eq]
          simp only [word?_word] at hlead hsections hsolid ⊢
          cases alone Keyword.headings (some w) with
          | true =>
              refine ⟨g, h.head.1, ?_⟩
              simp only [if_true, cut, Outline.consPart, hlead, List.map_cons, hsections,
                clause_write w hsolid ht', led_cons, write_cons]
              simp [text, Piece.text]
          | false =>
              refine ⟨tail', ht', ?_⟩
              simp [cut, Outline.consPart, hlead, hsections, text, Piece.text]
  | @pair before g w w' as bound rest ih =>
      obtain ⟨tail', ht', hlead, hsections⟩ := ih h.tail.tail
      have hsolid := (sound_cut (edges Keyword.headings (some w') as) h.tail.tail).1.solid
      have hreach : paired Keyword.headings (some w) (reach (some w') ⟨[' '], .word w'⟩) = true :=
        bound
      rw [edges, edges, parts_pair _ _ _ _ bound, List.foldr_append, foldr_marks, List.foldr_cons]
      simp only [ahead, word?_word, reach, if_true, Edges.ofWords_first Keyword.headings_unlinked bound,
        Edges.ofWords_second bound, cut]
      refine ⟨g, h.head.1, ?_⟩
      simp only [Outline.consPart, hlead, List.map_cons, hsections, clause_write _ hsolid ht',
        led_cons, write_cons]
      simp [text, Piece.text]

theorem clauses_write {as : List Spot} (h : Sound as) {tail : Text} (ht : tail.isAllBlank = true) :
    clauses (write as ++ tail)
      = (lines (edges Keyword.headings none as) as).map fun l => write (led [] l) := by
  obtain ⟨tail', ht', hlead, hsections⟩ := outline_write h ht
  have hsolid := (sound_cut (edges Keyword.headings none as) h).1.solid
  rw [clauses, Outline.clauses, hlead, hsections, isAllBlank_write hsolid ht', trim_write hsolid ht',
    lines]
  split <;> simp_all

/-! ## Writing lines -/

theorem map_respellOn_led (m : LetterCase) (g : Text) (as : List Spot) :
    (led g as).map (respellOn m) = led g (as.map (respellOn m)) := by
  cases as with
  | nil => rfl
  | cons a as =>
      obtain ⟨gap, piece⟩ := a
      cases piece with
      | mark c => rfl
      | word w =>
          simp only [led_cons, List.map_cons, respellOn]
          split <;> rfl

theorem line_led (m : LetterCase) (g : Text) (as : List Spot) :
    line m (led g as) = led g (line m as) := by
  have hany : (led g as).any mentions = as.any mentions := by cases as <;> rfl
  rw [line, line, hany]
  split
  · exact map_respellOn_led m g as
  · rfl

def stack (ls : List (List Spot)) : List Spot :=
  led [] (ls.flatMap (led ['\n']))

theorem joinWith_write {ls : List (List Spot)} (h : ∀ l ∈ ls, l ≠ []) :
    Text.joinWith ['\n'] (ls.map fun l => write (led [] l)) = write (stack ls) := by
  induction ls with
  | nil => rfl
  | cons l ls ih =>
      have ih := ih fun k hk => h k (by simp [hk])
      obtain ⟨a, as, rfl⟩ := List.exists_cons_of_ne_nil (h l (by simp))
      cases ls with
      | nil => simp [stack, Text.joinWith]
      | cons k ls =>
          obtain ⟨b, bs, rfl⟩ := List.exists_cons_of_ne_nil (h k (by simp))
          rw [List.map_cons, List.map_cons, Text.joinWith, ← List.map_cons (f := fun l => write (led [] l)), ih]
          simp [stack, text]

end Spot

end SqlLayout
