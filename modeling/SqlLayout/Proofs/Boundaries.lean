import SqlLayout.Clause
import SqlLayout.Proofs.Edges

/-! # Boundaries

A text can be cut at its boundaries in two rounds: at the major headings first, then, in the texts
between these, at the headings of join clauses. No word belongs to headings of both kinds, so one
round with all headings finds the same boundaries.
-/

namespace SqlLayout

open Phrase

/-- Whether a part is a phrase. -/
def Part.isPhrase : Part → Bool
  | phrase _ => true
  | plain _ => false

namespace Boundaries

/-- A section taken apart at join headings. -/
def ofSection (c : Section) : List Part :=
  .phrase c.heading :: parts Keyword.joinHeadings c.body

/-- An outline by major headings, taken apart at join headings. -/
def ofOutline (o : Outline) : List Part :=
  parts Keyword.joinHeadings o.lead ++ o.sections.flatMap ofSection

end Boundaries

/-- A text taken apart at its boundaries: where a major clause begins, and between these, where a join
    clause begins. -/
def bounded (s : Text) : List Part :=
  Boundaries.ofOutline ((parts Keyword.majorHeadings s).foldr Outline.consPart ⟨[], []⟩)

/-! ## One round is enough -/

namespace Keyword

/-- Join headings and major headings have no words in common. -/
theorem join_words_not_major :
    ∀ p ∈ joinHeadings, ∀ w ∈ p.words, ∀ q ∈ majorHeadings, w ∉ q.words := by
  decide

end Keyword

theorem Piece.Parted.of_prefix {ps qs : List Piece} (h : Piece.Parted qs) (hp : ps <+: qs) :
    Piece.Parted ps := by
  induction h generalizing ps with
  | nil =>
      rw [List.prefix_nil.mp hp]
      exact .nil
  | mark hc h ih =>
      cases ps with
      | nil => exact .nil
      | cons p ps =>
          obtain ⟨rfl, hrest⟩ := List.cons_prefix_cons.mp hp
          exact .mark hc (ih hrest)
  | word hne hw hps h ih =>
      cases ps with
      | nil => exact .nil
      | cons p ps =>
          obtain ⟨rfl, hrest⟩ := List.cons_prefix_cons.mp hp
          refine .word hne hw (fun l qs heq => ?_) (ih hrest)
          obtain ⟨rest, rfl⟩ := hrest
          exact hps l (qs ++ rest) (by simp [heq])

theorem pieces_spell {ps : List Piece} (h : Piece.Parted ps) : pieces (spell ps) = ps := by
  induction h with
  | nil => rfl
  | mark hc h ih =>
      rw [show spell (.mark _ :: _) = _ :: spell _ from rfl, pieces_cons_mark hc, ih]
  | @word w ps hne hw hps h ih =>
      have hhead : Gaps.holds isWord (spell ps).head? = false := by
        cases h with
        | nil => rfl
        | mark hc h => exact hc
        | word => exact absurd rfl (hps _ _)
      rw [show spell (.word w :: ps) = w ++ spell ps from rfl, pieces_append_word hne hw hhead, ih]

namespace Boundaries

theorem ofPieces_plain {v : List Phrase} {w : Text} (hw : ∀ q ∈ v, fold w ∉ q.words)
    (ps : List Piece) :
    Part.ofPieces v (.word w :: ps) = .plain (.word w) :: Part.ofPieces v ps := by
  have hone : ¬v.contains (.one (fold w)) = true := by
    intro h
    exact hw _ (List.contains_iff_mem.mp h) (by simp [words])
  rw [Spot.ofPieces_word, Part.ofWord, if_neg hone]
  rintro c l qs - ⟨-, h⟩
  exact hw _ (List.contains_iff_mem.mp h) (by simp [words])

/-- An outline of pieces by major headings has the boundaries that one round with all headings
    finds. -/
def Agrees (ps : List Piece) (o : Outline) : Prop :=
  ∃ lead, lead <+: ps ∧ o.lead = spell lead ∧
    Part.ofPieces Keyword.joinHeadings lead ++ o.sections.flatMap ofSection
      = Part.ofPieces Keyword.headings ps

section

variable {ps : List Piece} {o : Outline}

/-- The text before a major heading becomes the body of a section. -/
theorem Agrees.section (h : Agrees ps o) (hp : Piece.Parted ps) (spelled : Text) :
    ofSection ⟨spelled, o.lead⟩ ++ o.sections.flatMap ofSection
      = .phrase spelled :: Part.ofPieces Keyword.headings ps := by
  obtain ⟨lead, hlead, htext, hparts⟩ := h
  rw [ofSection, htext, parts, pieces_spell (hp.of_prefix hlead), List.cons_append, hparts]

theorem Agrees.mark (h : Agrees ps o) (c : Char) :
    Agrees (.mark c :: ps) (Outline.consPart (.plain (.mark c)) o) := by
  obtain ⟨lead, hlead, htext, hparts⟩ := h
  refine ⟨.mark c :: lead, by simpa using hlead, ?_, ?_⟩
  · rw [Outline.consPart, htext]
    rfl
  · simp only [Part.ofPieces, Outline.consPart, List.cons_append, hparts]

/-- A word with no heading of two words at it. -/
theorem Agrees.word (h : Agrees ps o) (hp : Piece.Parted ps) {w : Text}
    (hloose : ∀ c l qs, ps = .mark c :: .word l :: qs →
      ¬(c = ' ' ∧ Keyword.headings.contains (.two (fold w) (fold l)) = true)) :
    Agrees (.word w :: ps) (Outline.consPart (Part.ofWord Keyword.majorHeadings w) o) := by
  rw [Agrees, Spot.ofPieces_word hloose]
  by_cases hmajor : Phrase.one (fold w) ∈ Keyword.majorHeadings
  · have hall : Phrase.one (fold w) ∈ Keyword.headings := List.mem_append_left _ hmajor
    refine ⟨[], List.nil_prefix, ?_, ?_⟩
    · simp [Part.ofWord, hmajor, Outline.consPart, spell]
    · have hsection := h.section hp w
      simpa [Part.ofWord, hmajor, hall, Outline.consPart, Part.ofPieces] using hsection
  · obtain ⟨lead, hlead, htext, hparts⟩ := h
    have hword : Part.ofWord Keyword.headings w = Part.ofWord Keyword.joinHeadings w := by
      simp [Part.ofWord, Keyword.headings, hmajor]
    refine ⟨.word w :: lead, by simpa using hlead, ?_, ?_⟩
    · simp [Part.ofWord, hmajor, Outline.consPart, htext, spell, Piece.text]
    · rw [Spot.ofPieces_word]
      · rw [hword, ← hparts]
        simp [Part.ofWord, hmajor, Outline.consPart]
      · rintro c l qs rfl ⟨rfl, hc⟩
        obtain ⟨rest, rfl⟩ := hlead
        exact hloose ' ' l (qs ++ rest) rfl ⟨rfl, by
          rw [List.contains_iff_mem] at hc ⊢
          exact List.mem_append_right _ hc⟩

/-- A major heading of two words is found in the first round. -/
theorem Agrees.major (h : Agrees ps o) (hp : Piece.Parted ps) {a b : Text}
    (hmajor : Phrase.two (fold a) (fold b) ∈ Keyword.majorHeadings) :
    Agrees (.word a :: .mark ' ' :: .word b :: ps) (Outline.consPart (.phrase (a ++ ' ' :: b)) o) := by
  have hall : Part.ofPieces Keyword.headings (.word a :: .mark ' ' :: .word b :: ps)
      = .phrase (a ++ ' ' :: b) :: Part.ofPieces Keyword.headings ps :=
    if_pos ⟨rfl, List.contains_iff_mem.mpr (List.mem_append_left _ hmajor)⟩
  refine ⟨[], List.nil_prefix, by simp [Outline.consPart, spell], ?_⟩
  rw [hall, ← h.section hp]
  rfl

/-- A join heading of two words is left over from the first round. -/
theorem Agrees.join (h : Agrees ps o) {a b : Text}
    (hjoin : Phrase.two (fold a) (fold b) ∈ Keyword.joinHeadings) :
    Agrees (.word a :: .mark ' ' :: .word b :: ps)
      (Outline.consPart (.plain (.word a)) (Outline.consPart (.plain (.mark ' '))
        (Outline.consPart (.plain (.word b)) o))) := by
  obtain ⟨lead, hlead, htext, hparts⟩ := h
  have hall : Part.ofPieces Keyword.headings (.word a :: .mark ' ' :: .word b :: ps)
      = .phrase (a ++ ' ' :: b) :: Part.ofPieces Keyword.headings ps :=
    if_pos ⟨rfl, List.contains_iff_mem.mpr (List.mem_append_right _ hjoin)⟩
  have hbound : Part.ofPieces Keyword.joinHeadings (.word a :: .mark ' ' :: .word b :: lead)
      = .phrase (a ++ ' ' :: b) :: Part.ofPieces Keyword.joinHeadings lead :=
    if_pos ⟨rfl, List.contains_iff_mem.mpr hjoin⟩
  refine ⟨.word a :: .mark ' ' :: .word b :: lead, by simpa using hlead, ?_, ?_⟩
  · simp [Outline.consPart, htext, spell, Piece.text]
  · rw [hbound, hall, ← hparts]
    rfl

end

/-- Cutting in two rounds agrees with cutting in one. -/
theorem agrees_ofPieces {ps : List Piece} (h : Piece.Parted ps) :
    Agrees ps ((Part.ofPieces Keyword.majorHeadings ps).foldr Outline.consPart ⟨[], []⟩) := by
  -- the round with all headings leads, and the first of the two rounds follows it
  fun_induction Part.ofPieces Keyword.headings ps with
  | case1 => exact ⟨[], List.prefix_rfl, rfl, rfl⟩
  | case2 c ps ih =>
      cases h with
      | mark hc h => exact (ih h).mark c
  | case3 a c b ps found ih =>
      obtain ⟨rfl, hfound⟩ := found
      have hparted : Piece.Parted ps := by
        cases h with
        | word _ _ _ h =>
            cases h with
            | mark _ h =>
                cases h with
                | word _ _ _ h => exact h
      have ih := ih hparted
      rcases List.mem_append.mp (List.contains_iff_mem.mp hfound) with hmajor | hjoin
      · have hcut : Part.ofPieces Keyword.majorHeadings (.word a :: .mark ' ' :: .word b :: ps)
            = .phrase (a ++ ' ' :: b) :: Part.ofPieces Keyword.majorHeadings ps :=
          if_pos ⟨rfl, List.contains_iff_mem.mpr hmajor⟩
        rw [hcut]
        exact ih.major hparted hmajor
      · have hplain : ∀ w ∈ (Phrase.two (fold a) (fold b)).words, ∀ q ∈ Keyword.majorHeadings,
            w ∉ q.words := Keyword.join_words_not_major _ hjoin
        rw [ofPieces_plain (hplain _ (by simp [words])), Part.ofPieces,
          ofPieces_plain (hplain _ (by simp [words]))]
        exact ih.join hjoin
  | case4 a c b ps hloose ih =>
      cases h with
      | word _ _ _ h =>
          have hshape : ∀ d l qs, Piece.mark c :: .word b :: ps = .mark d :: .word l :: qs →
              ¬(d = ' ' ∧ Keyword.headings.contains (.two (fold a) (fold l)) = true) := by
            intro d l qs heq
            simp only [List.cons.injEq, Piece.mark.injEq, Piece.word.injEq] at heq
            obtain ⟨rfl, rfl, -⟩ := heq
            exact hloose
          rw [Spot.ofPieces_word (v := Keyword.majorHeadings), List.foldr_cons]
          · exact (ih h).word h hshape
          · rintro d l qs heq ⟨hd, hc⟩
            refine hshape d l qs heq ⟨hd, ?_⟩
            rw [List.contains_iff_mem] at hc ⊢
            exact List.mem_append_left _ hc
  | case5 a ps hshape ih =>
      cases h with
      | word _ _ _ h =>
          rw [Spot.ofPieces_word (v := Keyword.majorHeadings), List.foldr_cons]
          · exact (ih h).word h fun c l qs heq => absurd heq (hshape c l qs)
          · exact fun c l qs heq => absurd heq (hshape c l qs)

end Boundaries

/-- One round with all headings finds the same boundaries. -/
theorem bounded_eq (s : Text) : bounded s = parts Keyword.headings s := by
  have hparted := pieces_parted s
  obtain ⟨lead, hlead, htext, hparts⟩ := Boundaries.agrees_ofPieces hparted
  have hlead : parts Keyword.joinHeadings (spell lead) = Part.ofPieces Keyword.joinHeadings lead := by
    rw [parts, pieces_spell (hparted.of_prefix hlead)]
  rw [← htext] at hlead
  rw [← hlead] at hparts
  exact hparts

end SqlLayout
