import SqlLayout.Piece
import SqlLayout.Proofs.Settling
import Mathlib.Data.List.Chain

/-! # Spots

A text is a sequence of spots, each a piece that shows with the gap before it, and some blanks at
its end. Two words are never without a blank between them. Passes over gaps act on spots one by
one, given the characters next to them.
-/

namespace SqlLayout

/-! ## Pieces of texts -/

namespace Piece

/-- A word has letters, and nothing but word characters; a mark shows and belongs to no word. -/
def Solid : Piece → Prop
  | word letters => letters ≠ [] ∧ ∀ c ∈ letters, isWord c = true
  | mark c => isWord c = false ∧ isBlank c = false

end Piece

theorem isWord_of_isBlank {c : Char} (hc : isBlank c = true) : isWord c = false := by
  rw [Bool.eq_false_iff]
  intro h
  simp [isBlank_of_isWord h] at hc

theorem pieces_cons_mark {c : Char} (hc : isWord c = false) (s : Text) :
    pieces (c :: s) = .mark c :: pieces s := by
  simp [pieces, Piece.consChar, hc]

theorem pieces_append_marks {g : Text} (hg : ∀ c ∈ g, isWord c = false) (s : Text) :
    pieces (g ++ s) = g.map .mark ++ pieces s := by
  induction g with
  | nil => rfl
  | cons c g ih =>
      rw [List.cons_append, pieces_cons_mark (hg c (by simp)), ih fun b hb => hg b (by simp [hb])]
      rfl

/-- A word ends where the next character belongs to no word. -/
theorem pieces_append_word {w s : Text} (hne : w ≠ []) (hw : ∀ c ∈ w, isWord c = true)
    (hs : Gaps.holds isWord s.head? = false) : pieces (w ++ s) = .word w :: pieces s := by
  have hstart : ∀ l ps, pieces s ≠ .word l :: ps := by
    intro l ps h
    cases s with
    | nil => simp [pieces] at h
    | cons c s =>
        rw [pieces_cons_mark (by simpa using hs)] at h
        simp at h
  induction w with
  | nil => exact absurd rfl hne
  | cons c w ih =>
      have hc := hw c (by simp)
      show Piece.consChar c (pieces (w ++ s)) = _
      cases w with
      | nil => simp only [List.nil_append, Piece.consChar, hc, if_true]
      | cons d w =>
          rw [ih (by simp) fun b hb => hw b (by simp [hb])]
          simp [Piece.consChar, hc]

/-- A piece that shows and the gap before it. -/
structure Spot where
  /-- The blanks before the piece. -/
  gap : Text
  piece : Piece
  deriving DecidableEq

namespace Spot

def word? (a : Spot) : Option Text :=
  match a.piece with
  | .word w => some w
  | .mark _ => none

@[simp] theorem word?_word (g w : Text) : word? ⟨g, .word w⟩ = some w := rfl

@[simp] theorem word?_mark (g : Text) (c : Char) : word? ⟨g, .mark c⟩ = none := rfl

def text (a : Spot) : Text :=
  a.gap ++ a.piece.text

def write (as : List Spot) : Text :=
  as.flatMap text

@[simp] theorem write_nil : write [] = [] := rfl

@[simp] theorem write_cons (a : Spot) (as : List Spot) : write (a :: as) = a.text ++ write as := rfl

@[simp] theorem write_append (as bs : List Spot) : write (as ++ bs) = write as ++ write bs :=
  List.flatMap_append

/-- The gap is blank and the piece is solid. -/
def Solid (a : Spot) : Prop :=
  a.gap.isAllBlank = true ∧ a.piece.Solid

/-- Two words have a gap between them. -/
def Apart (a b : Spot) : Prop :=
  a.word?.isSome = true → b.word?.isSome = true → b.gap ≠ []

/-- The spots of a text: none of them can be taken further apart, and no two are one piece. -/
structure Sound (as : List Spot) : Prop where
  solid : ∀ a ∈ as, a.Solid
  apart : as.IsChain Apart

namespace Sound

theorem nil : Sound [] :=
  ⟨by simp, .nil⟩

theorem tail {a : Spot} {as : List Spot} (h : Sound (a :: as)) : Sound as :=
  ⟨fun b hb => h.solid b (List.mem_cons_of_mem a hb), h.apart.tail⟩

theorem head {a : Spot} {as : List Spot} (h : Sound (a :: as)) : a.Solid :=
  h.solid a List.mem_cons_self

theorem cons {a : Spot} {as : List Spot} (ha : a.Solid) (hb : ∀ b ∈ as.head?, Apart a b)
    (h : Sound as) : Sound (a :: as) :=
  ⟨List.forall_mem_cons.mpr ⟨ha, h.solid⟩, List.isChain_cons.mpr ⟨hb, h.apart⟩⟩

theorem next {a b : Spot} {as : List Spot} (h : Sound (a :: b :: as)) : Apart a b :=
  (List.isChain_cons_cons.mp h.apart).1

end Sound

/-- The pieces of a spot, those of the gap among them. -/
def pieces (a : Spot) : List Piece :=
  a.gap.map .mark ++ [a.piece]

/-- After a word comes no word character. -/
theorem holds_head_write {a : Spot} {as : List Spot} (h : Sound (a :: as))
    (ha : a.word?.isSome = true) {tail : Text} (ht : tail.isAllBlank = true) :
    Gaps.holds isWord (write as ++ tail).head? = false := by
  cases as with
  | nil =>
      cases tail with
      | nil => rfl
      | cons c tail =>
          simp only [Text.isAllBlank_cons, Bool.and_eq_true] at ht
          exact isWord_of_isBlank ht.1
  | cons b as =>
      obtain ⟨hgap, hpiece⟩ := h.tail.head
      obtain ⟨gap, piece⟩ := b
      cases gap with
      | cons c gap =>
          simp only [Text.isAllBlank_cons, Bool.and_eq_true] at hgap
          exact isWord_of_isBlank hgap.1
      | nil =>
          cases piece with
          | word w => exact absurd rfl (h.next ha rfl)
          | mark c => exact hpiece.1

/-- The pieces of a text are those of its spots. -/
theorem pieces_write {as : List Spot} (h : Sound as) {tail : Text} (ht : tail.isAllBlank = true) :
    SqlLayout.pieces (write as ++ tail) = as.flatMap pieces ++ tail.map .mark := by
  have hmarks : ∀ {g : Text}, g.isAllBlank = true → ∀ c ∈ g, isWord c = false :=
    fun hg c hc => isWord_of_isBlank (Text.isBlank_of_mem hg hc)
  induction as with
  | nil =>
      have hp := pieces_append_marks (hmarks ht) []
      rw [List.append_nil] at hp
      simpa [show SqlLayout.pieces [] = [] from rfl] using hp
  | cons a as ih =>
      have hnext := fun ha => holds_head_write h ha ht
      obtain ⟨hgap, hpiece⟩ := h.head
      obtain ⟨gap, piece⟩ := a
      simp only [write_cons, text, List.append_assoc, pieces_append_marks (hmarks hgap)]
      cases piece with
      | word w =>
          simp only [Piece.text, pieces_append_word hpiece.1 hpiece.2 (hnext rfl), ih h.tail, pieces,
            List.flatMap_cons, List.append_assoc, List.cons_append, List.nil_append]
      | mark c =>
          simp only [Piece.text, List.cons_append, List.nil_append, pieces_cons_mark hpiece.1,
            ih h.tail, pieces, List.flatMap_cons, List.append_assoc]

/-! ## Every text is spots and blanks -/

/-- Puts a piece in front of spots and the blanks after them: a blank goes to the first gap. -/
def consPiece : Piece → List Spot × Text → List Spot × Text
  | .word w, r => (⟨[], .word w⟩ :: r.1, r.2)
  | .mark c, r =>
    if isBlank c then
      match r.1 with
      | [] => ([], c :: r.2)
      | a :: as => (⟨c :: a.gap, a.piece⟩ :: as, r.2)
    else (⟨[], .mark c⟩ :: r.1, r.2)

/-- The spots of a text, and the blanks at its end. -/
def read (s : Text) : List Spot × Text :=
  (SqlLayout.pieces s).foldr consPiece ([], [])

theorem write_consPiece (p : Piece) (r : List Spot × Text) :
    write (consPiece p r).1 ++ (consPiece p r).2 = p.text ++ (write r.1 ++ r.2) := by
  obtain ⟨as, tail⟩ := r
  cases p with
  | word w => simp [consPiece, text, Piece.text]
  | mark c =>
      cases hc : isBlank c <;> cases as <;> simp [consPiece, hc, text, Piece.text]

/-- The spots and the blanks spell the text. -/
theorem write_read (s : Text) : write (read s).1 ++ (read s).2 = s := by
  have h : ∀ ps : List Piece,
      write (ps.foldr consPiece ([], [])).1 ++ (ps.foldr consPiece ([], [])).2 = spell ps := by
    intro ps
    induction ps with
    | nil => rfl
    | cons p ps ih =>
        rw [List.foldr_cons, write_consPiece, ih]
        rfl
  rw [read, h, spell_pieces]

end Spot

/-- Pieces as they come from a text: a word has letters and no word right after it. -/
inductive Piece.Parted : List Piece → Prop where
  | nil : Parted []
  | mark {c : Char} {ps : List Piece} (hc : isWord c = false) (h : Parted ps) :
      Parted (.mark c :: ps)
  | word {w : Text} {ps : List Piece} (hne : w ≠ []) (hw : ∀ c ∈ w, isWord c = true)
      (hps : ∀ l qs, ps ≠ .word l :: qs) (h : Parted ps) : Parted (.word w :: ps)

theorem pieces_parted (s : Text) : Piece.Parted (pieces s) := by
  induction s with
  | nil => exact .nil
  | cons c s ih =>
      show Piece.Parted (Piece.consChar c (pieces s))
      cases hc : isWord c with
      | false =>
          simp only [Piece.consChar, hc, Bool.false_eq_true, if_false]
          exact .mark hc ih
      | true =>
          generalize pieces s = ps at ih
          have hone : ∀ d ∈ [c], isWord d = true := by simpa using hc
          simp only [Piece.consChar, hc, if_true]
          cases ih with
          | nil => exact .word (by simp) hone (by simp) .nil
          | mark hd h => exact .word (by simp) hone (by simp) (.mark hd h)
          | word hne hw hps h =>
              refine .word (by simp) (fun d hd => ?_) hps h
              rcases List.mem_cons.mp hd with rfl | hd
              · exact hc
              · exact hw d hd

namespace Spot

theorem sound_read (s : Text) : Sound (read s).1 ∧ (read s).2.isAllBlank = true := by
  unfold read
  -- the first gap is empty unless the first piece is a blank
  have h : ∀ {ps}, Piece.Parted ps → Sound (ps.foldr consPiece ([], [])).1 ∧
      (ps.foldr consPiece ([], [])).2.isAllBlank = true ∧
      ((∀ l qs, ps ≠ .word l :: qs) → ∀ b ∈ (ps.foldr consPiece ([], [])).1.head?,
        b.word?.isSome = true → b.gap ≠ []) := by
    intro ps hps
    induction hps with
    | nil => exact ⟨.nil, rfl, by simp⟩
    | @mark c ps hc hps ih =>
        obtain ⟨hs, hb, -⟩ := ih
        rw [List.foldr_cons]
        generalize ps.foldr consPiece ([], []) = r at hs hb
        obtain ⟨as, tail⟩ := r
        cases hcb : isBlank c with
        | false =>
            simp only [consPiece, hcb, Bool.false_eq_true, if_false]
            refine ⟨.cons ⟨rfl, hc, hcb⟩ (by simp [Apart]) hs, hb, by simp⟩
        | true =>
            cases as with
            | nil => simp [consPiece, hcb, Sound.nil, hb]
            | cons a as =>
                simp only [consPiece, hcb, if_true]
                refine ⟨.cons ⟨by simp [hcb, hs.head.1], hs.head.2⟩ (fun b hb' ha hb'' => ?_) hs.tail, hb,
                  by simp⟩
                cases as with
                | nil => simp at hb'
                | cons d as =>
                    simp only [List.head?_cons, Option.mem_def, Option.some.injEq] at hb'
                    subst hb'
                    exact hs.next ha hb''
    | @word w ps hne hw hnext hps ih =>
        obtain ⟨hs, hb, hgap⟩ := ih
        rw [List.foldr_cons]
        generalize ps.foldr consPiece ([], []) = r at hs hb hgap
        simp only [consPiece]
        refine ⟨.cons ⟨rfl, hne, hw⟩ (fun b hb' _ hb'' => hgap hnext b hb' hb'') hs, hb, ?_⟩
        intro h
        exact absurd rfl (h w ps)
  obtain ⟨hs, hb, -⟩ := h (pieces_parted s)
  exact ⟨hs, hb⟩

end Spot

end SqlLayout
