import SqlLayout.Piece
import SqlLayout.Text.Case

/-! # Phrases

A phrase is one keyword or two with exactly one space between them, in any letter case. A text is
read from left to right; where two words and the first of them alone are both phrases, the two are
taken.
-/

namespace SqlLayout

/-- One or two keywords, in capitals. -/
inductive Phrase where
  | one (word : Text)
  | two (first second : Text)
  deriving DecidableEq

namespace Phrase

/-- The phrase with one space between its words. -/
def text : Phrase → Text
  | one word => word
  | two first second => first ++ ' ' :: second

end Phrase

/-- A stretch of a text. -/
inductive Part where
  /-- A phrase, as it is spelled in the text. -/
  | phrase (spelled : Text)
  /-- A piece outside of all phrases. -/
  | plain (piece : Piece)
  deriving DecidableEq

namespace Part

def text : Part → Text
  | phrase spelled => spelled
  | plain piece => piece.text

/-- A word as a part: a phrase if the vocabulary has it. -/
def ofWord (vocabulary : List Phrase) (word : Text) : Part :=
  if vocabulary.contains (.one (fold word)) then phrase word else plain (.word word)

/-- Finds the phrases of a vocabulary. -/
def ofPieces (vocabulary : List Phrase) : List Piece → List Part
  | [] => []
  | .mark c :: ps => plain (.mark c) :: ofPieces vocabulary ps
  | .word a :: .mark c :: .word b :: ps =>
    if c = ' ' ∧ vocabulary.contains (.two (fold a) (fold b)) = true then
      phrase (a ++ ' ' :: b) :: ofPieces vocabulary ps
    else ofWord vocabulary a :: ofPieces vocabulary (.mark c :: .word b :: ps)
  | .word a :: ps => ofWord vocabulary a :: ofPieces vocabulary ps

end Part

/-- The parts of a text for a vocabulary. -/
def parts (vocabulary : List Phrase) (s : Text) : List Part :=
  Part.ofPieces vocabulary (pieces s)

theorem Part.text_ofWord (vocabulary : List Phrase) (word : Text) :
    (Part.ofWord vocabulary word).text = word := by
  unfold Part.ofWord
  split <;> rfl

theorem Part.text_ofPieces (vocabulary : List Phrase) (ps : List Piece) :
    (Part.ofPieces vocabulary ps).flatMap Part.text = spell ps := by
  fun_induction Part.ofPieces vocabulary ps with
  | case1 => rfl
  | case2 c ps ih => simp [ih, spell, Part.text, Piece.text]
  | case3 a c b ps found ih => simp [ih, spell, Part.text, Piece.text, found.1]
  | case4 a c b ps _ ih => simp [ih, spell, Part.text_ofWord, Piece.text]
  | case5 a ps _ ih => simp [ih, spell, Part.text_ofWord, Piece.text]

/-- Finding phrases loses nothing. -/
theorem text_parts (vocabulary : List Phrase) (s : Text) :
    (parts vocabulary s).flatMap Part.text = s :=
  (Part.text_ofPieces vocabulary (pieces s)).trans (spell_pieces s)

end SqlLayout
