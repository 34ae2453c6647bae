import SqlLayout.Text.Basic
import SqlLayout.Text.Word

/-! # Pieces of a text

A text is a sequence of words, as long as they can be, and of single characters between them.
Everything that depends on whole words looks at pieces.
-/

namespace SqlLayout

/-- A word, or a character that belongs to none. -/
inductive Piece where
  /-- A run of word characters. -/
  | word (letters : Text)
  /-- A character that is no word character. -/
  | mark (c : Char)
  deriving DecidableEq

namespace Piece

def text : Piece → Text
  | word letters => letters
  | mark c => [c]

/-- Puts a character in front of the pieces of a text. -/
def consChar (c : Char) (ps : List Piece) : List Piece :=
  if isWord c then
    match ps with
    | word letters :: rest => word (c :: letters) :: rest
    | _ => word [c] :: ps
  else mark c :: ps

end Piece

def pieces (s : Text) : List Piece :=
  s.foldr Piece.consChar []

/-- The text that pieces spell. -/
def spell (ps : List Piece) : Text :=
  ps.flatMap Piece.text

theorem spell_consChar (c : Char) (ps : List Piece) : spell (Piece.consChar c ps) = c :: spell ps := by
  unfold Piece.consChar
  split
  · split <;> rfl
  · rfl

/-- Taking a text apart loses nothing. -/
theorem spell_pieces (s : Text) : spell (pieces s) = s := by
  induction s with
  | nil => rfl
  | cons c s ih =>
      show spell (Piece.consChar c (pieces s)) = c :: s
      rw [spell_consChar, ih]

end SqlLayout
