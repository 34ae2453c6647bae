import SqlLayout.Options
import SqlLayout.Phrase
import SqlLayout.Text.Case

/-! # Keywords

The second stage writes every keyword in the chosen letter case. It goes by spelling alone, so an
identifier spelled like a keyword is changed too.
-/

namespace SqlLayout

namespace Keyword

def one (word : String) : Phrase :=
  .one word.toList

def two (first second : String) : Phrase :=
  .two first.toList second.toList

/-- The phrases whose letter case is changed. -/
def all : List Phrase :=
  [one "SELECT", one "FROM", one "WHERE", one "AND", one "OR", one "INSERT", one "UPDATE",
  one "DELETE", one "JOIN", two "INNER" "JOIN", two "LEFT" "JOIN", two "RIGHT" "JOIN",
  two "OUTER" "JOIN", two "GROUP" "BY", two "ORDER" "BY", one "HAVING", one "LIMIT",
  one "OFFSET", one "AS", one "UNION", one "ALL", one "IN", one "BETWEEN", one "LIKE", one "IS",
  one "NULL", one "CREATE", one "TABLE", one "DROP", one "ALTER", one "INDEX",
  two "PRIMARY" "KEY", two "FOREIGN" "KEY", one "CONSTRAINT", one "DEFAULT", one "CASCADE",
  one "DESC", one "ASC"]

/-- The phrases that begin a major clause. -/
def majorHeadings : List Phrase :=
  [one "SELECT", one "FROM", one "WHERE", two "GROUP" "BY", one "HAVING", two "ORDER" "BY",
  one "LIMIT"]

/-- The words that may stand before JOIN. -/
def joinQualifiers : List Text :=
  ["INNER".toList, "LEFT".toList, "RIGHT".toList, "OUTER".toList]

/-- The phrases that begin a join clause. -/
def joinHeadings : List Phrase :=
  one "JOIN" :: joinQualifiers.map (.two · "JOIN".toList)

/-- The phrases that begin a clause. -/
def headings : List Phrase :=
  majorHeadings ++ joinHeadings

end Keyword

/-! ## Letter case -/

/-- A text in a letter case. -/
def LetterCase.apply : LetterCase → Text → Text
  | .upper, s => SqlLayout.upper s
  | .lower, s => SqlLayout.lower s
  | .preserve, s => s

namespace Casing

/-- A part of a text with the letter case of its phrase. -/
def recasePart (letterCase : LetterCase) : Part → Text
  | .phrase spelled => letterCase.apply spelled
  | .plain piece => piece.text

/-- The text with its keywords in a letter case. -/
def recase (letterCase : LetterCase) (s : Text) : Text :=
  (parts Keyword.all s).flatMap (recasePart letterCase)

end Casing

end SqlLayout
