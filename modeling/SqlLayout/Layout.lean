import SqlLayout.Keyword
import SqlLayout.Clause
import SqlLayout.Spacing

/-! # Layout

The last stage writes one clause per line and settles the letter case of ON in join clauses. The
four stages in a row lay out a text. Tracing tells what each stage did.
-/

namespace SqlLayout

namespace Assembly

/-- How ON is written in a join clause: in small letters only if keywords are. -/
def onWord : LetterCase → Text
  | .lower => "on".toList
  | _ => "ON".toList

/-- A piece with the word ON written in a given way. -/
def recaseOnPiece (written : Text) : Piece → Text
  | .word letters => if fold letters = "ON".toList then written else letters
  | .mark c => [c]

/-- The text with every word ON written in a given way. -/
def recaseOn (written s : Text) : Text :=
  (pieces s).flatMap (recaseOnPiece written)

/-- Whether JOIN occurs in the clause, be it in capitals or not, be it a word or not. -/
def mentionsJoin (clause : Text) : Bool :=
  Text.occursIn "JOIN".toList (upper clause)

/-- The line of a clause. -/
def line (letterCase : LetterCase) (clause : Text) : Text :=
  if mentionsJoin clause then recaseOn (onWord letterCase) clause else clause

/-- Clauses as lines; empty ones are left out. -/
def assemble (letterCase : LetterCase) (clauses : List Text) : Text :=
  Text.joinWith ['\n'] ((clauses.filter (· ≠ [])).map (line letterCase))

end Assembly

/-- What the four stages make of a text. -/
structure Stages where
  /-- The text on one line with settled gaps. -/
  spaced : Text
  /-- The same with keywords in the chosen case. -/
  cased : Text
  /-- The clauses of it. -/
  clauses : List Text
  /-- The clauses as lines. -/
  final : Text

/-- Runs the four stages. -/
def stages (style : Style) (s : Text) : Stages :=
  let spaced := Spacing.normalize style.commas s
  let cased := Casing.recase style.letterCase spaced
  let cut := clauses cased
  ⟨spaced, cased, cut, Assembly.assemble style.letterCase cut⟩

/-- A text laid out in a style: one clause per line, without a line feed at the end. -/
def layOut (style : Style) (s : Text) : Text :=
  (stages style s).final

/-- A text laid out with options. -/
def format (options : Options) (s : Text) : Text :=
  layOut options.style s

namespace Trace

/-- A line of debug output. -/
def line (label content : Text) : Text :=
  "[DEBUG] ".toList ++ label ++ ": ".toList ++ content ++ ['\n']

/-- What is told after the first stage. -/
def spacing (commaPosition : Setting) (result : Text) : Text :=
  line ("Normalized spacing (comma_position=".toList ++ commaPosition.display ++ [')']) result

/-- What is told after the second stage. -/
def casing (keywordCase : Setting) (result : Text) : Text :=
  if LetterCase.ofSetting keywordCase = .preserve then "[DEBUG] Keyword case preserved.\n".toList
  else
    let shown := if keywordCase.isVoid then "upper".toList else keywordCase.display
    line ("Applied keyword case '".toList ++ shown ++ ['\'']) result

/-- What is told while clauses are cut. -/
def cutting (clauses : List Text) : Text :=
  clauses.flatMap (line "Closed clause".toList)

/-- What is told while lines are written. -/
def assembling (letterCase : LetterCase) (clauses : List Text) : Text :=
  (clauses.filter fun clause => Assembly.mentionsJoin clause).flatMap fun clause =>
    line "Cased ON in join clause".toList (Assembly.line letterCase clause)

/-- What is told while a text is laid out with options. -/
def format (options : Options) (s : Text) : Text :=
  let done := stages options.style s
  spacing options.commaPosition done.spaced ++ casing options.keywordCase done.cased
    ++ cutting done.clauses ++ assembling options.style.letterCase done.clauses

end Trace

end SqlLayout
