/-! # Texts

A text is a list of code points, so that every definition on it is a recursion on a list.
-/

namespace SqlLayout

/-- A text as a list of code points. -/
abbrev Text := List Char

namespace Text

/-- Texts with a separator between each two of them. -/
def joinWith (separator : Text) : List Text → Text
  | [] => []
  | [s] => s
  | s :: t :: rest => s ++ separator ++ joinWith separator (t :: rest)

/-- Whether `pattern` occurs somewhere in the text. -/
def occursIn (pattern : Text) : Text → Bool
  | [] => pattern.isEmpty
  | c :: s => pattern.isPrefixOf (c :: s) || occursIn pattern s

/-- Whether the text ends in `ending`. -/
def endsWith (s ending : Text) : Bool :=
  ending.isSuffixOf s

/-- The text, filled up on the left to a width. -/
def padLeft (width : Nat) (fill : Char) (s : Text) : Text :=
  List.replicate (width - s.length) fill ++ s

end Text

/-! ## Lines

A file may end its lines with a line feed, a carriage return or both; once read, they all end with
a line feed.
-/

namespace Text

/-- Line ends as line feeds, where `afterReturn` says that a carriage return was just read: a line
    feed after it belongs to the same line end. -/
def unifyLineEndsFrom : (afterReturn : Bool) → Text → Text
  | _, [] => []
  | afterReturn, c :: s =>
    if c = '\n' ∧ afterReturn = true then unifyLineEndsFrom false s
    else if c = '\r' then '\n' :: unifyLineEndsFrom true s
    else c :: unifyLineEndsFrom false s

/-- The text with every line end written as a line feed. -/
def unifyLineEnds (s : Text) : Text :=
  unifyLineEndsFrom false s

/-- Puts a character in front of the first line. -/
def consLine (c : Char) : List Text → List Text
  | [] => [[c]]
  | line :: rest => if c = '\n' then [c] :: line :: rest else (c :: line) :: rest

/-- The lines of a text, each with its line feed; the last may have none. -/
def lines (s : Text) : List Text :=
  s.foldr consLine []

end Text

/-! ## Ranges of code points -/

/-- A range of code points, both ends included. -/
abbrev CodeRange := Nat × Nat

/-- Whether a table of ranges holds a character. -/
def inRanges (table : List CodeRange) (c : Char) : Bool :=
  table.any fun range => range.1 ≤ c.toNat && c.toNat ≤ range.2

theorem inRanges_iff (table : List CodeRange) (c : Char) :
    inRanges table c = true ↔ ∃ range ∈ table, range.1 ≤ c.toNat ∧ c.toNat ≤ range.2 := by
  simp [inRanges]

/-! ## Blanks

The characters that count as white space, and what is left of a text without those at its ends.
The zero width space, the word joiner and the byte order mark are not among them.
-/

/-- The blank characters: controls from tab to carriage return, the four separators before the
    space, the space, next line, and the space and line separators beyond ASCII. -/
def blankRanges : List CodeRange :=
  [(0x9, 0xD), (0x1C, 0x20), (0x85, 0x85), (0xA0, 0xA0), (0x1680, 0x1680), (0x2000, 0x200A),
  (0x2028, 0x2029), (0x202F, 0x202F), (0x205F, 0x205F), (0x3000, 0x3000)]

/-- White space of any kind. -/
def isBlank (c : Char) : Bool :=
  inRanges blankRanges c

namespace Text

/-- The text without blanks at its start. -/
def trimLeft (s : Text) : Text :=
  s.dropWhile isBlank

/-- The text without blanks at its end. -/
def trimRight (s : Text) : Text :=
  (s.reverse.dropWhile isBlank).reverse

/-- The text without blanks at either end. -/
def trim (s : Text) : Text :=
  s.trimLeft.trimRight

def isAllBlank (s : Text) : Bool :=
  s.all isBlank

end Text

end SqlLayout
