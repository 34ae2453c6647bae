import SqlLayout.Options
import SqlLayout.Text.Word

/-! # Spacing

The first stage puts a text on one line and settles the gaps around operators, commas and
parentheses. It is a sequence of seven passes, each of which goes over the whole text.
-/

namespace SqlLayout

/-- The characters of comparison operators. -/
def isOperator (c : Char) : Bool :=
  c == '=' || c == '<' || c == '>' || c == '!'

namespace Spacing

/-- Writes every run of blanks as one space. -/
def collapse (s : Text) : Text :=
  s.foldr (fun c r => if isBlank c then (if r.head? = some ' ' then r else ' ' :: r) else c :: r) []

/-- Puts a space before and after every run of operator characters, where `inside` says that the
    text so far ends in one. -/
def padOperatorsFrom : (inside : Bool) → Text → Text
  | inside, [] => if inside then [' '] else []
  | false, c :: s =>
    if isOperator c then ' ' :: c :: padOperatorsFrom true s else c :: padOperatorsFrom false s
  | true, c :: s =>
    if isOperator c then c :: padOperatorsFrom true s else ' ' :: c :: padOperatorsFrom false s

/-- Puts a space before and after every run of operator characters. -/
def padOperators (s : Text) : Text :=
  padOperatorsFrom false s

/-- Drops the blanks before every occurrence of a character that is not blank. -/
def dropBefore (mark : Char) (s : Text) : Text :=
  s.foldr (fun c r => if isBlank c && r.head? == some mark then r else c :: r) []

/-- Drops the blanks after every occurrence of a character that is not blank, where `after` says
    that the text so far ends in one. -/
def dropAfterFrom (mark : Char) : (after : Bool) → Text → Text
  | _, [] => []
  | after, c :: s =>
    if after && isBlank c then dropAfterFrom mark true s
    else c :: dropAfterFrom mark (c == mark) s

/-- Drops the blanks after every occurrence of a character that is not blank. -/
def dropAfter (mark : Char) (s : Text) : Text :=
  dropAfterFrom mark false s

/-- Writes every occurrence of a character, with the blanks around it, in another way. -/
def respellMark (mark : Char) (written : Text) (s : Text) : Text :=
  (dropAfter mark (dropBefore mark s)).flatMap fun c => if c = mark then written else [c]

/-- A comma with its space. -/
def comma : CommaStyle → Text
  | .before => " , ".toList
  | .after => ", ".toList

/-- Drops the blanks between a word and an opening parenthesis. -/
def closeCalls (s : Text) : Text :=
  s.foldr (fun c r =>
    if isWord c && (r.dropWhile isBlank).head? == some '(' then c :: r.dropWhile isBlank
    else c :: r) []

/-- The passes before the last one. -/
def beforeCalls (commas : CommaStyle) (s : Text) : Text :=
  collapse <| respellMark ')' ") ".toList <| respellMark '(' "(".toList <|
    respellMark ',' (comma commas) <| padOperators <| Text.trim <| collapse s

/-- The text on one line with settled gaps. -/
def normalize (commas : CommaStyle) (s : Text) : Text :=
  closeCalls (beforeCalls commas s)

end Spacing

end SqlLayout
