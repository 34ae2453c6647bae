import SqlLayout.Text.Basic

/-! # Lines of a config file

A line is blank, a comment, or has content with some indentation. Content opens a section, gives
an option a value, or is neither.
-/

namespace SqlLayout.Config

/-- A line by its first look. -/
inductive Line where
  /-- Nothing but blanks. -/
  | blank
  /-- A number sign or a semicolon comes first. -/
  | comment
  /-- Anything else, after so many blanks, without blanks at its ends. -/
  | content (indent : Nat) (text : Text)
  deriving DecidableEq

/-- The first look at a line. -/
def Line.ofText (raw : Text) : Line :=
  match raw.trim with
  | [] => .blank
  | c :: rest =>
    if c = '#' ∨ c = ';' then .comment
    else .content (raw.takeWhile isBlank).length (c :: rest)

/-- What a line with content says. -/
inductive Content where
  | header (name : Text)
  | setting (name value : Text)
  | other
  deriving DecidableEq

/-- The name between the bracket at the start of a text and the last closing bracket. -/
def headerName? : Text → Option Text
  | '[' :: rest =>
    match rest.reverse.dropWhile (· ≠ ']') with
    | ']' :: c :: name => some (c :: name).reverse
    | _ => none
  | _ => none

/-- A sign between the name of an option and its value. -/
def isDelimiter (c : Char) : Bool :=
  c == '=' || c == ':'

/-- The name before the first delimiter and the value after it. -/
def setting? (s : Text) : Option (Text × Text) :=
  match s.dropWhile fun c => !isDelimiter c with
  | [] => none
  | _ :: value => some (Text.trimRight (s.takeWhile fun c => !isDelimiter c), Text.trim value)

/-- What a text without blanks at its ends says. -/
def Content.ofText (s : Text) : Content :=
  match headerName? s with
  | some name => .header name
  | none =>
    match setting? s with
    | some (name, value) => .setting name value
    | none => .other

end SqlLayout.Config
