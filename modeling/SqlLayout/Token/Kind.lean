import SqlLayout.Text.Basic

/-! # Tokens

A token is a piece of SQL text with its kind. Most kinds are told from the shape of the text alone;
of a word the kind is settled only when it is looked up in the vocabulary.
-/

namespace SqlLayout

/-- What a token is. -/
inductive TokenKind where
  /-- A blank other than the end of a line. -/
  | space
  | lineBreak
  /-- A comment up to the end of its line. -/
  | lineComment
  /-- A comment with an end of its own. -/
  | blockComment
  /-- A comment of either sort that speaks to the database. -/
  | hint
  /-- The sign of an assignment. -/
  | assign
  /-- A sign that separates or encloses. -/
  | punctuation
  | star
  | name
  /-- The name of a type. -/
  | builtin
  /-- A place for a value. -/
  | placeholder
  /-- A command to the client. -/
  | command
  /-- A word that is to be looked up. -/
  | word
  /-- A keyword of no other kind. -/
  | keyword
  /-- The direction of an order. -/
  | direction
  /-- A time zone with its name. -/
  | timeZone
  /-- A keyword that begins the handling of data. -/
  | query
  /-- A keyword that begins a definition. -/
  | definition
  /-- A keyword that begins a grant of rights. -/
  | permission
  /-- The keyword before the queries that another query uses. -/
  | preamble
  | hexadecimal
  /-- A number with a point or an exponent. -/
  | decimal
  | integer
  /-- Text between single quotes. -/
  | text
  /-- Text between double quotes. -/
  | symbol
  /-- Text between dollar delimiters. -/
  | dollarText
  /-- An operator other than a comparison. -/
  | operator
  | comparison
  | other
  deriving DecidableEq

namespace TokenKind

/-- Blanks, which do not count in a comparison of texts. -/
def isBlank (k : TokenKind) : Bool :=
  k == space || k == lineBreak

/-- Text between quotes, which counts as it is spelled. -/
def isQuoted (k : TokenKind) : Bool :=
  k == text || k == symbol

def isComment (k : TokenKind) : Bool :=
  k == lineComment || k == hint || k == blockComment

def isName (k : TokenKind) : Bool :=
  k == name || k == builtin || k == placeholder

def isNumber (k : TokenKind) : Bool :=
  k == hexadecimal || k == decimal || k == integer

def isKeyword (k : TokenKind) : Bool :=
  [keyword, direction, timeZone, query, definition, permission, preamble].contains k

end TokenKind

structure Token where
  kind : TokenKind
  text : Text
  deriving DecidableEq

end SqlLayout
