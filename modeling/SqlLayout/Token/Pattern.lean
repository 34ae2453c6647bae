import SqlLayout.Text.Case
import SqlLayout.Text.Word

/-! # Patterns

A pattern describes the texts that a token may have. It is matched from left to right; where there
is a choice, the first way that lets the rest of the pattern match is taken. A repetition takes as
many items as it can, or as few, and reconsiders if the rest does not match.
-/

namespace SqlLayout

/-- A description of texts. -/
inductive Pattern where
  /-- No character. -/
  | done
  /-- One character of a class. -/
  | one (accepts : Char → Bool)
  /-- One pattern and then another. -/
  | seq (first second : Pattern)
  /-- One pattern, or else another. -/
  | either (first second : Pattern)
  /-- A pattern any number of times, as often as possible. -/
  | most (item : Pattern)
  /-- A pattern any number of times, as rarely as possible. -/
  | least (item : Pattern)
  /-- No character, on a condition on the character before and the text that follows. -/
  | look (holds : Option Char → Text → Bool)

namespace Pattern

/-- What is to be matched after a pattern: it gets the character before and the rest of the text,
    and gives the number of characters it takes, if it matches. -/
abbrev Next := Option Char → Text → Option Nat

/-- A way to match something before what is to be matched next; the number of characters is that
    of both. -/
abbrev Step := Option Char → Text → Next → Option Nat

/-- A step as often as possible, at most once for every character of a text. -/
def repeatMost (step : Step) : (bound : Text) → Step
  | [], before, rest, next => next before rest
  | _ :: bound, before, rest, next =>
    match step before rest fun before rest => repeatMost step bound before rest next with
    | some n => some n
    | none => next before rest

/-- A step as rarely as possible, at most once for every character of a text. -/
def repeatLeast (step : Step) : (bound : Text) → Step
  | [], before, rest, next => next before rest
  | _ :: bound, before, rest, next =>
    match next before rest with
    | some n => some n
    | none => step before rest fun before rest => repeatLeast step bound before rest next

/-- Matches a pattern and what is next. An item of a repetition takes a character or more, so a
    text has no more items than characters, and is itself the bound. -/
def run : Pattern → Step
  | done => fun before rest next => next before rest
  | one accepts => fun _ rest next =>
    match rest with
    | [] => none
    | c :: rest => if accepts c then (next (some c) rest).map (· + 1) else none
  | seq first second => fun before rest next =>
    run first before rest fun before rest => run second before rest next
  | either first second => fun before rest next =>
    match run first before rest next with
    | some n => some n
    | none => run second before rest next
  | most item => fun before rest next => repeatMost (run item) rest before rest next
  | least item => fun before rest next => repeatLeast (run item) rest before rest next
  | look holds => fun before rest next => if holds before rest then next before rest else none

/-- How many characters a match of the pattern takes at the start of a text. -/
def length? (p : Pattern) (before : Option Char) (rest : Text) : Option Nat :=
  p.run before rest fun _ _ => some 0

/-! ## Ways to write patterns -/

def exactly (c : Char) : Pattern :=
  one (· == c)

def letter (c : Char) : Pattern :=
  one fun d => foldLetter d == foldLetter c

/-- Patterns one after the other. -/
def inOrder : List Pattern → Pattern
  | [] => done
  | [p] => p
  | p :: q :: rest => seq p (inOrder (q :: rest))

/-- The first of some patterns that matches. -/
def firstOf : List Pattern → Pattern
  | [] => look fun _ _ => false
  | [p] => p
  | p :: q :: rest => either p (firstOf (q :: rest))

/-- The characters of a literal, letters in any case. -/
def literal (s : String) : Pattern :=
  inOrder (s.toList.map letter)

/-- One of some literals. -/
def oneOf (literals : List String) : Pattern :=
  firstOf (literals.map literal)

/-- A pattern, or nothing. -/
def maybe (p : Pattern) : Pattern :=
  either p done

/-- A pattern once or more, as often as possible. -/
def oneOrMore (p : Pattern) : Pattern :=
  seq p (most p)

/-- Whether a word ends or begins between two characters. -/
def isWordEdge (before : Option Char) (rest : Text) : Bool :=
  before.any isWord != rest.head?.any isWord

/-- The edge of a word. -/
def wordEdge : Pattern :=
  look isWordEdge

/-- The character before is not one of a class. -/
def notAfter (accepts : Char → Bool) : Pattern :=
  look fun before _ => !before.any accepts

/-- The next character is not one of a class. -/
def notBefore (accepts : Char → Bool) : Pattern :=
  look fun _ rest => !rest.head?.any accepts

end Pattern

end SqlLayout
