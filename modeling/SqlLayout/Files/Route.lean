import SqlLayout.Text.Basic

/-! # Routes

A route is a path as it is written: parts between slashes, from the root or from the current folder.
Empty parts and single dots say nothing and are dropped; two dots are kept, because what they
mean depends on what is there. Two slashes at the beginning, and no more, are kept too, though they
lead to the same root as one.
-/

namespace SqlLayout

/-- Where a route starts. -/
inductive Start where
  | here
  | root
  /-- At the root, written with two slashes. -/
  | twoSlashes
  deriving DecidableEq

/-- The start that so many slashes at the beginning of a text write. -/
def Start.ofSlashes : Nat → Start
  | 0 => here
  | 2 => twoSlashes
  | _ => root

/-- How a start is written. -/
def Start.text : Start → Text
  | here => []
  | root => ['/']
  | twoSlashes => ['/', '/']

/-- A path as it is written. -/
structure Route where
  start : Start
  parts : List Text
  deriving DecidableEq

namespace Route

/-- Puts a character in front of the first of some parts. -/
def consPart (c : Char) : List Text → List Text
  | [] => if c = '/' then [[], []] else [[c]]
  | part :: rest => if c = '/' then [] :: part :: rest else (c :: part) :: rest

/-- The parts of a text that say something. -/
def partsOf (s : Text) : List Text :=
  (s.foldr consPart []).filter fun part => !part.isEmpty && part != ['.']

def ofText (s : Text) : Route where
  start := .ofSlashes (s.takeWhile (· == '/')).length
  parts := partsOf s

/-- The text of a route; the current folder is a dot. -/
def text (r : Route) : Text :=
  if r.start = .here ∧ r.parts = [] then ['.']
  else r.start.text ++ Text.joinWith ['/'] r.parts

/-- A route that goes on below another one. -/
def below (r : Route) (rest : List Text) : Route where
  start := r.start
  parts := r.parts ++ rest

/-- The route without its last part. -/
def around (r : Route) : Route where
  start := r.start
  parts := r.parts.dropLast

/-- Whether a route has a character that no name may have. -/
def hasNul (r : Route) : Bool :=
  r.parts.any fun part => part.contains '\x00'

end Route

/-- The name of a file without its suffix, and the suffix with its dot. The last dot begins the
    suffix, unless it is the first or the last character. -/
def splitSuffix (name : Text) : Text × Text :=
  let suffix := (name.reverse.takeWhile (· ≠ '.')).reverse
  let stem := name.take (name.length - suffix.length - 1)
  if suffix.isEmpty || stem.isEmpty then (name, [])
  else (stem, '.' :: suffix)

end SqlLayout
