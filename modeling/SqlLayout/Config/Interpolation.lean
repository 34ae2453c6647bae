import SqlLayout.Config.Document

/-! # References in values

A value may refer to another option of its section by a percent sign, the name in parentheses and
the letter s; two percent signs stand for one. A referred value may hold references itself, up to a
limit on the depth.
-/

namespace SqlLayout.Config

/-- A stretch of a value. -/
inductive Segment where
  /-- A character that stands for itself. -/
  | literal (c : Char)
  /-- A reference to an option. -/
  | reference (name : Text)
  /-- A percent sign before a wrong character, or before none. -/
  | stray (rest : Text)
  /-- A reference that is not complete. -/
  | broken (rest : Text)
  deriving DecidableEq

/-- Where the reading of a value stands. -/
inductive SegmentState where
  | outside
  | percent
  /-- Within the name of a reference, of which some characters have been read, newest first. -/
  | name (read : Text)
  /-- After the closing parenthesis of a reference. -/
  | closed (read : Text)

/-- The text of a reference of which some characters have been read. -/
def SegmentState.text : SegmentState → Text
  | outside => []
  | percent => ['%']
  | name read => '%' :: '(' :: read.reverse
  | closed read => '%' :: '(' :: read.reverse ++ [')']

/-- Cuts a value into segments. Nothing follows a segment that is wrong. -/
def segmentsFrom : SegmentState → Text → List Segment
  | .outside, [] => []
  | .percent, [] => [.stray ['%']]
  | .name read, [] => [.broken (SegmentState.name read).text]
  | .closed read, [] => [.broken (SegmentState.closed read).text]
  | .outside, c :: s =>
    if c = '%' then segmentsFrom .percent s else .literal c :: segmentsFrom .outside s
  | .percent, c :: s =>
    if c = '%' then .literal '%' :: segmentsFrom .outside s
    else if c = '(' then segmentsFrom (.name []) s
    else [.stray ('%' :: c :: s)]
  | .name read, c :: s =>
    if c = ')' then
      if read.isEmpty then [.broken ((SegmentState.name read).text ++ c :: s)]
      else segmentsFrom (.closed read) s
    else segmentsFrom (.name (c :: read)) s
  | .closed read, c :: s =>
    if c = 's' then .reference read.reverse :: segmentsFrom .outside s
    else [.broken ((SegmentState.closed read).text ++ c :: s)]

def segments (s : Text) : List Segment :=
  segmentsFrom .outside s

/-- How deep references may go: the value itself counts as one. -/
def maxDepth : Nat := 10

/-- Why a value cannot be expanded. -/
inductive ReferenceFault where
  /-- A percent sign stands before a wrong character, or before none. -/
  | stray (rest : Text)
  /-- A reference is not complete. -/
  | broken (rest : Text)
  /-- No option has the name. -/
  | missing (name : Text)
  /-- References go too deep. -/
  | tooDeep
  deriving DecidableEq

/-- Expands segments, with a way to expand the value of an option. -/
def expandSegments (refer : Text → Except ReferenceFault Text) :
    List Segment → Except ReferenceFault Text
  | [] => .ok []
  | .stray rest :: _ => .error (.stray rest)
  | .broken rest :: _ => .error (.broken rest)
  | .literal c :: segs => (expandSegments refer segs).map (c :: ·)
  | .reference name :: segs =>
    match refer name with
    | .error fault => .error fault
    | .ok value => (expandSegments refer segs).map (value ++ ·)

/-- Expands a value by the raw values of all options, so many levels deep. A value without a
    percent sign needs no level. -/
def expand (values : List (Text × Text)) : (levels : Nat) → Text → Except ReferenceFault Text
  | 0, _ => .error .tooDeep
  | levels + 1, s =>
    expandSegments (fun name =>
      match values.lookup name with
      | none => .error (.missing name)
      | some value => if value.contains '%' then expand values levels value else .ok value)
      (segments s)

end SqlLayout.Config
