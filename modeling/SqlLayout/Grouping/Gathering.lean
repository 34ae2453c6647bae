import SqlLayout.Grouping.Node

/-! # Gathering

Some groups are found by looking at the nodes of a group one after the other: a node takes those
after it, or joins the one before it. What a node takes is told by a rule from the nodes after it.
-/

namespace SqlLayout

namespace Grouping

/-- How many of the nodes after a node it takes, and what they become together. -/
abbrev Reach := Node → List Node → Option (Nat × Kind)

/-- Lets nodes take those after them, given how many nodes are taken already. A node that takes
    others is not changed, unless it is to grow and is a group of the kind. -/
def gatherFrom (grows : Bool) (reach : Reach) : (taken : Nat) → List Node → List Node
  | _, [] => []
  | taken + 1, _ :: rest => gatherFrom grows reach taken rest
  | 0, n :: rest =>
    match reach n rest with
    | none => n :: gatherFrom grows reach 0 rest
    | some (count, kind) =>
      let more := rest.take count
      (if grows then n.grow kind more else .group kind (n :: more))
        :: gatherFrom grows reach count rest

/-- Lets nodes take those after them. -/
def gather (grows : Bool) (reach : Reach) (items : List Node) : List Node :=
  gatherFrom grows reach 0 items

/-- How many nodes there are up to the next one that is no blank, if something holds of it. -/
def throughNext (accepts : Node → Bool) (rest : List Node) : Option Nat :=
  let blanks := rest.takeWhile Node.isBlank
  match rest.drop blanks.length with
  | [] => none
  | next :: _ => if accepts next then some (blanks.length + 1) else none

/-- Lets nodes join the last one before them that is no blank, given the nodes before, the last one
    first. -/
def attachFrom (joins accepts : Node → Bool) (join : Node → List Node → Node)
    (before : List Node) : List Node → List Node
  | [] => before.reverse
  | n :: rest =>
    match joins n, before.dropWhile Node.isBlank with
    | true, last :: others =>
      if accepts last then
        let blanks := (before.takeWhile Node.isBlank).reverse
        attachFrom joins accepts join (join last (blanks ++ [n]) :: others) rest
      else attachFrom joins accepts join (n :: before) rest
    | _, _ => attachFrom joins accepts join (n :: before) rest

def attach (joins accepts : Node → Bool) (join : Node → List Node → Node) (items : List Node) :
    List Node :=
  attachFrom joins accepts join [] items

/-- A group of any kind with more nodes at its end. -/
def appendTo (more : List Node) : Node → Node
  | .leaf token => .leaf token
  | .group kind items => .group kind (items ++ more)

/-! ## What is gathered -/

/-- Makes groups of comments in a row, given those read so far, the last one first. Line ends
    between and after them belong to the group; comments at the end stay as they are. -/
def commentsFrom (run : List Node) : List Node → List Node
  | [] => run.reverse
  | n :: rest =>
    if n.isA TokenKind.isComment || (!run.isEmpty && n.isA (· == .lineBreak)) then
      commentsFrom (n :: run) rest
    else if run.isEmpty then n :: commentsFrom [] rest
    else .group .comment run.reverse :: n :: commentsFrom [] rest

def comments (items : List Node) : List Node :=
  commentsFrom [] items

/-- OVER takes a window after it, or the name of one. -/
def windows (_ : Kind) (items : List Node) : List Node :=
  gather false (fun n rest =>
    if n.isWord ["OVER"] then
      (throughNext (fun next => next.isGroup [.parentheses] || next.isA TokenKind.isName) rest).map
        (·, .window)
    else none) items

/-- Whether some nodes define a table by its columns. Their names are no functions. -/
def definesTable (items : List Node) : Bool :=
  let has (word : String) : Bool := items.any (Node.isLeaf fun t => upper t.text == word.toList)
  has "CREATE" && has "TABLE" && !items.any (Node.isLeaf fun t => t.text == "AS".toList)

/-- How many nodes after its name a call has: the arguments, and the window if there is one. -/
def callLength (rest : List Node) : Option Nat :=
  match throughNext (Node.isGroup [.parentheses]) rest with
  | none => none
  | some count =>
    match throughNext (Node.isGroup [.window]) (rest.drop count) with
    | none => some count
    | some more => some (count + more)

/-- A name takes the arguments after it. -/
def functions (_ : Kind) (items : List Node) : List Node :=
  if definesTable items then items
  else
    gather false (fun n rest =>
      if n.isA TokenKind.isName then (callLength rest).map (·, .function) else none) items

/-- The words that end the conditions of a query. -/
def filterEnds : List String :=
  ["ORDER BY", "GROUP BY", "LIMIT", "UNION", "UNION ALL", "EXCEPT", "HAVING", "RETURNING", "INTO"]

/-- WHERE takes what is after it up to the end of the conditions, or up to the closing sign of the
    group. -/
def filters (kind : Kind) (items : List Node) : List Node :=
  gather false (fun n rest =>
    if n.isWord ["WHERE"] then
      let count := (rest.takeWhile fun m => !m.isWord filterEnds).length
      let enclosed := kind == .parentheses || kind == .brackets
      some (if count = rest.length && enclosed then count - 1 else count, .filter)
    else none) items

/-- Whether a node is a plain name, or text between double quotes. -/
def isPlainName (n : Node) : Bool :=
  n.isA fun k => k == .name || k == .symbol

/-- Every plain name is a group of its own. -/
def identifiers (_ : Kind) (items : List Node) : List Node :=
  items.map fun n => if isPlainName n then .group .identifier [n] else n

/-- A direction joins the name or the number before it. -/
def directions (_ : Kind) (items : List Node) : List Node :=
  attach (Node.isA (· == .direction))
    (fun last => last.isGroup [.identifier] || last.isA TokenKind.isNumber)
    (fun last more => .group .identifier (last :: more)) items

/-- A value takes the name after it, by which it is known. -/
def aliases (_ : Kind) (items : List Node) : List Node :=
  gather true (fun n rest =>
    if n.isGroup [.parentheses, .function, .cases, .identifier, .operation, .comparison]
        || n.isA TokenKind.isNumber then
      (throughNext (Node.isGroup [.identifier]) rest).map (·, .identifier)
    else none) items

/-- Comments join the group before them. -/
def trailingComments (_ : Kind) (items : List Node) : List Node :=
  attach (Node.isGroup [.comment]) Node.isAnyGroup (fun last more => appendTo more last) items

/-- VALUES takes what is after it up to the last row. -/
def rowsOfValues (_ : Kind) (items : List Node) : List Node :=
  gather false (fun n rest =>
    let count := (rest.reverse.dropWhile fun m => !m.isGroup [.parentheses]).length
    if n.isWord ["VALUES"] && 0 < count then some (count, .rows) else none) items

end Grouping

end SqlLayout
