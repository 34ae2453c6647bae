import SqlLayout.Grouping.Gathering
import SqlLayout.Grouping.Joining
import SqlLayout.Grouping.Pairing
import SqlLayout.Token.Statement

/-! # The steps of grouping

A statement is grouped step by step, and every step builds on the groups that those before it made.
Pairs and joined groups are refused when they are nested too deep or hold too much; the first step
that is refused ends the grouping.
-/

namespace SqlLayout

namespace Grouping

/-- One step of grouping. -/
inductive Step where
  /-- Changes the items of the statement alone. -/
  | onTop (change : List Node → List Node)
  /-- Changes the items of all groups, inner ones first, but for those of a kind that is spared. -/
  | within (spared : Kind → Bool) (change : Kind → List Node → List Node)
  /-- Pairs what opens and what closes. -/
  | pairs (rule : PairRule)
  /-- Joins nodes of all groups with their neighbours. -/
  | joins (rule : JoinRule)
  /-- Joins nodes of the statement alone with their neighbours. -/
  | joinsOnTop (rule : JoinRule)

/-- The statement after a step. -/
def Step.applyTo : Step → Node → Except Fault Node
  | onTop _, .leaf token => .ok (.leaf token)
  | onTop change, .group kind items => .ok (.group kind (change items))
  | within spared change, n => .ok (n.rework spared change)
  | pairs rule, n => rule.applyTo 0 n
  | joins rule, n => rule.applyTo 0 n
  | joinsOnTop rule, n => rule.applyOnTop n

/-- The statement after some steps. The groups of a statement are one lower than the statement. -/
def applySteps : List Step → Node → Except Fault Node
  | [], n => .ok n
  | step :: rest, n =>
    match step.applyTo n with
    | .error fault => .error fault
    | .ok n => if maxHeight + 1 < n.height then .error .tooHigh else applySteps rest n

/-! ## What is joined -/

/-- Whether there is a node after the middle of which something holds. -/
def follows (accepts : Node → Bool) (after : Option Node) : Bool :=
  after.any accepts

/-- Whether a node is text between single quotes. -/
def isQuotedText : Node → Bool :=
  Node.isA (· == .text)

/-- Whether a node is a constant or a name that stands for a value. -/
def isSimpleValue : Node → Bool :=
  Node.isA ([.integer, .decimal, .text, .symbol, .name, .placeholder].contains ·)

/-- A name with a point or an arrow, and the name within it. A star or text after the sign belongs to
    the name too, but nothing else does. -/
def qualifiedName : JoinRule where
  kind := .identifier
  middle n := n.isSign .punctuation "." || n.isSign .operator "->" || n.isSign .operator "->>"
  before n := n.isGroup [.brackets, .function] || isPlainName n
  after _ := true
  span := .fitting fun n =>
    n.isGroup [.brackets, .function] || isPlainName n || n.isA (· == .star) || isQuotedText n

/-- A name with an index in square brackets. -/
def indexedName : JoinRule where
  kind := .identifier
  middle n := n.isGroup [.brackets]
  before n := n.isGroup [.brackets, .identifier, .function] || isPlainName n
  after _ := true
  span := .before

/-- A value with the type it is cast to. -/
def typeCast : JoinRule where
  kind := .identifier
  middle n := n.isSign .punctuation "::"
  before _ := true
  after := follows fun _ => true

/-- A value with its time zone. -/
def zoneCast : JoinRule where
  kind := .identifier
  middle n := n.isA (· == .timeZone)
  before _ := true
  after := follows fun n => n.isWord ["AS"] || isQuotedText n

/-- The name of a type with a constant of it. Something has to be before it. -/
def typedConstant : JoinRule where
  kind := .typed
  middle n := n.isA (· == .builtin) || n.isWord ["TIMESTAMP"]
  before _ := true
  after := follows isQuotedText
  span := .after
  grows := false

/-- A constant of a named type with its unit of time. -/
def constantWithUnit : JoinRule where
  kind := .typed
  middle n := n.isGroup [.typed]
  before _ := true
  after := follows fun n => n.isWord ["DAY", "HOUR", "MINUTE", "MONTH", "SECOND", "YEAR"]
  span := .after

/-- Whether a node can be a side of an operation. -/
def isOperand (n : Node) : Bool :=
  n.isGroup [.brackets, .parentheses, .function, .identifier, .operation, .typed]
    || isSimpleValue n || n.isWord ["CURRENT_DATE", "CURRENT_TIME", "CURRENT_TIMESTAMP"]

/-- Two values with an operator. -/
def operation : JoinRule where
  kind := .operation
  middle := Node.isA fun k => k == .operator || k == .star
  before := isOperand
  after := follows isOperand
  grows := false

/-- Whether a node can be a side of a comparison. -/
def isComparable (n : Node) : Bool :=
  n.isGroup [.parentheses, .function, .identifier, .operation, .typed] || isSimpleValue n
    || n.isWord ["NULL"]

/-- Two values with a comparison. -/
def comparison : JoinRule where
  kind := .comparison
  middle := Node.isA (· == .comparison)
  before := isComparable
  after := follows isComparable
  grows := false

/-- A value with AS and the name by which it is known. -/
def namedValue : JoinRule where
  kind := .identifier
  middle n := n.isWord ["AS"]
  before n := n.isWord ["NULL"] || !n.isA TokenKind.isKeyword
  after := follows fun n => !n.isA ([.query, .definition, .preamble].contains ·)

/-- A name with the value it gets, up to the end of the statement. -/
def assignment : JoinRule where
  kind := .assignment
  middle n := n.isSign .assign ":="
  before n := !n.isA (· == .keyword)
  after := follows fun n => !n.isA (· == .keyword)
  span := .upTo (Node.isSign .punctuation ";")

/-- Whether a node can be an item of a list. -/
def isListItem (n : Node) : Bool :=
  n.isGroup [.function, .cases, .identifier, .comparison, .list, .operation] || isSimpleValue n
    || n.isA fun k => k == .keyword || k == .star

/-- Items with commas between them. -/
def listOfItems : JoinRule where
  kind := .list
  middle n := n.isSign .punctuation ","
  before := isListItem
  after := follows isListItem

/-! ## All of it -/

/-- The steps, in their order. -/
def steps : List Step :=
  .onTop comments :: pairRules.map .pairs ++
    [.within (· == .window) windows,
    .within (· == .function) functions,
    .within (· == .filter) filters,
    .joins qualifiedName,
    .joinsOnTop indexedName,
    .within (· == .identifier) identifiers,
    .within (· == .identifier) directions,
    .joins typeCast,
    .joins zoneCast,
    .joins typedConstant,
    .joins constantWithUnit,
    .joins operation,
    .joins comparison,
    .joins namedValue,
    .within (fun _ => false) aliases,
    .joins assignment,
    .within (fun _ => false) trailingComments,
    .joins listOfItems,
    .within (· == .rows) rowsOfValues]

/-- Groups the tokens of a statement. -/
def ofStatement (tokens : List Token) : Except Fault Node :=
  applySteps steps (.group .statement (tokens.map .leaf))

/-- Groups the tokens of some statements, one after the other. -/
def ofStatements : List (List Token) → Except Fault (List Node)
  | [] => .ok []
  | tokens :: rest =>
    match ofStatement tokens with
    | .error fault => .error fault
    | .ok n => (ofStatements rest).map (n :: ·)

/-- Groups the tokens of a text, statement by statement. -/
def ofTokens (tokens : List Token) : Except Fault (List Node) :=
  ofStatements (statements (tokens.map Token.lookUp))

end Grouping

end SqlLayout
