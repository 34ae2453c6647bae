import SqlLayout.Token.Vocabulary

/-! # Groups

The tokens of a statement are gathered into groups, and groups into groups. A node is a token or a
group of nodes. What a group is is told by its kind; the texts of its tokens, one after the other,
stay the text that was read.
-/

namespace SqlLayout

namespace Grouping

/-- What a group is. -/
inductive Kind where
  | statement
  /-- Comments in a row. -/
  | comment
  | brackets
  | parentheses
  | cases
  | condition
  | loop
  | block
  | window
  | function
  /-- The conditions of a query. -/
  | filter
  /-- A name, with all that belongs to it. -/
  | identifier
  /-- A constant of a named type. -/
  | typed
  | operation
  | comparison
  | assignment
  | list
  /-- Rows of values. -/
  | rows
  deriving DecidableEq

/-- A token, or a group of nodes. -/
inductive Node where
  | leaf (token : Token)
  | group (kind : Kind) (items : List Node)

namespace Node

/-- Whether a node is a token that something holds of. -/
def isLeaf (accepts : Token → Bool) : Node → Bool
  | leaf token => accepts token
  | group _ _ => false

/-- Whether a node is a token of a kind that is asked for. -/
def isA (accepts : TokenKind → Bool) : Node → Bool :=
  isLeaf fun t => accepts t.kind

def isGroup (kinds : List Kind) : Node → Bool
  | leaf _ => false
  | group kind _ => kinds.contains kind

def isAnyGroup : Node → Bool
  | leaf _ => false
  | group _ _ => true

def isBlank : Node → Bool :=
  isA TokenKind.isBlank

def isSign (kind : TokenKind) (text : String) : Node → Bool :=
  isLeaf fun t => t.kind == kind && t.text == text.toList

/-- Whether a node is a plain keyword, one of some. -/
def isWord (words : List String) : Node → Bool :=
  isLeaf fun t => t.kind == .keyword && Vocabulary.isOneOf words (upper t.text)

/-- A node with more nodes after it, as a group of a kind: a group that has the kind grows. -/
def grow (kind : Kind) (more : List Node) : Node → Node
  | leaf token => group kind (leaf token :: more)
  | group k items => if k = kind then group k (items ++ more) else group kind (group k items :: more)

mutual

/-- The node after a change to the items of its groups, inner groups first. Groups of a kind that is
    spared are left as they are, with all that is in them. -/
def rework (spared : Kind → Bool) (change : Kind → List Node → List Node) : Node → Node
  | leaf token => leaf token
  | group kind items =>
    if spared kind then group kind items else group kind (change kind (reworkAll spared change items))

def reworkAll (spared : Kind → Bool) (change : Kind → List Node → List Node) :
    List Node → List Node
  | [] => []
  | n :: rest => n.rework spared change :: reworkAll spared change rest

end

mutual

/-- How many groups lie one in another, the node itself included. -/
def height : Node → Nat
  | leaf _ => 0
  | group _ items => heightOfAll items + 1

def heightOfAll : List Node → Nat
  | [] => 0
  | n :: rest => max n.height (heightOfAll rest)

end

end Node

/-- Why tokens cannot be grouped. -/
inductive Fault where
  | tooDeep
  | tooMany
  /-- A single step nests groups so deep that their text cannot be read any more. -/
  | tooHigh
  deriving DecidableEq

/-- The deepest nesting of groups, the statement aside. -/
def maxDepth : Nat := 100

/-- The greatest number of items of a group. -/
def maxItems : Nat := 10000

/-- The greatest height of a group that one step can make. -/
def maxHeight : Nat := 980

def Fault.message : Fault → Text
  | tooDeep =>
    "Maximum grouping depth exceeded (".toList ++ Nat.toDigits 10 maxDepth ++ ").".toList
  | tooMany =>
    "Maximum number of tokens exceeded (".toList ++ Nat.toDigits 10 maxItems ++ ").".toList
  | tooHigh => "Maximum recursion depth exceeded".toList

/-- Refuses a group that is nested too deep, or has too many items. -/
def allow (depth : Nat) (items : List Node) : Except Fault Unit :=
  if maxDepth < depth then .error .tooDeep
  else if maxItems < items.length then .error .tooMany
  else .ok ()

end Grouping

end SqlLayout
