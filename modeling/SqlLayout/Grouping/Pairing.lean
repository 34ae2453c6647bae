import SqlLayout.Grouping.Node

/-! # Pairs

Nodes that open something and nodes that close it are paired like parentheses, and every pair
becomes a group with all that is between. What has no partner stays where it is.
-/

namespace SqlLayout

namespace Grouping

/-- What is paired, and what the pairs become. -/
structure PairRule where
  kind : Kind
  opens : Node → Bool
  closes : Node → Bool

namespace PairRule

/-- Pairs nodes, given the nodes since the last one that is open and those around it. -/
def pairFrom (rule : PairRule) (inner : List Node) (outer : List (List Node)) :
    List Node → List Node
  | [] => (inner ++ outer.flatten).reverse
  | n :: rest =>
    if rule.opens n then rule.pairFrom [n] (inner :: outer) rest
    else
      match rule.closes n, outer with
      | true, around :: others =>
        rule.pairFrom (.group rule.kind (n :: inner).reverse :: around) others rest
      | _, _ => rule.pairFrom (n :: inner) outer rest

/-- Pairs the nodes of one group. -/
def pair (rule : PairRule) (items : List Node) : List Node :=
  rule.pairFrom [] [] items

mutual

/-- Pairs nodes within a node at some depth. -/
def applyTo (rule : PairRule) (depth : Nat) : Node → Except Fault Node
  | .leaf token => .ok (.leaf token)
  | .group kind items =>
    match allow depth items with
    | .error fault => .error fault
    | .ok () => (rule.applyToAll (depth + 1) items).map fun items => .group kind (rule.pair items)

def applyToAll (rule : PairRule) (depth : Nat) : List Node → Except Fault (List Node)
  | [] => .ok []
  | n :: rest =>
    match rule.applyTo depth n with
    | .error fault => .error fault
    | .ok n => (rule.applyToAll depth rest).map (n :: ·)

end

end PairRule

/-- Pairs of keywords. -/
def PairRule.ofWords (kind : Kind) (opening closing : List String) : PairRule where
  kind := kind
  opens := Node.isWord opening
  closes := Node.isWord closing

/-- Pairs of signs. -/
def PairRule.ofSigns (kind : Kind) (opening closing : String) : PairRule where
  kind := kind
  opens := Node.isSign .punctuation opening
  closes := Node.isSign .punctuation closing

/-- All pairs, in the order in which they are sought. -/
def pairRules : List PairRule :=
  [.ofSigns .brackets "[" "]",
  .ofSigns .parentheses "(" ")",
  .ofWords .cases ["CASE"] ["END"],
  .ofWords .condition ["IF"] ["END IF"],
  .ofWords .loop ["FOR", "FOREACH"] ["END LOOP"],
  .ofWords .block ["BEGIN"] ["END"]]

end Grouping

end SqlLayout
