import SqlLayout.Grouping.Node

/-! # Joining

Other groups are made of three parts: a node in the middle, the one before it and the one after it,
blanks aside. The nodes of a group are looked at from left to right; the node that a group was
joined with is looked at again, as it may be the middle of the next group. Places count from the
nodes as they are by then, so a group that took nodes from further on shifts those after it.
-/

namespace SqlLayout

namespace Grouping

/-- Which nodes around the middle are joined. -/
inductive Span where
  /-- The node before, the middle, and the node after. -/
  | around
  /-- The middle and the node after. -/
  | after
  /-- The node before and the middle. -/
  | before
  /-- All three, or the first two if the node after is not fit. -/
  | fitting (fits : Node → Bool)
  /-- All three, and what follows up to a node, if there is one. -/
  | upTo (ends : Node → Bool)

/-- What is joined. -/
structure JoinRule where
  kind : Kind
  middle : Node → Bool
  before : Node → Bool
  /-- Whether a node, or nothing, can be after the middle. -/
  after : Option Node → Bool
  /-- Which nodes are joined. -/
  span : Span := .around
  /-- Whether a group of the kind grows instead of becoming a part of another one. -/
  grows : Bool := true

/-- The first node from a place on of which something holds, with its place. -/
def findFrom (accepts : Node → Bool) (start : Nat) (items : List Node) : Option (Nat × Node) :=
  let rest := items.drop start
  let count := (rest.takeWhile fun n => !accepts n).length
  rest[count]?.map fun n => (start + count, n)

/-- The next node after a place that is no blank. -/
def nextAfter (place : Nat) (items : List Node) : Option (Nat × Node) :=
  findFrom (fun n => !n.isBlank) (place + 1) items

/-- The first and the last place that a span covers, with the middle at a place, a node before it and
    a node after it or none. -/
def Span.places (span : Span) (items : List Node) (before middle : Nat) (after : Option (Nat × Node)) :
    Nat × Nat :=
  let last := (after.map (·.1)).getD middle
  match span with
  | .around => (before, last)
  | .after => (middle, last)
  | .before => (before, middle)
  | .fitting fits => (before, if after.any fun a => fits a.2 then last else middle)
  | .upTo ends => (before, ((findFrom ends (last + 1) items).map (·.1)).getD last)

/-- The nodes with those from one place to another in a group. -/
def joinPlaces (kind : Kind) (grows : Bool) (first last : Nat) (items : List Node) : List Node :=
  match items.drop first with
  | [] => items ++ [.group kind []]
  | n :: rest =>
    let joined :=
      if grows && n.isGroup [kind] then n.grow kind (rest.take (last - first))
        :: rest.drop (last - first)
      else .group kind ((n :: rest).take (last + 1 - first)) :: (n :: rest).drop (last + 1 - first)
    items.take first ++ joined

/-- The nodes while they are joined. -/
structure Joining where
  items : List Node
  /-- How many places the nodes to come have moved to the front. -/
  shift : Int := 0
  /-- The last node that was looked at, blanks aside, with its place. -/
  last : Option (Nat × Node) := none

namespace JoinRule

/-- Looks at a node, which is at a place, and joins it with those around it if it can. -/
def look (rule : JoinRule) (place : Nat) (n : Node) (j : Joining) : Joining :=
  match rule.middle n, j.last with
  | true, some (before, prior) =>
    let next := nextAfter place j.items
    if rule.before prior && rule.after (next.map (·.2)) then
      let (first, last) := rule.span.places j.items before place next
      let items := joinPlaces rule.kind rule.grows first last j.items
      ⟨items, j.shift + last - first, items[first]?.map (first, ·)⟩
    else { j with last := some (place, n) }
  | _, _ => { j with last := some (place, n) }

/-- Looks at the nodes to come, the first of which was at a place before any were joined. Also tells
    which of them were looked at: a node may have moved beyond the front. -/
def joinFrom (rule : JoinRule) (place : Nat) (j : Joining) : List Node → Joining × List Bool
  | [] => (j, [])
  | n :: rest =>
    let now := (place : Int) - j.shift
    let seen := 0 ≤ now
    let done := rule.joinFrom (place + 1) (if seen && !n.isBlank then rule.look now.toNat n j else j)
      rest
    (done.1, seen :: done.2)

/-- Joins the nodes of one group. -/
def join (rule : JoinRule) (items : List Node) : List Node :=
  (rule.joinFrom 0 { items } items).1.items

/-- Which nodes of one group are looked at. -/
def looksAt (rule : JoinRule) (items : List Node) : List Bool :=
  (rule.joinFrom 0 { items } items).2

mutual

/-- Joins nodes within a node at some depth. A group of the kind is left as it is. -/
def applyTo (rule : JoinRule) (depth : Nat) : Node → Except Fault Node
  | .leaf token => .ok (.leaf token)
  | .group kind items =>
    if kind = rule.kind then .ok (.group kind items)
    else
      match allow depth items with
      | .error fault => .error fault
      | .ok () =>
        (rule.applyToAll (depth + 1) (rule.looksAt items) items).map fun items =>
          .group kind (rule.join items)

/-- Joins nodes within each of some nodes at some depth that is looked at. -/
def applyToAll (rule : JoinRule) (depth : Nat) : List Bool → List Node → Except Fault (List Node)
  | _, [] => .ok []
  | seen, n :: rest =>
    match if seen.headD true then rule.applyTo depth n else .ok n with
    | .error fault => .error fault
    | .ok n => (rule.applyToAll depth seen.tail rest).map (n :: ·)

end

/-- Joins the nodes of a statement, but not those within its groups. -/
def applyOnTop (rule : JoinRule) : Node → Except Fault Node
  | .leaf token => .ok (.leaf token)
  | .group kind items => (allow 0 items).map fun () => .group kind (rule.join items)

end JoinRule

end Grouping

end SqlLayout
