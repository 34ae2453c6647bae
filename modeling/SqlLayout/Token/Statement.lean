import SqlLayout.Text.Basic
import SqlLayout.Token.Vocabulary

/-! # Statements

Tokens are cut into statements after semicolons. A semicolon within parentheses or within a block
does not end a statement. How deep a place is within them is counted by the words that open and
close blocks, which is all that is known before tokens are grouped.
-/

namespace SqlLayout

namespace Statement

/-- What is known of the statement so far. -/
structure Depth where
  /-- How many more parentheses and blocks were opened than closed. -/
  level : Int := 0
  /-- How many blocks that begin with BEGIN are open. -/
  blocks : Nat := 0
  /-- Whether the statement defines something. -/
  defines : Bool := false
  /-- Whether a CASE is open in the block of a definition. -/
  inCase : Bool := false
  /-- Whether BEGIN came last, blanks and comments aside. -/
  begun : Bool := false

namespace Depth

/-- Words that tell after BEGIN that a transaction begins and no block. -/
def transactionWords : List String :=
  ["TRANSACTION", "WORK", "TRAN", "DISTRIBUTED", "DEFERRED", "IMMEDIATE", "EXCLUSIVE"]

/-- Whether a definition is within one of its blocks. -/
def inBody (d : Depth) : Bool :=
  d.defines && 0 < d.blocks

/-- Takes back the last BEGIN. -/
def endBlock (d : Depth) : Depth :=
  { d with blocks := d.blocks - 1 }

/-- After a keyword in capitals. -/
def afterKeyword (d : Depth) (kind : TokenKind) (word : Text) : Depth :=
  let isOneOf (words : List String) : Bool := Vocabulary.isOneOf words word
  if kind = .definition && "CREATE".toList.isPrefixOf word then { d with defines := true }
  else if isOneOf ["DECLARE"] && d.defines && d.blocks == 0 then { d with level := d.level + 1 }
  else if isOneOf ["BEGIN"] then
    { d with
      blocks := d.blocks + 1
      begun := true
      level := if d.defines then d.level + 1 else d.level }
  else if d.begun && kind = .keyword && isOneOf transactionWords then
    { d.endBlock with begun := false }
  else if isOneOf ["END"] then
    if d.inCase then { d with inCase := false, level := d.level - 1 }
    else { d.endBlock with level := d.level - 1 }
  else if isOneOf ["IF", "FOR", "WHILE"] && d.inBody then { d with level := d.level + 1 }
  else if isOneOf ["CASE"] && d.inBody then { d with level := d.level + 1, inCase := true }
  else if isOneOf ["END IF", "END FOR", "END WHILE"] && d.inBody then
    { d with level := d.level - 1 }
  else d

def after (d : Depth) (t : Token) : Depth :=
  if t.kind = .punctuation then
    if t.text = ['('] then { d with level := d.level + 1 }
    else if t.text = [')'] then { d with level := d.level - 1 }
    else d
  else if t.kind.isKeyword then d.afterKeyword t.kind (upper t.text)
  else d

end Depth

def isSemicolon (t : Token) : Bool :=
  t.kind == .punctuation && t.text == [';']

/-- Whether a token is the word that sends a batch, which is in capitals, with a count or none. -/
def isBatchEnd (t : Token) : Bool :=
  t.kind == .keyword && t.text.takeWhile (!isBlank ·) == "GO".toList

/-- Whether a token says nothing about what BEGIN began. -/
def isSilent (t : Token) : Bool :=
  t.kind.isBlank || t.kind == .lineComment || t.kind == .blockComment
    || (t.kind == .keyword && upper t.text == "BEGIN".toList)

/-- What has been read: the tokens of the statement, the last one first, and whether it has ended. -/
structure Reading where
  tokens : List Token := []
  /-- What is known of the statement. -/
  depth : Depth := {}
  /-- Whether only blanks and comments may still belong to it. -/
  ended : Bool := false

/-- Reads a token of the statement. A semicolon right after BEGIN tells that no block began. -/
def Reading.add (r : Reading) (t : Token) : Reading :=
  let depth := r.depth.after t
  let tokens := t :: r.tokens
  if isSemicolon t then
    let depth := if depth.begun then { depth.endBlock with begun := false } else depth
    { tokens, depth, ended := r.ended || (depth.level ≤ 0 && depth.blocks == 0) }
  else if isBatchEnd t then { tokens, depth, ended := true }
  else if isSilent t then { tokens, depth, ended := r.ended }
  else { tokens, depth := { depth with begun := false }, ended := r.ended }

/-- Whether a token may follow the end of a statement and still belong to it. -/
def trails (t : Token) : Bool :=
  t.kind == .space || t.kind == .lineComment

/-- The statements of tokens, after what has been read. Blanks alone are none. -/
def cutFrom (r : Reading) : List Token → List (List Token)
  | [] => if r.tokens.all (·.kind.isBlank) then [] else [r.tokens.reverse]
  | t :: rest =>
    if r.ended && !trails t then r.tokens.reverse :: cutFrom (({} : Reading).add t) rest
    else cutFrom (r.add t) rest

end Statement

def statements (tokens : List Token) : List (List Token) :=
  Statement.cutFrom {} tokens

end SqlLayout
