import SqlLayout.Config.Document
import SqlLayout.Text.Utf8

/-! # Reading a document in blocks

A config file is read block by block. The bytes of a block become text before any of its lines is
looked at, and all complete lines of a block are looked at before the next block is read. So of two
faults the one in the earlier block wins, and in one block bytes that are no UTF-8 win. What a block
cuts off goes to the next one: the bytes of a character, a carriage return that a line feed may
follow, and a line without its end. Positions of bytes count from where a block starts, with the
bytes that the block before has left.
-/

namespace SqlLayout.Config

/-- Why a file cannot be read. -/
inductive ReadFault where
  | encoding (error : Utf8.Error)
  | document (fault : Fault)
  deriving DecidableEq

/-- The number of bytes in a block that is full. -/
def blockSize : Nat := 8192

/-- The blocks of bytes, given how many bytes the first block has room for and its bytes so far, the
    last one first. -/
def blocksFrom (room : Nat) (block : Bytes) : Bytes → List Bytes
  | [] => if block.isEmpty then [] else [block.reverse]
  | b :: rest =>
    match room with
    | 0 => block.reverse :: blocksFrom (blockSize - 1) [b] rest
    | room + 1 => blocksFrom room (b :: block) rest

def blocks (bytes : Bytes) : List Bytes :=
  blocksFrom blockSize [] bytes

/-- Cutting into blocks loses nothing, and keeps the order. -/
theorem flatten_blocksFrom (room : Nat) (block bytes : Bytes) :
    (blocksFrom room block bytes).flatten = block.reverse ++ bytes := by
  induction bytes generalizing room block with
  | nil =>
      unfold blocksFrom
      split <;> simp_all
  | cons b rest ih =>
      cases room with
      | zero => simp [blocksFrom, ih]
      | succ room => simp [blocksFrom, ih]

theorem flatten_blocks (bytes : Bytes) : (blocks bytes).flatten = bytes := by
  simp [blocks, flatten_blocksFrom]

/-- Whether bytes are the first two of a surrogate. -/
def beginsSurrogate : Bytes → Bool
  | [lead, next] => lead == 0xED && (0xA0 ≤ next && next ≤ 0xBF)
  | _ => false

/-- The text of bytes, and the bytes at their end that may go on. Two bytes of a surrogate may go on
    too, though no third byte would make them a character. -/
def readBytes (bytes : Bytes) : Except Utf8.Error (Text × Bytes) :=
  match Utf8.readFrom 0 none bytes with
  | .ok (s, none) => .ok (s, [])
  | .ok (s, some cut) => .ok (s, bytes.drop (bytes.length - cut.read))
  | .error e =>
    let left := bytes.drop e.position
    if beginsSurrogate left then
      (Utf8.readFrom 0 none (bytes.take e.position)).map fun r => (r.1, left)
    else .error e

/-- The complete lines of a text, and the text that is left. A carriage return at the end is left,
    because it may be half a line end. -/
def completeLines (s : Text) : List Text × Text :=
  let held := if s.getLast? = some '\r' then ['\r'] else []
  let lines := Text.lines (Text.unifyLineEnds (s.take (s.length - held.length)))
  let isComplete (line : Text) : Bool := line.getLast? == some '\n'
  (lines.filter isComplete, (lines.filter (!isComplete ·)).flatten ++ held)

/-- Reads lines, the first of which has the given number, up to the end of the file. -/
def Progress.readRest (p : Progress) (number : Nat) (lines : List Text) : Except Fault Document :=
  match p.readLines number lines with
  | .error fault => .error fault
  | .ok p => p.finish

/-- Reads blocks, given the number of the next line and what the blocks before have left. -/
def Progress.readBlocks (p : Progress) (number : Nat) (bytes : Bytes) (text : Text) :
    List Bytes → Except ReadFault Document
  | [] =>
    match Utf8.decode bytes with
    | .error e => .error (.encoding e)
    | .ok _ =>
      (p.readRest number (Text.lines (Text.unifyLineEnds text))).mapError .document
  | block :: rest =>
    match readBytes (bytes ++ block) with
    | .error e => .error (.encoding e)
    | .ok (s, bytes) =>
      let (lines, text) := completeLines (text ++ s)
      match p.readLines number lines with
      | .error fault => .error (.document fault)
      | .ok p => p.readBlocks (number + lines.length) bytes text rest

/-- The document that bytes spell. -/
def Document.ofBytes (bytes : Bytes) : Except ReadFault Document :=
  ({} : Progress).readBlocks 1 [] [] (blocks bytes)

end SqlLayout.Config
