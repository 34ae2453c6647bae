import SqlLayout.CommandLine.Run

/-! # The program

Loads the files and folders that a call may look at, makes the call, and carries out what it
changed. No linter is attached, so there are no violations.
-/

namespace SqlLayout.Program

open CommandLine

/-- The contents of a file as bytes. -/
def bytesOf (contents : ByteArray) : Bytes :=
  contents.toList

/-- Whether a file can be opened for writing. -/
def isWritable (name : String) : IO Bool := do
  try
    let _ ← IO.FS.Handle.mk name .append
    return true
  catch _ => return false

/-- The names in a folder. -/
def namesIn (name : String) : IO (List String) := do
  let entries ← (System.mkFilePath [name]).readDir
  return (entries.map (·.fileName)).toList

/-- What was found on the disk. -/
structure Found where
  tree : Tree := []
  /-- The files that cannot be written. -/
  readonly : List Path := []
  /-- The files and folders that cannot be read. -/
  unreadable : List Path := []

/-- Adds what stands at a path, and everything below it. -/
partial def load (found : Found) (p : Path) : IO Found := do
  let name := String.ofList p.text
  let here := System.mkFilePath [name]
  if ← here.isDir then
    let found := { found with tree := found.tree.put p .folder }
    match ← (namesIn name).toBaseIO with
    | .ok names => names.foldlM (fun found part => load found (p ++ [part.toList])) found
    | .error _ => return { found with unreadable := found.unreadable ++ [p] }
  else if ← here.pathExists then
    let readonly := if ← isWritable name then found.readonly else found.readonly ++ [p]
    match ← (IO.FS.readBinFile name).toBaseIO with
    | .ok contents =>
      return { found with tree := found.tree.put p (.file (bytesOf contents)), readonly }
    | .error _ =>
      return { tree := found.tree.put p (.file []), readonly, unreadable := found.unreadable ++ [p] }
  else return found

/-- Carries out on the disk what makes one tree of another. -/
def carryOut (old new : Tree) : IO Unit := do
  for (p, _) in old.reverse do
    if (new.get? p).isNone then
      let name := String.ofList p.text
      if old.isFolder p then IO.FS.removeDir name else IO.FS.removeFile name
  for (p, node) in new do
    if old.get? p != some node then
      let name := String.ofList p.text
      match node with
      | .folder => IO.FS.createDirAll name
      | .file bytes => IO.FS.writeBinFile name (ByteArray.mk bytes.toArray)

/-- Standard input, if a call looks at it. -/
def inputFor (texts : List Text) : IO Bytes := do
  match readArguments texts with
  | .ok (.work arguments) =>
    if arguments.path = ['-'] then
      return bytesOf (← (← IO.getStdin).readBinToEnd)
    else return []
  | _ => return []

/-- Makes a call with the files on the disk. -/
def run (texts : List Text) : IO UInt32 := do
  let home := Route.partsOf (← IO.currentDir).toString.toList
  let named := texts.map fun s => (Route.ofText s).absolute home
  let outside := named.filter fun p => !home.isPrefixOf p
  let found ← (home :: outside).foldlM load {}
  let around : Surroundings :=
    { home, stdin := ← inputFor texts, readonly := found.readonly, unreadable := found.unreadable }
  let ending := call around texts found.tree
  carryOut found.tree ending.session.tree
  IO.print (String.ofList ending.session.out)
  IO.eprint (String.ofList ending.errors)
  match ending.code with
  | .ok code => return code.toUInt32
  | .error breakdown =>
    IO.eprintln (String.ofList breakdown.message)
    return exitChanged.toUInt32

end SqlLayout.Program

/-- The program, with its arguments. -/
def main (arguments : List String) : IO UInt32 :=
  SqlLayout.Program.run (arguments.map (·.toList))
