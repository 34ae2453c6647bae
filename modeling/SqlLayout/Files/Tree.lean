import SqlLayout.Files.Route
import SqlLayout.Text.Utf8

/-! # File trees

A tree maps paths from the root to files and folders. The root is always a folder. Everything below
a path has that path as its beginning. Names and whole routes have a greatest length in bytes, and
some files and folders may be closed to those who look.
-/

namespace SqlLayout

/-- A path from the root, part by part. -/
abbrev Path := List Text

def Path.text (p : Path) : Text :=
  '/' :: Text.joinWith ['/'] p

/-- What stands at a path. -/
inductive Node where
  | folder
  /-- A file with its contents. -/
  | file (bytes : Bytes)
  deriving DecidableEq

/-- Files and folders by their paths. -/
abbrev Tree := List (Path × Node)

/-- Why nothing can be done with a file or folder. -/
inductive FileTrouble where
  | notFound
  | notPermitted
  | alreadyThere
  /-- It is a file, or a file is in the way. -/
  | notAFolder
  | isAFolder
  /-- It cannot be removed, being the current folder. -/
  | notRemovable
  | nameTooLong
  | notEmpty
  deriving DecidableEq

/-- The number of a trouble. -/
def FileTrouble.number : FileTrouble → Nat
  | notFound => 2
  | notPermitted => 13
  | alreadyThere => 17
  | notAFolder => 20
  | isAFolder => 21
  | notRemovable => 22
  | nameTooLong => 36
  | notEmpty => 39

def FileTrouble.words : FileTrouble → Text
  | notFound => "No such file or directory".toList
  | notPermitted => "Permission denied".toList
  | alreadyThere => "File exists".toList
  | notAFolder => "Not a directory".toList
  | isAFolder => "Is a directory".toList
  | notRemovable => "Invalid argument".toList
  | nameTooLong => "File name too long".toList
  | notEmpty => "Directory not empty".toList

/-- Why a step on files and folders breaks off. -/
inductive FileFault where
  /-- There is a trouble with a file or folder, which is given as messages show it. -/
  | trouble (trouble : FileTrouble) (shown : Text)
  /-- A name has a character that no name may have. -/
  | nulInName
  deriving DecidableEq

def FileFault.message : FileFault → Text
  | trouble t shown =>
    "[Errno ".toList ++ Nat.toDigits 10 t.number ++ "] ".toList ++ t.words ++ ": ".toList ++ shown
  | nulInName => "embedded null byte".toList

/-- What a route leads to. -/
inductive Destination where
  /-- A file or folder that is there. -/
  | node (path : Path) (node : Node)
  | missing
  /-- Nothing, because a file is in the way. -/
  | blocked
  /-- Nobody can tell. -/
  | hidden (trouble : FileTrouble)
  deriving DecidableEq

/-- What can be seen of a tree. -/
structure Access where
  /-- The files that cannot be read, and the folders whose names cannot be listed. -/
  unreadable : List Path := []
  /-- The folders in which nothing can be looked at. Their names may be listed. -/
  closed : List Path := []
  /-- What breaks off a search through folders when it comes to one, besides the length of its
      path: folders too deep within each other, say. -/
  breaks : Path → Option FileFault := fun _ => none

/-- The greatest number of bytes in a name. -/
def maxNameBytes : Nat := 255

/-- The greatest number of bytes in the text of a route. -/
def maxRouteBytes : Nat := 4095

/-- Whether a text has more bytes than there may be. -/
def Text.isLongerThan (limit : Nat) (s : Text) : Bool :=
  limit < (Utf8.encode s).length

namespace Tree

/-- What stands at a path. -/
def get? (t : Tree) (p : Path) : Option Node :=
  if p.isEmpty then some .folder else t.lookup p

/-- Puts a file or folder at a path. -/
def put (p : Path) (node : Node) : Tree → Tree
  | [] => [(p, node)]
  | (q, old) :: rest => if q = p then (q, node) :: rest else (q, old) :: put p node rest

/-- The tree without what is below a path. -/
def clear (t : Tree) (p : Path) : Tree :=
  t.filter fun e => !(p.isPrefixOf e.1 && e.1 != p)

/-- The tree without some of what is below a path. -/
def thin (t : Tree) (p : Path) (gone : List Path) : Tree :=
  t.filter fun e => !(p.isPrefixOf e.1 && e.1 != p && gone.contains e.1)

/-- The tree without a path and what is below it. -/
def remove (t : Tree) (p : Path) : Tree :=
  t.filter fun e => !p.isPrefixOf e.1

def below (t : Tree) (p : Path) : List Path :=
  (t.map (·.1)).filter fun q => p.isPrefixOf q && q != p

def isFolder (t : Tree) (p : Path) : Bool :=
  t.get? p == some .folder

/-- Follows parts from a path on. Two dots lead to the folder around the current one. -/
def walk (access : Access) (t : Tree) : (here : Path) → List Text → Destination
  | here, [] =>
    match t.get? here with
    | some node => .node here node
    | none => .missing
  | here, part :: rest =>
    match t.get? here with
    | none => .missing
    | some (.file _) => .blocked
    | some .folder =>
      if access.closed.contains here then .hidden .notPermitted
      else if part = "..".toList then t.walk access here.dropLast rest
      else if part.isLongerThan maxNameBytes then .hidden .nameTooLong
      else t.walk access (here ++ [part]) rest

/-- Follows a route from a folder on. -/
def follow (access : Access) (t : Tree) (home : Path) (r : Route) : Destination :=
  if r.hasNul then .missing
  else if r.text.isLongerThan maxRouteBytes then .hidden .nameTooLong
  else t.walk access (if r.start = .here then home else []) r.parts

/-- What a path leads to. -/
def look (access : Access) (t : Tree) (p : Path) : Destination :=
  t.follow access [] ⟨.root, p⟩

/-- Why it cannot be told what a path leads to. -/
def hides? (access : Access) (t : Tree) (p : Path) : Option FileFault :=
  match t.look access p with
  | .hidden trouble => some (.trouble trouble (quoted p.text))
  | _ => none

/-- Whether it can be told what a path leads to. -/
def shows (access : Access) (t : Tree) (p : Path) : Bool :=
  (t.hides? access p).isNone

end Tree

/-- The path that a route gives by its text alone: two dots take back the part before them. -/
def Route.absolute (home : Path) (r : Route) : Path :=
  r.parts.foldl (fun p part => if part = "..".toList then p.dropLast else p ++ [part])
    (if r.start = .here then home else [])

namespace Path

/-- The order of texts by their code points. -/
def textBefore : Text → Text → Bool
  | _, [] => false
  | [], _ :: _ => true
  | a :: s, b :: t => if a = b then textBefore s t else a.toNat < b.toNat

/-- The order of paths part by part. -/
def before : Path → Path → Bool
  | _, [] => false
  | [], _ :: _ => true
  | a :: p, b :: q => if a = b then before p q else textBefore a b

/-- Puts a path in its place among sorted paths. -/
def insert (p : Path) : List Path → List Path
  | [] => [p]
  | q :: rest => if before q p then q :: insert p rest else p :: q :: rest

def sort (paths : List Path) : List Path :=
  paths.foldr insert []

end Path

/-- The folders on the way from a folder to a path, with the folder itself. -/
def Path.wayFrom (root p : Path) : List Path :=
  (List.range' root.length (p.length - root.length)).map p.take

namespace Access

/-- Whether a search from a folder on comes to a path. Every folder on the way has to be listed, and
    each folder but the last has to let the next one be looked at. -/
def reaches (access : Access) (root p : Path) : Bool :=
  (Path.wayFrom root p).all fun folder =>
    !access.unreadable.contains folder &&
      (folder == p.dropLast || !access.closed.contains folder)

/-- What breaks off a search when it comes to a folder. -/
def fault? (access : Access) (folder : Path) : Option FileFault :=
  if folder.text.isLongerThan maxRouteBytes then
    some (.trouble .nameTooLong (quoted folder.text))
  else access.breaks folder

end Access

/-- What a search from a folder on finds below it. -/
def Tree.search (access : Access) (t : Tree) (root : Path) : Except FileFault (List Path) :=
  let found := (t.below root).filter (access.reaches root)
  match (root :: found.filter t.isFolder).findSome? access.fault? with
  | some fault => .error fault
  | none => .ok found

end SqlLayout
