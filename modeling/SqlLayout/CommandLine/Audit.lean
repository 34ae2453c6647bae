import SqlLayout.CommandLine.Session

/-! # Audit folders

Instead of the laid out text the stages can be written, each into a file of its own, in a folder
that is emptied before. The folder has the place of the text's file among all files, below the
audit folder.
-/

namespace SqlLayout.CommandLine

namespace Audit

/-- The name of the folder for standard input. -/
def stdinName : Text :=
  "stdin".toList

/-- The name of the file of a stage. The number has two digits at least. -/
def stageFile (number : Int) (name : Text) : Text :=
  let shown :=
    if number < 0 then writeInt number else Text.padLeft 2 '0' (Nat.toDigits 10 number.natAbs)
  shown ++ '_' :: name ++ ".sql".toList

/-- The folder for the stages of a file that was found below a root, or is the root itself. -/
def folderFor (audit : Route) (tree : Tree) (root file : Path) : Route :=
  let name := file.getLast?.getD []
  let stem := Route.partsOf (splitSuffix name).1
  let around := if tree.isFolder root then (file.drop root.length).dropLast else []
  audit.below (around ++ stem)

/-- Takes away the emptied folder at the end of a route. -/
def takeAway (around : Surroundings) (route : Route) (path : Path) (emptied : Tree) :
    Tree × Option FileFault :=
  match route.parts.getLast? with
  | none => (emptied, some (.trouble .notRemovable (quoted route.text)))
  | some last =>
    if last = "..".toList then
      match emptied.follow around.toAccess around.home route.around with
      | .node _ .folder => (emptied, some (.trouble .notEmpty (quoted route.text)))
      | _ => (emptied, some (.trouble .notFound (quoted route.text)))
    else (emptied.remove path, none)

/-- Removes the folder at the end of a route with everything in it, if it is there. -/
def removeFolder (around : Surroundings) (tree : Tree) (route : Route) : Tree × Option FileFault :=
  match tree.follow around.toAccess around.home route with
  | .missing | .blocked => (tree, none)
  | .hidden trouble => (tree, some (.trouble trouble (quoted route.text)))
  | .node _ (.file _) => (tree, some (.trouble .notAFolder (Config.shownPath route.text)))
  | .node path .folder =>
    match around.torn path with
    | some (gone, fault) => (tree.thin path gone, some fault)
    | none => takeAway around route path (tree.clear path)

/-- What comes of making one folder. -/
inductive Making where
  | done (tree : Tree)
  /-- The folder around it is missing. -/
  | noParent
  | failed (trouble : FileTrouble)

/-- Makes the folder of a name in the folder at the end of a route. -/
def makeOne (around : Surroundings) (tree : Tree) (parent : Route) (name : Text) : Making :=
  match tree.follow around.toAccess around.home parent with
  | .missing => .noParent
  | .hidden trouble => .failed trouble
  | .blocked | .node _ (.file _) => .failed .notAFolder
  | .node path .folder =>
    if around.closed.contains path then .failed .notPermitted
    else if name = "..".toList then .done tree
    else if name.isLongerThan maxNameBytes then .failed .nameTooLong
    else
      match tree.get? (path ++ [name]) with
      | none =>
        if around.sealed.contains path then .failed .notPermitted
        else .done (tree.put (path ++ [name]) .folder)
      | some .folder => .done tree
      | some (.file _) => .failed .alreadyThere

/-- Makes the folder whose parts are given from the last to the first, and those around it. -/
def makeFolders (around : Surroundings) (tree : Tree) (start : Start) :
    (reversed : List Text) → Tree × Option FileFault
  | [] => (tree, none)
  | name :: rest =>
    let parent : Route := ⟨start, rest.reverse⟩
    let shown := quoted (parent.below [name]).text
    match makeOne around tree parent name with
    | .done made => (made, none)
    | .failed trouble => (tree, some (.trouble trouble shown))
    | .noParent =>
      match makeFolders around tree start rest with
      | (made, some fault) => (made, some fault)
      | (made, none) =>
        match makeOne around made parent name with
        | .done all => (all, none)
        | .failed trouble => (made, some (.trouble trouble shown))
        | .noParent => (made, some (.trouble .notFound shown))

/-- Makes the folder at the end of a route, and those around it. -/
def makeFolder (around : Surroundings) (tree : Tree) (route : Route) : Tree × Option FileFault :=
  if route.hasNul then (tree, some .nulInName)
  else makeFolders around tree route.start route.parts.reverse

/-- Writes a file that may be there or not, given its path. -/
def putFile (around : Surroundings) (tree : Tree) (shown : Text) (path : Path) (content : Text) :
    Tree × Option FileFault :=
  if around.readonly.contains path then (tree, some (.trouble .notPermitted shown))
  else (tree.put path (.file (Utf8.encode content)), none)

/-- Writes the file at the end of a route. The folder around it has to be there. -/
def writeFile (around : Surroundings) (tree : Tree) (route : Route) (content : Text) :
    Tree × Option FileFault :=
  let shown := quoted route.text
  if route.hasNul then (tree, some .nulInName)
  else
    match tree.follow around.toAccess around.home route with
    | .hidden trouble => (tree, some (.trouble trouble shown))
    | .blocked => (tree, some (.trouble .notAFolder shown))
    | .node _ .folder => (tree, some (.trouble .isAFolder shown))
    | .node path (.file _) => putFile around tree shown path content
    | .missing =>
      match tree.follow around.toAccess around.home route.around with
      | .node folder .folder =>
        if around.sealed.contains folder then (tree, some (.trouble .notPermitted shown))
        else putFile around tree shown (folder ++ (route.parts.getLast?).toList) content
      | _ => (tree, some (.trouble .notFound shown))

/-- Writes a stage into a folder if stages are to be written, and gives the number of the next
    one. The name of a stage may lead to folders further below. -/
def writeStage (around : Surroundings) (tree : Tree) (folder : Route) (number : Int)
    (name content : Text) (wanted : Bool) : Int × Tree × Option FileFault :=
  let route := folder.below (Route.partsOf (stageFile number name))
  if wanted then (number + 1, writeFile around tree route content)
  else (number + 1, tree, none)

/-- A step of an audit: what is told, and the stage that is written then. -/
structure StageStep where
  told : Text
  name : Text
  content : Text

/-- The steps of an audit of a text. -/
def steps (options : Options) (verbose : Bool) (sql : Text) : List StageStep :=
  let done := stages options.style sql
  let tell (s : Text) : Text := if verbose then s else []
  [⟨[], "original".toList, sql⟩,
    ⟨tell (Trace.spacing options.commaPosition done.spaced), "normalize_spacing".toList,
      done.spaced⟩,
    ⟨tell (Trace.casing options.keywordCase done.cased), "keyword_case".toList, done.cased⟩,
    ⟨tell (Trace.cutting done.clauses), "split_clauses".toList,
      Text.joinWith ['\n'] done.clauses⟩,
    ⟨tell (Trace.assembling options.style.letterCase done.clauses), "final".toList, done.final⟩]

/-- Takes the steps of an audit, the first of which has the given number. -/
def takeSteps (around : Surroundings) (route : Route) (number : Int) (s : Session) :
    List StageStep → Outcome Unit
  | [] => ⟨s, .ok ()⟩
  | step :: rest =>
    let told := s.say step.told
    match writeStage around told.tree route number step.name step.content true with
    | (_, tree, some fault) => ⟨told.withTree tree, .error (.file fault)⟩
    | (next, tree, none) => takeSteps around route next (told.withTree tree) rest

/-- Lays out a text and writes its stages into an emptied folder. -/
def layOut (around : Surroundings) (options : Options) (verbose : Bool) (route : Route)
    (sql : Text) (s : Session) : Outcome Text :=
  match removeFolder around s.tree route with
  | (tree, some fault) => ⟨s.withTree tree, .error (.file fault)⟩
  | (emptied, none) =>
    match makeFolder around emptied route with
    | (tree, some fault) => ⟨s.withTree tree, .error (.file fault)⟩
    | (made, none) =>
      (takeSteps around route 1 (s.withTree made) (steps options verbose sql)).andThen
        fun s _ => ⟨s, .ok (format options sql)⟩

end Audit

end SqlLayout.CommandLine
