import SqlLayout.Config.Blocks
import SqlLayout.Config.Interpolation
import SqlLayout.Files.Tree
import SqlLayout.Options.Validation

/-! # Loading options from a config file

Of a config file only one section counts. Its options may go by either of their names; they are
expanded, freed of blanks and validated. A file that is not there is a fault; a folder and a file
that cannot be read count as an empty file.
-/

namespace SqlLayout.Config

/-- The section that holds the options. -/
def sectionName : Text :=
  "sql_restyle".toList

/-- What stands at the path of a config file. -/
inductive Source where
  | missing
  /-- A folder, or a file that cannot be read. -/
  | unread
  | file (bytes : Bytes)
  /-- Nobody can tell. -/
  | unreachable (fault : FileFault)

/-- What stands at the end of a route, as a config file. -/
def Source.find (tree : Tree) (home : Path) (route : Route) (access : Access := {}) : Source :=
  match tree.follow access home route with
  | .missing | .blocked => .missing
  | .hidden trouble => .unreachable (.trouble trouble (quoted route.text))
  | .node _ .folder => .unread
  | .node p (.file bytes) => if access.unreadable.contains p then .unread else .file bytes

/-- Why no options can be loaded. -/
inductive LoadFault where
  | missing (path : Text)
  /-- It cannot be told whether there is a file. -/
  | unreachable (fault : FileFault)
  | encoding (error : Utf8.Error)
  | document (path : Text) (fault : Fault)
  /-- An option cannot be expanded; its raw value is given. -/
  | reference (path option raw : Text) (fault : ReferenceFault)
  /-- An option has a value that is not allowed. -/
  | value (fault : ValidationFault)

/-- A path as messages about the contents of a file show it. -/
def shownPath (path : Text) : Text :=
  "PosixPath(".toList ++ quoted path ++ [')']

/-- A line number as messages show it. -/
def shownLine (n : Nat) : Text :=
  "[line ".toList ++ Text.padLeft 2 ' ' (Nat.toDigits 10 n) ++ [']']

def Fault.message (path : Text) : Fault → Text
  | duplicateSection line name =>
    "While reading from ".toList ++ shownPath path ++ ' ' :: shownLine line
      ++ ": section ".toList ++ quoted name ++ " already exists".toList
  | duplicateOption line home name =>
    "While reading from ".toList ++ shownPath path ++ ' ' :: shownLine line
      ++ ": option ".toList ++ quoted name ++ " in section ".toList ++ quoted home
      ++ " already exists".toList
  | noSection line raw =>
    "File contains no section headers.\nfile: ".toList ++ shownPath path ++ ", line: ".toList
      ++ Nat.toDigits 10 line ++ '\n' :: quoted raw
  | unreadable lines =>
    "Source contains parsing errors: ".toList ++ shownPath path
      ++ lines.flatMap fun l => "\n\t".toList ++ shownLine l.1 ++ ": ".toList ++ quoted l.2

/-- The fault in words, for an option with a raw value. -/
def ReferenceFault.message (option raw : Text) : ReferenceFault → Text
  | stray rest => "'%' must be followed by '%' or '(', found: ".toList ++ quoted rest
  | broken rest => "bad interpolation variable reference ".toList ++ quoted rest
  | missing name =>
    "Bad value substitution: option ".toList ++ quoted option ++ " in section ".toList
      ++ quoted sectionName ++ " contains an interpolation key ".toList ++ quoted name
      ++ " which is not a valid option name. Raw value: ".toList ++ quoted raw
  | tooDeep =>
    "Recursion limit exceeded in value substitution: option ".toList ++ quoted option
      ++ " in section ".toList ++ quoted sectionName
      ++ " contains an interpolation key which cannot be substituted in ".toList
      ++ Nat.toDigits 10 maxDepth ++ " steps. Raw value: ".toList ++ quoted raw

def LoadFault.message : LoadFault → Text
  | missing path => "Config file does not exist: ".toList ++ path
  | unreachable fault => fault.message
  | encoding error => error.message
  | document path fault =>
    "Invalid config file ".toList ++ path ++ ": ".toList ++ fault.message path
  | reference path option raw fault =>
    "Invalid config file ".toList ++ path ++ ": ".toList ++ fault.message option raw
  | value fault => fault.message

/-- The name that hosts use for an option of a config file. -/
def hostNameOf (name : Text) : Text :=
  match OptionName.ofFieldName? name with
  | some option => option.hostName
  | none => name

/-- Expands options one by one and puts them under their host names; a later one takes the place
    of an earlier one with the same host name. -/
def collect (path : Text) (values : List (Text × Text)) (found : Entries) :
    List Entry → Except LoadFault Entries
  | [] => .ok found
  | e :: rest =>
    match expand values maxDepth e.value with
    | .error fault => .error (.reference path e.name e.value fault)
    | .ok value =>
      collect path values (found.assign (hostNameOf e.name) (.text value.trim)) rest

/-- The options in the section that counts. -/
def Document.options (path : Text) (d : Document) : Except LoadFault Entries :=
  if d.sections.contains sectionName then
    let entries := d.merged sectionName
    match collect path (entries.map fun e => (e.name, e.value)) [] entries with
    | .error fault => .error fault
    | .ok found => (validate found).mapError .value
  else .ok []

/-- The options in what stands at the path of a config file. -/
def load (path : Text) : Source → Except LoadFault Entries
  | .missing => .error (.missing path)
  | .unreachable fault => .error (.unreachable fault)
  | .unread => .ok []
  | .file bytes =>
    match Document.ofBytes bytes with
    | .error (.encoding e) => .error (.encoding e)
    | .error (.document fault) => .error (.document path fault)
    | .ok d => d.options path

end SqlLayout.Config
