import SqlLayout.Layout

/-! # Serving a host

A host tool first asks for a node of a text and then for the laid out text of a node. The node just
carries the text. The formatter's own options are named values within the options of the host.
-/

namespace SqlLayout

namespace Host

/-- The name of the nodes and of their language. -/
def nodeType : Text :=
  "sql".toList

/-- The name under which the options of a host hold those of the formatter. -/
def optionsKey : Text :=
  "sqlFormatter".toList

/-- A language that is served. -/
structure Language where
  name : Text
  parsers : List Text
  extensions : List Text
  /-- The names that editors have for it. -/
  editorIds : List Text

def languages : List Language :=
  [⟨"SQL".toList, [nodeType], [".sql".toList], [nodeType]⟩]

/-- Why a host is not served. -/
inductive Fault where
  | noParser (name : Text)
  | noValue
  | notText (value : Setting)
  /-- The options are not named values. -/
  | options (fault : OptionsFault)

def Fault.message : Fault → Text
  | noParser name => quoted name
  | noValue => quoted "value".toList
  | notText value =>
    "expected string or bytes-like object, got '".toList ++ value.kindName ++ ['\'']
  | options fault => fault.message

def parse (text : Text) : Entries :=
  [("type".toList, .text nodeType), ("value".toList, .text text)]

/-- The node that a parser makes of a text. -/
def parseWith (parser text : Text) : Except Fault Entries :=
  if parser = nodeType then .ok (parse text) else .error (.noParser parser)

/-- Where a node starts and ends in the text of its file: the host is not told. -/
def location : Nat × Nat :=
  (0, 0)

/-- The argument for the formatter in the options of a host. -/
def formatterArgument (argument : OptionsArgument) : Except OptionsFault Setting :=
  match argument with
  | .record _ => .error (.notNamedValues recordKind)
  | .host value =>
    if value.isVoid then .ok .absent
    else match value with
      | .map entries => .ok ((entries.lookup optionsKey).getD .absent)
      | other => .error (.notNamedValues other.kindName)

/-- The laid out text of a node. -/
def print (node : Entries) (argument : OptionsArgument) : Except Fault Text :=
  match formatterArgument argument with
  | .error fault => .error (.options fault)
  | .ok own =>
    match node.lookup "value".toList with
    | none => .error .noValue
    | some value =>
      match Options.ofHost own with
      | .error fault => .error (.options fault)
      | .ok options =>
        match value with
        | .text text => .ok (format options text)
        | other => .error (.notText other)

end Host

end SqlLayout
