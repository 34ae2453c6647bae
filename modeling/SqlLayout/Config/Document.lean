import SqlLayout.Config.Line
import SqlLayout.Text.Basic

/-! # Documents

A config file is a sequence of sections with options. An option goes on in lines that are indented
more than its own, and blank lines belong to it. One section has a special name: its options are
defaults for all others. Sections and the options in one section have distinct names.
-/

namespace SqlLayout.Config

/-- An option of a document. -/
structure Entry where
  /-- The section in which it stands. -/
  home : Text
  name : Text
  /-- The lines of its value. -/
  lines : List Text
  deriving DecidableEq

/-- The value of an option: its lines without blanks at the end. -/
def Entry.value (e : Entry) : Text :=
  (Text.joinWith ['\n'] e.lines).trimRight

/-- The section whose options are defaults. -/
def defaultSection : Text :=
  "DEFAULT".toList

/-- Why a document cannot be read. -/
inductive Fault where
  | duplicateSection (line : Nat) (name : Text)
  | duplicateOption (line : Nat) (home name : Text)
  /-- Content comes before the first section. -/
  | noSection (line : Nat) (raw : Text)
  /-- Some lines are neither headers nor options. -/
  | unreadable (lines : List (Nat × Text))
  deriving DecidableEq

/-- What has been read of a document. Lists have the newest first. -/
structure Progress where
  /-- The sections that have begun, defaults apart. -/
  sections : List Text := []
  /-- The section in which the next option stands. -/
  current : Option Text := none
  entries : List Entry := []
  /-- Whether the newest option may go on. -/
  isOpen : Bool := false
  /-- The indentation of the last header or option. -/
  indent : Nat := 0
  /-- The lines that are neither headers nor options. -/
  unread : List (Nat × Text) := []

namespace Progress

/-- Adds a line to the option that is open, if one is. -/
def extend (p : Progress) (line : Text) : Progress :=
  if p.isOpen then
    match p.entries with
    | [] => p
    | e :: rest => { p with entries := { e with lines := e.lines ++ [line] } :: rest }
  else p

def openSection (p : Progress) (number : Nat) (name : Text) : Except Fault Progress :=
  if name = defaultSection then .ok { p with current := some name, isOpen := false }
  else if p.sections.contains name then .error (.duplicateSection number name)
  else .ok { p with sections := name :: p.sections, current := some name, isOpen := false }

/-- Adds an option to a section. An option without a name is added too, but the line counts as
    unread and the option does not go on. -/
def addOption (p : Progress) (number : Nat) (raw home name value : Text) : Except Fault Progress :=
  if p.entries.any fun e => e.home == home && e.name == name then
    .error (.duplicateOption number home name)
  else
    let unread := if name.isEmpty then (number, raw) :: p.unread else p.unread
    .ok { p with
      entries := ⟨home, name, [value]⟩ :: p.entries, isOpen := !name.isEmpty, unread := unread }

/-- Reads a line with content that does not go on with an option. -/
def readContent (p : Progress) (number : Nat) (raw text : Text) : Except Fault Progress :=
  match Content.ofText text, p.current with
  | .header name, _ => p.openSection number name
  | _, none => .error (.noSection number raw)
  | .setting name value, some home => p.addOption number raw home name value
  | .other, some _ => .ok { p with unread := (number, raw) :: p.unread }

def readLine (p : Progress) (number : Nat) (raw : Text) : Except Fault Progress :=
  match Line.ofText raw with
  | .comment => .ok p
  | .blank => .ok (p.extend [])
  | .content indent text =>
    if p.isOpen && p.indent < indent then .ok (p.extend text)
    else { p with indent := indent }.readContent number raw text

/-- Reads lines, the first of which has the given number. -/
def readLines (p : Progress) (number : Nat) : List Text → Except Fault Progress
  | [] => .ok p
  | raw :: rest =>
    match p.readLine number raw with
    | .error fault => .error fault
    | .ok next => next.readLines (number + 1) rest

end Progress

/-- The sections of a config file, and their options in order. -/
structure Document where
  /-- The sections that are there, defaults apart. -/
  sections : List Text
  entries : List Entry

/-- The document that has been read, unless some lines could not be. -/
def Progress.finish (p : Progress) : Except Fault Document :=
  match p.unread with
  | [] => .ok ⟨p.sections.reverse, p.entries.reverse⟩
  | unread => .error (.unreadable unread.reverse)

namespace Document

/-- The options that stand in a section. -/
def entriesOf (d : Document) (home : Text) : List Entry :=
  d.entries.filter (·.home == home)

/-- The options of a section together with the defaults: in the place of a default stands the
    section's own option of that name, if there is one. -/
def merged (d : Document) (home : Text) : List Entry :=
  let defaults := d.entriesOf defaultSection
  let own := d.entriesOf home
  defaults.map (fun e => (own.find? (·.name == e.name)).getD e)
    ++ own.filter fun e => !defaults.any (·.name == e.name)

end Document

end SqlLayout.Config
