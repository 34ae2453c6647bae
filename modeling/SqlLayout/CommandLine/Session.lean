import SqlLayout.CommandLine.Usage
import SqlLayout.Config.Load
import SqlLayout.Files.Tree
import SqlLayout.Host
import SqlLayout.Token.Comparison

/-! # Sessions

One call of the program reads and writes a file tree, prints, and may ask the linter. What it
cannot change stands in its surroundings, with the linter and the lexer that it relies on. A step
that breaks off keeps what was done before.
-/

namespace SqlLayout.CommandLine

/-- A violation that the linter reports. -/
abbrev Violation := List (Text × Setting)

/-- What a call finds and cannot change. -/
structure Surroundings extends Access where
  home : Path
  stdin : Bytes := []
  /-- What cuts texts into the lexemes that are compared. -/
  tokenizer : Tokenizer Grouping.Fault := Token.tokenize
  /-- What the linter answers. -/
  violations : List Violation := []
  /-- The files that cannot be written. -/
  readonly : List Path := []
  /-- The folders in which nothing can be made. -/
  sealed : List Path := []
  /-- What is gone of a folder, and why not all, if removing it breaks off. -/
  torn : Path → Option (List Path × FileFault) := fun _ => none

/-- What a call changes. -/
structure Session where
  tree : Tree
  out : Text := []
  /-- The questions to the linter. -/
  requests : List Lint.Request := []

/-- Why a call breaks off. -/
inductive Breakdown where
  /-- A file or folder cannot be handled. -/
  | file (fault : FileFault)
  /-- Standard input is not UTF-8. -/
  | input (error : Utf8.Error)
  /-- Tokens cannot be compared. -/
  | tokens (fault : Grouping.Fault)
  /-- Stages are to be written, and no folder is named for them. -/
  | noAuditFolder

def Breakdown.message : Breakdown → Text
  | file fault => fault.message
  | input error => error.message
  | tokens fault => fault.message
  | noAuditFolder => "expected str, bytes or os.PathLike object, not list".toList

/-- What a step comes to: a value, or a breakdown, and the session in either case. -/
structure Outcome (α : Type) where
  session : Session
  value : Except Breakdown α

/-- One step after another, unless the first breaks off. -/
def Outcome.andThen {α β : Type} (o : Outcome α) (next : Session → α → Outcome β) : Outcome β :=
  match o.value with
  | .error breakdown => ⟨o.session, .error breakdown⟩
  | .ok a => next o.session a

namespace Session

def say (s : Session) (printed : Text) : Session :=
  { s with out := s.out ++ printed }

def sayLine (s : Session) (line : Text) : Session :=
  s.say (line ++ ['\n'])

def withTree (s : Session) (tree : Tree) : Session :=
  { s with tree }

/-- The line about a token that changed. -/
def warning (label : Text) (m : Mismatch) : Text :=
  "[WARNING] ".toList ++ label ++ ": token ".toList ++ Nat.toDigits 10 m.index
    ++ " changed: ".toList ++ quoted m.before ++ " -> ".toList ++ quoted m.after

/-- Compares the tokens of two texts and tells what changed. -/
def verify (s : Session) (around : Surroundings) (label sql laidOut : Text) : Outcome Unit :=
  match around.tokenizer.compare sql laidOut with
  | .error fault => ⟨s, .error (.tokens fault)⟩
  | .ok found => ⟨(found.map (warning label)).foldl sayLine s, .ok ()⟩

/-- The line about a violation. -/
def complaint (label : Text) (violation : Violation) : Text :=
  let found := Lint.Finding.ofViolation Setting.absent violation
  "[LINT] ".toList ++ label ++ ":L".toList ++ found.line.display ++ ": ".toList
    ++ found.code.display ++ ' ' :: found.description.display

/-- Asks the linter about a text and tells what it answers. -/
def askLinter (s : Session) (around : Surroundings) (dialect : Setting) (label laidOut : Text) :
    Session :=
  let asked := { s with requests := s.requests ++ [Lint.Request.about laidOut dialect []] }
  (around.violations.map (complaint label)).foldl sayLine asked

/-- Makes the checks that are asked for. -/
def checkText (s : Session) (around : Surroundings) (arguments : Arguments)
    (label sql laidOut : Text) : Outcome Unit :=
  let verified := if arguments.verify then s.verify around label sql laidOut else ⟨s, .ok ()⟩
  verified.andThen fun s _ =>
    ⟨if arguments.lint then s.askLinter around arguments.dialect label laidOut else s, .ok ()⟩

end Session

end SqlLayout.CommandLine
