import SqlLayout.CommandLine.Argument
import SqlLayout.Lint

/-! # Arguments

The arguments of the command line are read from left to right. The first value that belongs to no
flag is the path; of a flag given twice the last value counts. Two dashes attached to a flag give it
no value at all, which is more than not to give the flag: what was given before is forgotten, and
where a value is shown, it shows as an empty list. This is how the older of the interpreters in use
read them; newer ones take the two dashes for the value. Help is given as soon as it is asked for, so
that only faults before it count.
-/

namespace SqlLayout.CommandLine

/-- What the command line asks for. -/
structure Arguments where
  /-- The file or folder, or a dash for standard input. -/
  path : Text
  config : Option Text := none
  /-- The values of format options, the last one first. -/
  styles : List (OptionName × Setting) := []
  dryRun : Bool := false
  check : Bool := false
  verify : Bool := false
  lint : Bool := false
  /-- The dialect for the linter. -/
  dialect : Setting := .text Lint.defaultDialect
  auditFolder : Option Text := some "sql_restyle_audit".toList
  debug : Bool := false
  verbose : Bool := false

/-- What the arguments come to. -/
inductive Demand where
  /-- Show how the program is used. -/
  | help
  /-- Work with these arguments. -/
  | work (arguments : Arguments)

/-- What has been read of the arguments. -/
structure Reading where
  /-- The values of the flags; the path is not looked at. -/
  found : Arguments := { path := [] }
  path : Option Text := none
  /-- Whether the path was read just now. -/
  atPath : Bool := false
  /-- Arguments that mean nothing, the last one first. -/
  extra : List Text := []

namespace Reading

def addExtra (r : Reading) (s : Text) : Reading :=
  { r with extra := s :: r.extra, atPath := false }

/-- Reads a value that belongs to no flag. -/
def addValue (r : Reading) (s : Text) : Reading :=
  match r.path with
  | none => { r with path := some s, atPath := true }
  | some _ => r.addExtra s

/-- Reads a flag without a value. -/
def raise (r : Reading) (flag : Flag) : Reading :=
  let found := match flag with
    | .dryRun => { r.found with dryRun := true }
    | .check => { r.found with check := true }
    | .verify => { r.found with verify := true }
    | .lint => { r.found with lint := true }
    | .debug => { r.found with debug := true }
    | .verbose => { r.found with verbose := true }
    | _ => r.found
  { r with found, atPath := false }

/-- The value of a format option on the command line. -/
def styleValue (option : OptionName) (given : Text) : Except UsageFault Setting :=
  match option.spec.kind.choices? with
  | some allowed =>
    if allowed.contains given then .ok (.text given)
    else .error (.notAChoice (.style option) given allowed)
  | none =>
    match readCount given with
    | .ok n => .ok (.number n)
    | .error (.notAnInteger given) => .error (.notAnInteger (.style option) given)
    | .error (.negative n) => .error (.negative (.style option) n)

/-- Reads a flag that is given no value: an empty list takes its place, as under older
    interpreters. -/
def assignNone (r : Reading) (flag : Flag) : Reading :=
  let found := match flag with
    | .config => { r.found with config := none }
    | .dialect => { r.found with dialect := .list [] }
    | .auditFolder => { r.found with auditFolder := none }
    | .style option => { r.found with styles := (option, .list []) :: r.found.styles }
    | _ => r.found
  { r with found, atPath := false }

/-- Reads a flag with its value. -/
def assign (r : Reading) (flag : Flag) (given : Text) : Except UsageFault Reading :=
  let holding (found : Arguments) : Reading := { r with found, atPath := false }
  match flag with
  | .config => .ok (holding { r.found with config := some given })
  | .dialect => .ok (holding { r.found with dialect := .text given })
  | .auditFolder => .ok (holding { r.found with auditFolder := some given })
  | .style option =>
    match styleValue option given with
    | .error fault => .error fault
    | .ok value => .ok (holding { r.found with styles := (option, value) :: r.found.styles })
  | _ => .ok r

/-- Two dashes right after the path say nothing; without a path before them they announce it. At
    other places they are an argument like others, and mean nothing. -/
def addDashes (r : Reading) (rest : List Argument) : Reading :=
  if r.atPath || (r.path.isNone && !rest.isEmpty) then r else r.addExtra "--".toList

/-- What was read, once there are no more arguments. -/
def finish (r : Reading) : Except UsageFault Demand :=
  match r.path, r.extra with
  | none, _ => .error .noPath
  | some path, [] => .ok (.work { r.found with path })
  | some _, extra => .error (.unrecognized extra.reverse)

/-- Something attached to the letter that asks for help: the same letter may follow, and nothing
    else. -/
def helpWith (attached : Text) : Except UsageFault Demand :=
  if attached.isEmpty then .error (.takesNoValue .help attached)
  else match attached.dropWhile (· == 'h') with
    | [] => .ok .help
    | other => .error (.takesNoValue .help other)

/-- Reads arguments. A flag that takes a value takes the one attached, or the value after it. Two
    dashes attached are no value, as under older interpreters; newer ones would assign them. -/
def readAll (r : Reading) : List Argument → Except UsageFault Demand
  | [] => r.finish
  | .value s :: rest => (r.addValue s).readAll rest
  | .dashes :: rest => (r.addDashes rest).readAll rest
  | .unknown s :: rest => (r.addExtra s).readAll rest
  | .flag .help none :: _ => .ok .help
  | .shortHelp attached :: _ => helpWith attached
  | .flag flag (some given) :: rest =>
    if !flag.takesValue then .error (.takesNoValue flag given)
    else if given = "--".toList then (r.assignNone flag).readAll rest
    else
      match r.assign flag given with
      | .error fault => .error fault
      | .ok next => next.readAll rest
  | .flag flag none :: .value given :: rest =>
    if flag.takesValue then
      match r.assign flag given with
      | .error fault => .error fault
      | .ok next => next.readAll rest
    else ((r.raise flag).addValue given).readAll rest
  | .flag flag none :: rest =>
    if flag.takesValue then .error (.lacksValue flag) else (r.raise flag).readAll rest

end Reading

def readArguments (texts : List Text) : Except UsageFault Demand :=
  match Argument.ofTexts texts with
  | .error fault => .error fault
  | .ok arguments => ({} : Reading).readAll arguments

end SqlLayout.CommandLine
