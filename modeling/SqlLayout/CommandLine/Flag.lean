import SqlLayout.Options.Schema

/-! # Flags

The flags of the command line, how they are spelled, and which of them take a value.
-/

namespace SqlLayout.CommandLine

inductive Flag where
  | help
  | config
  | style (option : OptionName)
  | dryRun
  | check
  | verify
  | lint
  | dialect
  | auditFolder
  | debug
  | verbose
  deriving DecidableEq

/-- The letter case of a field name turned into that of a flag. -/
def dashed (fieldName : Text) : Text :=
  fieldName.map fun c => if c = '_' then '-' else c

/-- How a flag is spelled in full. -/
def Flag.spelling : Flag → Text
  | help => "--help".toList
  | config => "--config".toList
  | style option => "--".toList ++ dashed option.fieldName
  | dryRun => "--dry-run".toList
  | check => "--check".toList
  | verify => "--verify".toList
  | lint => "--lint".toList
  | dialect => "--dialect".toList
  | auditFolder => "--audit-folder".toList
  | debug => "--debug".toList
  | verbose => "--verbose".toList

/-- The only spelling of one letter. -/
def helpLetter : Text :=
  "-h".toList

/-- All flags, in the order in which they are listed. -/
def Flag.all : List Flag :=
  [help, config] ++ OptionName.all.map style
    ++ [dryRun, check, verify, lint, dialect, auditFolder, debug, verbose]

/-- All spellings with their flags. -/
def Flag.spellings : List (Text × Flag) :=
  (helpLetter, help) :: Flag.all.map fun flag => (flag.spelling, flag)

/-- A flag as messages name it. -/
def Flag.shown : Flag → Text
  | help => helpLetter ++ '/' :: help.spelling
  | flag => flag.spelling

def Flag.takesValue : Flag → Bool
  | config | style _ | dialect | auditFolder => true
  | _ => false

end SqlLayout.CommandLine
