import SqlLayout.Options

/-! # The option schema

What a host is told about each option: what values it takes, its default, and a description of
both.
-/

namespace SqlLayout

/-- A value that an option may have. -/
structure Choice where
  value : Text
  description : Text

/-- The values that an option takes. -/
inductive OptionKind where
  /-- One of some texts. -/
  | choice (choices : List Choice)
  /-- A number, not negative. -/
  | count

/-- What a host is told about an option. -/
structure OptionSpec where
  kind : OptionKind
  description : Text

/-- A choice from two literals. -/
def choice (value description : String) : Choice :=
  ⟨value.toList, description.toList⟩

namespace OptionName

/-- The entry of the schema for an option. -/
def spec : OptionName → OptionSpec
  | keywordCase =>
    { kind := .choice
        [choice "upper" "Convert keywords to uppercase",
        choice "lower" "Convert keywords to lowercase",
        choice "preserve" "Preserve keyword case"]
      description := "Convert keywords to uppercase, lowercase, or preserve case".toList }
  | indentStyle =>
    { kind := .choice
        [choice "standard" "Standard indentation",
        choice "tabular" "Tabular indentation for better readability"]
      description := "SQL indentation style".toList }
  | linesBetweenQueries =>
    { kind := .count
      description := "Number of blank lines between queries".toList }
  | maxColumnLength =>
    { kind := .count
      description := "Maximum length for columns before wrapping".toList }
  | commaPosition =>
    { kind := .choice
        [choice "before" "Commas at the beginning of lines",
        choice "after" "Commas at the end of lines",
        choice "preserve" "Preserve comma positions"]
      description := "Position of commas in column lists".toList }

/-- The value that an option has when none is given. -/
def default (option : OptionName) : Setting :=
  Options.get {} option

/-- The category under which hosts list the options. -/
def category : Text :=
  "SQL".toList

end OptionName

/-- The name of a kind of values. -/
def OptionKind.name : OptionKind → Text
  | choice _ => "choice".toList
  | count => "int".toList

/-- The texts among which an option of some kind chooses. -/
def OptionKind.choices? : OptionKind → Option (List Text)
  | choice choices => some (choices.map (·.value))
  | count => none

/-- Why the schema lists no choices under a name. -/
inductive SchemaFault where
  | noOption (name : Text)
  /-- The option takes numbers. -/
  | noChoices

def SchemaFault.message : SchemaFault → Text
  | noOption name => quoted name
  | noChoices => quoted "choices".toList

/-- The texts among which the option of a given host name chooses. -/
def choiceValues (name : Text) : Except SchemaFault (List Text) :=
  match OptionName.ofHostName? name with
  | none => .error (.noOption name)
  | some option =>
    match option.spec.kind.choices? with
    | none => .error .noChoices
    | some values => .ok values

end SqlLayout
