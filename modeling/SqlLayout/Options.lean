import SqlLayout.Setting

/-! # Format options

Five options, each with two names: one for hosts and one for records. Two of them decide the
layout; the others are carried along. Any value may be held: one that an option does not know
counts as its default.
-/

namespace SqlLayout

/-- The options there are, in the order in which they are listed. -/
inductive OptionName where
  /-- The letter case of keywords. -/
  | keywordCase
  /-- The style of indentation. -/
  | indentStyle
  /-- The number of blank lines between two queries. -/
  | linesBetweenQueries
  /-- The width at which columns are wrapped. -/
  | maxColumnLength
  /-- The side of a comma on which space goes. -/
  | commaPosition
  deriving DecidableEq

namespace OptionName

def all : List OptionName :=
  [keywordCase, indentStyle, linesBetweenQueries, maxColumnLength, commaPosition]

/-- The name that hosts use. -/
def hostName : OptionName → Text
  | keywordCase => "keywordCase".toList
  | indentStyle => "indentStyle".toList
  | linesBetweenQueries => "linesBetweenQueries".toList
  | maxColumnLength => "maxColumnLength".toList
  | commaPosition => "commaPosition".toList

/-- The name of the field of a record. -/
def fieldName : OptionName → Text
  | keywordCase => "keyword_case".toList
  | indentStyle => "indent_style".toList
  | linesBetweenQueries => "lines_between_queries".toList
  | maxColumnLength => "max_column_length".toList
  | commaPosition => "comma_position".toList

def ofHostName? (name : Text) : Option OptionName :=
  all.find? (·.hostName == name)

def ofFieldName? (name : Text) : Option OptionName :=
  all.find? (·.fieldName == name)

end OptionName

/-- A value for each option. -/
structure Options where
  keywordCase : Setting := .text "upper".toList
  indentStyle : Setting := .text "standard".toList
  linesBetweenQueries : Setting := .number 1
  maxColumnLength : Setting := .number 50
  commaPosition : Setting := .text "after".toList

/-- What is wrong with an argument that should give options. -/
inductive OptionsFault where
  /-- A value of some kind was given instead of named values. -/
  | notNamedValues (kind : Text)
  | unknownField (name : Text)

def OptionsFault.message : OptionsFault → Text
  | notNamedValues kind =>
    "'".toList ++ kind ++ "' object has no attribute 'get'".toList
  | unknownField name =>
    "FormatOptions.__init__() got an unexpected keyword argument '".toList ++ name ++ "'".toList

/-- An argument that should give options. -/
inductive OptionsArgument where
  | host (value : Setting)
  | record (options : Options)

/-- The kind of a record of options, as messages give it. -/
def recordKind : Text :=
  "FormatOptions".toList

namespace Options

def get (o : Options) : OptionName → Setting
  | .keywordCase => o.keywordCase
  | .indentStyle => o.indentStyle
  | .linesBetweenQueries => o.linesBetweenQueries
  | .maxColumnLength => o.maxColumnLength
  | .commaPosition => o.commaPosition

/-- The options with another value for one of them. -/
def set (o : Options) (value : Setting) : OptionName → Options
  | .keywordCase => { o with keywordCase := value }
  | .indentStyle => { o with indentStyle := value }
  | .linesBetweenQueries => { o with linesBetweenQueries := value }
  | .maxColumnLength => { o with maxColumnLength := value }
  | .commaPosition => { o with commaPosition := value }

/-- The value that named values give to a name, unless it is absent. -/
def given? (entries : Entries) (name : Text) : Option Setting :=
  match entries.lookup name with
  | none | some .absent => none
  | some value => some value

/-- The value that named values give to an option: under its host name, else under its field
    name. -/
def choice? (entries : Entries) (option : OptionName) : Option Setting :=
  (given? entries option.hostName).or (given? entries option.fieldName)

/-- The options that named values give; an option without a value keeps its default, and other
    names are ignored. -/
def ofEntries (entries : Entries) : Options :=
  OptionName.all.foldl (fun o option => (choice? entries option).elim o (o.set · option)) {}

/-- The options that a host argument gives; an argument that stands for none gives the defaults. -/
def ofHost (argument : Setting) : Except OptionsFault Options :=
  if argument.isVoid then .ok {}
  else match argument with
    | .map entries => .ok (ofEntries entries)
    | other => .error (.notNamedValues other.kindName)

/-- The options of an argument: a record is taken as it is. -/
def ofArgument : OptionsArgument → Except OptionsFault Options
  | .host value => ofHost value
  | .record options => .ok options

/-- The options of a record with the given fields. -/
def ofFields (fields : Entries) : Except OptionsFault Options :=
  fields.foldlM (fun o field =>
    match OptionName.ofFieldName? field.1 with
    | some option => .ok (o.set field.2 option)
    | none => .error (.unknownField field.1)) {}

/-- The options under their host names. -/
def toEntries (o : Options) : Entries :=
  OptionName.all.map fun option => (option.hostName, o.get option)

/-- The options as messages show them. -/
def write (o : Options) : Text :=
  let field (option : OptionName) : Text := option.fieldName ++ '=' :: (o.get option).write
  recordKind ++ '(' :: Text.joinWith ", ".toList (OptionName.all.map field) ++ [')']

end Options

/-- What to do with the letters of a keyword. -/
inductive LetterCase where
  | upper
  | lower
  | preserve
  deriving DecidableEq

def LetterCase.ofSetting : Setting → LetterCase
  | .text s => if s = "preserve".toList then preserve else if s = "lower".toList then lower else upper
  | _ => upper

theorem LetterCase.ofSetting_eq_preserve {setting : Setting} :
    ofSetting setting = preserve ↔ setting = .text "preserve".toList := by
  cases setting with
  | text s =>
    rw [ofSetting, Setting.text.injEq]
    split
    · next h => exact iff_of_true rfl h
    · next h => exact iff_of_false (by split <;> simp) h
  | _ => simp [ofSetting]

theorem LetterCase.ofSetting_eq_lower {setting : Setting} :
    ofSetting setting = lower ↔ setting = .text "lower".toList := by
  cases setting with
  | text s =>
    rw [ofSetting, Setting.text.injEq]
    split
    · next h => exact iff_of_false (by simp) (h ▸ by decide)
    · split
      · next h => exact iff_of_true rfl h
      · next h => exact iff_of_false (by simp) h
  | _ => simp [ofSetting]

/-- Where commas have space. -/
inductive CommaStyle where
  /-- On both sides. -/
  | before
  /-- Behind them. -/
  | after
  deriving DecidableEq

def CommaStyle.ofSetting : Setting → CommaStyle
  | .text s => if s = "before".toList then before else after
  | _ => after

theorem CommaStyle.ofSetting_eq_before {setting : Setting} :
    ofSetting setting = before ↔ setting = .text "before".toList := by
  cases setting with
  | text s =>
    rw [ofSetting, Setting.text.injEq]
    split
    · next h => exact iff_of_true rfl h
    · next h => exact iff_of_false (by simp) h
  | _ => simp [ofSetting]

/-- The choices that decide the layout. -/
structure Style where
  letterCase : LetterCase := .upper
  commas : CommaStyle := .after
  deriving DecidableEq

/-- The layout choices of a set of options. -/
def Options.style (o : Options) : Style where
  letterCase := .ofSetting o.keywordCase
  commas := .ofSetting o.commaPosition

end SqlLayout
