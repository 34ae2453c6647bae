import SqlLayout.CommandLine.Flag
import SqlLayout.Number.Integer

/-! # Single arguments

What an argument is can be told from its text, except that everything after two dashes is a value. A
flag may be spelled by a beginning that no other flag has, and may have a value attached after an
equals sign.
-/

namespace SqlLayout.CommandLine

/-- What an argument is. -/
inductive Argument where
  /-- A value that belongs to no flag, or to the flag before it. -/
  | value (text : Text)
  | dashes
  /-- A flag, maybe with a value attached. -/
  | flag (flag : Flag) (attached : Option Text)
  /-- The letter that asks for help, with something attached. -/
  | shortHelp (attached : Text)
  /-- A flag that there is not. -/
  | unknown (text : Text)
  deriving DecidableEq

/-- Why arguments cannot be used. -/
inductive UsageFault where
  | ambiguous (text : Text) (spellings : List Text)
  | lacksValue (flag : Flag)
  | takesNoValue (flag : Flag) (attached : Text)
  | notAChoice (flag : Flag) (given : Text) (allowed : List Text)
  | notAnInteger (flag : Flag) (given : Text)
  | negative (flag : Flag) (given : Int)
  | noPath
  /-- There are arguments that mean nothing. -/
  | unrecognized (texts : List Text)
  deriving DecidableEq

/-- Why a text is no count. -/
inductive CountFault where
  | notAnInteger (given : Text)
  | negative (given : Int)
  deriving DecidableEq

def CountFault.message : CountFault → Text
  | notAnInteger given => "invalid integer: ".toList ++ quoted given
  | negative given => "must not be negative: ".toList ++ writeInt given

/-- The integer, not negative, that a text spells. -/
def readCount (given : Text) : Except CountFault Int :=
  match readInt? given with
  | none => .error (.notAnInteger given)
  | some n => if n < 0 then .error (.negative n) else .ok n

def UsageFault.message : UsageFault → Text
  | ambiguous text spellings =>
    "ambiguous option: ".toList ++ text ++ " could match ".toList
      ++ Text.joinWith ", ".toList spellings
  | lacksValue flag => "argument ".toList ++ flag.shown ++ ": expected one argument".toList
  | takesNoValue flag attached =>
    "argument ".toList ++ flag.shown ++ ": ignored explicit argument ".toList ++ quoted attached
  | notAChoice flag given allowed =>
    "argument ".toList ++ flag.shown ++ ": invalid choice: ".toList ++ quoted given
      ++ " (choose from ".toList ++ Text.joinWith ", ".toList (allowed.map quoted) ++ [')']
  | notAnInteger flag given =>
    "argument ".toList ++ flag.shown ++ ": ".toList ++ (CountFault.notAnInteger given).message
  | negative flag given =>
    "argument ".toList ++ flag.shown ++ ": ".toList ++ (CountFault.negative given).message
  | noPath => "the following arguments are required: path".toList
  | unrecognized texts =>
    "unrecognized arguments: ".toList ++ Text.joinWith [' '] texts

/-- Digits, at least one, with a line feed after them or none. -/
def isDigits (s : Text) : Bool :=
  let digits := if s.getLast? = some '\n' then s.dropLast else s
  !digits.isEmpty && digits.all isDecimal

/-- Whether a text looks like a negative number, whole or with a point. -/
def looksNegative : Text → Bool
  | '-' :: s =>
    isDigits s ||
      match s.dropWhile isDecimal with
      | '.' :: fraction => isDigits fraction
      | _ => false
  | _ => false

/-- The text before the first equals sign, and the text after it if there is one. -/
def splitAttached (s : Text) : Text × Option Text :=
  match s.dropWhile (· ≠ '=') with
  | [] => (s, none)
  | _ :: attached => (s.takeWhile (· ≠ '='), some attached)

/-- What a text is that starts with a dash, is not just a dash and spells no flag in full. -/
def Argument.ofDashed (s : Text) : Except UsageFault Argument :=
  let (name, attached) := splitAttached s
  match attached, Flag.spellings.lookup name with
  | some given, some found =>
    .ok (if name = helpLetter then .shortHelp given else .flag found attached)
  | _, _ =>
    let candidates :=
      if "--".toList.isPrefixOf s then Flag.spellings.filter fun e => name.isPrefixOf e.1 else []
    match candidates with
    | [e] => .ok (.flag e.2 attached)
    | _ :: _ :: _ => .error (.ambiguous s (candidates.map (·.1)))
    | [] =>
      if helpLetter.isPrefixOf s then .ok (.shortHelp (s.drop 2))
      else if looksNegative s || s.contains ' ' then .ok (.value s)
      else .ok (.unknown s)

/-- What a text is that does not come after two dashes. -/
def Argument.ofText (s : Text) : Except UsageFault Argument :=
  if s.head? ≠ some '-' ∨ s = ['-'] then .ok (.value s)
  else if s = "--".toList then .ok .dashes
  else
    match Flag.spellings.lookup s with
    | some found => .ok (.flag found none)
    | none => Argument.ofDashed s

/-- What the arguments are. After two dashes all are values. -/
def Argument.ofTexts : List Text → Except UsageFault (List Argument)
  | [] => .ok []
  | s :: rest =>
    match Argument.ofText s with
    | .error fault => .error fault
    | .ok .dashes => .ok (.dashes :: rest.map .value)
    | .ok a => (Argument.ofTexts rest).map (a :: ·)

end SqlLayout.CommandLine
