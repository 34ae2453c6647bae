import SqlLayout.Options.Schema

/-! # Validation of host options

Named values are checked one by one against the schema. Unknown names and absent values contribute
nothing; a number may be given in several forms and comes out as an integer; the first value that
is not allowed stops the check.
-/

namespace SqlLayout

/-- Why a value is not allowed. -/
inductive ValidationFault where
  | notAChoice (option : OptionName) (given : Setting) (allowed : List Text)
  | notAnInteger (option : OptionName) (given : Setting)
  | negative (option : OptionName) (given : Int)
  | infinite

namespace ValidationFault

/-- The beginning of a message about a value. -/
def about (option : OptionName) (shown : Text) : Text :=
  "Invalid value for ".toList ++ option.hostName ++ ": ".toList ++ shown

/-- The fault in words. An integer is written out whatever its length. An interpreter that limits the
    digits of the numbers it writes, to `maxDigits` say, fails here with a message of its own. -/
def message : ValidationFault → Text
  | notAChoice option given allowed =>
    about option given.write ++ " (expected one of ".toList
      ++ Text.joinWith ", ".toList allowed ++ [')']
  | notAnInteger option given => about option given.write ++ " (expected an integer)".toList
  | negative option given => about option (writeInt given) ++ " (must not be negative)".toList
  | infinite => "cannot convert float infinity to integer".toList

end ValidationFault

namespace Validation

/-- The integer that a value gives: itself, the number that a text spells, or the whole part of a
    floating point number. -/
def readCount (option : OptionName) (given : Setting) : Except ValidationFault Int :=
  match given with
  | .number n => .ok n
  | .text s =>
    match readInt? s with
    | some n => .ok n
    | none => .error (.notAnInteger option given)
  | .real (.finite negative m q) => .ok (Double.truncated negative m q)
  | .real (.infinity _) => .error .infinite
  | _ => .error (.notAnInteger option given)

/-- The value of an option, if it is allowed. -/
def check (option : OptionName) (given : Setting) : Except ValidationFault Setting :=
  match option.spec.kind.choices? with
  | some allowed =>
    match given with
    | .text s => if allowed.contains s then .ok given else .error (.notAChoice option given allowed)
    | _ => .error (.notAChoice option given allowed)
  | none =>
    match readCount option given with
    | .error fault => .error fault
    | .ok n => if n < 0 then .error (.negative option n) else .ok (.number n)

/-- What an entry contributes: nothing, or the checked value. -/
def checkEntry (name : Text) (given : Setting) : Except ValidationFault Entries :=
  match OptionName.ofHostName? name, given with
  | none, _ => .ok []
  | some _, .absent => .ok []
  | some option, given =>
    match check option given with
    | .error fault => .error fault
    | .ok value => .ok [(name, value)]

end Validation

/-- The allowed values among named values, in order. -/
def validate : Entries → Except ValidationFault Entries
  | [] => .ok []
  | (name, given) :: rest =>
    match Validation.checkEntry name given with
    | .error fault => .error fault
    | .ok checked =>
      match validate rest with
      | .error fault => .error fault
      | .ok others => .ok (checked ++ others)

end SqlLayout
