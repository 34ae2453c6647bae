import SqlLayout.Number.Shortest
import SqlLayout.Text.Quoted

/-! # Settings

A host passes options as values of many kinds. A setting is such a value: the formatter looks at
texts and integers only, but has to name and show all of them.
-/

namespace SqlLayout

/-- A value that a host or a config file gives to an option. -/
inductive Setting where
  | absent
  | flag (value : Bool)
  | number (value : Int)
  | real (value : Double)
  | text (value : Text)
  | list (items : List Setting)
  /-- Named values, in the order in which they were given. -/
  | map (entries : List (Text × Setting))

instance : Inhabited Setting := ⟨.absent⟩

/-- Named values in the order in which they were given; a name occurs once. -/
abbrev Entries := List (Text × Setting)

namespace Setting

/-- A value that stands for none: no value, false, zero, or something empty. -/
def isVoid : Setting → Bool
  | absent => true
  | flag b => !b
  | number n => n == 0
  | real x => x.isZero
  | text s => s.isEmpty
  | list items => items.isEmpty
  | map entries => entries.isEmpty

/-- The name of the kind of a value, as messages give it. -/
def kindName : Setting → Text
  | absent => "NoneType".toList
  | flag _ => "bool".toList
  | number _ => "int".toList
  | real _ => "float".toList
  | text _ => "str".toList
  | list _ => "list".toList
  | map _ => "dict".toList

mutual

/-- The value as messages show it, texts between quotes. -/
def write : Setting → Text
  | absent => "None".toList
  | flag b => (if b then "True" else "False").toList
  | number n => writeInt n
  | real x => x.write
  | text s => quoted s
  | list items => '[' :: writeItems items ++ [']']
  | map entries => '\x7b' :: writeEntries entries ++ ['\x7d']

/-- List items between commas. -/
def writeItems : List Setting → Text
  | [] => []
  | [x] => x.write
  | x :: y :: rest => x.write ++ ", ".toList ++ writeItems (y :: rest)

/-- Named values between commas. -/
def writeEntries : List (Text × Setting) → Text
  | [] => []
  | [(name, x)] => quoted name ++ ": ".toList ++ x.write
  | (name, x) :: e :: rest =>
    quoted name ++ ": ".toList ++ x.write ++ ", ".toList ++ writeEntries (e :: rest)

end

/-- The value inside a running text, where a text stands without quotes. -/
def display : Setting → Text
  | text s => s
  | x => x.write

end Setting

namespace Entries

/-- Gives a value to a name: in its place if it has one, else at the end. -/
def assign (name : Text) (value : Setting) : Entries → Entries
  | [] => [(name, value)]
  | (n, v) :: rest => if n = name then (n, value) :: rest else (n, v) :: assign name value rest

end Entries

end SqlLayout
