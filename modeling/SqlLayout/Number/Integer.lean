import SqlLayout.Text.Basic

/-! # Integers in text

An integer is read from decimal digits of any script, with an optional sign, blanks around it, and
single underscores between digits. At most `maxDigits` digits are read.
-/

namespace SqlLayout

/-! ## Decimal digits

Every script with decimal digits has ten of them in a row, from zero to nine. A number may be
written in any script, and may mix them.
-/

/-- The zeros of the scripts beyond ASCII. -/
def scriptZeros : List Nat :=
  [0x660, 0x6F0, 0x7C0, 0x966, 0x9E6, 0xA66, 0xAE6, 0xB66, 0xBE6,
  0xC66, 0xCE6, 0xD66, 0xDE6, 0xE50, 0xED0, 0xF20, 0x1040, 0x1090,
  0x17E0, 0x1810, 0x1946, 0x19D0, 0x1A80, 0x1A90, 0x1B50, 0x1BB0, 0x1C40,
  0x1C50, 0xA620, 0xA8D0, 0xA900, 0xA9D0, 0xA9F0, 0xAA50, 0xABF0, 0xFF10,
  0x104A0, 0x10D30, 0x11066, 0x110F0, 0x11136, 0x111D0, 0x112F0, 0x11450, 0x114D0,
  0x11650, 0x116C0, 0x11730, 0x118E0, 0x11950, 0x11C50, 0x11D50, 0x11DA0, 0x16A60,
  0x16AC0, 0x16B50, 0x1D7CE, 0x1D7D8, 0x1D7E2, 0x1D7EC, 0x1D7F6, 0x1E140, 0x1E2F0,
  0x1E950, 0x1FBF0]

/-- What a decimal digit of any script counts. -/
def digitValue? (c : Char) : Option Nat :=
  if c.toNat < 128 then
    if c.isDigit then some (c.toNat - 48) else none
  else (scriptZeros.find? fun start => start ≤ c.toNat && c.toNat < start + 10).map (c.toNat - ·)

/-- A decimal digit of some script. -/
def isDecimal (c : Char) : Bool :=
  (digitValue? c).isSome

/-! ## Integers -/

/-- The decimal text of an integer. -/
def writeInt (n : Int) : Text :=
  if n < 0 then '-' :: Nat.toDigits 10 n.natAbs else Nat.toDigits 10 n.natAbs

/-- The number that digits of given values spell. -/
def natOfDigits (digits : List Nat) : Nat :=
  digits.foldl (10 * · + ·) 0

/-- The most digits that a number may be read from. -/
def maxDigits : Nat := 4300

/-- Every underscore stands between two characters, neither of them an underscore. -/
def underscoresInside : Text → Bool
  | [] => true
  | ['_'] => false
  | '_' :: _ => false
  | [_] => true
  | _ :: '_' :: '_' :: _ => false
  | _ :: '_' :: [] => false
  | _ :: '_' :: c :: s => underscoresInside (c :: s)
  | _ :: c :: s => underscoresInside (c :: s)

/-- The number that digits and underscores spell. -/
def readNat? (s : Text) : Option Nat :=
  if underscoresInside s then
    match (s.filter (· != '_')).mapM digitValue? with
    | some (d :: ds) => if ds.length < maxDigits then some (natOfDigits (d :: ds)) else none
    | _ => none
  else none

/-- The blanks that may stand around a number: all but the four separators before the space. -/
def isNumberBlank (c : Char) : Bool :=
  isBlank c && !(0x1C ≤ c.toNat && c.toNat ≤ 0x1F)

/-- The integer that a text spells. -/
def readInt? (s : Text) : Option Int :=
  let inner := ((s.dropWhile isNumberBlank).reverse.dropWhile isNumberBlank).reverse
  match inner with
  | '-' :: digits => (readNat? digits).map fun n => -(n : Int)
  | '+' :: digits => (readNat? digits).map fun n => (n : Int)
  | digits => (readNat? digits).map fun n => (n : Int)

end SqlLayout
