import SqlLayout.Text.Quoted

/-! # UTF-8

Reading and writing the bytes of a text. A character is one to four bytes; the range of the second
byte depends on the first, so that no character has two spellings and surrogates have none.
Reading stops at the first byte that rules a character out and reports the bytes read for it.
-/

namespace SqlLayout

/-- The contents of a file. -/
abbrev Bytes := List UInt8

namespace Utf8

/-- Why a run of bytes is no character. -/
inductive Fault where
  /-- The first byte starts no character. -/
  | start (byte : UInt8)
  /-- A byte that should continue a character does not. -/
  | continuation (lead : UInt8)
  /-- The bytes end within a character. -/
  | truncated (lead : UInt8)
  deriving DecidableEq

/-- A run of bytes that is no character. -/
structure Error where
  /-- Where the run starts. -/
  position : Nat
  /-- How many bytes of it were read as one character. -/
  length : Nat
  fault : Fault
  deriving DecidableEq

def Fault.lead : Fault → UInt8
  | .start byte | .continuation byte | .truncated byte => byte

def Fault.reason : Fault → Text
  | .start _ => "invalid start byte".toList
  | .continuation _ => "invalid continuation byte".toList
  | .truncated _ => "unexpected end of data".toList

/-- The message: one byte is shown by value, several by their positions. -/
def Error.message (e : Error) : Text :=
  let place :=
    if e.length = 1 then
      "byte 0x".toList ++ hexDigits 2 e.fault.lead.toNat ++ " in position ".toList
        ++ Nat.toDigits 10 e.position
    else
      "bytes in position ".toList ++ Nat.toDigits 10 e.position ++ "-".toList
        ++ Nat.toDigits 10 (e.position + e.length - 1)
  "'utf-8' codec can't decode ".toList ++ place ++ ": ".toList ++ e.fault.reason

/-- A character of which some bytes have been read. -/
structure Opened where
  lead : UInt8
  /-- The number of bytes read. -/
  read : Nat
  bits : Nat
  /-- How many bytes will still follow the next one. -/
  after : Nat
  /-- The least next byte. -/
  low : Nat
  /-- The greatest next byte. -/
  high : Nat

/-- What a byte between two characters begins. -/
inductive Lead where
  /-- A character of one byte. -/
  | whole (c : Char)
  /-- A character of several bytes. -/
  | opened (o : Opened)
  /-- No character. -/
  | nothing

/-- What a first byte begins. -/
def Lead.ofByte (b : UInt8) : Lead :=
  let n := b.toNat
  if n < 0x80 then .whole (Char.ofNat n)
  else if n < 0xC2 then .nothing
  else if n < 0xE0 then .opened ⟨b, 1, n - 0xC0, 0, 0x80, 0xBF⟩
  else if n = 0xE0 then .opened ⟨b, 1, 0, 1, 0xA0, 0xBF⟩
  else if n = 0xED then .opened ⟨b, 1, 0xD, 1, 0x80, 0x9F⟩
  else if n < 0xF0 then .opened ⟨b, 1, n - 0xE0, 1, 0x80, 0xBF⟩
  else if n = 0xF0 then .opened ⟨b, 1, 0, 2, 0x90, 0xBF⟩
  else if n < 0xF4 then .opened ⟨b, 1, n - 0xF0, 2, 0x80, 0xBF⟩
  else if n = 0xF4 then .opened ⟨b, 1, 4, 2, 0x80, 0x8F⟩
  else .nothing

/-- The characters read, and the character cut off by the end of the bytes, if there is one. -/
abbrev Reading := Text × Option Opened

/-- Reads bytes from a position on, with a character opened or none. -/
def readFrom (position : Nat) : Option Opened → Bytes → Except Error Reading
  | opened, [] => .ok ([], opened)
  | none, b :: rest =>
    match Lead.ofByte b with
    | .whole c => (readFrom (position + 1) none rest).map fun r => (c :: r.1, r.2)
    | .opened o => readFrom (position + 1) (some o) rest
    | .nothing => .error ⟨position, 1, .start b⟩
  | some o, b :: rest =>
    if o.low ≤ b.toNat && b.toNat ≤ o.high then
      let bits := o.bits * 64 + (b.toNat - 0x80)
      match o.after with
      | 0 => (readFrom (position + 1) none rest).map fun r => (Char.ofNat bits :: r.1, r.2)
      | after + 1 => readFrom (position + 1) (some ⟨o.lead, o.read + 1, bits, after, 0x80, 0xBF⟩) rest
    else .error ⟨position - o.read, o.read, .continuation o.lead⟩

/-- The error for a character cut off at the end of so many bytes. -/
def Opened.error (o : Opened) (size : Nat) : Error :=
  ⟨size - o.read, o.read, .truncated o.lead⟩

/-- The text that bytes spell. -/
def decode (bytes : Bytes) : Except Error Text :=
  match readFrom 0 none bytes with
  | .error e => .error e
  | .ok (s, none) => .ok s
  | .ok (_, some o) => .error (o.error bytes.length)

/-- The bytes of a character. -/
def encodeChar (c : Char) : Bytes :=
  let n := c.toNat
  let tail (k : Nat) : UInt8 := .ofNat (0x80 + k % 64)
  if n < 0x80 then [.ofNat n]
  else if n < 0x800 then [.ofNat (0xC0 + n / 64), tail n]
  else if n < 0x10000 then [.ofNat (0xE0 + n / 4096), tail (n / 64), tail n]
  else [.ofNat (0xF0 + n / 262144), tail (n / 4096), tail (n / 64), tail n]

def encode (s : Text) : Bytes :=
  s.flatMap encodeChar

end Utf8

end SqlLayout
