/-! Text as bytes. A source file need not be valid UTF-8, and what it holds comes back in labels,
words and messages, so every text of this library is a list of bytes. -/

namespace TapeMachine

abbrev Text := List UInt8

def text (s : String) : Text := s.toUTF8.data.toList

abbrev byte (c : Char) : UInt8 := c.toUInt8

namespace Text

def isDigit (b : UInt8) : Bool := byte '0' ≤ b && b ≤ byte '9'

def isLetter (b : UInt8) : Bool :=
  (byte 'a' ≤ b && b ≤ byte 'z') || (byte 'A' ≤ b && b ≤ byte 'Z')

/-- ASCII letters in upper case; every other byte stays. -/
def upper (t : Text) : Text :=
  t.map fun b => if byte 'a' ≤ b && b ≤ byte 'z' then b - 32 else b

def replaceByte (old : UInt8) (new t : Text) : Text :=
  t.flatMap fun b => if b = old then new else [b]

/-- The text up to the first occurrence of a byte, or all of it. -/
def before (stop : UInt8) (t : Text) : Text := t.takeWhile (· ≠ stop)

/-- The texts on both sides of the first occurrence of a byte. -/
def cut? (at_ : UInt8) (t : Text) : Option (Text × Text) :=
  match t.dropWhile (· ≠ at_) with
  | [] => none
  | _ :: rest => some (before at_ t, rest)

/-- A text without the leading `lead`, if it starts so. -/
def dropLead? (lead t : Text) : Option Text :=
  if lead.isPrefixOf t then some (t.drop lead.length) else none

def unwords (ws : List Text) : Text := [byte ' '].intercalate ws

def padLeft (width : Nat) (fill : UInt8) (t : Text) : Text :=
  List.replicate (width - t.length) fill ++ t

end Text

end TapeMachine
