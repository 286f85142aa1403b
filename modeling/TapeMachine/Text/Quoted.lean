import TapeMachine.Text.Decimal
import TapeMachine.Text.Printable

/-! Quoted text: between quotes, with a backslash before what would end the quotation, and escapes
for characters that cannot be printed and for bytes of no valid character. -/

namespace TapeMachine.Text

def hexPadded (width n : Nat) : Text := padLeft width (byte '0') (hex n)

def hexByte (b : UInt8) : Text := hexPadded 2 b.toNat

def escapedCode (code : Nat) : Text :=
  if code < 0x80 then text "\\x" ++ hexPadded 2 code
  else if code < 0x10000 then text "\\u" ++ hexPadded 4 code
  else text "\\U" ++ hexPadded 8 code

/-- The code of a character inside quotes of one kind. -/
def quoteCode (mark : UInt8) (asciiOnly : Bool) (code : Nat) : Text :=
  if code = mark.toNat || code = 0x5C then [byte '\\', code.toUInt8]
  else if isPrintable code && !(asciiOnly && 0x80 ≤ code) then encode code
  else if code = 7 then text "\\a"
  else if code = 8 then text "\\b"
  else if code = 9 then text "\\t"
  else if code = 10 then text "\\n"
  else if code = 11 then text "\\v"
  else if code = 12 then text "\\f"
  else if code = 13 then text "\\r"
  else escapedCode code

/-- A character inside quotes: a byte of no valid one is escaped as a byte. -/
def quoteChar (mark : UInt8) (asciiOnly : Bool) (c : Text) : Text :=
  match c with
  | [b] => if b < 0x80 then quoteCode mark asciiOnly b.toNat else text "\\x" ++ hexByte b
  | c => quoteCode mark asciiOnly (codeOf c)

def quotedWith (mark : UInt8) (asciiOnly : Bool) (t : Text) : Text :=
  mark :: (chars t).flatMap (quoteChar mark asciiOnly) ++ [mark]

def quoted (t : Text) : Text := quotedWith (byte '"') false t

def quotedCode (asciiOnly : Bool) (code : Nat) : Text :=
  let valid := if (0xD800 ≤ code && code ≤ 0xDFFF) || 0x10FFFF < code then replacement else code
  byte '\x27' :: quoteCode (byte '\x27') asciiOnly valid ++ [byte '\x27']

end TapeMachine.Text
