import TapeMachine.Text.Blank

/-! Source text as lines. A line ends at a line feed, and a carriage return before it belongs to
the line end; text after the last line feed is a line if there is any. A line of 65536 bytes or
more cannot be read, and neither can what follows it. A semicolon starts a comment. -/

namespace TapeMachine.Assembler.Source

/-- Bytes a line must stay below, its carriage return counted and its line feed not. -/
def lineLimit : Nat := 65536

def addByte (b : UInt8) (acc : Text × List Text) : Text × List Text :=
  if b = 10 then ([], acc.1 :: acc.2) else (b :: acc.1, acc.2)

/-- What stands between line feeds, with the rest after the last one only if it is not empty. -/
def rawLines (t : Text) : List Text :=
  let acc := t.foldr addByte ([], [])
  let all := acc.1 :: acc.2
  if all.getLast? = some [] then all.dropLast else all

def dropReturn (line : Text) : Text :=
  if line.getLast? = some 13 then line.dropLast else line

/-- The lines that can be read, and whether one too long follows them. -/
structure Lines where
  texts : List Text
  overlong : Bool

def fits (line : Text) : Bool := line.length < lineLimit

def lines (t : Text) : Lines where
  texts := ((rawLines t).takeWhile fits).map dropReturn
  overlong := (rawLines t).any (!fits ·)

/-- A line without its comment and the blanks around it. -/
def strip (line : Text) : Text := Text.trim (Text.before (byte ';') line)

end TapeMachine.Assembler.Source
