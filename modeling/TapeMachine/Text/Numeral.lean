import TapeMachine.Text

/-! Integer literals. A literal is decimal, or hexadecimal after `0x`, octal after `0o` or a lone
`0`, binary after `0b`; underscores may stand between digits and after a base mark. Literals are
read into 64 bits, and the first fault from the left decides how a bad one is rejected. -/

namespace TapeMachine.Text

inductive NumeralError where
  | malformed
  | outOfRange
  deriving DecidableEq, Repr

def digitValue? (b : UInt8) : Option Nat :=
  if isDigit b then some (b - byte '0').toNat
  else if byte 'a' ≤ b && b ≤ byte 'z' then some ((b - byte 'a').toNat + 10)
  else if byte 'A' ≤ b && b ≤ byte 'Z' then some ((b - byte 'A').toNat + 10)
  else none

/-- Reads digits after those worth `acc`, skipping underscores when they may separate digits. -/
def readDigits (base : Nat) (separated : Bool) : Nat → Text → Except NumeralError Nat
  | acc, [] => .ok acc
  | acc, b :: rest =>
      if separated && b = byte '_' then readDigits base separated acc rest
      else match digitValue? b with
        | none => .error .malformed
        | some d =>
            if base ≤ d then .error .malformed
            else if 0x10000000000000000 ≤ acc * base + d then .error .outOfRange
            else readDigits base separated (acc * base + d) rest

/-- The base a literal announces, and its digits. -/
def baseMark : Text → Nat × Text
  | 0x30 :: rest@(mark :: body@(_ :: _)) =>
      if mark = byte 'b' || mark = byte 'B' then (2, body)
      else if mark = byte 'o' || mark = byte 'O' then (8, body)
      else if mark = byte 'x' || mark = byte 'X' then (16, body)
      else (8, rest)
  | 0x30 :: rest => (8, rest)
  | t => (10, t)

/-- What the byte before was, when checking separators. -/
inductive Mark where
  | start
  | digit
  | separator
  | other
  deriving DecidableEq

/-- Every underscore follows a digit and is followed by one. -/
def separatedFrom (hexadecimal : Bool) : Mark → Text → Bool
  | seen, [] => seen != .separator
  | seen, b :: rest =>
      if isDigit b || (hexadecimal && (digitValue? b).any (· < 16)) then
        separatedFrom hexadecimal .digit rest
      else if b = byte '_' then
        seen == .digit && separatedFrom hexadecimal .separator rest
      else
        seen != .separator && separatedFrom hexadecimal .other rest

/-- Underscores stand only between digits, where a base mark counts as a digit. -/
def wellSeparated : Text → Bool
  | 0x30 :: mark :: rest =>
      if mark = byte 'x' || mark = byte 'X' then separatedFrom true .digit rest
      else if mark = byte 'b' || mark = byte 'B' || mark = byte 'o' || mark = byte 'O' then
        separatedFrom false .digit rest
      else separatedFrom false .start (0x30 :: mark :: rest)
  | t => separatedFrom false .start t

/-- An unsigned literal below `2 ^ 64`. -/
def readUnsigned (t : Text) : Except NumeralError Nat :=
  if t.isEmpty then .error .malformed
  else match readDigits (baseMark t).1 true 0 (baseMark t).2 with
    | .error e => .error e
    | .ok n =>
        if t.contains (byte '_') && !wellSeparated t then .error .malformed else .ok n

/-- Splits one sign off: whether it is negative, and what follows. -/
def splitSign : Text → Bool × Text
  | 0x2B :: rest => (false, rest)
  | 0x2D :: rest => (true, rest)
  | t => (false, t)

def signedRange (negative : Bool) (n : Nat) : Except NumeralError Int :=
  if negative then
    if 0x8000000000000000 < n then .error .outOfRange else .ok (-(n : Int))
  else
    if 0x8000000000000000 ≤ n then .error .outOfRange else .ok n

/-- A literal with an optional sign, between `-2 ^ 63` and `2 ^ 63 - 1`. -/
def readSigned (t : Text) : Except NumeralError Int :=
  match readUnsigned (splitSign t).2 with
  | .error e => .error e
  | .ok n => signedRange (splitSign t).1 n

def readDecimal? (t : Text) : Option Int :=
  let (negative, body) := splitSign t
  if body.isEmpty then none
  else match readDigits 10 false 0 body with
    | .error _ => none
    | .ok n => (signedRange negative n).toOption

/-- A number that fits 32 bits, signed or not, as its two's complement. -/
def word32? (n : Int) : Option (BitVec 32) :=
  if -0x80000000 ≤ n && n < 0x100000000 then some (BitVec.ofInt 32 n) else none

def readWord32? (t : Text) : Option (BitVec 32) :=
  match readSigned t with
  | .error _ => none
  | .ok n => word32? n

end TapeMachine.Text
