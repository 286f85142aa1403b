import TapeMachine.Text

/-! Numbers as text: decimal, with a comma before every three digits where one is asked for, and
hexadecimal. -/

namespace TapeMachine.Text

def digits (base n : Nat) : Text := (Nat.toDigits base n).map Char.toUInt8

def ofNat (n : Nat) : Text := digits 10 n

/-- A minus sign before the digits of a negative number; no sign otherwise. -/
def signed (body : Nat → Text) (n : Int) : Text :=
  if n < 0 then byte '-' :: body n.natAbs else body n.natAbs

def ofInt (n : Int) : Text := signed ofNat n

/-- Digits from the last to the first, with a comma after every three that more follow. -/
def group : Text → Text
  | a :: b :: c :: rest@(_ :: _) => a :: b :: c :: byte ',' :: group rest
  | t => t

def hex (n : Nat) : Text := digits 16 n

/-- Sixteen upper-case hexadecimal digits of a 64-bit word. -/
def hex16 (w : BitVec 64) : Text := padLeft 16 (byte '0') (upper (hex w.toNat))

end TapeMachine.Text
