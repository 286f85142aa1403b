import TapeMachine.Expression.Literal

/-! Floating-point numbers next to unbounded integers. A finite number is an integer times a power
of two, so comparison, remainder and the digits of a number are exact. -/

namespace TapeMachine.Expression.Number

def infinity : Float := Float.ofBits 0x7FF0000000000000

def notANumber : Float := Float.ofBits 0x7FF8000000000001

def isNegative (x : Float) : Bool := 0x8000000000000000 ≤ x.toBits

/-- The magnitude of a finite number as `m * 2 ^ e`. -/
def magnitude? (x : Float) : Option (Nat × Int) :=
  let bits := x.toBits.toNat
  let e := bits / 0x10000000000000 % 2048
  let f := bits % 0x10000000000000
  if e = 2047 then none
  else if e = 0 then some (f, -1074)
  else some (f + 0x10000000000000, (e : Int) - 1075)

/-- A finite number as `m * 2 ^ e`. -/
def parts? (x : Float) : Option (Int × Int) :=
  (magnitude? x).map fun (m, e) => (if isNegative x then -(m : Int) else m, e)

/-- A natural number times a power of two, if that is exact. -/
def scaled (m : Nat) (e : Int) : Float :=
  let zeros := if m = 0 then 0 else (m &&& (m ^^^ (m - 1))).log2
  (Float.ofNat (m >>> zeros)).scaleB (e + zeros)

def ofInt? (n : Int) : Option Float :=
  let x := if n < 0 then -(Float.ofNat n.natAbs) else Float.ofNat n.natAbs
  if x.isInf then none else some x

def toInt? (x : Float) : Option Int :=
  (parts? x).map fun (m, e) => if 0 ≤ e then m <<< e.toNat else m.tdiv (1 <<< (-e).toNat : Nat)

/-- The order of an integer and a floating-point number. What is no number is above all. -/
def compareInt (n : Int) (x : Float) : Ordering :=
  match parts? x with
  | some (m, e) =>
      if 0 ≤ e then compare n (m <<< e.toNat) else compare (n <<< (-e).toNat) m
  | none => if x.isInf && isNegative x then .gt else .lt

/-- The order of two floating-point numbers. What is no number is above all, and equal to
itself. -/
def compareFloat (x y : Float) : Ordering :=
  if y < x then .gt
  else if x < y then .lt
  else if x == y then .eq
  else if x == x then .lt
  else if y == y then .gt
  else .eq

/-- The remainder of a division that is rounded to zero. -/
def remainder (x y : Float) : Float :=
  match magnitude? x, magnitude? y with
  | some (m, d), some (n, e) =>
      if n = 0 then notANumber
      else
        let low := min d e
        let r := scaled ((m <<< (d - low).toNat) % (n <<< (e - low).toNat)) low
        if isNegative x then -r else r
  | some _, none => if y.isNaN then notANumber else x
  | none, _ => notANumber

/-- The remainder of a division that is rounded down. It has the sign of the divisor. -/
def floorRemainder (x y : Float) : Float :=
  let r := remainder x y
  if (decide (x < 0) != decide (y < 0)) && r != 0 then r + y else r

/-! ### Digits -/

/-- Significant digits `d` of a number `0.d * 10 ^ point`. -/
structure Digits where
  digits : Text
  point : Int

/-- A fraction rounded to an integer, a half to the even one. -/
def roundHalfEven (num den : Nat) : Nat :=
  let q := num / den
  let r := num % den
  if den < 2 * r || (2 * r = den && q % 2 = 1) then q + 1 else q

/-- A power of ten as a factor of the numerator or of the denominator. -/
def timesTen (e : Int) (num den : Nat) : Nat × Nat :=
  if 0 ≤ e then (num * Nat.pow 10 e.toNat, den) else (num, den * Nat.pow 10 (-e).toNat)

/-- How many zeros follow the point of a fraction below one; `fuel` bounds them. -/
def leadingZeros : Nat → Nat → Nat → Nat
  | 0, _, _ => 0
  | fuel + 1, num, den => if den ≤ 10 * num then 0 else leadingZeros fuel (10 * num) den + 1

def pointOf (num den : Nat) : Int :=
  if den ≤ num then (Text.ofNat (num / den)).length else -(leadingZeros 400 num den : Int)

def Digits.trimmed (n : Nat) (point : Int) : Digits :=
  let ds := Text.ofNat n
  ⟨(ds.reverse.dropWhile (· = byte '0')).reverse, point⟩

/-- The fewest digits, from `count` on, that read back as a positive number `x`, which is a
fraction; among these the nearest. -/
def shortest (x : Float) (num den : Nat) (point : Int) : Nat → Nat → Digits
  | 0, count => ⟨Text.ofNat (num * Nat.pow 10 count / den), point⟩
  | fuel + 1, count =>
      let (a, b) := timesTen (count - point) num den
      let low := a / b
      let reads (n : Nat) : Bool :=
        let e := point - count
        Float.ofScientific n (e < 0) e.natAbs == x
      let result (n : Nat) : Digits :=
        Digits.trimmed n (point + ((Text.ofNat n).length - count : Int))
      if reads low && (2 * a ≤ (2 * low + 1) * b || !reads (low + 1)) then result low
      else if reads (low + 1) then result (low + 1)
      else shortest x num den point fuel (count + 1)

def fraction (m : Nat) (e : Int) : Nat × Nat :=
  if 0 ≤ e then (m <<< e.toNat, 1) else (m, 1 <<< (-e).toNat)

/-- Digits as `1.25e+06`, with `count` of them after the point. -/
def exponential (mark : UInt8) (count : Nat) (d : Digits) : Text :=
  let e := if d.digits.isEmpty then 0 else d.point - 1
  let tail := d.digits.drop 1
  let frac := tail ++ List.replicate (count - tail.length) (byte '0')
  [d.digits.headD (byte '0')] ++ (if count = 0 then [] else byte '.' :: frac)
    ++ [mark, if e < 0 then byte '-' else byte '+']
    ++ Text.padLeft 2 (byte '0') (Text.ofNat e.natAbs)

/-- Digits as `1250000.0`, with `count` of them after the point. -/
def positional (count : Nat) (d : Digits) : Text :=
  let whole :=
    if d.point ≤ 0 then [byte '0']
    else
      let n := d.point.toNat
      d.digits.take n ++ List.replicate (n - d.digits.length) (byte '0')
  let frac := List.replicate (-d.point).toNat (byte '0') ++ d.digits.drop d.point.toNat
  let frac := (frac ++ List.replicate count (byte '0')).take count
  whole ++ if count = 0 then [] else byte '.' :: frac

def special (x : Float) : Text :=
  if x.isNaN then text "nan" else if isNegative x then text "-inf" else text "+inf"

def withSign (x : Float) (t : Text) : Text := if isNegative x then byte '-' :: t else t

/-- The fewest digits that read back, with an exponent below `0.0001` and from a million on, and
always with a point or an exponent. -/
def toText (capital : Bool) (x : Float) : Text :=
  match magnitude? x with
  | none => special x
  | some (m, e) =>
      let (num, den) := fraction m e
      let d := if m = 0 then ⟨[], 0⟩ else shortest x.abs num den (pointOf num den) 17 1
      let mark := if capital then byte 'E' else byte 'e'
      withSign x <|
        if d.point - 1 < -4 || 6 ≤ d.point - 1 then exponential mark (d.digits.length - 1) d
        else
          let count := (d.digits.length - d.point).toNat
          positional count d ++ if count = 0 then text ".0" else []

def toFixed (x : Float) : Text :=
  match magnitude? x with
  | none => special x
  | some (m, e) =>
      let (num, den) := fraction m e
      let n := roundHalfEven (num * 1000000) den
      withSign x (Text.ofNat (n / 1000000) ++ byte '.' ::
        Text.padLeft 6 (byte '0') (Text.ofNat (n % 1000000)))

def toScientific (capital : Bool) (x : Float) : Text :=
  match magnitude? x with
  | none => special x
  | some (m, e) =>
      let mark := if capital then byte 'E' else byte 'e'
      if m = 0 then withSign x (exponential mark 6 ⟨[], 0⟩)
      else
        let (num, den) := fraction m e
        let point := pointOf num den
        let (a, b) := timesTen (7 - point) num den
        let ds := Text.ofNat (roundHalfEven a b)
        withSign x (exponential mark 6 ⟨ds.take 7, point + (ds.length - 7 : Int)⟩)

/-- The number that a text denotes, signs and exponent included: decimal or, after `0x` and with a
binary exponent, hexadecimal. Underscores may stand between digits. -/
def ofText? (t : Text) : Option Float :=
  let (negative, body) := Text.splitSign t
  let plain := body.filter (· ≠ byte '_')
  if body.contains (byte '_') && !Text.wellSeparated body then none
  else
    let value := match plain with
      | 0x30 :: mark :: rest =>
          if mark = byte 'x' || mark = byte 'X' then hexadecimal? rest else decimal? plain
      | _ => decimal? plain
    value.map fun x => if negative then -x else x
where
  decimal? (t : Text) : Option Float :=
    let (whole, rest) := spanDigits 10 t
    let (frac, rest) := match rest with
      | 0x2E :: rest => spanDigits 10 rest
      | rest => ([], rest)
    if whole.isEmpty && frac.isEmpty then none
    else match rest with
      | [] => some (floatOfDigits (whole ++ frac) (-frac.length))
      | b :: rest =>
          if Literal.isExponentMark b then
            match Literal.exponent? rest with
            | some (e, []) => some (floatOfDigits (whole ++ frac) (e - frac.length))
            | _ => none
          else none
  hexadecimal? (t : Text) : Option Float :=
    let (whole, rest) := spanDigits 16 t
    let (frac, rest) := match rest with
      | 0x2E :: rest => spanDigits 16 rest
      | rest => ([], rest)
    match rest with
    | b :: rest =>
        if (whole.isEmpty && frac.isEmpty) || !(b = byte 'p' || b = byte 'P') then none
        else match Literal.exponent? rest with
          | some (e, []) => some (binary (valueOfDigits 16 (whole ++ frac)) (e - 4 * frac.length))
          | _ => none
    | [] => none
  /-- The nearest number to `m * 2 ^ e`. -/
  binary (m : Nat) (e : Int) : Float :=
    let top := e + m.log2
    if m = 0 || top < -1200 then 0
    else if 1100 < top then infinity
    else if 0 ≤ e then Float.ofNat (m <<< e.toNat)
    else Float.ofScientific (m * Nat.pow 5 (-e).toNat) true (-e).toNat

end TapeMachine.Expression.Number
