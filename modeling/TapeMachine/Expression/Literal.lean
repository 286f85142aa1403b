import TapeMachine.Text.Numeral
import TapeMachine.Text.Quoted

/-! Literals of compile-time expressions. Integers are unbounded in decimal and hexadecimal; a
decimal integer other than zero does not start with `0`. Strings stand between single or triple
quotes; `r` before them keeps backslashes, and `b` makes them plain bytes. -/

namespace TapeMachine.Expression

def valueOfDigits (base : Nat) (ds : Text) : Nat :=
  ds.foldl (fun n b => n * base + (Text.digitValue? b).getD 0) 0

def spanDigits (base : Nat) (t : Text) : Text × Text :=
  t.span fun b => (Text.digitValue? b).any (· < base)

/-- The number `digits · 10 ^ exponent`, or infinity if it is too large. -/
def floatOfDigits (digits : Text) (exponent : Int) : Float :=
  let digits := digits.dropWhile (· = byte '0')
  let top := exponent + digits.length
  if digits.isEmpty || top < -400 then 0
  else if 400 < top then Float.ofBits 0x7FF0000000000000
  else Float.ofScientific (valueOfDigits 10 digits) (exponent < 0) exponent.natAbs

namespace Literal

inductive Number where
  | int (n : Nat)
  | float (x : Float)

/-- A literal in a marked base. Only hexadecimal ones are unbounded. -/
def marked? (base : Nat) (t : Text) : Option (Number × Text) :=
  let (ds, rest) := spanDigits base t
  let n := valueOfDigits base ds
  if ds.isEmpty || (base ≠ 16 && 0x8000000000000000 ≤ n) then none else some (.int n, rest)

def float? (digits : Text) (exponent : Int) : Option Number :=
  let x := floatOfDigits digits exponent
  if x.isInf then none else some (.float x)

def exponent? (t : Text) : Option (Int × Text) :=
  let (negative, body) := Text.splitSign t
  let (ds, rest) := spanDigits 10 body
  if ds.isEmpty then none
  else
    let n := valueOfDigits 10 ds
    some (if negative then -(n : Int) else n, rest)

def isExponentMark (b : UInt8) : Bool := b = byte 'e' || b = byte 'E'

/-- Completes a floating-point literal from the digits before and after its point. -/
def floatTail? (whole frac : Text) (t : Text) : Option (Number × Text) :=
  let complete (exponent : Int) (rest : Text) : Option (Number × Text) :=
    (float? (whole ++ frac) (exponent - frac.length)).map (·, rest)
  match t with
  | b :: rest =>
      if isExponentMark b then
        match exponent? rest with
        | some (e, rest) => complete e rest
        | none => none
      else complete 0 t
  | [] => complete 0 t

def whole? (ds rest : Text) : Option (Number × Text) :=
  if ds.head? = some (byte '0') && ds.any (· ≠ byte '0') then none
  else some (.int (valueOfDigits 10 ds), rest)

def decimal? (t : Text) : Option (Number × Text) :=
  let (whole, rest) := spanDigits 10 t
  match rest with
  | 0x2E :: rest =>
      let (frac, rest) := spanDigits 10 rest
      floatTail? whole frac rest
  | b :: _ => if isExponentMark b then floatTail? whole [] rest else whole? whole rest
  | [] => whole? whole rest

/-- The number a text starts with, given that it starts with a digit or with a point and one. -/
def number? (t : Text) : Option (Number × Text) :=
  match t with
  | 0x30 :: mark :: rest =>
      if mark = byte 'x' || mark = byte 'X' then marked? 16 rest
      else if mark = byte 'o' || mark = byte 'O' then marked? 8 rest
      else if mark = byte 'b' || mark = byte 'B' then marked? 2 rest
      else decimal? t
  | _ => decimal? t

structure Opening where
  raw : Bool := false
  bytes : Bool := false
  quote : UInt8

def isQuote (b : UInt8) : Bool := b = byte '"' || b = byte '\x27'

/-- The opening of a string at the start of a text, and what follows its first quote. -/
def opening? : Text → Option (Opening × Text)
  | 0x72 :: 0x62 :: q :: rest =>
      if isQuote q then some ({ raw := true, bytes := true, quote := q }, rest) else none
  | 0x72 :: q :: rest => if isQuote q then some ({ raw := true, quote := q }, rest) else none
  | 0x62 :: q :: rest => if isQuote q then some ({ bytes := true, quote := q }, rest) else none
  | q :: rest => if isQuote q then some ({ quote := q }, rest) else none
  | [] => none

/-- What stands before the closing quote on the same line, and what follows it. A backslash takes
the next byte with it. -/
def body? (quote : UInt8) : Text → Option (Text × Text)
  | 0x5C :: b :: rest => (body? quote rest).map fun (body, rest) => (0x5C :: b :: body, rest)
  | b :: rest =>
      if b = quote then some ([], rest)
      else if b = 10 || b = 0x5C then none
      else (body? quote rest).map fun (body, rest) => (b :: body, rest)
  | [] => none

/-- What stands before three closing quotes, and what follows them. -/
def longBody? (quote : UInt8) : Text → Option (Text × Text)
  | 0x5C :: b :: rest =>
      (longBody? quote rest).map fun (body, rest) => (0x5C :: b :: body, rest)
  | b :: rest =>
      if b = 0x5C then none
      else if [quote, quote, quote].isPrefixOf (b :: rest) then some ([], rest.drop 2)
      else (longBody? quote rest).map fun (body, rest) => (b :: body, rest)
  | [] => none

def escaped? (b : UInt8) : Option UInt8 :=
  if b = byte 'n' then some 10
  else if b = byte 't' then some 9
  else if b = byte 'r' then some 13
  else if b = byte 'a' then some 7
  else if b = byte 'b' then some 8
  else if b = byte 'f' then some 12
  else if b = byte 'v' then some 11
  else if b = byte '\\' || isQuote b then some b
  else none

def hexEscape? (count : Nat) (t : Text) : Option Nat :=
  let ds := t.take count
  if ds.length = count && ds.all (fun b => (Text.digitValue? b).any (· < 16)) then
    some (valueOfDigits 16 ds)
  else none

/-- A byte by its number; in a string only an ASCII one. -/
def byteEscape? (bytes : Bool) (n : Nat) : Option Text :=
  if n < (if bytes then 256 else 128) then some [n.toUInt8] else none

/-- A character by its code, which is no surrogate. -/
def codeEscape? (n : Nat) : Option Text :=
  if 0x10FFFF < n || (0xD800 ≤ n && n < 0xE000) then none else some (Text.encode n)

/-- What a backslash and the bytes after it stand for, and how many of these it takes. -/
def escape? (bytes : Bool) (t : Text) : Option (Text × Nat) :=
  match t with
  | [] => none
  | b :: rest =>
      if b = 10 then some ([], 1)
      else if (Text.digitValue? b).any (· < 8) then
        let ds := (t.take 3).takeWhile fun b => (Text.digitValue? b).any (· < 8)
        (byteEscape? bytes (valueOfDigits 8 ds)).map (·, ds.length)
      else if b = byte 'x' then
        (hexEscape? 2 rest).bind fun n => (byteEscape? bytes n).map (·, 3)
      else if b = byte 'u' then
        (hexEscape? 4 rest).bind fun n => (codeEscape? n).map (·, 5)
      else if b = byte 'U' then
        (hexEscape? 8 rest).bind fun n => (codeEscape? n).map (·, 9)
      else (escaped? b).map fun c => ([c], 1)

/-- A text without its escapes, after the `skip` bytes that belong to one. -/
def unescape? (bytes : Bool) : Nat → Text → Option Text
  | _, [] => some []
  | skip + 1, _ :: rest => unescape? bytes skip rest
  | 0, b :: rest =>
      if b = 0x5C then
        match escape? bytes rest with
        | some (t, taken) => (unescape? bytes taken rest).map (t ++ ·)
        | none => none
      else (unescape? bytes 0 rest).map (b :: ·)

def string? (o : Opening) (t : Text) : Option (Text × Text) :=
  let read := if [o.quote, o.quote].isPrefixOf t then longBody? o.quote (t.drop 2)
    else body? o.quote t
  match read with
  | none => none
  | some (body, rest) =>
      if o.raw then some (body, rest) else (unescape? o.bytes 0 body).map (·, rest)

end Literal

end TapeMachine.Expression
