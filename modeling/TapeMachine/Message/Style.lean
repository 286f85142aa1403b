import TapeMachine.Text.Quoted

/-! How one value is written into a message: its sign, its least width and precision, and the form
that a letter asks for. Decimal numbers have a comma before every three digits. -/

namespace TapeMachine.Message

inductive Arg where
  | int (n : Int)
  | text (t : Text)
  deriving DecidableEq

namespace Arg

/-- Numbers from here on are counted without a sign. -/
def unsignedFrom : Int := 0x8000000000000000

def kind : Arg → Text
  | int n => TapeMachine.text (if n < unsignedFrom then "int64" else "uint64")
  | text _ => TapeMachine.text "string"

end Arg

/-- What stands between the mark of a place and its letter. -/
structure Style where
  plus : Bool := false
  minus : Bool := false
  sharp : Bool := false
  space : Bool := false
  zero : Bool := false
  width : Option Nat := none
  precision : Option Nat := none
  deriving DecidableEq

/-- How decimal numbers with separators are filled up. A message keeps it from one number to the
next. -/
structure Padding where
  width : Nat := 0
  minus : Bool := false
  deriving DecidableEq

namespace Style

/-- Fills up to the least width, on the left unless a minus sign asks for the right. -/
def padWith (fill : UInt8) (s : Style) (t : Text) : Text :=
  match s.width with
  | none => t
  | some w =>
      let missing := List.replicate (w - (Text.chars t).length) fill
      if s.minus then t ++ missing else missing ++ t

def pad (s : Style) (t : Text) : Text := s.padWith (if s.zero then byte '0' else byte ' ') t

def padBlank (s : Style) (t : Text) : Text := s.padWith (byte ' ') t

def sign (s : Style) (negative : Bool) : Text :=
  if negative then text "-" else if s.plus then text "+" else if s.space then text " " else []

/-- The fewest digits a plain number shows: its precision, or the width filled with zeros. -/
def leastDigits (s : Style) (negative : Bool) : Nat :=
  match s.precision, s.width with
  | some p, _ => p
  | none, some w =>
      if s.zero then if negative || s.plus || s.space then w - 1 else w else 0
  | none, none => 0

def baseMark (s : Style) (base : Nat) (capital : Bool) (digits : Text) : Text :=
  if !s.sharp then []
  else if base = 16 then text (if capital then "0X" else "0x")
  else if base = 8 && digits.head? ≠ some (byte '0') then text "0"
  else []

/-- A number without separators. A zero of no digits is not shown. -/
def plain (s : Style) (base : Nat) (capital : Bool) (n : Int) : Text :=
  if s.precision = some 0 && n = 0 then List.replicate (s.width.getD 0) (byte ' ')
  else
    let digits := Text.padLeft (s.leastDigits (n < 0)) (byte '0') (Text.digits base n.natAbs)
    let digits := if capital then Text.upper digits else digits
    s.padBlank (s.sign (n < 0) ++ s.baseMark base capital digits ++ digits)

def leastDecimals (s : Style) : Nat :=
  match s.precision, s.width with
  | some p, _ => p % 256
  | none, some w =>
      let w := if s.plus || s.space then w - 1 else w
      if s.zero && 1 < w then w % 256 else 1
  | none, none => 1

/-- The padding of a decimal number with separators, where `last` is that of the one before: its
own if it has a width, the last one if it has only a precision, and none if it has neither. -/
def padding (s : Style) (last : Padding) : Padding :=
  match s.width, s.precision with
  | some w, _ => { width := w % 65536, minus := s.minus }
  | none, some _ => last
  | none, none => {}

/-- A decimal number with separators. Zero has no digits of its own. -/
def decimal (s : Style) (p : Padding) (n : Int) : Text :=
  let own := if n = 0 then [] else Text.ofNat n.natAbs
  let digits := Text.padLeft s.leastDecimals (byte '0') own
  { s with width := some p.width, minus := p.minus }.padBlank
    (s.sign (n < 0) ++ (Text.group digits.reverse).reverse)

/-- The number of a character, and the character itself if a sharp sign asks for it. -/
def codePoint (s : Style) (code : Nat) : Text :=
  let digits := Text.upper (Text.hexPadded (max 4 (s.precision.getD 4)) code)
  let shown :=
    if s.sharp && code ≤ 0x10FFFF && Text.isPrintable code then
      text " '" ++ Text.encode code ++ text "'"
    else []
  s.padBlank (text "U+" ++ digits ++ shown)

/-- The text up to as many characters as the precision allows. -/
def truncate (s : Style) (t : Text) : Text :=
  match s.precision with
  | some p => ((Text.chars t).take p).flatten
  | none => t

/-- Whether a text can stand between backquotes: valid, and with no control character but the
tab. -/
def canBackquote (t : Text) : Bool :=
  (Text.chars t).all fun c =>
    let code := Text.codeOf c
    !(c.length = 1 && code = Text.replacement) && code ≠ 0xFEFF && code ≠ 0x60 && code ≠ 0x7F
      && (0x20 ≤ code || code = 9)

def quotation (s : Style) (t : Text) : Text :=
  let t := s.truncate t
  if s.sharp && canBackquote t then s.pad (text "`" ++ t ++ text "`")
  else s.pad (Text.quotedWith (byte '"') s.plus t)

/-- The bytes of a text in hexadecimal, apart if a blank asks for it. -/
def hexBytes (s : Style) (capital : Bool) (t : Text) : Text :=
  let mark := if s.sharp then text (if capital then "0X" else "0x") else []
  let bytes := (t.take (s.precision.getD t.length)).map fun b =>
    if capital then Text.upper (Text.hexByte b) else Text.hexByte b
  if bytes.isEmpty then s.pad []
  else if s.space then s.pad ((text " ").intercalate (bytes.map (mark ++ ·)))
  else s.pad (mark ++ bytes.flatten)

/-! ### Letters

Each form comes with the padding that a message keeps after it. -/

/-- A value as it is usually written: numbers with separators unless a sharp sign asks for none. -/
def usual (s : Style) (last : Padding) : Arg → Text × Padding
  | .int n =>
      if s.sharp then (s.plain 10 false n, last)
      else
        let p := s.padding last
        (s.decimal p n, p)
  | .text t => (s.pad (s.truncate t), last)

/-- A value for the letter `v`, where a plus sign has no meaning and a sharp one asks for a form
that can be read back. -/
def general (s : Style) (last : Padding) (a : Arg) : Text × Padding :=
  let s := { s with plus := false }
  match a with
  | .int n =>
      if s.sharp && Arg.unsignedFrom ≤ n then (s.plain 16 false n, last) else s.usual last (.int n)
  | .text t =>
      if s.sharp then ({ s with sharp := false }.quotation t, last) else s.usual last (.text t)

def number? (s : Style) (last : Padding) (verb : Nat) (n : Int) : Option (Text × Padding) :=
  let code := (if n < 0 then n + 0x10000000000000000 else n).toNat
  let only (t : Text) : Option (Text × Padding) := some (t, last)
  if verb = 0x64 then some (s.usual last (.int n))
  else if verb = 0x62 then only (s.plain 2 false n)
  else if verb = 0x6F then only (s.plain 8 false n)
  else if verb = 0x78 then only (s.plain 16 false n)
  else if verb = 0x58 then only (s.plain 16 true n)
  else if verb = 0x63 then only (s.pad (Text.encode code))
  else if verb = 0x71 then
    if code ≤ 0x10FFFF then only (s.pad (Text.quotedCode s.plus code)) else none
  else if verb = 0x55 then only (s.codePoint code)
  else none

def text? (s : Style) (verb : Nat) (t : Text) : Option Text :=
  if verb = 0x73 then some (s.pad (s.truncate t))
  else if verb = 0x78 then some (s.hexBytes false t)
  else if verb = 0x58 then some (s.hexBytes true t)
  else if verb = 0x71 then some (s.quotation t)
  else if verb = 0x6D then some t
  else none

def form? (s : Style) (last : Padding) (verb : Nat) : Arg → Option (Text × Padding)
  | .int n => s.number? last verb n
  | .text t => (s.text? verb t).map (·, last)

/-- A value in the form of a letter: its kind for `T`, and for a letter without such a form a
complaint with its kind and its usual form. -/
def value (s : Style) (last : Padding) (verb : Nat) (a : Arg) : Text × Padding :=
  if verb = 0x54 then (s.pad (s.truncate a.kind), last)
  else if verb = 0x76 then s.general last a
  else match s.form? last verb a with
    | some shown => shown
    | none =>
        let (shown, p) := s.usual last a
        (text "%!" ++ Text.encode verb ++ text "(" ++ a.kind ++ text "=" ++ shown ++ text ")", p)

end Style

end TapeMachine.Message
