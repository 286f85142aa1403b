import TapeMachine.Message.Style

/-! Message templates. A template is text with places for values: a percent sign, perhaps signs that
set the style, the number of a value in brackets, a width and a precision, and a letter that says
how the value is written. Places take the values in turn unless they name one; a width or precision
written as a star takes a value too. -/

namespace TapeMachine.Message

inductive Flaw where
  | width
  | precision
  deriving DecidableEq

def Flaw.message : Flaw → Text
  | width => text "%!(BADWIDTH)"
  | precision => text "%!(BADPREC)"

/-- How far a template is read: what is left of it, the value whose turn it is, whether some place
has named a value, the padding of the last decimal number, and what is known of the place being
read. -/
structure Place where
  rest : Text
  turn : Nat := 0
  reordered : Bool := false
  last : Padding := {}
  style : Style := {}
  flaw : Option Flaw := none
  /-- No place has named a value there is none of, or at the wrong point. -/
  good : Bool := true
  /-- The number of a value was read last. -/
  named : Bool := false

namespace Place

/-- The signs that set the style; zeros fill only on the left. -/
def readSigns (s : Style) : Text → Style × Text
  | [] => (s, [])
  | b :: rest =>
      if b = byte '#' then readSigns { s with sharp := true } rest
      else if b = byte '0' then readSigns { s with zero := !s.minus } rest
      else if b = byte '+' then readSigns { s with plus := true } rest
      else if b = byte '-' then readSigns { s with minus := true, zero := false } rest
      else if b = byte ' ' then readSigns { s with space := true } rest
      else (s, b :: rest)

/-- No width or precision is larger. -/
def sizeLimit : Nat := 1000000

/-- A number in decimal digits after those worth `n`. One that grows too large takes the rest of
the text with it. -/
def readSize (n : Option Nat) : Text → Option Nat × Text
  | [] => (n, [])
  | b :: rest =>
      if Text.isDigit b then
        if sizeLimit < n.getD 0 then (none, [])
        else readSize (some (n.getD 0 * 10 + (b - byte '0').toNat)) rest
      else (n, b :: rest)

/-- The number between brackets, counted from 1. -/
def bracketed? (t : Text) : Option Nat :=
  match readSize none t with
  | (some n, []) => some n
  | _ => none

/-- The number of a value between brackets, if the place has one here. -/
def readNamed (count : Nat) (p : Place) : Place :=
  match p.rest with
  | 0x5B :: body =>
      let p := { p with reordered := true }
      let close := if body.length < 2 then none else Text.cut? (byte ']') body
      match close with
      | none => { p with rest := body, good := false, named := false }
      | some (inner, rest) =>
          match bracketed? inner with
          | none => { p with rest := rest, good := false, named := false }
          | some n =>
              if 1 ≤ n && n ≤ count then { p with rest := rest, turn := n - 1, named := true }
              else { p with rest := rest, good := false, named := true }
  | _ => { p with named := false }

def takeSize (args : List Arg) (p : Place) : Option Int × Place :=
  match args[p.turn]? with
  | none => (none, p)
  | some a =>
      let p := { p with turn := p.turn + 1 }
      match a with
      | .int n => (if n.natAbs ≤ sizeLimit then some n else none, p)
      | .text _ => (none, p)

def readWidth (args : List Arg) (p : Place) : Place :=
  match p.rest with
  | 0x2A :: rest =>
      let (size, p) := takeSize args { p with rest := rest, named := false }
      match size with
      | none => { p with flaw := some .width }
      | some n =>
          let style := { p.style with width := some n.natAbs }
          { p with
            style := if n < 0 then { style with minus := true, zero := false } else style }
  | t =>
      let (size, rest) := readSize none t
      { p with
        rest := rest, style := { p.style with width := size }
        good := p.good && !(p.named && size.isSome) }

def readPrecision (args : List Arg) (p : Place) : Place :=
  match p.rest with
  | 0x2E :: rest@(_ :: _) =>
      let p := readNamed args.length { p with rest := rest, good := p.good && !p.named }
      match p.rest with
      | 0x2A :: rest =>
          let (size, p) := takeSize args { p with rest := rest, named := false }
          match size.filter (0 ≤ ·) with
          | none => { p with flaw := some .precision }
          | some n => { p with style := { p.style with precision := some n.toNat } }
      | t =>
          let (size, rest) := readSize none t
          { p with rest := rest, style := { p.style with precision := some (size.getD 0) } }
  | _ => p

def read (args : List Arg) (p : Place) : Place :=
  let (style, rest) := readSigns {} p.rest
  let p := readNamed args.length { p with rest := rest, style := style, flaw := none, good := true }
  let p := readPrecision args (readWidth args p)
  if p.named then p else readNamed args.length p

/-- What stands in a place for its value, and the place after it. -/
def finish (args : List Arg) (p : Place) : Text × Place :=
  match p.rest with
  | [] => (text "%!(NOVERB)", p)
  | b :: _ =>
      let letter := p.rest.take (Text.charWidth p.rest)
      let verb := Text.codeOf letter
      let p := { p with rest := p.rest.drop letter.length }
      let complaint (what : String) : Text :=
        text "%!" ++ Text.encode verb ++ text "(" ++ text what ++ text ")"
      if b = byte '%' then (text "%", p)
      else if !p.good then (complaint "BADINDEX", p)
      else
        let next := { p with turn := p.turn + 1 }
        match args[p.turn]? with
        | none => (complaint "MISSING", next)
        | some a =>
            let (shown, last) := p.style.value p.last verb a
            ((p.flaw.map Flaw.message).getD [] ++ shown, { next with last := last })

end Place

/-- The values that no place took. Nothing is said of them when no place takes its turn. -/
def unused (args : List Arg) (p : Place) : Text :=
  if p.reordered || p.turn = 0 || args.length ≤ p.turn then []
  else
    let shown (a : Arg) : Text := a.kind ++ text "=" ++ (({} : Style).general {} a).1
    text "%!(EXTRA " ++ (text ", ").intercalate ((args.drop p.turn).map shown) ++ text ")"

/-- Writes the rest of a template. Every round reads some of it, so its length bounds the rounds. -/
def fillFrom (args : List Arg) : Nat → Place → Text
  | 0, _ => []
  | fuel + 1, p =>
      match p.rest with
      | [] => unused args p
      | 0x25 :: rest =>
          let (shown, next) := (Place.read args { p with rest := rest }).finish args
          shown ++ fillFrom args fuel next
      | b :: rest => b :: fillFrom args fuel { p with rest := rest }

def fill (template : Text) (args : List Arg) : Text :=
  fillFrom args (template.length + 1) { rest := template }

end TapeMachine.Message
