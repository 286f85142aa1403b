import TapeMachine.Expression.Compare

/-! Values as text: as they would be written in an expression, and filled into the places of a
template. -/

namespace TapeMachine.Expression

namespace Value

def viewSuffix : View → Text
  | .elems => text ".elems()"
  | .elemOrds => text ".elem_ords()"
  | .codepoints => text ".codepoints()"
  | .codepointOrds => text ".codepoint_ords()"
  | .bytesElems => text ".elems()"

def quotedBytes (t : Text) : Text := byte 'b' :: Text.quoted t

def commas (ts : List Text) : Text := (text ", ").intercalate ts

def rangeText (start stop step : Int) : Text :=
  let args :=
    if step ≠ 1 then [start, stop, step] else if start ≠ 0 then [start, stop] else [stop]
  text "range(" ++ commas (args.map Text.ofInt) ++ text ")"

def ellipsis : Text := text "..."

/-- A value as it is written, inside the lists and dictionaries at the places `path`, which show
as an ellipsis; so does what is more than `depth` levels deep. -/
def shownAt (s : Store) : Nat → List Nat → Value → Text
  | 0, _, _ => ellipsis
  | depth + 1, path, v =>
      match v with
      | nil => text "None"
      | bool b => text (if b then "True" else "False")
      | int n => Text.ofInt n
      | float x => Number.toText false x
      | string t => Text.quoted t
      | bytes t => quotedBytes t
      | tuple items =>
          let shown := items.map (shownAt s depth path)
          text "(" ++ commas shown ++ (if items.length = 1 then text ",)" else text ")")
      | range a b c => rangeText a b c
      | view .bytesElems t => quotedBytes t ++ viewSuffix .bytesElems
      | view w t => Text.quoted t ++ viewSuffix w
      | builtin f => text "<built-in function " ++ f.name ++ text ">"
      | list place =>
          let shown :=
            if path.contains place then [ellipsis]
            else (s.listAt place).toList.map (shownAt s depth (place :: path))
          text "[" ++ commas shown ++ text "]"
      | dict place =>
          let shown :=
            if path.contains place then [ellipsis]
            else (s.dictAt place).pairs.map fun (k, v) =>
              shownAt s depth path k ++ text ": " ++ shownAt s depth (place :: path) v
          text "\x7b" ++ commas shown ++ text "\x7d"
      | function place => text "<function " ++ s.nameAt place ++ text ">"
      | method place =>
          match s.objects[place]? with
          | some (.method receiver m) =>
              text "<built-in method " ++ m.name ++ text " of " ++ receiver.kind
                ++ text " value>"
          | _ => []

def shownDepth : Nat := 1000000

def shown (s : Store) (v : Value) : Text := shownAt s shownDepth [] v

/-- A string as it is, and any other value as it is written. -/
def plain (s : Store) : Value → Text
  | string t => t
  | v => v.shown s

end Value

namespace Template

def conversion? (s : Store) (letter : UInt8) (v : Value) : Option Text :=
  if letter = byte 's' then some (v.plain s)
  else if letter = byte 'r' then some (v.shown s)
  else if letter = byte 'd' || letter = byte 'i' then v.toInt?.map Text.ofInt
  else if letter = byte 'o' then v.toInt?.map (Text.signed (Text.digits 8))
  else if letter = byte 'x' then v.toInt?.map (Text.signed Text.hex)
  else if letter = byte 'X' then v.toInt?.map fun n => Text.upper (Text.signed Text.hex n)
  else if letter = byte 'c' then
    match v with
    | .int n => if 0 ≤ n && n ≤ 0x10FFFF then some (Text.encode n.toNat) else none
    | .string t => if (Text.chars t).length = 1 then some (Text.repaired t) else none
    | _ => none
  else if letter = byte '%' then some (text "%")
  else
    match v with
    | .float x => floatConversion? letter x
    | .int n =>
        floatConversion? letter ((Number.ofInt? n).getD
          (if n < 0 then -Number.infinity else Number.infinity))
    | _ => none
where
  floatConversion? (letter : UInt8) (x : Float) : Option Text :=
    if letter = byte 'e' then some (Number.toScientific false x)
    else if letter = byte 'E' then some (Number.toScientific true x)
    else if letter = byte 'f' then some (Number.toFixed x)
    else if letter = byte 'F' then
      some (if (Number.magnitude? x).isSome then text "%F" else Number.special x)
    else if letter = byte 'g' then some (Number.toText false x)
    else if letter = byte 'G' then some (Number.toText true x)
    else none

/-- The value for a place, and the rest of the template: a value by the name in brackets after the
percent sign, or the next one in turn. -/
def argument? (s : Store) (v : Value) (turn : Nat) (t : Text) : Option (Value × Text) :=
  match t with
  | 0x28 :: body =>
      match Text.cut? (byte ')') body, v with
      | some (name, rest), .dict place =>
          match (s.dictAt place).get? s (.string name) with
          | some (some a) => some (a, rest)
          | _ => none
      | _, _ => none
  | t =>
      match v with
      | .tuple items => items[turn]?.map (·, t)
      | v => if turn = 0 then some (v, t) else none

/-- Whether a value has nothing left to fill in after `turn` places. A dictionary never has. -/
def isSpent (v : Value) (turn : Nat) : Bool :=
  match v with
  | .tuple items => items.length ≤ turn
  | .dict _ => true
  | _ => 1 ≤ turn

/-- Fills the rest of a template, in which `turn` places are filled; every round reads some of it,
so its length bounds the rounds. -/
def interpolateFrom? (s : Store) (v : Value) : Nat → Nat → Text → Option Text
  | 0, _, _ => none
  | fuel + 1, turn, t =>
      match t with
      | 0x25 :: 0x25 :: rest => (interpolateFrom? s v fuel turn rest).map (byte '%' :: ·)
      | 0x25 :: rest =>
          match argument? s v turn rest with
          | some (a, letter :: rest) =>
              match conversion? s letter a with
              | some shown => (interpolateFrom? s v fuel (turn + 1) rest).map (shown ++ ·)
              | none => none
          | _ => none
      | b :: rest => (interpolateFrom? s v fuel turn rest).map (b :: ·)
      | [] => if isSpent v turn then some [] else none

/-- Fills a template with the items of a tuple, the entries of a dictionary, or one value. -/
def interpolate? (s : Store) (t : Text) (v : Value) : Option Text :=
  interpolateFrom? s v (t.length + 1) 0 t

/-- How places choose their values: in turn, or by number. -/
inductive Numbering where
  | open_
  | inTurn (next : Nat)
  | byNumber

/-- The number that is the name of a place, counted in 64 bits with sign. It may wrap around, but
not to a negative number on the way. -/
def number? (name : Text) : Option Nat :=
  name.foldlM
    (fun (n : Nat) b =>
      if Text.isDigit b then
        let n := Value.wrap64 (n * 10 + (b - byte '0').toNat)
        if n < 0 then none else some n.toNat
      else none)
    0

def choose? (args : List Value) (named : List (Text × Value)) (n : Numbering) (name : Text) :
    Option (Value × Numbering) :=
  if name.isEmpty then
    match n with
    | .byNumber => none
    | .open_ => args[0]?.map (·, .inTurn 1)
    | .inTurn next => args[next]?.map (·, .inTurn (next + 1))
  else
    match number? name, n with
    | some _, .inTurn _ => none
    | some i, _ => args[i]?.map (·, .byNumber)
    | none, n => (named.lookup name).map (·, n)

/-- The name and the conversion of a place, if nothing else is asked for. -/
def field? (t : Text) : Option (Text × Text) :=
  match Text.cut? (byte '!') t with
  | none =>
      match Text.cut? (byte ':') t with
      | none => some (t, text "s")
      | some (name, spec) => if spec.isEmpty then some (name, text "s") else none
  | some (name, rest) =>
      match Text.cut? (byte ':') rest with
      | none => some (name, rest)
      | some (conversion, spec) => if spec.isEmpty then some (name, conversion) else none

/-- Fills the rest of a template; every round reads some of it. -/
def formatFrom? (s : Store) (args : List Value) (named : List (Text × Value)) :
    Nat → Numbering → Text → Option Text
  | 0, _, _ => none
  | fuel + 1, n, t =>
      match t with
      | 0x7B :: 0x7B :: rest => (formatFrom? s args named fuel n rest).map (0x7B :: ·)
      | 0x7D :: 0x7D :: rest => (formatFrom? s args named fuel n rest).map (0x7D :: ·)
      | 0x7D :: _ => none
      | 0x7B :: rest => do
          let (inner, rest) ← Text.cut? 0x7D rest
          let (name, conversion) ← field? inner
          let (v, n) ← choose? args named n name
          let shown ←
            if conversion = text "s" then some (v.plain s)
            else if conversion = text "r" then some (v.shown s)
            else none
          let below ← formatFrom? s args named fuel n rest
          return shown ++ below
      | b :: rest => (formatFrom? s args named fuel n rest).map (b :: ·)
      | [] => some []

def format? (s : Store) (t : Text) (args : List Value) (named : List (Text × Value)) :
    Option Text :=
  formatFrom? s args named (t.length + 1) .open_ t

end Template

end TapeMachine.Expression
